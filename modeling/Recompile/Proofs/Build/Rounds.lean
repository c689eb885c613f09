import Recompile.Build.Run
import Recompile.Proofs.Build.Ledger

/-!
# The rounds of a build

A build deals with its sources in rounds. A round is a list of sources whose
class files are backed up first and which are then compiled together, and whose
produced classes are entered at last; removed sources make a round that compiles
nothing. Between rounds a build touches no class file.
-/

namespace Recompile
namespace Build

variable {σ : Type}

/--
A round that came to an outcome, with the register that it started from. The
classes from before the build are only known to rounds that compile a part of
the sources.
-/
structure Round (σ : Type) where
  before : Option Snapshot
  ownership : Ownership
  sources : List String
  outcome : Outcome
  /-- The surroundings once the compiler was done. -/
  world : σ
  /-- The surroundings once what it produced was entered, as far as that came. -/
  left : σ

namespace Round

/-- Whether a file is backed up for a round because one of its sources owns the class. -/
def guards (destination : Path) (round : Round σ) (key : FileKey) : Bool :=
  round.sources.any fun source =>
    match round.ownership.classesOf? source with
    | some classes => classes.toList.any fun name => fileKey destination name = key
    | none => false

/-- Whether a file is taken for a new one because its class was not there before the build. -/
def notes (destination : Path) (round : Round σ) (key : FileKey) : Bool :=
  match round.before with
  | some before =>
    round.outcome.classes.any fun name =>
      !before.contains name && fileKey destination name = key
  | none => false

theorem guards_iff {destination : Path} {round : Round σ} {key : FileKey} :
    round.guards destination key = true ↔
      key ∈ ownedKeys destination round.ownership round.sources := by
  unfold guards ownedKeys
  rw [List.any_eq_true]
  refine exists_congr fun source => and_congr_right fun _ => ?_
  cases round.ownership.classesOf? source with
  | none => simp
  | some classes => simp [mem_fileKeys, Std.ExtTreeSet.mem_toList]

theorem notes_iff {destination : Path} {before : Snapshot} {ownership : Ownership}
    {sources : List String} {outcome : Outcome} {world left : σ} {key : FileKey} :
    Round.notes destination ⟨some before, ownership, sources, outcome, world, left⟩ key = true ↔
      ∃ name ∈ outcome.classes,
        before.contains name = false ∧ fileKey destination name = key := by
  simp [notes]

end Round

/-!
# Which rounds a build goes through

Each stage is run from where the one before left off. A stage that fails adds
no round, and no stage after it is run.
-/

variable (services : Services (StateM σ)) (project : Project)

def batchRound (before : Snapshot) (ledger : Ledger) (sources : List String)
    (outcome : Outcome) (progress : Progress) (world : σ) : Round σ :=
  ⟨some before, ledger.ownership, sources, outcome, world,
    ((registerProduced services project ledger outcome.produced.toList).runFrom
      progress world).2.2⟩

def finishRounds (before : Snapshot) (ledger : Ledger) (dependants : SourceSet)
    (progress : Progress) (world : σ) : List (Round σ) :=
  if dependants.isEmpty then []
  else
    match (compileBatch services project before ledger.ownership dependants.toList).runFrom
      progress world with
    | (.ok outcome, progress, world) =>
      [batchRound services project before ledger dependants.toList outcome progress world]
    | (.error _, _, _) => []

def followRounds (before : Snapshot) (ledger : Ledger) (outcome : Outcome)
    (progress : Progress) (world : σ) : List (Round σ) :=
  match (reviewProduced services project ledger outcome).runFrom progress world with
  | (.error _, _, _) => []
  | (.ok (ledger, after), progress, world) =>
    match dependantSources before after ledger with
    | .ok (some dependants) =>
      finishRounds services project before ledger dependants progress world
    | _ => []

def staleRounds (changes : SourceChanges) (before : Snapshot) (ledger : Ledger)
    (progress : Progress) (world : σ) : List (Round σ) :=
  match (compileBatch services project before ledger.ownership changes.stale).runFrom
    progress world with
  | (.error _, _, _) => []
  | (.ok outcome, progress, world) =>
    batchRound services project before ledger changes.stale outcome progress world ::
      followRounds services project before ledger outcome progress world

def attemptRounds (changes : SourceChanges) (ownership : Ownership) (progress : Progress)
    (world : σ) : List (Round σ) :=
  match (openLedger services project changes ownership).runFrom progress world with
  | (.error _, _, _) => []
  | (.ok (before, ledger), progress, world) =>
    ⟨none, ownership, changes.removed.toList, .nothing, world, world⟩ ::
      staleRounds services project changes before ledger progress world

/-- The one round of a full build. Nobody owns a class at its start. -/
def fullRounds (progress : Progress) (world : σ) : List (Round σ) :=
  match (compileSurveyed services project).runFrom progress world with
  | (.ok (sources, outcome), _, world) => [⟨none, .empty, sources, outcome, world, world⟩]
  | (.error _, _, _) => []

def neededRounds (changes : SourceChanges) (progress : Progress) (world : σ) :
    List (Round σ) :=
  match (perform services.ownership.load).runFrom progress world with
  | (.error _, _, _) => []
  | (.ok none, progress, world) => fullRounds services project progress world
  | (.ok (some ownership), progress, world) =>
    attemptRounds services project changes ownership progress world ++
      match (compileChanges services project changes ownership).runFrom progress world with
      | (.ok none, progress, world) => fullRounds services project progress world
      | _ => []

end Build
end Recompile
