import Recompile.Build.Inventory
import Recompile.Build.Ledger
import Recompile.Surface.Compatibility
import Recompile.Surface.Usage

/-!
# Compiling what changed

The sources that changed are compiled first. The surfaces of the classes that
they lost or produced are then compared with those from before, and the direct
dependants of the classes that changed incompatibly are compiled. That is done
once: changes of their own surfaces are not followed further. When a constant
that may have been copied has changed or gone, only a full build is safe.
-/

namespace Recompile
namespace Build

variable {m : Type → Type} [Monad m]

def changeLevels (before after : Snapshot) (affected : ClassSet) :
    List (ClassName × Compatibility) :=
  affected.toList.map fun name =>
    (name, Compatibility.between before (before.get? name) (after.get? name))

/-- The classes that depend on one of the given ones and are not affected themselves. -/
def dependantClasses (usage : Usage) (affected : ClassSet) (changed : List ClassName) :
    List ClassName :=
  (changed.flatMap fun name => (usage.usersOf name).all).filter fun dependant =>
    !affected.contains dependant

/-- The statuses of two batches, the first one's before those of the second. -/
def mergeStatuses (earlier later : Std.ExtTreeMap String SourceStatus) :
    Std.ExtTreeMap String SourceStatus :=
  later.toList.foldl
    (fun known (source, status) =>
      known.insert source
        (match known[source]? with
        | some previous => previous.merge status
        | none => status))
    earlier

def finish (services : Services m) (project : Project) (before : Snapshot)
    (ledger : Ledger) (statuses : Std.ExtTreeMap String SourceStatus) (success : Bool)
    (dependants : SourceSet) : Step m Draft := do
  if dependants.isEmpty then
    return ⟨.incremental, ledger.ownership, statuses, dependants, success⟩
  let batch := dependants.toList
  let outcome ← compileBatch services project before ledger.ownership batch
  let ledger ← registerProduced services project ledger outcome.produced.toList
  return {
    mode := .incremental
    ownership := ledger.ownership
    statuses := mergeStatuses statuses (outcome.statuses batch)
    dependants := dependants
    success := success && outcome.success
  }

/-!
# Stages

What removed sources owned goes first. Then the sources that changed are
compiled, what they produced is reviewed, and the review tells which sources
depend on it. The last stage compiles those.
-/

def openLedger (services : Services m) (project : Project) (changes : SourceChanges)
    (ownership : Ownership) : Step m (Snapshot × Ledger) := do
  let before ← perform (Inventory.take services.host project.destination)
  let ledger ← removeSources services project ⟨ownership, ∅, ∅⟩ changes.removed.toList
  return (before, ledger)

def reviewProduced (services : Services m) (project : Project) (ledger : Ledger)
    (outcome : Outcome) : Step m (Ledger × Snapshot) := do
  let ledger ← registerProduced services project ledger outcome.produced.toList
  let after ← perform (Inventory.take services.host project.destination)
  return (ledger, after)

/-- The sources to compile once more; `none` when only a full build is safe. -/
def dependantSources (before after : Snapshot) (ledger : Ledger) :
    Except Failure (Option SourceSet) := do
  let levels := changeLevels before after ledger.affected
  if levels.any fun (_, level) => level = .globallyIncompatible then
    return none
  let changed := (levels.filter fun (_, level) => level = .incompatible).map Prod.fst
  let sources ←
    (dependantClasses (Usage.ofSnapshot after) ledger.affected changed).mapM
      ledger.ownership.sourceOf
  return some (Std.ExtTreeSet.ofList sources)

def followUp (services : Services m) (project : Project) (changes : SourceChanges)
    (before : Snapshot) (ledger : Ledger) (outcome : Outcome) : Step m (Option Draft) := do
  let (ledger, after) ← reviewProduced services project ledger outcome
  match ← ExceptT.mk (pure (dependantSources before after ledger)) with
  | none => return none
  | some dependants =>
    let draft ←
      finish services project before ledger (outcome.statuses changes.stale) outcome.success
        dependants
    return some draft

/-- Compiles what changed; `none` when only a full build is safe. -/
def compileChanges (services : Services m) (project : Project) (changes : SourceChanges)
    (ownership : Ownership) : Step m (Option Draft) := do
  let (before, ledger) ← openLedger services project changes ownership
  let outcome ← compileBatch services project before ledger.ownership changes.stale
  followUp services project changes before ledger outcome

end Build
end Recompile
