import Recompile.Build.Run
import Recompile.Proofs.Build.Contract
import Recompile.Proofs.Build.Ledger

/-!
# What the steps of a build maintain

An attempt is put together from few kinds of steps: it takes snapshots, backs
up and deletes class files, and compiles batches whose new class files it
notes. What each of them keeps is kept by the whole attempt. The one failure
that is not a failure of these steps is that of a review.
-/

namespace Recompile
namespace Build

variable {σ α β γ : Type}

/-- Whether a step keeps a property of progress and surroundings and fails in certain ways only. -/
def Step.Maintains (keeps : Progress → σ → Prop) (fails : Failure → Prop)
    (step : Step (StateM σ) α) : Prop :=
  ∀ progress world, keeps progress world →
    keeps (step.runFrom progress world).2.1 (step.runFrom progress world).2.2 ∧
      ∀ error, (step.runFrom progress world).1 = .error error → fails error

namespace Step

variable {keeps : Progress → σ → Prop} {fails : Failure → Prop}

theorem Maintains.of_runFrom {step : Step (StateM σ) α} {progress progress' : Progress}
    {world world' : σ} {result : Except Failure α} (h : step.Maintains keeps fails)
    (hkeeps : keeps progress world)
    (hrun : step.runFrom progress world = (result, progress', world')) :
    keeps progress' world' ∧ ∀ error, result = .error error → fails error := by
  have hmaintained := h progress world hkeeps
  rw [hrun] at hmaintained
  exact hmaintained

theorem maintains_pure (value : α) :
    Step.Maintains keeps fails (pure value : Step (StateM σ) α) :=
  fun _ _ hkeeps => ⟨hkeeps, nofun⟩

def Yields (step : Step (StateM σ) α) (value : α) : Prop :=
  ∃ progress world progress' world', step.runFrom progress world = (.ok value, progress', world')

theorem Maintains.bindYields {step : Step (StateM σ) α} {next : α → Step (StateM σ) β}
    (hfirst : step.Maintains keeps fails)
    (hnext : ∀ value, step.Yields value → (next value).Maintains keeps fails) :
    (step >>= next).Maintains keeps fails := by
  intro progress world hkeeps
  have hmaintained := hfirst progress world hkeeps
  rw [runFrom_bind]
  rcases hrun : step.runFrom progress world with ⟨result, middle, between⟩
  rw [hrun] at hmaintained
  cases result with
  | ok value => exact hnext value ⟨_, _, _, _, hrun⟩ middle between hmaintained.1
  | error error =>
      constructor
      · exact hmaintained.1
      · intro found hfound
        cases hfound
        exact hmaintained.2 error rfl

theorem Maintains.bind {step : Step (StateM σ) α} {next : α → Step (StateM σ) β}
    (hfirst : step.Maintains keeps fails) (hnext : ∀ value, (next value).Maintains keeps fails) :
    (step >>= next).Maintains keeps fails :=
  hfirst.bindYields fun value _ => hnext value

theorem maintains_forM {act : γ → Step (StateM σ) PUnit} (items : List γ)
    (h : ∀ item ∈ items, (act item).Maintains keeps fails) :
    (items.forM act).Maintains keeps fails := by
  induction items with
  | nil => exact maintains_pure _
  | cons item rest ih =>
      have hrest := ih fun other hother => h other (List.mem_cons_of_mem _ hother)
      exact (h item List.mem_cons_self).bind fun _ => hrest

end Step

/-!
# Registers through an attempt
-/

section Registers

variable {services : Services (StateM σ)} {project : Project} {progress progress' : Progress}
  {world world' : σ} {ledger ledger' : Ledger}

theorem taken_of_openLedger {changes : SourceChanges} {register : Ownership}
    {before : Snapshot}
    (hrun : (openLedger services project changes register).runFrom progress world =
      (.ok (before, ledger), progress', world')) :
    ∃ between, runIn (Inventory.take services.host project.destination) world =
        (.ok before, between) ∧
      (removeSources services project ⟨register, ∅, ∅⟩ changes.removed.toList).runFrom
        progress between = (.ok ledger, progress', world') := by
  unfold openLedger at hrun
  rcases Step.ok_of_runFrom_bind hrun with ⟨taken, _, between, htaken, hrest⟩
  rcases Step.ok_of_runFrom_bind hrest with ⟨removed, _, _, hremoved, hdone⟩
  rw [Step.runFrom_pure] at hdone
  cases hdone
  obtain ⟨rfl, hlooked⟩ := Step.of_runFrom_perform htaken
  exact ⟨between, hlooked, hremoved⟩

theorem removed_of_openLedger {changes : SourceChanges} {register : Ownership}
    {before : Snapshot}
    (hrun : (openLedger services project changes register).runFrom progress world =
      (.ok (before, ledger), progress', world')) :
    Ledger.Removed ⟨register, ∅, ∅⟩ changes.removed.toList ledger := by
  rcases taken_of_openLedger hrun with ⟨_, _, hremoved⟩
  exact removed_of_runFrom hremoved

theorem registered_of_reviewProduced {outcome : Outcome} {after : Snapshot}
    (hrun : (reviewProduced services project ledger outcome).runFrom progress world =
      (.ok (ledger', after), progress', world')) :
    ∃ between,
      (registerProduced services project ledger outcome.produced.toList).runFrom progress world =
        (.ok ledger', progress', between) ∧
      runIn (Inventory.take services.host project.destination) between = (.ok after, world') := by
  unfold reviewProduced at hrun
  rcases Step.ok_of_runFrom_bind hrun with ⟨_, _, between, hregister, hrest⟩
  rcases Step.ok_of_runFrom_bind hrest with ⟨_, _, _, htaken, hdone⟩
  cases hdone
  rcases Step.of_runFrom_perform htaken with ⟨rfl, hlooked⟩
  exact ⟨between, hregister, hlooked⟩

theorem entered_of_reviewProduced {outcome : Outcome} {after : Snapshot}
    (hrun : (reviewProduced services project ledger outcome).runFrom progress world =
      (.ok (ledger', after), progress', world')) :
    ledger.Entered outcome.produced.toList ledger' := by
  rcases registered_of_reviewProduced hrun with ⟨_, hregister, _⟩
  exact entered_of_runFrom hregister

end Registers

/-!
# Attempts
-/

/--
Whether the single steps of an attempt, which knows what was there before, keep
a property, as far as the names are of one kind. The compiler lists no others.
-/
structure Works (services : Services (StateM σ)) (project : Project) (before : Snapshot)
    (names : ClassName → Prop) (keeps : Progress → σ → Prop) (fails : Failure → Prop) :
    Prop where
  take : Step.Maintains keeps fails (perform (Inventory.take services.host project.destination))
  backUpFile : ∀ name, names name →
    (backUpFile services (classFileIn project.destination name)).Maintains keeps fails
  deleteFile : ∀ name, names name → Step.Maintains keeps fails
    (perform (Backup.removeIfThere services.host (classFileIn project.destination name)))
  compileNoting : ∀ sources, Step.Maintains keeps fails (do
    let outcome ← compile services project sources
    modifyBackup fun backup => backup.noteProduced project.destination before outcome
    return outcome)
  listed : ∀ {sources world outcome world'},
    runIn (services.compile (project.batch sources)) world = (.ok outcome, world') →
      ∀ name ∈ outcome.classes, names name

variable {services : Services (StateM σ)} {project : Project}

namespace Works

variable {before : Snapshot} {names : ClassName → Prop} {keeps : Progress → σ → Prop}
  {fails : Failure → Prop} (h : Works services project before names keeps fails)
include h

theorem backUp {classes : ClassSet} (hclasses : ∀ name ∈ classes, names name) :
    (backUp services project classes).Maintains keeps fails := by
  apply Step.maintains_forM
  intro name hname
  exact h.backUpFile name (hclasses name (Std.ExtTreeSet.mem_toList.mp hname))

theorem backUpOwned {ownership : Ownership} (hholds : ownership.HoldsOnly names)
    (sources : List String) :
    (backUpOwned services project ownership sources).Maintains keeps fails := by
  apply Step.maintains_forM
  intro source _
  cases hclasses : ownership.classesOf? source with
  | none => exact Step.maintains_pure ()
  | some classes => exact h.backUp fun name hname => hholds ⟨classes, hclasses, hname⟩

theorem deleteClassFiles {classes : ClassSet} (hclasses : ∀ name ∈ classes, names name) :
    (deleteClassFiles services project classes).Maintains keeps fails := by
  apply Step.maintains_forM
  intro name hname
  exact h.deleteFile name (hclasses name (Std.ExtTreeSet.mem_toList.mp hname))

theorem compileBatch {ownership : Ownership} (hholds : ownership.HoldsOnly names)
    (sources : List String) :
    (compileBatch services project before ownership sources).Maintains keeps fails :=
  (h.backUpOwned hholds sources).bind fun _ => h.compileNoting sources

theorem listed_of_compileBatch {ownership : Ownership} {sources : List String} {outcome : Outcome}
    (hyields :
      (Build.compileBatch services project before ownership sources).Yields outcome) :
    ∀ entry ∈ outcome.produced.toList, ∀ name ∈ entry.2, names name := by
  rcases hyields with ⟨_, _, _, _, hrun⟩
  intro entry hentry name hname
  have hmem : name ∈ outcome.classes := mem_classes.mpr ⟨entry, hentry, hname⟩
  rcases called_of_compileBatch hrun with rfl | ⟨_, hcall⟩
  · simp [Outcome.classes, Outcome.nothing] at hmem
  · exact h.listed hcall name hmem

theorem removeSources (sources : List String) {ledger : Ledger}
    (hholds : ledger.ownership.HoldsOnly names) :
    (removeSources services project ledger sources).Maintains keeps fails := by
  induction sources generalizing ledger with
  | nil => exact Step.maintains_pure ledger
  | cons source rest ih =>
      have howned : ∀ name ∈ (ledger.ownership.remove source).1, names name :=
        fun name hname => hholds (Ownership.mem_fst_remove.mp hname)
      refine (h.backUp howned).bind fun _ => ?_
      exact (h.deleteClassFiles howned).bind fun _ => ih (hholds.remove source)

theorem openLedger (changes : SourceChanges) {register : Ownership}
    (hholds : register.HoldsOnly names) :
    (openLedger services project changes register).Maintains keeps fails := by
  refine h.take.bind fun _ => ?_
  exact (h.removeSources _ hholds).bind fun _ => Step.maintains_pure _

theorem registerProduced {ledger : Ledger} (hholds : ledger.ownership.HoldsOnly names)
    {entries : List (String × ClassSet)}
    (hentries : ∀ entry ∈ entries, ∀ name ∈ entry.2, names name) :
    (registerProduced services project ledger entries).Maintains keeps fails := by
  induction entries generalizing ledger with
  | nil => exact Step.maintains_pure ledger
  | cons entry rest ih =>
      have horphans : ∀ name ∈ (ledger.ownership.register entry.1 entry.2).1, names name :=
        fun name hname => hholds (Ownership.owns_of_mem_fst_register hname)
      have hregistered := hholds.register (hentries entry List.mem_cons_self) entry.1
      refine (h.deleteClassFiles horphans).bind fun _ => ih hregistered ?_
      exact fun other hother => hentries other (List.mem_cons_of_mem _ hother)

theorem reviewProduced {ledger : Ledger} (hholds : ledger.ownership.HoldsOnly names)
    {outcome : Outcome}
    (hlisted : ∀ entry ∈ outcome.produced.toList, ∀ name ∈ entry.2, names name) :
    (reviewProduced services project ledger outcome).Maintains keeps fails := by
  refine (h.registerProduced hholds hlisted).bind fun _ => ?_
  exact h.take.bind fun _ => Step.maintains_pure _

theorem finish {ledger : Ledger} (hholds : ledger.ownership.HoldsOnly names)
    (statuses : Std.ExtTreeMap String SourceStatus) (success : Bool) (dependants : SourceSet) :
    (finish services project before ledger statuses success dependants).Maintains keeps
      fails := by
  unfold Build.finish
  by_cases hnone : dependants.isEmpty = true
  · rw [if_pos hnone]
    exact Step.maintains_pure _
  · rw [if_neg hnone]
    refine (h.compileBatch hholds _).bindYields fun outcome hyields => ?_
    have hentered := h.registerProduced hholds (h.listed_of_compileBatch hyields)
    exact hentered.bind fun _ => Step.maintains_pure _

theorem followUp
    (hdepends : ∀ after ledger error,
      dependantSources before after ledger = .error error → fails error)
    (changes : SourceChanges) {ledger : Ledger} (hholds : ledger.ownership.HoldsOnly names)
    {outcome : Outcome}
    (hlisted : ∀ entry ∈ outcome.produced.toList, ∀ name ∈ entry.2, names name) :
    (followUp services project changes before ledger outcome).Maintains keeps fails := by
  refine (h.reviewProduced hholds hlisted).bindYields ?_
  rintro ⟨reviewed, after⟩ ⟨_, _, _, _, hreviewed⟩
  refine Step.Maintains.bind ?_ fun dependants => ?_
  · intro progress world hkeeps
    exact ⟨hkeeps, fun error => hdepends after reviewed error⟩
  · cases dependants with
    | none => exact Step.maintains_pure _
    | some dependants =>
        have hentered := (entered_of_reviewProduced hreviewed).holdsOnly hholds hlisted
        exact (h.finish hentered _ _ _).bind fun _ => Step.maintains_pure _

end Works

/-!
# Two ways to cut an attempt

The first snapshot is not a part of what follows it, which may rely on it. Up to
the review an attempt fails in the ways of its steps only.
-/

section Cuts

variable {m : Type → Type} [Monad m]

def proceed (services : Services m) (project : Project) (changes : SourceChanges)
    (register : Ownership) (before : Snapshot) : Step m (Option Draft) := do
  let ledger ← removeSources services project ⟨register, ∅, ∅⟩ changes.removed.toList
  let outcome ← compileBatch services project before ledger.ownership changes.stale
  followUp services project changes before ledger outcome

structure Reviewed where
  before : Snapshot
  outcome : Outcome
  ledger : Ledger
  after : Snapshot

def review (services : Services m) (project : Project) (changes : SourceChanges)
    (register : Ownership) : Step m Reviewed := do
  let (before, ledger) ← openLedger services project changes register
  let outcome ← compileBatch services project before ledger.ownership changes.stale
  let (ledger, after) ← reviewProduced services project ledger outcome
  return ⟨before, outcome, ledger, after⟩

end Cuts

variable {changes : SourceChanges} {register : Ownership}

theorem stages_of_review {progress progress' : Progress} {world world' : σ} {reviewed : Reviewed}
    (hrun : (review services project changes register).runFrom progress world =
      (.ok reviewed, progress', world')) :
    ∃ opened middle between later left,
      (openLedger services project changes register).runFrom progress world =
        (.ok (reviewed.before, opened), middle, between) ∧
      (compileBatch services project reviewed.before opened.ownership changes.stale).runFrom
        middle between = (.ok reviewed.outcome, later, left) ∧
      (reviewProduced services project opened reviewed.outcome).runFrom later left =
        (.ok (reviewed.ledger, reviewed.after), progress', world') := by
  unfold review at hrun
  rcases Step.ok_of_runFrom_bind hrun with ⟨⟨before, opened⟩, _, _, hopens, hrest⟩
  rcases Step.ok_of_runFrom_bind hrest with ⟨outcome, _, _, hcompiles, hrest⟩
  rcases Step.ok_of_runFrom_bind hrest with ⟨⟨entered, after⟩, _, _, hreviews, hdone⟩
  cases hdone
  exact ⟨opened, _, _, _, _, hopens, hcompiles, hreviews⟩

theorem holdsOnly_of_review {names : ClassName → Prop} {keeps : Progress → σ → Prop}
    {fails : Failure → Prop} (h : ∀ before, Works services project before names keeps fails)
    (hholds : register.HoldsOnly names) {progress progress' : Progress} {world world' : σ}
    {reviewed : Reviewed}
    (hrun : (review services project changes register).runFrom progress world =
      (.ok reviewed, progress', world')) : reviewed.ledger.ownership.HoldsOnly names := by
  rcases stages_of_review hrun with ⟨opened, _, _, _, _, hopens, hcompiles, hreviews⟩
  have hleft : opened.ownership.HoldsOnly names := (removed_of_openLedger hopens).holdsOnly hholds
  refine (entered_of_reviewProduced hreviews).holdsOnly hleft ?_
  exact (h reviewed.before).listed_of_compileBatch ⟨_, _, _, _, hcompiles⟩

theorem runFrom_compileChanges (progress : Progress) (world : σ) :
    (compileChanges services project changes register).runFrom progress world =
      match runIn (Inventory.take services.host project.destination) world with
      | (.ok before, between) =>
        (proceed services project changes register before).runFrom progress between
      | (.error error, left) => (.error error, progress, left) := by
  unfold compileChanges openLedger proceed
  rw [Step.runFrom_bind, Step.runFrom_bind, Step.runFrom_perform]
  rcases runIn (Inventory.take services.host project.destination) world with ⟨taken, between⟩
  cases taken with
  | error error => rfl
  | ok before =>
      simp only [Step.runFrom_bind]
      rcases (removeSources services project ⟨register, ∅, ∅⟩ changes.removed.toList).runFrom
        progress between with ⟨removed, middle, left⟩
      cases removed with
      | error error => rfl
      | ok ledger => rfl

theorem compileChanges_eq_review_bind :
    compileChanges services project changes register = (do
      let reviewed ← review services project changes register
      match ← ExceptT.mk (pure (dependantSources reviewed.before reviewed.after
        reviewed.ledger)) with
      | none => return none
      | some dependants => do
        let draft ← finish services project reviewed.before reviewed.ledger
          (reviewed.outcome.statuses changes.stale) reviewed.outcome.success dependants
        return some draft) := by
  unfold compileChanges review followUp
  rw [bind_assoc]
  refine bind_congr fun ⟨before, opened⟩ => ?_
  rw [bind_assoc]
  refine bind_congr fun outcome => ?_
  rw [bind_assoc]
  refine bind_congr fun ⟨ledger, after⟩ => ?_
  exact (pure_bind _ _).symm

section Whole

variable {names : ClassName → Prop} {keeps : Progress → σ → Prop} {fails : Failure → Prop}

theorem Works.proceed {before : Snapshot} (h : Works services project before names keeps fails)
    (hdepends : ∀ after ledger error,
      dependantSources before after ledger = .error error → fails error)
    (hholds : register.HoldsOnly names) :
    (proceed services project changes register before).Maintains keeps fails := by
  refine (h.removeSources _ hholds).bindYields fun ledger hremoves => ?_
  rcases hremoves with ⟨_, _, _, _, hremoved⟩
  have hleft : ledger.ownership.HoldsOnly names := (removed_of_runFrom hremoved).holdsOnly hholds
  refine (h.compileBatch hleft _).bindYields fun outcome hyields => ?_
  exact h.followUp hdepends changes hleft (h.listed_of_compileBatch hyields)

theorem maintains_compileChanges
    (h : ∀ before, Works services project before names keeps fails)
    (hdepends : ∀ before after ledger error,
      dependantSources before after ledger = .error error → fails error)
    (changes : SourceChanges) (hholds : register.HoldsOnly names) :
    (compileChanges services project changes register).Maintains keeps fails := by
  intro progress world hkeeps
  have htaken := (h ⟨∅⟩).take progress world hkeeps
  rw [Step.runFrom_perform] at htaken
  rw [runFrom_compileChanges]
  rcases htake : runIn (Inventory.take services.host project.destination) world with
    ⟨taken, between⟩
  rw [htake] at htaken
  cases taken with
  | error error =>
      refine ⟨htaken.1, ?_⟩
      intro found hfound
      cases hfound
      exact htaken.2 error rfl
  | ok before => exact (h before).proceed (hdepends before) hholds progress between htaken.1

theorem maintains_review (h : ∀ before, Works services project before names keeps fails)
    (hholds : register.HoldsOnly names) :
    (review services project changes register).Maintains keeps fails := by
  refine ((h ⟨∅⟩).openLedger changes hholds).bindYields ?_
  rintro ⟨before, opened⟩ ⟨_, _, _, _, hopens⟩
  have hleft := (removed_of_openLedger hopens).holdsOnly hholds
  refine ((h before).compileBatch hleft _).bindYields fun outcome hyields => ?_
  have hlisted := (h before).listed_of_compileBatch hyields
  exact ((h before).reviewProduced hleft hlisted).bind fun _ => Step.maintains_pure _

end Whole

section Ending

variable {progress progress' : Progress} {world world' : σ} {reviewed : Reviewed}
  {error : Failure}

theorem reviewed_of_ok {attempt : Option Draft}
    (hrun : (compileChanges services project changes register).runFrom progress world =
      (.ok attempt, progress', world')) :
    ∃ reviewed middle between dependants,
      (review services project changes register).runFrom progress world =
        (.ok reviewed, middle, between) ∧
      dependantSources reviewed.before reviewed.after reviewed.ledger = .ok dependants ∧
      (attempt = none ↔ dependants = none) ∧ (attempt = none → world' = between) := by
  rw [compileChanges_eq_review_bind] at hrun
  rcases Step.ok_of_runFrom_bind hrun with ⟨reviewed, middle, between, hreview, hrest⟩
  refine ⟨reviewed, middle, between, ?_⟩
  rcases Step.ok_of_runFrom_bind hrest with ⟨dependants, _, _, hdepends, hfinish⟩
  rw [Step.runFrom_except, Prod.mk.injEq, Prod.mk.injEq] at hdepends
  refine ⟨dependants, hreview, hdepends.1, ?_⟩
  cases dependants with
  | none =>
      cases hfinish
      exact ⟨iff_of_true rfl rfl, fun _ => hdepends.2.2.symm⟩
  | some sources =>
      rcases Step.ok_of_runFrom_bind hfinish with ⟨draft, _, _, _, hdone⟩
      cases hdone
      exact ⟨iff_of_false nofun nofun, nofun⟩

theorem reviewed_of_failed {names : ClassName → Prop} {keeps : Progress → σ → Prop}
    {fails : Failure → Prop} (h : ∀ before, Works services project before names keeps fails)
    (hholds : register.HoldsOnly names) (hkeeps : keeps progress world)
    (hrun : (compileChanges services project changes register).runFrom progress world =
      (.error error, progress', world')) (hother : ¬fails error) :
    ∃ reviewed,
      (review services project changes register).runFrom progress world =
        (.ok reviewed, progress', world') ∧
      dependantSources reviewed.before reviewed.after reviewed.ledger = .error error := by
  rw [compileChanges_eq_review_bind] at hrun
  rcases Step.of_runFrom_bind hrun with
    ⟨reviewed, middle, left, hreview, hrest⟩ | ⟨_, hfailed, herror⟩
  · simp only [Step.runFrom_bind, Step.runFrom_except] at hrest
    cases hdepends : dependantSources reviewed.before reviewed.after reviewed.ledger with
    | error found =>
        rw [hdepends] at hrest
        cases hrest
        exact ⟨reviewed, hreview, hdepends⟩
    | ok dependants =>
        rw [hdepends] at hrest
        cases dependants with
        | none => cases hrest
        | some dependants =>
            rcases Step.of_runFrom_bind hrest with ⟨_, _, _, _, hdone⟩ | ⟨_, hfinish, herror⟩
            · cases hdone
            · cases herror
              have hreviewed := ((maintains_review h hholds).of_runFrom hkeeps hreview).1
              have hledger := holdsOnly_of_review h hholds hreview
              have hfinished := ((h reviewed.before).finish hledger _ _ _).of_runFrom
                hreviewed hfinish
              exact absurd (hfinished.2 error rfl) hother
  · cases herror
    exact absurd (((maintains_review h hholds).of_runFrom hkeeps hfailed).2 error rfl) hother

theorem failed_of_reviewed
    (hreview : (review services project changes register).runFrom progress world =
      (.ok reviewed, progress', world'))
    (hdepends : dependantSources reviewed.before reviewed.after reviewed.ledger = .error error) :
    (compileChanges services project changes register).runFrom progress world =
      (.error error, progress', world') := by
  rw [compileChanges_eq_review_bind, Step.runFrom_bind, hreview]
  simp only
  rw [Step.runFrom_bind, Step.runFrom_except, hdepends]

end Ending

/-!
# Full builds

The sources that are compiled are those that the survey saw when it looked.
-/

theorem runFrom_compileAll {progress : Progress} {observation : Observation}
    (hseen : progress.survey.observation = some observation) (world : σ) :
    (compileAll services project).runFrom progress world =
      match (compile services project observation.fingerprints.keys).runFrom progress world with
      | (.ok outcome, progress, world) =>
        (.ok {
          mode := .cold
          ownership := freshOwnership outcome
          statuses := outcome.statuses observation.fingerprints.keys
          dependants := ∅
          success := outcome.success }, progress, world)
      | (.error error, progress, world) => (.error error, progress, world) := by
  have hsources : runIn (progress.survey.sources services.host) world =
      (.ok (observation.fingerprints.keys, progress.survey), world) := by
    unfold Survey.sources Survey.observe
    rw [hseen]
    rfl
  unfold compileAll compileSurveyed
  simp only [Step.runFrom_bind, Step.runFrom_get, Step.runFrom_perform, hsources,
    Step.runFrom_modify]
  rcases (compile services project observation.fingerprints.keys).runFrom progress world with
    ⟨compiled, middle, left⟩
  cases compiled with
  | error error => rfl
  | ok outcome => rfl

theorem maintains_compileAll {keeps : Progress → σ → Prop} {fails : Failure → Prop}
    {observation : Observation}
    (hseen : ∀ progress world, keeps progress world →
      progress.survey.observation = some observation)
    (hcompile : ∀ sources, (compile services project sources).Maintains keeps fails) :
    (compileAll services project).Maintains keeps fails := by
  intro progress world hkeeps
  rw [runFrom_compileAll (hseen progress world hkeeps)]
  rcases hrun : (compile services project observation.fingerprints.keys).runFrom progress
    world with ⟨compiled, middle, left⟩
  have hcompiled := (hcompile _).of_runFrom hkeeps hrun
  cases compiled with
  | error error =>
      refine ⟨hcompiled.1, ?_⟩
      intro found hfound
      cases hfound
      exact hcompiled.2 error rfl
  | ok outcome => exact ⟨hcompiled.1, nofun⟩

theorem maintains_compileNeeded {keeps : Progress → σ → Prop} {fails : Failure → Prop}
    (hload : Step.Maintains keeps fails (perform services.ownership.load))
    (hchanges : ∀ register,
      (compileChanges services project changes register).Maintains keeps fails)
    (hall : (compileAll services project).Maintains keeps fails) :
    (compileNeeded services project changes).Maintains keeps fails := by
  refine hload.bind fun stored => ?_
  cases stored with
  | none => exact hall
  | some register =>
      refine (hchanges register).bind fun attempt => ?_
      cases attempt with
      | none => exact hall
      | some draft => exact Step.maintains_pure draft

end Build
end Recompile
