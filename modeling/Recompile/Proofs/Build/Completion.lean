import Recompile.Proofs.Build.Course
import Recompile.Proofs.Build.Maintaining

/-!
# Builds that come to a draft

A step that succeeds has succeeded in each of its parts. The parts of an attempt
that comes to a draft are kept here by name, and those of its last stage with
them.
-/

namespace Recompile
namespace Build

variable {σ : Type}

/-- The stages of an attempt up to its dependants, each run from where the one before left off. -/
structure Completion (services : Services (StateM σ)) (project : Project)
    (changes : SourceChanges) (register : Ownership) (progress : Progress) (world : σ) where
  before : Snapshot
  opened : Ledger
  openedProgress : Progress
  openedWorld : σ
  opens : (openLedger services project changes register).runFrom progress world =
    (.ok (before, opened), openedProgress, openedWorld)
  outcome : Outcome
  compiledProgress : Progress
  compiledWorld : σ
  compiles : (compileBatch services project before opened.ownership changes.stale).runFrom
    openedProgress openedWorld = (.ok outcome, compiledProgress, compiledWorld)
  reviewed : Ledger
  after : Snapshot
  reviewedProgress : Progress
  reviewedWorld : σ
  reviews : (reviewProduced services project opened outcome).runFrom
    compiledProgress compiledWorld = (.ok (reviewed, after), reviewedProgress, reviewedWorld)
  dependants : SourceSet
  depends : dependantSources before after reviewed = .ok (some dependants)

namespace Completion

variable {services : Services (StateM σ)} {project : Project} {changes : SourceChanges}
  {register : Ownership} {progress progress' : Progress} {world world' : σ} {draft : Draft}

def Finishes (stages : Completion services project changes register progress world)
    (draft : Draft) (progress' : Progress) (world' : σ) : Prop :=
  (finish services project stages.before stages.reviewed
    (stages.outcome.statuses changes.stale) stages.outcome.success stages.dependants).runFrom
      stages.reviewedProgress stages.reviewedWorld = (.ok draft, progress', world')

def registeredWorld (stages : Completion services project changes register progress world) : σ :=
  ((registerProduced services project stages.opened stages.outcome.produced.toList).runFrom
    stages.compiledProgress stages.compiledWorld).2.2

theorem exists_of_runFrom
    (hrun : (compileChanges services project changes register).runFrom progress world =
      (.ok (some draft), progress', world')) :
    ∃ stages : Completion services project changes register progress world,
      stages.Finishes draft progress' world' := by
  unfold compileChanges at hrun
  rcases Step.ok_of_runFrom_bind hrun with ⟨⟨before, opened⟩, _, _, hopens, hrest⟩
  rcases Step.ok_of_runFrom_bind hrest with ⟨outcome, _, _, hcompiles, hfollow⟩
  unfold followUp at hfollow
  rcases Step.ok_of_runFrom_bind hfollow with ⟨⟨reviewed, after⟩, _, _, hreviews, hdepends⟩
  simp only [Step.runFrom_bind, Step.runFrom_except] at hdepends
  cases hsources : dependantSources before after reviewed with
  | error error =>
      rw [hsources] at hdepends
      cases hdepends
  | ok sources =>
      rw [hsources] at hdepends
      cases sources with
      | none => cases hdepends
      | some dependants =>
          rcases Step.ok_of_runFrom_bind hdepends with ⟨_, _, _, hfinishes, hdone⟩
          cases hdone
          exact ⟨⟨before, opened, _, _, hopens, outcome, _, _, hcompiles, reviewed, after,
            _, _, hreviews, dependants, hsources⟩, hfinishes⟩

theorem takes_after (stages : Completion services project changes register progress world) :
    runIn (Inventory.take services.host project.destination) stages.registeredWorld =
      (.ok stages.after, stages.reviewedWorld) := by
  rcases registered_of_reviewProduced stages.reviews with ⟨between, hregister, hlooked⟩
  unfold registeredWorld
  rw [hregister]
  exact hlooked

theorem attemptRounds_eq
    (stages : Completion services project changes register progress world) :
    attemptRounds services project changes register progress world =
      ⟨none, register, changes.removed.toList, .nothing, stages.openedWorld,
          stages.openedWorld⟩ ::
        batchRound services project stages.before stages.opened changes.stale stages.outcome
          stages.compiledProgress stages.compiledWorld ::
        finishRounds services project stages.before stages.reviewed stages.dependants
          stages.reviewedProgress stages.reviewedWorld := by
  unfold attemptRounds staleRounds followRounds
  rw [stages.opens]
  simp only
  rw [stages.compiles]
  simp only
  rw [stages.reviews]
  simp only
  rw [stages.depends]

/-!
# The last stage
-/

structure Second (stages : Completion services project changes register progress world)
    (draft : Draft) (progress' : Progress) (world' : σ) where
  outcome : Outcome
  compiledProgress : Progress
  compiledWorld : σ
  compiles : (compileBatch services project stages.before stages.reviewed.ownership
    stages.dependants.toList).runFrom stages.reviewedProgress stages.reviewedWorld =
      (.ok outcome, compiledProgress, compiledWorld)
  entered : Ledger
  registers : (registerProduced services project stages.reviewed
    outcome.produced.toList).runFrom compiledProgress compiledWorld =
      (.ok entered, progress', world')
  ownership_eq : draft.ownership = entered.ownership
  statuses_eq : draft.statuses = mergeStatuses (stages.outcome.statuses changes.stale)
    (outcome.statuses stages.dependants.toList)
  success_eq : draft.success = (stages.outcome.success && outcome.success)

theorem Finishes.cases {stages : Completion services project changes register progress world}
    (hfinishes : stages.Finishes draft progress' world') :
    (stages.dependants.isEmpty = true ∧ draft.ownership = stages.reviewed.ownership ∧
        draft.statuses = stages.outcome.statuses changes.stale ∧
        world' = stages.reviewedWorld) ∨
      stages.dependants.isEmpty = false ∧ Nonempty (Second stages draft progress' world') := by
  unfold Finishes finish at hfinishes
  cases hnone : stages.dependants.isEmpty with
  | true =>
      rw [if_pos hnone] at hfinishes
      cases hfinishes
      exact Or.inl ⟨rfl, rfl, rfl, rfl⟩
  | false =>
      rw [if_neg (by rw [hnone]; exact Bool.false_ne_true)] at hfinishes
      rcases Step.ok_of_runFrom_bind hfinishes with ⟨outcome, _, _, hcompiles, hrest⟩
      rcases Step.ok_of_runFrom_bind hrest with ⟨entered, _, _, hregisters, hdone⟩
      cases hdone
      exact Or.inr ⟨rfl, ⟨⟨outcome, _, _, hcompiles, entered, hregisters, rfl, rfl, rfl⟩⟩⟩

theorem Finishes.success_eq_of_none
    {stages : Completion services project changes register progress world}
    (hfinishes : stages.Finishes draft progress' world')
    (hnone : stages.dependants.isEmpty = true) :
    draft.success = stages.outcome.success := by
  unfold Finishes finish at hfinishes
  rw [if_pos hnone] at hfinishes
  cases hfinishes
  rfl

theorem Finishes.mode_dependants_eq
    {stages : Completion services project changes register progress world}
    (hfinishes : stages.Finishes draft progress' world') :
    draft.mode = .incremental ∧ draft.dependants = stages.dependants := by
  unfold Finishes finish at hfinishes
  by_cases hnone : stages.dependants.isEmpty = true
  · rw [if_pos hnone] at hfinishes
    cases hfinishes
    exact ⟨rfl, rfl⟩
  · rw [if_neg hnone] at hfinishes
    rcases Step.ok_of_runFrom_bind hfinishes with ⟨_, _, _, _, hrest⟩
    rcases Step.ok_of_runFrom_bind hrest with ⟨_, _, _, _, hdone⟩
    cases hdone
    exact ⟨rfl, rfl⟩

theorem Finishes.mode_eq {stages : Completion services project changes register progress world}
    (hfinishes : stages.Finishes draft progress' world') : draft.mode = .incremental :=
  hfinishes.mode_dependants_eq.1

theorem Finishes.dependants_eq
    {stages : Completion services project changes register progress world}
    (hfinishes : stages.Finishes draft progress' world') :
    draft.dependants = stages.dependants :=
  hfinishes.mode_dependants_eq.2

theorem Finishes.succeeded
    {stages : Completion services project changes register progress world}
    (hfinishes : stages.Finishes draft progress' world') (hsuccess : draft.success = true) :
    stages.outcome.success = true ∧ (stages.dependants.isEmpty = false →
      ∃ second : Second stages draft progress' world', second.outcome.success = true) := by
  rcases hfinishes.cases with ⟨hnone, _⟩ | ⟨hsome, ⟨second⟩⟩
  · rw [← hfinishes.success_eq_of_none hnone, hnone]
    exact ⟨hsuccess, nofun⟩
  · have hboth := Bool.and_eq_true_iff.mp (second.success_eq.symm.trans hsuccess)
    exact ⟨hboth.1, fun _ => ⟨second, hboth.2⟩⟩

theorem finishRounds_of_none
    (stages : Completion services project changes register progress world)
    (hnone : stages.dependants.isEmpty = true) :
    finishRounds services project stages.before stages.reviewed stages.dependants
      stages.reviewedProgress stages.reviewedWorld = [] := by
  unfold finishRounds
  rw [if_pos hnone]

theorem Second.finishRounds_eq
    {stages : Completion services project changes register progress world}
    (second : Second stages draft progress' world') (hsome : stages.dependants.isEmpty = false) :
    finishRounds services project stages.before stages.reviewed stages.dependants
      stages.reviewedProgress stages.reviewedWorld =
        [batchRound services project stages.before stages.reviewed stages.dependants.toList
          second.outcome second.compiledProgress second.compiledWorld] := by
  unfold finishRounds
  rw [if_neg (by rw [hsome]; exact Bool.false_ne_true), second.compiles]

end Completion

/-!
# What the stages do to class files
-/

variable {services : Services (StateM σ)} {project : Project}
  {files : ClassFiles services.host project.destination}
  {progress middle progress' : Progress} {world between world' : σ} {ledger ledger' : Ledger}

/-- A register and class files from which some sources are removed. -/
structure Cleared (files : ClassFiles services.host project.destination) (register : Ownership)
    (sources : List String) (world : σ) (ledger : Ledger) (world' : σ) : Prop where
  removed : Ledger.Removed ⟨register, ∅, ∅⟩ sources ledger
  deletion : Deletion files (ownedKeys project.destination register sources) world world'

theorem cleared_of_openLedger {changes : SourceChanges} {register : Ownership}
    {before : Snapshot} (hbelow : register.LeadsBelow)
    (hrun : (openLedger services project changes register).runFrom progress world =
      (.ok (before, ledger), progress', world')) :
    Cleared files register changes.removed.toList world ledger world' := by
  obtain ⟨between, hlooked, hremoved⟩ := taken_of_openLedger hrun
  have hkept := files.spares_take project.destination world
  rw [hlooked] at hkept
  have hsteps : Sweeps files _ _ (removeSources services project ⟨register, ∅, ∅⟩
      changes.removed.toList) progress between := sweeps_removeSources _ hbelow progress between
  have hfirst : Deletion files ∅ world between := Deletion.of_held_eq hkept
  have hdeletion := hfirst.trans (hsteps.of_ok hremoved).toDeletion
  rw [Set.empty_union] at hdeletion
  exact ⟨removed_of_runFrom hremoved, hdeletion⟩

structure Batched (files : ClassFiles services.host project.destination) (ledger : Ledger)
    (world : σ) (outcome : Outcome) (compiled : σ) (ledger' : Ledger) (world' : σ) :
    Prop where
  accounts : Accounts files world outcome compiled
  entered : ledger.Entered outcome.produced.toList ledger'
  deletion : Deletion files
    (orphanKeys project.destination ledger.ownership outcome.produced.toList) compiled world'

theorem Cleared.leadsBelow {register : Ownership} {sources : List String}
    (h : Cleared files register sources world ledger world') (hbelow : register.LeadsBelow) :
    ledger.ownership.LeadsBelow :=
  h.removed.holdsOnly hbelow

theorem Batched.leadsBelow {outcome : Outcome}
    (h : Batched files ledger world outcome between ledger' world')
    (hbelow : ledger.ownership.LeadsBelow) : ledger'.ownership.LeadsBelow :=
  h.entered.holdsOnly hbelow h.accounts.below_of_mem

theorem accounts_of_compileBatch (hcompiler : WritesListed files) {before : Snapshot}
    {register : Ownership} {sources : List String} {outcome : Outcome}
    (hbelow : register.LeadsBelow)
    (hbatch : (compileBatch services project before register sources).runFrom
      progress world = (.ok outcome, progress', world')) :
    Accounts files world outcome world' := by
  rcases of_runFrom_compileBatch hcompiler hbelow hbatch with
    ⟨_, herror, _⟩ | ⟨_, start, houtcome, _, hstart, haccounts⟩
  · cases herror
  · cases houtcome
    refine ⟨haccounts.present, ?_, haccounts.below⟩
    intro key hkey
    rw [haccounts.unlisted key hkey, hstart]

theorem batched_of_registerProduced (hcompiler : WritesListed files) {before : Snapshot}
    {sources : List String} {outcome : Outcome} (hbelow : ledger.ownership.LeadsBelow)
    (hbatch : (compileBatch services project before ledger.ownership sources).runFrom
      progress world = (.ok outcome, middle, between))
    (hregister : (registerProduced services project ledger outcome.produced.toList).runFrom
      middle between = (.ok ledger', progress', world')) :
    Batched files ledger world outcome between ledger' world' := by
  have haccounts := accounts_of_compileBatch hcompiler hbelow hbatch
  have hdeletes : Deletes files _ (registerProduced services project ledger
      outcome.produced.toList) middle between :=
    deletes_registerProduced haccounts.below_of_mem hbelow middle between
  exact ⟨haccounts, entered_of_runFrom hregister, hdeletes.of_ok hregister⟩

theorem batched_of_reviewProduced (hcompiler : WritesListed files) {before after : Snapshot}
    {sources : List String} {outcome : Outcome} (hbelow : ledger.ownership.LeadsBelow)
    (hbatch : (compileBatch services project before ledger.ownership sources).runFrom
      progress world = (.ok outcome, middle, between))
    (hreview : (reviewProduced services project ledger outcome).runFrom
      middle between = (.ok (ledger', after), progress', world')) :
    Batched files ledger world outcome between ledger' world' := by
  rcases registered_of_reviewProduced hreview with ⟨registered, hregister, hlooked⟩
  have hkept := files.spares_take project.destination registered
  rw [hlooked] at hkept
  have hbatched := batched_of_registerProduced hcompiler hbelow hbatch hregister
  exact ⟨hbatched.accounts, hbatched.entered, hbatched.deletion.then_held_eq hkept⟩

/-!
# The parts of an attempt and the class files
-/

namespace Completion

variable {changes : SourceChanges} {register : Ownership} {draft : Draft}

theorem cleared (files : ClassFiles services.host project.destination)
    (stages : Completion services project changes register progress world)
    (hbelow : register.LeadsBelow) :
    Cleared files register changes.removed.toList world stages.opened stages.openedWorld :=
  cleared_of_openLedger hbelow stages.opens

theorem leadsBelow_opened (stages : Completion services project changes register progress world)
    (hbelow : register.LeadsBelow) : stages.opened.ownership.LeadsBelow :=
  (removed_of_openLedger stages.opens).holdsOnly hbelow

theorem reviewedBatch (hwrites : WritesListed files)
    (stages : Completion services project changes register progress world)
    (hbelow : register.LeadsBelow) :
    Batched files stages.opened stages.openedWorld stages.outcome stages.compiledWorld
      stages.reviewed stages.reviewedWorld :=
  batched_of_reviewProduced hwrites (stages.leadsBelow_opened hbelow) stages.compiles
    stages.reviews

theorem Second.batch (hwrites : WritesListed files)
    {stages : Completion services project changes register progress world}
    (second : Second stages draft progress' world') (hbelow : register.LeadsBelow) :
    Batched files stages.reviewed stages.reviewedWorld second.outcome second.compiledWorld
      second.entered world' :=
  batched_of_registerProduced hwrites
    ((stages.reviewedBatch hwrites hbelow).leadsBelow (stages.leadsBelow_opened hbelow))
    second.compiles second.registers

end Completion
end Build
end Recompile
