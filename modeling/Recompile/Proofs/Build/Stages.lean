import Recompile.Proofs.Build.Maintaining
import Recompile.Proofs.Build.Undoing

/-!
# Stage by stage

Each stage of a build either passes on what undoing makes of the files or ends
the build, and then the rounds so far tell what undoing makes of them.
-/

namespace Recompile
namespace Build

variable {σ α : Type} {services : Services (StateM σ)} {project : Project}
  {files : ClassFiles services.host project.destination}
  {progress progress' : Progress} {world world' : σ}

/-!
# Removed sources
-/

theorem passes_removed {ownership : Ownership} {sources : List String}
    (hswept : Sweep files (ownedKeys project.destination ownership sources)
      (ownedKeys project.destination ownership sources) progress world progress' world') :
    Passes files [⟨none, ownership, sources, .nothing, world', world'⟩] progress world progress'
      world' := by
  refine ⟨hswept.wellKept, ?_⟩
  intro rest key was
  rw [List.singleton_append]
  by_cases howned : key ∈ ownedKeys project.destination ownership sources
  · rw [hswept.returns_of_mem howned, returns_cons_of_guards (Round.guards_iff.mpr howned)]
  · rw [hswept.returns_of_not_mem howned]
    cases hnoted : progress.backup.noted? key with
    | some previous => rw [returns_of_noted hnoted, returns_of_noted hnoted]
    | none =>
        rw [returns_of_not_noted hnoted, returns_of_not_noted hnoted, Recoverable,
          if_neg fun hguards => howned (Round.guards_iff.mp hguards),
          if_neg (by simp [Round.notes]), hswept.left key howned]

theorem of_runFrom_openLedger {changes : SourceChanges} {ownership : Ownership}
    {result : Except Failure (Snapshot × Ledger)} (hbelow : ownership.LeadsBelow)
    (hrun : (openLedger services project changes ownership).runFrom progress world =
      (result, progress', world')) :
    (∃ error, result = .error error ∧ Ends files [] progress world progress' world') ∨
      ∃ before ledger,
        result = .ok (before, ledger) ∧
          Passes files [⟨none, ownership, changes.removed.toList, .nothing, world', world'⟩]
            progress world progress' world' ∧
          ledger.ownership.LeadsBelow := by
  rw [openLedger] at hrun
  rcases Step.of_runFrom_bind hrun with
    ⟨before, middle, between, htaken, hrest⟩ | ⟨error, hfailed, rfl⟩
  · have hlooked := passes_of_spares (files.spares_take project.destination) htaken
    have hsteps : Sweeps files _ _ (removeSources services project ⟨ownership, ∅, ∅⟩
        changes.removed.toList) middle between := sweeps_removeSources _ hbelow middle between
    rcases Step.of_runFrom_bind hrest with ⟨ledger, _, _, hremoved, hdone⟩ | ⟨error, hfailed, rfl⟩
    · cases hdone
      exact Or.inr ⟨before, ledger, rfl, hlooked.then (passes_removed (hsteps.of_ok hremoved)),
        (removed_of_runFrom hremoved).holdsOnly hbelow⟩
    · obtain ⟨_, _, _, _, hpart⟩ := hsteps.exists_sweep hfailed
      exact Or.inl ⟨error, rfl, hlooked.thenEnds hpart.ends⟩
  · exact Or.inl ⟨error, rfl, (passes_of_spares (files.spares_take _) hfailed).ends⟩

/-!
# What a batch produced

Entering it deletes files and backs none up, so the round of the batch lasts
until it is entered.
-/

theorem held_review {ledger : Ledger} {outcome : Outcome}
    {result : Except Failure (Ledger × Snapshot)}
    (hlisted : ∀ entry ∈ outcome.produced.toList, ∀ name ∈ entry.2, name.LeadsBelow)
    (hbelow : ledger.ownership.LeadsBelow)
    (hrun : (reviewProduced services project ledger outcome).runFrom progress world =
      (result, progress', world')) :
    progress' = progress ∧
      files.held world' = files.held ((registerProduced services project ledger
        outcome.produced.toList).runFrom progress world).2.2 := by
  have hdeletes : Deletes files _ (registerProduced services project ledger
      outcome.produced.toList) progress world :=
    deletes_registerProduced hlisted hbelow progress world
  unfold reviewProduced at hrun
  rcases Step.of_runFrom_bind hrun with ⟨entered, _, left, hentered, hrest⟩ | ⟨_, hentered, _⟩
  · have hprogress := hdeletes.progress_eq hentered
    rw [hprogress] at hentered hrest
    rw [hentered]
    have hkept := files.spares_take project.destination left
    rcases Step.of_runFrom_bind hrest with ⟨after, _, _, htaken, hdone⟩ | ⟨_, htaken, _⟩
    · obtain ⟨rfl, hlooked⟩ := Step.of_runFrom_perform htaken
      rw [hlooked] at hkept
      rw [Step.runFrom_pure] at hdone
      cases hdone
      exact ⟨rfl, hkept⟩
    · obtain ⟨rfl, hlooked⟩ := Step.of_runFrom_perform htaken
      rw [hlooked] at hkept
      exact ⟨rfl, hkept⟩
  · rw [hentered]
    exact ⟨hdeletes.progress_eq hentered, rfl⟩

theorem ends_finish (hcompiler : WritesListed files) {before : Snapshot} {ledger : Ledger}
    {statuses : Std.ExtTreeMap String SourceStatus} {success : Bool} {dependants : SourceSet}
    {result : Except Failure Draft} (hbelow : ledger.ownership.LeadsBelow)
    (hrun : (finish services project before ledger statuses success dependants).runFrom
      progress world = (result, progress', world')) :
    Ends files (finishRounds services project before ledger dependants progress world)
      progress world progress' world' := by
  unfold finish at hrun
  unfold finishRounds
  by_cases hnone : dependants.isEmpty = true
  · rw [if_pos hnone] at hrun ⊢
    cases hrun
    exact (Sweep.refl progress rfl).ends
  · rw [if_neg hnone] at hrun ⊢
    rcases hbatch : (compileBatch services project before ledger.ownership
      dependants.toList).runFrom progress world with ⟨outcome, middle, between⟩
    rw [Step.runFrom_bind, hbatch] at hrun
    rcases of_runFrom_compileBatch hcompiler hbelow hbatch with
      ⟨error, rfl, hends⟩ | ⟨outcome, _, rfl, hpasses, _, haccounts⟩
    · cases hrun
      exact hends
    · have hdeletes : Deletes files _ (registerProduced services project ledger
          outcome.produced.toList) middle between :=
        deletes_registerProduced haccounts.below_of_mem hbelow middle between
      simp only [batchRound]
      rcases Step.of_runFrom_bind hrun with ⟨_, _, _, hentered, hdone⟩ | ⟨_, hentered, _⟩
      · have hprogress := hdeletes.progress_eq hentered
        rw [Step.runFrom_pure] at hdone
        cases hdone
        rw [hentered, hprogress]
        exact (hpasses world').ends
      · have hprogress := hdeletes.progress_eq hentered
        rw [hentered, hprogress]
        exact (hpasses world').ends

/-!
# From the first batch on

An attempt that is abandoned has passed through the first batch and its review,
and has come to no further round.
-/

theorem of_runFrom_followUp (hcompiler : WritesListed files) {changes : SourceChanges}
    {before : Snapshot} {ledger : Ledger} {outcome : Outcome}
    {result : Except Failure (Option Draft)}
    (hlisted : ∀ entry ∈ outcome.produced.toList, ∀ name ∈ entry.2, name.LeadsBelow)
    (hbelow : ledger.ownership.LeadsBelow)
    (hrun : (followUp services project changes before ledger outcome).runFrom progress world =
      (result, progress', world')) {left : σ}
    (hleft : files.held left = files.held ((registerProduced services project ledger
      outcome.produced.toList).runFrom progress world).2.2) :
    Ends files (followRounds services project before ledger outcome progress world)
        progress left progress' world' ∧
      (result = .ok none →
        Passes files (followRounds services project before ledger outcome progress world)
          progress left progress' world') := by
  unfold followUp at hrun
  unfold followRounds
  rcases hreview : (reviewProduced services project ledger outcome).runFrom progress world with
    ⟨reviewed, middle, between⟩
  have hreviewed : middle = progress ∧ files.held between = _ :=
    held_review hlisted hbelow hreview
  obtain ⟨rfl, hheld⟩ := hreviewed
  rw [← hleft] at hheld
  have hpasses : Passes files [] middle left middle between :=
    (Sweep.refl middle hheld).passes
  rw [Step.runFrom_bind, hreview] at hrun
  cases reviewed with
  | error error =>
      cases hrun
      exact ⟨hpasses.ends, by rintro ⟨⟩⟩
  | ok reviewed =>
      obtain ⟨entered, after⟩ := reviewed
      have hentered := (entered_of_reviewProduced hreview).holdsOnly hbelow hlisted
      simp only [Step.runFrom_bind, Step.runFrom_except] at hrun
      cases hsources : dependantSources before after entered with
      | error error =>
          simp only [hsources] at hrun ⊢
          cases hrun
          exact ⟨hpasses.ends, by rintro ⟨⟩⟩
      | ok dependants =>
          simp only [hsources] at hrun ⊢
          cases dependants with
          | none =>
              cases hrun
              exact ⟨hpasses.ends, fun _ => hpasses⟩
          | some dependants =>
              rcases Step.of_runFrom_bind hrun with ⟨_, _, _, hfinished, hdone⟩ | ⟨_, hfailed, rfl⟩
              · cases hdone
                exact ⟨hpasses.thenEnds (ends_finish hcompiler hentered hfinished), by rintro ⟨⟩⟩
              · exact ⟨hpasses.thenEnds (ends_finish hcompiler hentered hfailed), by rintro ⟨⟩⟩

theorem of_runFrom_compileChanges (hcompiler : WritesListed files) {changes : SourceChanges}
    {ownership : Ownership} {result : Except Failure (Option Draft)}
    (hbelow : ownership.LeadsBelow)
    (hrun : (compileChanges services project changes ownership).runFrom progress world =
      (result, progress', world')) :
    Ends files (attemptRounds services project changes ownership progress world)
        progress world progress' world' ∧
      (result = .ok none →
        Passes files (attemptRounds services project changes ownership progress world)
          progress world progress' world') := by
  unfold compileChanges at hrun
  unfold attemptRounds staleRounds
  rcases hopen : (openLedger services project changes ownership).runFrom progress world with
    ⟨opened, middle, between⟩
  rw [Step.runFrom_bind, hopen] at hrun
  rcases of_runFrom_openLedger hbelow hopen with
    ⟨error, rfl, hends⟩ | ⟨before, ledger, rfl, hopened, hleft⟩
  · cases hrun
    exact ⟨hends, by rintro ⟨⟩⟩
  · simp only [Step.runFrom_bind] at hrun
    rcases hbatch : (compileBatch services project before ledger.ownership
      changes.stale).runFrom middle between with ⟨compiled, later, left⟩
    simp only [hbatch] at hrun ⊢
    rcases of_runFrom_compileBatch hcompiler hleft hbatch with
      ⟨error, rfl, hends⟩ | ⟨outcome, _, rfl, hpasses, _, haccounts⟩
    · cases hrun
      exact ⟨hopened.thenEnds hends, by rintro ⟨⟩⟩
    · obtain ⟨hends, hfollowed⟩ :=
        of_runFrom_followUp hcompiler haccounts.below_of_mem hleft hrun rfl
      constructor
      · exact hopened.thenEnds ((hpasses _).thenEnds hends)
      · exact fun hnone => hopened.then ((hpasses _).then (hfollowed hnone))

/-!
# Full builds

A full build backs nothing up and takes no file for a new one.
-/

theorem passes_full {sources : List String} {outcome : Outcome}
    (hwellKept : progress'.backup = progress.backup) :
    Passes files [⟨none, .empty, sources, outcome, world', world'⟩] progress world progress'
      world' := by
  refine ⟨fun h => by rw [hwellKept]; exact h, ?_⟩
  intro rest key was
  rw [List.singleton_append]
  cases hnoted : progress.backup.noted? key with
  | some previous =>
      have hafter : progress'.backup.noted? key = some previous := by
        rw [hwellKept, hnoted]
      rw [returns_of_noted hafter, returns_of_noted hnoted]
  | none =>
      have hafter : progress'.backup.noted? key = none := by
        rw [hwellKept, hnoted]
      rw [returns_of_not_noted hafter, returns_of_not_noted hnoted, Recoverable]
      simp [Round.guards, Round.notes, Ownership.classesOf?, Ownership.empty]

theorem ends_of_backup_eq (hbackup : progress'.backup = progress.backup)
    (hheld : files.held world' = files.held world) :
    Ends files [] progress world progress' world' := by
  refine ⟨fun h => by rw [hbackup]; exact h, ?_⟩
  intro key was
  rw [returns_nil, ClassFiles.restored, ClassFiles.restored, hbackup, hheld]

theorem ends_compileSurveyed (hcompiler : WritesListed files)
    {result : Except Failure (List String × Outcome)}
    (hrun : (compileSurveyed services project).runFrom progress world =
      (result, progress', world')) :
    Ends files (fullRounds services project progress world) progress world progress' world' := by
  unfold fullRounds
  rw [hrun]
  unfold compileSurveyed at hrun
  simp only [Step.runFrom_bind, Step.runFrom_get, Step.runFrom_perform] at hrun
  have hkeeps := files.spares_surveyed progress.survey world
  rcases hsurveyed : runIn (progress.survey.sources services.host) world with ⟨surveyed, between⟩
  rw [hsurveyed] at hkeeps
  simp only [hsurveyed] at hrun
  cases surveyed with
  | error error =>
      cases hrun
      exact ends_of_backup_eq rfl hkeeps
  | ok surveyed =>
      obtain ⟨sources, survey⟩ := surveyed
      simp only [Step.runFrom_modify] at hrun
      rcases hcompiled : (compile services project sources).runFrom
        { progress with survey := survey } between with ⟨compiled, left, final⟩
      simp only [hcompiled] at hrun
      cases compiled with
      | error error =>
          obtain ⟨rfl, hcalled⟩ := hcompiler.compile_error hcompiled
          cases hrun
          exact ends_of_backup_eq rfl (hcalled.trans hkeeps)
      | ok outcome =>
          obtain ⟨rfl, _⟩ := hcompiler.compile_ok hcompiled
          simp only [Step.runFrom_pure] at hrun
          cases hrun
          have hpasses : Passes files [⟨none, .empty, sources, outcome, world', world'⟩] progress
              world { progress with survey := survey } world' := passes_full rfl
          exact hpasses.ends

theorem ends_compileAll (hcompiler : WritesListed files) {result : Except Failure Draft}
    (hrun : (compileAll services project).runFrom progress world = (result, progress', world')) :
    Ends files (fullRounds services project progress world) progress world progress' world' := by
  unfold compileAll at hrun
  rcases Step.of_runFrom_bind hrun with ⟨_, _, _, hcompiled, hdone⟩ | ⟨_, hfailed, rfl⟩
  · cases hdone
    exact ends_compileSurveyed hcompiler hcompiled
  · exact ends_compileSurveyed hcompiler hfailed

/-!
# Everything up to the result
-/

theorem ends_compileNeeded (hstores : StoresSpare files) (hcompiler : WritesListed files)
    (hbelow : LoadsBelow services world) {changes : SourceChanges} {result : Except Failure Draft}
    (hrun : (compileNeeded services project changes).runFrom progress world =
      (result, progress', world')) :
    Ends files (neededRounds services project changes progress world) progress world
      progress' world' := by
  unfold compileNeeded at hrun
  unfold neededRounds
  rcases hload : (perform services.ownership.load).runFrom progress world with
    ⟨loaded, middle, between⟩
  have hpasses := passes_of_spares hstores.loadOwnership hload
  have hloaded := (Step.of_runFrom_perform hload).2
  rw [Step.runFrom_bind, hload] at hrun
  cases loaded with
  | error error =>
      cases hrun
      exact hpasses.ends
  | ok stored =>
      cases stored with
      | none => exact hpasses.thenEnds (ends_compileAll hcompiler hrun)
      | some ownership =>
          simp only [Step.runFrom_bind] at hrun
          rcases hattempt : (compileChanges services project changes ownership).runFrom
            middle between with ⟨attempt, later, left⟩
          obtain ⟨hends, hpassed⟩ := of_runFrom_compileChanges hcompiler (hbelow hloaded) hattempt
          simp only [hattempt] at hrun ⊢
          cases attempt with
          | error error =>
              cases hrun
              simpa using hpasses.thenEnds hends
          | ok finished =>
              cases finished with
              | none =>
                  exact hpasses.thenEnds
                    ((hpassed rfl).thenEnds (ends_compileAll hcompiler hrun))
              | some draft =>
                  simp only [Step.runFrom_pure] at hrun
                  cases hrun
                  simpa using hpasses.thenEnds hends

end Build
end Recompile
