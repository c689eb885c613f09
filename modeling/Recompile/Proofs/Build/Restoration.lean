import Recompile.Proofs.Build.Shelf

/-!
# What a failed build leaves behind

A build that fails puts back what it has backed up and removes what it takes
for new. A file that a round writes without either stays as the last such round
left it. The rounds tell for each file which of these it is, exactly.
-/

namespace Recompile
namespace Build

variable {σ : Type} {services : Services (StateM σ)} {project : Project} {start : σ}

/-!
# Attempts that fail

The rounds are those of the removed sources, of the sources that changed and of
their dependants, as far as the build came.
-/

theorem held_run_eq_start_iff_of_failed_attempt
    (files : ClassFiles services.host project.destination) (hstores : StoresSpare files)
    (hcompiler : WritesListed files) (course : Course services project start)
    {register : Ownership} {loaded : σ}
    (hregister : runIn services.ownership.load course.begun = (.ok (some register), loaded))
    (hbelow : register.LeadsBelow)
    (hkept : ((compileChanges services project course.changes register).runFrom
      course.first loaded).1 ≠ .ok none)
    (hundone : course.IsUndone)
    (hrestores : (runIn (course.progress.backup.restore services.host) course.undoneFrom).1 =
      .ok ()) (key : FileKey) :
    files.held (runIn (run services project) start).2 key = files.held start key ↔
      Recoverable files key (files.held start key) (files.held start key)
        (attemptRounds services project course.changes register course.first loaded) := by
  have hloads : LoadsBelow services course.begun := by
    intro stored left hload
    rw [hregister] at hload
    cases hload
    exact hbelow
  rw [← course.rounds_of_attempt hregister hkept]
  exact course.held_run_iff_of_undone hstores hcompiler hloads hundone hrestores key _

/-!
A source has changed, and the one class that there is comes from it now. The
compiler writes it and fails.
-/

theorem changed_overwriting (owner : Option String) :
    ((Shelf.soloShelf (some (Shelf.current ["B.java"])) owner).changes
      ["A.java", "B.java"]).isEmpty = false := by
  show (SourceChanges.between (Shelf.current ["B.java"])
    (Shelf.current ["A.java", "B.java"])).isEmpty = false
  decide +kernel

def overwriting (owner : Option String) :
    Course (Shelf.services ["A.java", "B.java"] (Shelf.soloProducts "A.java") false)
      (Shelf.project Shelf.out) (Shelf.soloShelf (some (Shelf.current ["B.java"])) owner) :=
  Shelf.course Shelf.out (Shelf.soloProducts "A.java") false Shelf.listed_pair _
    (changed_overwriting owner)

theorem held_run_eq_start_iff_of_own_class :
    let files := Shelf.classFiles ["A.java", "B.java"] (Shelf.soloProducts "A.java") false Shelf.out
    let services := Shelf.services ["A.java", "B.java"] (Shelf.soloProducts "A.java") false
    let key := fileKey Shelf.out Shelf.solo
    let course := overwriting (some "A.java")
    let start := Shelf.soloShelf (some (Shelf.current ["B.java"])) (some "A.java")
    files.held (runIn (run services (Shelf.project Shelf.out)) start).2 key =
        files.held start key ↔
      Recoverable files key (files.held start key) (files.held start key)
        (attemptRounds services (Shelf.project Shelf.out) course.changes
          (Shelf.soloRegister "A.java") course.first course.begun) := by
  intro files services key course start
  have hfailed : course.result.toOption.map Draft.success = some false := by
    decide +kernel
  have hkept : ((compileChanges services (Shelf.project Shelf.out) course.changes
      (Shelf.soloRegister "A.java")).runFrom course.first course.begun).1.toOption.map
        Option.isSome = some true := by
    decide +kernel
  have hrestores : (runIn (course.progress.backup.restore services.host)
      course.undoneFrom).1.toBool = true := by
    decide +kernel
  refine held_run_eq_start_iff_of_failed_attempt files (Shelf.storesSpare _ _ _ _)
    (Shelf.writesListed _ _ _ (Shelf.soloProducts_binary _)) course rfl
    (Shelf.leadsBelow_soloRegister _) ?_ (course.isUndone_of_failed hfailed) ?_ key
  · intro hgiven
    rw [hgiven] at hkept
    cases hkept
  · obtain ⟨_, hrestored⟩ := exists_of_toBool hrestores
    exact hrestored

/-- The class of a source that did not change is overwritten and not put back. -/
theorem not_restored_of_class_of_unchanged_source :
    let services := Shelf.services ["A.java", "B.java"] (Shelf.soloProducts "A.java") false
    let files := Shelf.classFiles ["A.java", "B.java"] (Shelf.soloProducts "A.java") false Shelf.out
    let key := fileKey Shelf.out Shelf.solo
    let start := Shelf.soloShelf (some (Shelf.current ["B.java"])) (some "B.java")
    let ended := runIn (run services (Shelf.project Shelf.out)) start
    WritesListed files ∧
      (∃ report, ended.1 = .ok report ∧ report.mode = .incremental ∧ report.success = false) ∧
      files.held start key = some (Shelf.classBytes 0x21 88) ∧
      files.held ended.2 key = some (Shelf.classBytes 0x20 88) := by
  intro services files key start ended
  have hconcluded : ((overwriting (some "B.java")).concluded.1.toOption.map fun draft =>
      (draft.mode, draft.success)) = some (.incremental, false) := by
    decide +kernel
  have hheld : (overwriting (some "B.java")).concluded.2.held key =
      some (Shelf.classBytes 0x20 88) := by
    decide +kernel
  have hended : ended.2 = (overwriting (some "B.java")).concluded.2 := Shelf.run_eq_concluded _
  refine ⟨Shelf.writesListed _ _ _ (Shelf.soloProducts_binary _),
    Shelf.exists_report _ hconcluded, ?_, ?_⟩
  · exact Shelf.held_soloShelf_solo (some (Shelf.current ["B.java"])) (some "B.java")
  · rw [hended]
    exact hheld

/-!
# Full builds that fail

A full build backs nothing up, so only what an abandoned attempt has backed up
before is put back.
-/

theorem held_run_eq_start_iff_of_failed_full_build
    (files : ClassFiles services.host project.destination) (hstores : StoresSpare files)
    (hcompiler : WritesListed files) (course : Course services project start)
    (hbelow : LoadsBelow services course.begun) {abandoned : List (Round σ)}
    {progress : Progress} {world : σ}
    (hfull : course.full? = some (abandoned, progress, world)) (hundone : course.IsUndone)
    (hrestores : (runIn (course.progress.backup.restore services.host) course.undoneFrom).1 =
      .ok ()) (key : FileKey) :
    files.held (runIn (run services project) start).2 key = files.held start key ↔
      Recoverable files key (files.held start key) (files.held start key)
        (abandoned ++ fullRounds services project progress world) := by
  rw [← course.rounds_of_full hfull]
  exact course.held_run_iff_of_undone hstores hcompiler hbelow hundone hrestores key _

theorem held_run_eq_start_iff_of_unregistered_class :
    let files := Shelf.classFiles ["A.java", "B.java"] (Shelf.soloProducts "A.java") false Shelf.out
    let services := Shelf.services ["A.java", "B.java"] (Shelf.soloProducts "A.java") false
    let key := fileKey Shelf.out Shelf.solo
    let course := overwriting none
    let start := Shelf.soloShelf (some (Shelf.current ["B.java"])) none
    files.held (runIn (run services (Shelf.project Shelf.out)) start).2 key =
        files.held start key ↔
      Recoverable files key (files.held start key) (files.held start key)
        ([] ++ fullRounds services (Shelf.project Shelf.out) course.first course.begun) := by
  intro files services key course start
  have hfailed : course.result.toOption.map Draft.success = some false := by
    decide +kernel
  have hrestores : (runIn (course.progress.backup.restore services.host)
      course.undoneFrom).1.toBool = true := by
    decide +kernel
  refine held_run_eq_start_iff_of_failed_full_build files (Shelf.storesSpare _ _ _ _)
    (Shelf.writesListed _ _ _ (Shelf.soloProducts_binary _)) course nofun rfl
    (course.isUndone_of_failed hfailed) ?_ key
  obtain ⟨_, hrestored⟩ := exists_of_toBool hrestores
  exact hrestored

/-- A full build that fails leaves the class as it has written it. -/
theorem not_restored_of_full_build :
    let services := Shelf.services ["A.java", "B.java"] (Shelf.soloProducts "A.java") false
    let files := Shelf.classFiles ["A.java", "B.java"] (Shelf.soloProducts "A.java") false Shelf.out
    let key := fileKey Shelf.out Shelf.solo
    let start := Shelf.soloShelf (some (Shelf.current ["B.java"])) none
    let ended := runIn (run services (Shelf.project Shelf.out)) start
    WritesListed files ∧
      (∃ report, ended.1 = .ok report ∧ report.mode = .cold ∧ report.success = false) ∧
      files.held start key = some (Shelf.classBytes 0x21 88) ∧
      files.held ended.2 key = some (Shelf.classBytes 0x20 88) := by
  intro services files key start ended
  have hconcluded : ((overwriting none).concluded.1.toOption.map fun draft =>
      (draft.mode, draft.success)) = some (.cold, false) := by
    decide +kernel
  have hheld : (overwriting none).concluded.2.held key = some (Shelf.classBytes 0x20 88) := by
    decide +kernel
  have hended : ended.2 = (overwriting none).concluded.2 := Shelf.run_eq_concluded _
  refine ⟨Shelf.writesListed _ _ _ (Shelf.soloProducts_binary _),
    Shelf.exists_report _ hconcluded, ?_, ?_⟩
  · exact Shelf.held_soloShelf_solo (some (Shelf.current ["B.java"])) none
  · rw [hended]
    exact hheld

end Build
end Recompile
