import Recompile.Proofs.Build.Desk
import Recompile.Proofs.Build.Strays

/-!
# Histories of builds

A build fails for want of a source when its review comes upon a stray. From an
empty destination on, strays come from two kinds of builds only: those that could
not undo what they had done, and those that turned to all sources, which neither
back anything up nor clear anything away.
-/

namespace Recompile
namespace Build

variable {σ : Type} {services : Services (StateM σ)} {project : Project} {start : σ}
  {files : ClassFiles services.host project.destination} {name : ClassName}

/-!
# Builds that fail for want of a source
-/

/-- Whether no service fails for want of a source that a class has. -/
structure FailsOtherwise (services : Services (StateM σ)) : Prop where
  compile : ∀ batch world name,
    (runIn (services.compile batch) world).1 ≠ .error (.unownedClass name)
  loadFingerprints : ∀ world name,
    (runIn services.fingerprints.load world).1 ≠ .error (.unownedClass name)
  saveFingerprints : ∀ saved world name,
    (runIn (services.fingerprints.save saved) world).1 ≠ .error (.unownedClass name)
  loadOwnership : ∀ world name,
    (runIn services.ownership.load world).1 ≠ .error (.unownedClass name)
  saveOwnership : ∀ register world name,
    (runIn (services.ownership.save register) world).1 ≠ .error (.unownedClass name)

namespace FailsOtherwise

variable (h : FailsOtherwise services)
include h

theorem serves (destination : Path) :
    Serves services destination (fun _ => True) fun error => ∀ name, error ≠ .unownedClass name :=
  ⟨supports_of_compiler destination h.compile, maintains_of_ne_unowned h.loadFingerprints,
    maintains_of_ne_unowned h.loadOwnership⟩

theorem settle {destination : Path} {progress : Progress}
    (hkept : progress.backup.WellKept destination fun _ => True) (draft : Draft) (world : σ)
    (name : ClassName) :
    (runIn (settle services progress draft) world).1 ≠ .error (.unownedClass name) := by
  intro hunowned
  cases hsuccess : draft.success with
  | false =>
      rw [Course.runIn_settle_of_failed hsuccess] at hunowned
      exact ((h.serves destination).restore hkept world trivial).2 _ hunowned name rfl
  | true =>
      rw [Course.runIn_settle_of_succeeded hsuccess] at hunowned
      have hsave := h.saveOwnership draft.ownership world name
      rcases hsaved : runIn (services.ownership.save draft.ownership) world with ⟨saved, between⟩
      rw [hsaved] at hunowned hsave
      cases saved with
      | error error => exact hsave hunowned
      | ok value =>
          simp only at hunowned
          unfold Survey.commit at hunowned
          cases hseen : progress.survey.observation with
          | none =>
              rw [hseen] at hunowned
              cases hunowned
          | some observation =>
              rw [hseen] at hunowned
              exact h.saveFingerprints observation.fingerprints between name hunowned

end FailsOtherwise

namespace Course

variable (course : Course services project start)

theorem run_of_failed {error : Failure} (hfailed : course.result = .error error) :
    (runIn (run services project) start).1 = .error error := by
  rw [course.runIn_run]
  unfold concluded conclude
  rw [hfailed]
  rfl

theorem result_of_unowned (hfails : FailsOtherwise services)
    (hunowned : (runIn (run services project) start).1 = .error (.unownedClass name)) :
    course.result = .error (.unownedClass name) := by
  cases hresult : course.result with
  | error error =>
      rw [course.run_of_failed hresult] at hunowned
      cases hunowned
      rfl
  | ok draft =>
      have hsettle := hfails.settle course.wellKept draft course.ended name
      rw [course.runIn_run] at hunowned
      unfold concluded conclude at hunowned
      rw [hresult] at hunowned
      simp only at hunowned
      rw [runIn_bind] at hunowned
      rcases hsettled : runIn (Build.settle services course.progress draft) course.ended with
        ⟨settled, left⟩
      rw [hsettled] at hunowned hsettle
      cases settled with
      | error error =>
          cases hunowned
          exact absurd rfl hsettle
      | ok value => cases hunowned

def ComesUpon (course : Course services project start) (name : ClassName) : Prop :=
  ∃ register loaded reviewed progress world,
    runIn services.ownership.load course.begun = (.ok (some register), loaded) ∧
    (review services project course.changes register).runFrom course.first loaded =
      (.ok reviewed, progress, world) ∧
    ¬Alarms reviewed.before reviewed.after (· ∈ reviewed.ledger.affected) ∧
    Follows reviewed.before reviewed.after (· ∈ reviewed.ledger.affected) name ∧
    reviewed.ledger.ownership.sourceOf? name = none

theorem comesUpon_of_unowned (stores : Stores services) (hfails : FailsOtherwise services)
    (hresult : course.result = .error (.unownedClass name)) : course.ComesUpon name := by
  cases hfull : course.full? with
  | some turned =>
      rcases course.exists_observation with ⟨observation, hseen⟩
      have hturned := (stores.serves _ (stores.stored start)).turned course rfl hfull
      have hfailed := ((hfails.serves _).compileAll course.survey hseen).of_runFrom
        ⟨hturned.1, trivial⟩ (course.runFrom_of_full hfull)
      exact absurd rfl (hfailed.2 _ hresult name)
  | none =>
      rcases course.of_part hfull with ⟨error, hload, hfailed, _⟩ | ⟨register, loaded, hload, hrun⟩
      · rw [hresult] at hfailed
        cases hfailed
        exact absurd (congrArg Prod.fst hload) (hfails.loadOwnership course.begun name)
      · rw [hresult] at hrun
        rcases reviewed_of_failed ((hfails.serves _).works course.survey) register.holdsOnly_true
          ⟨rfl, trivial⟩ hrun (fun hother => hother name rfl) with ⟨reviewed, hreview, hdepends⟩
        rcases unowned_of_dependantSources hdepends with ⟨hquiet, other, hfollows, hnone, hsame⟩
        cases hsame
        exact ⟨register, loaded, reviewed, _, _, hload, hreview, hquiet, hfollows, hnone⟩

theorem unowned_of_comesUpon (hupon : course.ComesUpon name) :
    ∃ other, (runIn (run services project) start).1 = .error (.unownedClass other) := by
  rcases hupon with
    ⟨register, loaded, reviewed, progress, world, hload, hreview, hquiet, hfollows, hnone⟩
  rcases exists_dependantSources_eq_error hquiet hfollows hnone with ⟨error, hdepends⟩
  rcases unowned_of_dependantSources hdepends with ⟨_, other, _, _, hsame⟩
  have hneeded : (compileNeeded services project course.changes).runFrom course.first
      course.begun = (course.result, course.progress, course.ended) := rfl
  unfold compileNeeded at hneeded
  rw [Step.runFrom_bind, Step.runFrom_perform, hload] at hneeded
  simp only at hneeded
  rw [Step.runFrom_bind, failed_of_reviewed hreview hdepends, hsame] at hneeded
  exact ⟨other, course.run_of_failed (congrArg Prod.fst hneeded).symm⟩

end Course

theorem exists_comesUpon_of_unowned (stores : Stores services) (hfails : FailsOtherwise services)
    (hunowned : (runIn (run services project) start).1 = .error (.unownedClass name)) :
    ∃ course : Course services project start, course.ComesUpon name := by
  have hserves := hfails.serves project.destination
  rcases run_or_course hserves.milliseconds hserves.lookForChanges trivial with
    ⟨_, hother, _⟩ | ⟨⟨course⟩⟩
  · exact absurd rfl (hother _ hunowned name)
  · have hresult := course.result_of_unowned hfails hunowned
    exact ⟨course, course.comesUpon_of_unowned stores hfails hresult⟩

/-!
# What a build does to strays
-/

namespace Course

variable (course : Course services project start)

theorem keepsPlaces (stores : Stores services) (hstores : StoresSpare files)
    (hwrites : WritesListed files) (hnames : NamesFiles files)
    (hbelow : LoadsBelow services course.begun) (hplaced : files.Placed start) :
    KeepsPlaces project.destination course.progress.backup (files.held course.ended) := by
  have hfirst : ∀ {loaded}, files.held loaded = files.held start →
      KeepsPlaces project.destination course.first.backup (files.held loaded) :=
    fun hheld => keepsPlaces_of_placed (hplaced.of_held_eq hheld)
  cases hfull : course.full? with
  | none =>
      rcases course.of_part hfull with
    ⟨error, hload, _, hprogress⟩ | ⟨register, loaded, hload, hrun⟩
      · rw [hprogress]
        exact hfirst (course.held_loaded hstores hload)
      · exact keepsPlaces_of_compileChanges hwrites hnames (hbelow hload)
          (hfirst (course.held_loaded hstores hload)) hrun
  | some turned =>
      rcases course.exists_observation with ⟨observation, hseen⟩
      have hturned := (stores.serves _ (stores.stored start)).turned course rfl hfull
      rw [← hturned.1] at hseen
      refine keepsPlaces_of_compileAll hwrites hnames hseen ?_ (course.runFrom_of_full hfull)
      rcases course.of_full hfull with ⟨hload, _, hprogress⟩ | ⟨register, loaded, hload, hrun, _⟩
      · rw [hprogress]
        exact hfirst (course.held_loaded hstores hload)
      · exact keepsPlaces_of_compileChanges hwrites hnames (hbelow hload)
          (hfirst (course.held_loaded hstores hload)) hrun

theorem held_run_of_not_undone (hstores : StoresSpare files) (hkept : ¬course.IsUndone)
    (stores : Stores services) :
    files.held (runIn (run services project) start).2 = files.held course.ended := by
  rcases course.exists_of_not_undone hkept with ⟨draft, hresult, hsuccess, hsaved⟩
  rcases course.exists_look with ⟨look, _⟩
  have hsurvey := ((stores.serves _ (stores.stored start)).ended course rfl).1.trans
    (course.survey_eq look)
  rw [course.held_run files, course.concluded_of_saved hsurvey hresult hsuccess hsaved]
  exact (hstores.saveFingerprints _ _).trans (hstores.saveOwnership _ _)

end Course

def FailsToRestore (services : Services (StateM σ)) (project : Project) (start : σ) : Prop :=
  ∃ course : Course services project start, course.IsUndone ∧
    (runIn (course.progress.backup.restore services.host) course.undoneFrom).1 ≠ .ok ()

theorem Course.restored_of_undone (course : Course services project start)
    (hrestores : ¬FailsToRestore services project start) (hundone : course.IsUndone) :
    (runIn (course.progress.backup.restore services.host) course.undoneFrom).1 = .ok () := by
  by_contra hfailed
  exact hrestores ⟨course, hundone, hfailed⟩

namespace Stores

variable (stores : Stores services)

def KeepsBelow (world : σ) : Prop :=
  ∀ owners, stores.owners world = some owners → ∀ name ∈ owners.keys, name.LeadsBelow

section Registers

variable (hregisters : ∀ world register loaded,
  runIn services.ownership.load world = (.ok (some register), loaded) → register.Consistent)
include hregisters

theorem loadsBelow (course : Course services project start) (hkeeps : stores.KeepsBelow start) :
    LoadsBelow services course.begun := by
  intro register loaded hload
  have hstored := hkeeps register.byClass (stores.owners_of_load course hload)
  exact (hregisters _ _ _ hload).holdsOnly_iff.mpr hstored

theorem leadsBelow_of_result (course : Course services project start)
    (hwrites : WritesListed files) (hkeeps : stores.KeepsBelow start) {draft : Draft}
    (hresult : course.result = .ok draft) :
    ∀ name ∈ draft.ownership.byClass.keys, name.LeadsBelow := by
  have hbelow := stores.loadsBelow hregisters course hkeeps
  cases hfull : course.full? with
  | some turned =>
      rcases course.exists_observation with ⟨observation, hseen⟩
      have hturned := (stores.serves _ (stores.stored start)).turned course rfl hfull
      have hrun := course.runFrom_of_full hfull
      rw [← hturned.1] at hseen
      rw [hresult] at hrun
      exact leadsBelow_of_compileAll hwrites hseen hrun
  | none =>
      rcases course.of_part hfull with ⟨error, _, hfailed, _⟩ | ⟨register, loaded, hload, hrun⟩
      · rw [hresult] at hfailed
        cases hfailed
      · rw [hresult] at hrun
        rcases Completion.exists_of_runFrom hrun with ⟨stages, hfinishes⟩
        have hconsistent := Completion.consistent_of_finishes (hregisters _ _ _ hload) hfinishes
        exact hconsistent.holdsOnly_iff.mp
          (Completion.leadsBelow_of_finishes hwrites (hbelow hload) hfinishes)

theorem keepsBelow_run (course : Course services project start) (hwrites : WritesListed files)
    (hkeeps : stores.KeepsBelow start) :
    stores.KeepsBelow (runIn (run services project) start).2 := by
  unfold KeepsBelow
  rw [(stores.stored_eq_iff.mp (stores.stored_run course)).2]
  by_cases hundone : course.IsUndone
  · rw [(stores.stored_eq_iff.mp (stores.stored_of_undone course hundone)).2]
    exact hkeeps
  · rcases course.exists_of_not_undone hundone with ⟨draft, hresult, hsuccess, hsaved⟩
    rcases course.exists_look with ⟨look, _⟩
    intro owners howners
    rw [(stores.stored_of_saved course look hresult hsuccess hsaved).1] at howners
    cases howners
    exact stores.leadsBelow_of_result hregisters course hwrites hkeeps hresult

end Registers

/-- Whether a class has its file, but no source that is stored. -/
def IsStray (files : ClassFiles services.host project.destination) (world : σ)
    (name : ClassName) : Prop :=
  (stores.owners world).bind (fun owners => owners[name]?) = none ∧ files.HoldsClass world name

/-- Whether a build that turns to all sources leaves a class astray that was not so before. -/
def Strands (files : ClassFiles services.host project.destination) (start : σ)
    (name : ClassName) : Prop :=
  (∃ course : Course services project start, course.full?.isSome = true) ∧
    ¬stores.IsStray files start name ∧
    stores.IsStray files (runIn (run services project) start).2 name

theorem isStray_iff_strays (course : Course services project start) (hstores : StoresSpare files)
    {register : Ownership} {loaded : σ}
    (hload : runIn services.ownership.load course.begun = (.ok (some register), loaded)) :
    stores.IsStray files start name ↔ Strays files register loaded name := by
  have hheld := course.held_loaded hstores hload
  unfold IsStray Strays ClassFiles.HoldsClass
  rw [stores.owners_of_load course hload, hheld]
  rfl

theorem isStray_of_comesUpon {course : Course services project start}
    (hupon : course.ComesUpon name) (hstores : StoresSpare files) (hwrites : WritesListed files)
    (hnames : NamesFiles files) (hreads : files.ReadsListed)
    (hregisters : ∀ world register loaded,
      runIn services.ownership.load world = (.ok (some register), loaded) → register.Consistent)
    (hkeeps : stores.KeepsBelow start) (hplaced : files.Placed start) :
    stores.IsStray files start name := by
  rcases hupon with
    ⟨register, loaded, reviewed, progress, world, hload, hreview, _, hfollows, hnone⟩
  have hbelow := stores.loadsBelow hregisters course hkeeps hload
  rcases reviews_of_runFrom hwrites hnames hbelow hreview with ⟨reviews⟩
  rcases hfollows with ⟨_, surface, _, hfound, _⟩
  have hloaded := hplaced.of_held_eq (course.held_loaded hstores hload)
  have hplaces := ((maintains_review (works_keepsPlaces hwrites hnames) hbelow).of_runFrom
    (keepsPlaces_of_placed hloaded) hreview).1
  rcases reviews.exists_file hreads hplaces.placed hfound with ⟨bytes, hbytes, hsurface, hname⟩
  rw [stores.isStray_iff_strays course hstores hload]
  exact reviews.strays (hregisters _ _ _ hload) ⟨hnone, bytes, surface, hbytes, hsurface, hname⟩

theorem placed_run (stores : Stores services) (course : Course services project start)
    (hstores : StoresSpare files) (hwrites : WritesListed files) (hnames : NamesFiles files)
    (hbelow : LoadsBelow services course.begun) (hplaced : files.Placed start)
    (hrestores : ¬FailsToRestore services project start) :
    files.Placed (runIn (run services project) start).2 := by
  have hplaces := course.keepsPlaces stores hstores hwrites hnames hbelow hplaced
  by_cases hundone : course.IsUndone
  · have hrestored := course.restored_of_undone hrestores hundone
    exact hplaces.placed_restored
      (course.held_run_of_undone hstores hwrites hbelow hundone hrestored)
  · exact hplaces.placed.of_held_eq (course.held_run_of_not_undone hstores hundone stores)

theorem isStray_of_undone (course : Course services project start) (hstores : StoresSpare files)
    (hwrites : WritesListed files) (hnames : NamesFiles files) (hreads : files.ReadsListed)
    (hbelow : LoadsBelow services course.begun) (hplaced : files.Placed start)
    (hrestores : ¬FailsToRestore services project start) (hpart : course.full? = none)
    (hundone : course.IsUndone)
    (hstray : stores.IsStray files (runIn (run services project) start).2 name) :
    stores.IsStray files start name := by
  have hrestored := course.restored_of_undone hrestores hundone
  have hheld := course.held_run_of_undone hstores hwrites hbelow hundone hrestored
  have hstored := (stores.stored_run course).trans (stores.stored_of_undone course hundone)
  rcases hstray with ⟨hnone, bytes, surface, hbytes, hsurface, hname⟩
  rw [(stores.stored_eq_iff.mp hstored).2] at hnone
  rw [hheld] at hbytes
  refine ⟨hnone, ?_⟩
  rcases course.of_part hpart with ⟨error, hload, _, hprogress⟩ | ⟨register, loaded, hload, hrun⟩
  · have hempty : course.progress.backup = .empty := congrArg Progress.backup hprogress
    unfold ClassFiles.restored at hbytes
    rw [hempty, Backup.noted?_empty, Option.getD_none, course.held_loaded hstores hload] at hbytes
    exact ⟨bytes, surface, hbytes, hsurface, hname⟩
  · have hloaded := course.held_loaded hstores hload
    have hholds := holdsClass_of_undone hwrites hnames hreads (hbelow hload)
      (hplaced.of_held_eq hloaded) rfl hrun hbytes hsurface
    rw [hname] at hholds
    exact hholds.of_held_eq hloaded.symm

theorem isStray_of_kept (course : Course services project start) (hstores : StoresSpare files)
    (hwrites : WritesListed files) (hnames : NamesFiles files)
    (hregisters : ∀ world register loaded,
      runIn services.ownership.load world = (.ok (some register), loaded) → register.Consistent)
    (hbelow : LoadsBelow services course.begun) (hpart : course.full? = none)
    (hkept : ¬course.IsUndone)
    (hstray : stores.IsStray files (runIn (run services project) start).2 name) :
    stores.IsStray files start name := by
  rcases course.exists_of_not_undone hkept with ⟨draft, hresult, hsuccess, hsaved⟩
  rcases course.exists_look with ⟨look, _⟩
  have howners := (stores.stored_of_saved course look hresult hsuccess hsaved).1
  rw [← (stores.stored_eq_iff.mp (stores.stored_run course)).2] at howners
  have hheld := course.held_run_of_not_undone hstores hkept stores
  have hended : Strays files draft.ownership course.ended name := by
    unfold IsStray at hstray
    rw [howners] at hstray
    exact ⟨hstray.1, hstray.2.of_held_eq hheld.symm⟩
  rcases course.of_part hpart with ⟨error, _, hfailed, _⟩ | ⟨register, loaded, hload, hrun⟩
  · rw [hresult] at hfailed
    cases hfailed
  · rw [hresult] at hrun
    rcases Completion.exists_of_runFrom hrun with ⟨stages, hfinishes⟩
    rw [stores.isStray_iff_strays course hstores hload]
    exact Completion.strays_of_finishes hwrites hnames (hregisters _ _ _ hload) (hbelow hload)
      hfinishes hended

/-- A build that does not turn to all sources leaves no class astray that was not so before. -/
theorem isStray_of_run (course : Course services project start) (hstores : StoresSpare files)
    (hwrites : WritesListed files) (hnames : NamesFiles files) (hreads : files.ReadsListed)
    (hregisters : ∀ world register loaded,
      runIn services.ownership.load world = (.ok (some register), loaded) → register.Consistent)
    (hbelow : LoadsBelow services course.begun) (hplaced : files.Placed start)
    (hrestores : ¬FailsToRestore services project start) (hpart : course.full? = none)
    (hstray : stores.IsStray files (runIn (run services project) start).2 name) :
    stores.IsStray files start name := by
  by_cases hundone : course.IsUndone
  · exact stores.isStray_of_undone course hstores hwrites hnames hreads hbelow hplaced hrestores
      hpart hundone hstray
  · exact stores.isStray_of_kept course hstores hwrites hnames hregisters hbelow hpart hundone
      hstray

/-!
# From build to build
-/

/--
What builds come to from an empty destination with nothing stored, and from which
surroundings they began, the last one first. Between them sources may be edited.
-/
inductive History (files : ClassFiles services.host project.destination) : σ → List σ → Prop where
  | empty {world : σ} (nothing : stores.stored world = (none, none))
      (bare : ∀ key, files.held world key = none) : History files world []
  | edited {world world' : σ} {builds : List σ} (before : History files world builds)
      (stored : stores.stored world' = stores.stored world)
      (kept : files.held world' = files.held world) : History files world' builds
  | built {world : σ} {builds : List σ} (before : History files world builds) :
      History files (runIn (run services project) world).2 (world :: builds)

theorem unchanged_or_course (project : Project)
    {files : ClassFiles services.host project.destination} (hstores : StoresSpare files)
    (start : σ) :
    (stores.stored (runIn (run services project) start).2 = stores.stored start ∧
      files.held (runIn (run services project) start).2 = files.held start) ∨
    Nonempty (Course services project start) := by
  have hserves := stores.serves project.destination (stores.stored start)
  have hlook : Maintains (fun world => stores.stored world = stores.stored start ∧
      files.held world = files.held start) (fun _ => True) (lookForChanges services project) := by
    intro world hkept
    have hheld := hstores.lookForChanges world
    exact ⟨⟨(hserves.lookForChanges world hkept.1).1, hheld.trans hkept.2⟩, fun _ _ => trivial⟩
  refine (run_or_course ?_ hlook ⟨rfl, rfl⟩).imp_left And.left
  intro world hkept
  exact ⟨hserves.milliseconds world hkept.1, (files.milliseconds_keeps world).trans hkept.2⟩

variable {stores}

theorem KeepsBelow.of_stored_eq {world world' : σ} (h : stores.KeepsBelow world)
    (hstored : stores.stored world' = stores.stored world) : stores.KeepsBelow world' := by
  unfold KeepsBelow
  rw [(stores.stored_eq_iff.mp hstored).2]
  exact h

theorem IsStray.of_eq {world world' : σ} (h : stores.IsStray files world' name)
    (hstored : stores.stored world' = stores.stored world)
    (hheld : files.held world' = files.held world) : stores.IsStray files world name := by
  unfold IsStray at h
  rw [(stores.stored_eq_iff.mp hstored).2] at h
  exact ⟨h.1, h.2.of_held_eq hheld.symm⟩

theorem History.exists_strands {world : σ} {builds : List σ}
    (h : stores.History files world builds) (hstores : StoresSpare files)
    (hwrites : WritesListed files) (hnames : NamesFiles files) (hreads : files.ReadsListed)
    (hregisters : ∀ world register loaded,
      runIn services.ownership.load world = (.ok (some register), loaded) → register.Consistent)
    (hrestores : ∀ start ∈ builds, ¬FailsToRestore services project start) :
    stores.KeepsBelow world ∧ files.Placed world ∧
      ∀ name, stores.IsStray files world name →
        ∃ start ∈ builds, stores.Strands files start name := by
  induction h with
  | empty nothing bare =>
      refine ⟨?_, ?_, ?_⟩
      · intro owners howners
        have hnone : stores.owners _ = none := congrArg Prod.snd nothing
        rw [hnone] at howners
        cases howners
      · intro key bytes surface hbytes
        rw [bare key] at hbytes
        cases hbytes
      · intro name hstray
        rcases hstray with ⟨_, bytes, _, hbytes, _⟩
        rw [bare] at hbytes
        cases hbytes
  | edited before stored kept ih =>
      rcases ih hrestores with ⟨hkeeps, hplaced, hstrays⟩
      refine ⟨hkeeps.of_stored_eq stored, hplaced.of_held_eq kept, ?_⟩
      exact fun name hstray => hstrays name (hstray.of_eq stored kept)
  | @built world builds before ih =>
      rcases List.forall_mem_cons.mp hrestores with ⟨hlast, hrestores⟩
      rcases ih hrestores with ⟨hkeeps, hplaced, hstrays⟩
      have hearlier : ∀ name, stores.IsStray files world name →
          ∃ start ∈ world :: builds, stores.Strands files start name := by
        intro name hstray
        rcases hstrays name hstray with ⟨start, hstart, hstrands⟩
        exact ⟨start, List.mem_cons_of_mem _ hstart, hstrands⟩
      rcases stores.unchanged_or_course project hstores world with ⟨hstored, hheld⟩ | ⟨⟨course⟩⟩
      · exact ⟨hkeeps.of_stored_eq hstored, hplaced.of_held_eq hheld,
          fun name hstray => hearlier name (hstray.of_eq hstored hheld)⟩
      · have hbelow := stores.loadsBelow hregisters course hkeeps
        refine ⟨stores.keepsBelow_run hregisters course hwrites hkeeps,
          stores.placed_run course hstores hwrites hnames hbelow hplaced hlast, ?_⟩
        intro name hstray
        by_cases hbefore : stores.IsStray files world name
        · exact hearlier name hbefore
        · refine ⟨world, List.mem_cons_self, ⟨course, ?_⟩, hbefore, hstray⟩
          rw [Option.isSome_iff_ne_none]
          intro hpart
          exact hbefore (stores.isStray_of_run course hstores hwrites hnames hreads hregisters
            hbelow hplaced hlast hpart hstray)

end Stores

/--
A build fails for want of a source exactly when its review comes upon a class
that has none. Whatever builds and edits have gone before, some build among them
then could not undo what it did, or turned to all sources and left this very
class astray.
-/
theorem strands_before_unowned (stores : Stores services) (hstores : StoresSpare files)
    (hwrites : WritesListed files) (hnames : NamesFiles files) (hreads : files.ReadsListed)
    (hfails : FailsOtherwise services)
    (hregisters : ∀ world register loaded,
      runIn services.ownership.load world = (.ok (some register), loaded) → register.Consistent)
    {world : σ} {builds : List σ} (hhistory : stores.History files world builds) :
    (∀ name, (runIn (run services project) world).1 = .error (.unownedClass name) →
      (∃ course : Course services project world, course.ComesUpon name) ∧
        ((∃ start ∈ builds, FailsToRestore services project start) ∨
          ∃ start ∈ builds, stores.Strands files start name)) ∧
    ∀ (course : Course services project world) (name : ClassName), course.ComesUpon name →
      ∃ other, (runIn (run services project) world).1 = .error (.unownedClass other) := by
  refine ⟨?_, fun course name hupon => course.unowned_of_comesUpon hupon⟩
  intro name hunowned
  rcases exists_comesUpon_of_unowned stores hfails hunowned with ⟨course, hupon⟩
  refine ⟨⟨course, hupon⟩, ?_⟩
  by_cases hspoilt : ∃ start ∈ builds, FailsToRestore services project start
  · exact Or.inl hspoilt
  · right
    have hrestores : ∀ start ∈ builds, ¬FailsToRestore services project start :=
      fun start hstart hfailed => hspoilt ⟨start, hstart, hfailed⟩
    rcases hhistory.exists_strands hstores hwrites hnames hreads hregisters hrestores with
      ⟨hkeeps, hplaced, hstrays⟩
    exact hstrays name (stores.isStray_of_comesUpon hupon hstores hwrites hnames hreads hregisters
      hkeeps hplaced)

/-!
# A class that a failed first build leaves

Of two sources one is broken at first. The other one compiles to two classes,
and later to one of them only, which then ceases to be public.
-/

theorem failsOtherwise_desk (editions : List Edition) (broken : List (String × Nat)) :
    FailsOtherwise (Desk.services editions broken) :=
  ⟨fun _ _ _ => nofun, fun _ _ => nofun, fun _ _ _ => nofun, fun _ _ => nofun,
    fun _ _ _ => nofun⟩

def lastingEditions : List Edition :=
  [⟨1, ⟨"A.java", ⟨"A"⟩, Shelf.classBytes 0x21 65⟩⟩,
    ⟨1, ⟨"A.java", Shelf.solo, Shelf.subclassBytes 88 65⟩⟩,
    ⟨2, ⟨"A.java", ⟨"A"⟩, Shelf.classBytes 0x21 65⟩⟩,
    ⟨3, ⟨"A.java", ⟨"A"⟩, Shelf.classBytes 0x20 65⟩⟩]

def lastingServices : Services (StateM Desk) :=
  Desk.services lastingEditions [("B.java", 1)]

def littered : Desk :=
  { (runIn (run lastingServices (Shelf.project Shelf.out)) (bareDesk 1)).2 with
    tree := (bareDesk 2).tree }

def lasting : Desk :=
  { (runIn (run lastingServices (Shelf.project Shelf.out)) littered).2 with
    tree := [("A.java", Desk.written 3), ("B.java", Desk.written 2)] }

theorem history_lasting :
    (Desk.stores lastingEditions [("B.java", 1)]).History
      (Desk.classFiles lastingEditions [("B.java", 1)]) lasting [littered, bareDesk 1] := by
  refine .edited (.built (.edited (.built (.empty rfl ?_)) rfl rfl)) rfl rfl
  exact fun _ => rfl

theorem unowned_lasting :
    (runIn (run lastingServices (Shelf.project Shelf.out)) lasting).1 =
      .error (.unownedClass Shelf.solo) := by
  have hfailed : (match (runIn (run lastingServices (Shelf.project Shelf.out)) lasting).1 with
      | .error (.unownedClass name) => some name
      | _ => none) = some Shelf.solo := by
    simp only [lasting, littered, run, lookForChanges, Survey.changes, Survey.observe, Survey.look,
      Find.sources, Find.sortKeys_eq_insertionSort, compileNeeded, compileChanges, openLedger,
      followUp, reviewProduced, Inventory.take, Find.classFiles, Find.sortPaths_eq_insertionSort]
    decide +kernel
  split at hfailed
  · rename_i name hunowned
    cases hfailed
    exact hunowned
  · cases hfailed

theorem strands_before_unowned_of_littered :
    let services := lastingServices
    let project := Shelf.project Shelf.out
    let stores := Desk.stores lastingEditions [("B.java", 1)]
    let files := Desk.classFiles lastingEditions [("B.java", 1)]
    stores.History files lasting [littered, bareDesk 1] ∧
      (runIn (run services project) lasting).1 = .error (.unownedClass Shelf.solo) ∧
      (∃ course : Course services project lasting, course.ComesUpon Shelf.solo) ∧
      ((∃ start ∈ [littered, bareDesk 1], FailsToRestore services project start) ∨
        ∃ start ∈ [littered, bareDesk 1], stores.Strands files start Shelf.solo) := by
  intro services project stores files
  have hnames : NamesFiles files := Desk.namesFiles _ (by decide) (by decide +kernel)
  refine ⟨history_lasting, unowned_lasting, ?_⟩
  exact (strands_before_unowned stores (Desk.storesSpare _ _) (Desk.writesListed _ (by decide))
    hnames (Desk.readsListed _ _) (failsOtherwise_desk _ _) (fun _ _ _ => Desk.consistent_of_load)
    history_lasting).1 _ unowned_lasting

theorem unowned_of_failed_full_build :
    let services := lastingServices
    let project := Shelf.project Shelf.out
    let stores := Desk.stores lastingEditions [("B.java", 1)]
    let files := Desk.classFiles lastingEditions [("B.java", 1)]
    WritesListed files ∧ NamesFiles files ∧ FailsOtherwise services ∧
      stores.History files lasting [littered, bareDesk 1] ∧
      reported services project (bareDesk 1) = some (.cold, false) ∧
      reported services project littered = some (.cold, true) ∧
      (runIn (run services project) lasting).1 = .error (.unownedClass Shelf.solo) := by
  intro services project stores files
  have hnames : NamesFiles files := Desk.namesFiles _ (by decide) (by decide +kernel)
  have hreported : reported services project (bareDesk 1) = some (.cold, false) ∧
      reported services project littered = some (.cold, true) := by
    simp only [services, project, littered, reported, run, lookForChanges, Survey.changes,
      Survey.observe, Survey.look, Find.sources, Find.sortKeys_eq_insertionSort]
    decide +kernel
  exact ⟨Desk.writesListed _ (by decide), hnames, failsOtherwise_desk _ _, history_lasting,
    hreported.1, hreported.2, unowned_lasting⟩

end Build
end Recompile
