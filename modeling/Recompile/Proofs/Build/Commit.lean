import Recompile.Proofs.Build.Dependants
import Recompile.Proofs.Build.Stores

/-!
# What a build saves, and when

The fingerprints that are stored tell the next build which sources it need not
compile. They are saved last, after the register, and only by a build that
succeeded. What is saved is what the build saw before it compiled anything,
so a source that is edited meanwhile counts as changed the next time.
-/

namespace Recompile
namespace Build

variable {σ : Type}

inductive Deed where
  | compiled (batch : Batch)
  | touched (path : Path)
  | savedRegister (register : Ownership) (kept : Bool)
  | savedFingerprints (fingerprints : Fingerprints) (kept : Bool)

def Deed.isSave : Deed → Bool
  | savedRegister _ _ => true
  | savedFingerprints _ _ => true
  | _ => false

/-- An account of all that services are asked to do, in order. -/
structure Journal (services : Services (StateM σ)) where
  deeds : σ → List Deed
  looks : ∀ was, Looks services.host (fun world => deeds world = was) fun _ => True
  milliseconds : ∀ world, deeds (services.host.milliseconds.run world).2 = deeds world
  loadFingerprints : ∀ world, deeds (runIn services.fingerprints.load world).2 = deeds world
  loadOwnership : ∀ world, deeds (runIn services.ownership.load world).2 = deeds world
  makeDirectories : ∀ path world,
    deeds ((services.host.makeDirectories path).run world).2 = deeds world ++ [.touched path]
  writeFile : ∀ path bytes world,
    deeds ((services.host.writeFile path bytes).run world).2 = deeds world ++ [.touched path]
  removeFile : ∀ path world,
    deeds ((services.host.removeFile path).run world).2 = deeds world ++ [.touched path]
  compile : ∀ batch world,
    deeds (runIn (services.compile batch) world).2 = deeds world ++ [.compiled batch]
  saveOwnership : ∀ register world,
    deeds (runIn (services.ownership.save register) world).2 = deeds world ++
      [.savedRegister register (runIn (services.ownership.save register) world).1.toBool]
  saveFingerprints : ∀ saved world,
    deeds (runIn (services.fingerprints.save saved) world).2 = deeds world ++
      [.savedFingerprints saved (runIn (services.fingerprints.save saved) world).1.toBool]

/-!
# Services that keep a journal

Any services can be made to keep one.
-/

section Recorded

def recording {α : Type} (deeds : α → List Deed) (operation : StateM σ α) :
    StateM (σ × List Deed) α :=
  fun state =>
    let found := operation.run state.1
    (found.1, found.2, state.2 ++ deeds found.1)

def unrecorded {α : Type} (operation : StateM σ α) : StateM (σ × List Deed) α :=
  fun state =>
    let found := operation.run state.1
    (found.1, found.2, state.2)

def recordedHost (host : Host (StateM σ)) : Host (StateM (σ × List Deed)) where
  kindOf path := unrecorded (host.kindOf path)
  realPath path := unrecorded (host.realPath path)
  readFile path := unrecorded (host.readFile path)
  modified path := unrecorded (host.modified path)
  filesBelow path := unrecorded (host.filesBelow path)
  makeDirectories path := recording (fun _ => [.touched path]) (host.makeDirectories path)
  writeFile path bytes := recording (fun _ => [.touched path]) (host.writeFile path bytes)
  removeFile path := recording (fun _ => [.touched path]) (host.removeFile path)
  openFile path := unrecorded (host.openFile path)
  readOpen file := unrecorded (host.readOpen file)
  writeOpen file pieces := unrecorded (host.writeOpen file pieces)
  workingDirectory := unrecorded host.workingDirectory
  launch program arguments := unrecorded (host.launch program arguments)
  milliseconds := unrecorded host.milliseconds

def recorded (services : Services (StateM σ)) : Services (StateM (σ × List Deed)) where
  host := recordedHost services.host
  compile batch :=
    ExceptT.mk (recording (fun _ => [.compiled batch]) (services.compile batch).run)
  method := services.method
  fingerprints :=
    ⟨ExceptT.mk (unrecorded services.fingerprints.load.run),
      fun saved => ExceptT.mk (recording (fun answer => [.savedFingerprints saved answer.toBool])
        (services.fingerprints.save saved).run)⟩
  ownership :=
    ⟨ExceptT.mk (unrecorded services.ownership.load.run),
      fun register => ExceptT.mk (recording (fun answer => [.savedRegister register answer.toBool])
        (services.ownership.save register).run)⟩

def recordedJournal (services : Services (StateM σ)) : Journal (recorded services) where
  deeds := Prod.snd
  looks _ := ⟨fun _ _ h => h, fun _ _ h => h, fun _ _ h => h, fun _ _ h => h,
    fun _ _ => trivial, fun _ _ => trivial⟩
  milliseconds _ := rfl
  loadFingerprints _ := rfl
  loadOwnership _ := rfl
  makeDirectories _ _ := rfl
  writeFile _ _ _ := rfl
  removeFile _ _ := rfl
  compile _ _ := rfl
  saveOwnership _ _ := rfl
  saveFingerprints _ _ := rfl

def recordedStores {services : Services (StateM σ)} (stores : Stores services) :
    Stores (recorded services) where
  fingerprints state := stores.fingerprints state.1
  owners state := stores.owners state.1
  serves destination was := {
    kindOf := fun path state => (stores.serves destination was).kindOf path state.1
    filesBelow := fun path state => (stores.serves destination was).filesBelow path state.1
    readFile := fun path state => (stores.serves destination was).readFile path state.1
    modified := fun path state => (stores.serves destination was).modified path state.1
    disk := fun _ _ => trivial
    malformedClass := fun _ _ => trivial
    milliseconds := fun state => (stores.serves destination was).milliseconds state.1
    makeDirectories := fun name parent hparent state =>
      (stores.serves destination was).makeDirectories name parent hparent state.1
    writeFile name bytes state := (stores.serves destination was).writeFile name bytes state.1
    removeFile := fun name state => (stores.serves destination was).removeFile name state.1
    compile := fun batch state => (stores.serves destination was).compile batch state.1
    loadFingerprints := fun state => (stores.serves destination was).loadFingerprints state.1
    loadOwnership := fun state => (stores.serves destination was).loadOwnership state.1 }
  loadFingerprints h := stores.loadFingerprints h
  loadOwnership h := stores.loadOwnership h
  saveFingerprints_keeps saved state := stores.saveFingerprints_keeps saved state.1
  saveFingerprints_ok h := stores.saveFingerprints_ok h
  saveOwnership_keeps register state := stores.saveOwnership_keeps register state.1
  saveOwnership_ok h := stores.saveOwnership_ok h
  saveOwnership_error h := stores.saveOwnership_error h

end Recorded

/-!
# The saves of one build
-/

variable {services : Services (StateM σ)} {project : Project}

inductive Commits (services : Services (StateM σ)) (project : Project) (start : σ) :
    List Deed → Prop where
  | nothing : Commits services project start []
  | refused (course : Course services project start) (draft : Draft)
      (result_eq : course.result = .ok draft) (success : draft.success = true) :
      Commits services project start [.savedRegister draft.ownership false]
  | committed (course : Course services project start) (draft : Draft)
      (result_eq : course.result = .ok draft) (success : draft.success = true)
      (look : FirstLook services project start) (kept : Bool) :
      Commits services project start
        [.savedRegister draft.ownership true,
          .savedFingerprints look.observation.fingerprints kept]

namespace Journal

variable (journal : Journal services) {start : σ}

def Saves (was : List Deed) (saves : List Deed) (world : σ) : Prop :=
  ∃ done, journal.deeds world = was ++ done ∧ done.filter Deed.isSave = saves

variable {journal} {was saves : List Deed} {world left : σ}

theorem Saves.of_deeds_eq (h : journal.Saves was saves world)
    (hdeeds : journal.deeds left = journal.deeds world) : journal.Saves was saves left := by
  unfold Saves
  rw [hdeeds]
  exact h

theorem Saves.append (h : journal.Saves was saves world) {deed : Deed}
    (hdeeds : journal.deeds left = journal.deeds world ++ [deed]) :
    journal.Saves was (saves ++ [deed].filter Deed.isSave) left := by
  rcases h with ⟨done, hdone, hsaves⟩
  refine ⟨done ++ [deed], ?_, ?_⟩
  · rw [hdeeds, hdone, List.append_assoc]
  · rw [List.filter_append, hsaves]

theorem Saves.append_other (h : journal.Saves was saves world) {deed : Deed}
    (hother : deed.isSave = false) (hdeeds : journal.deeds left = journal.deeds world ++ [deed]) :
    journal.Saves was saves left := by
  simpa [List.filter, hother] using h.append hdeeds

theorem serves (journal : Journal services) (destination : Path) (was saves : List Deed) :
    Serves services destination (journal.Saves was saves) fun _ => True where
  kindOf path world h := h.of_deeds_eq ((journal.looks _).kindOf path world rfl)
  filesBelow path world h := h.of_deeds_eq ((journal.looks _).filesBelow path world rfl)
  readFile path world h := h.of_deeds_eq ((journal.looks _).readFile path world rfl)
  modified path world h := h.of_deeds_eq ((journal.looks _).modified path world rfl)
  disk _ _ := trivial
  malformedClass _ _ := trivial
  milliseconds world h := h.of_deeds_eq (journal.milliseconds world)
  makeDirectories _ parent _ world h := h.append_other rfl (journal.makeDirectories parent world)
  writeFile _ bytes world h := h.append_other rfl (journal.writeFile _ bytes world)
  removeFile _ world h := h.append_other rfl (journal.removeFile _ world)
  compile batch world h := ⟨h.append_other rfl (journal.compile batch world), fun _ _ => trivial⟩
  loadFingerprints world h := ⟨h.of_deeds_eq (journal.loadFingerprints world), fun _ _ => trivial⟩
  loadOwnership world h := ⟨h.of_deeds_eq (journal.loadOwnership world), fun _ _ => trivial⟩

theorem saves_ended (journal : Journal services) (course : Course services project start) :
    journal.Saves (journal.deeds start) [] course.ended :=
  ((journal.serves _ _ _).ended course ⟨[], (List.append_nil _).symm, rfl⟩).2

theorem saves_saved (journal : Journal services) (course : Course services project start)
    (draft : Draft) :
    journal.Saves (journal.deeds start)
      [.savedRegister draft.ownership (course.saved draft).1.toBool] (course.saved draft).2 := by
  have hsaved := (journal.saves_ended course).append
    (journal.saveOwnership draft.ownership course.ended)
  exact hsaved

theorem commits_of_course (journal : Journal services) (course : Course services project start) :
    ∃ saves, Commits services project start saves ∧
      journal.Saves (journal.deeds start) saves course.concluded.2 := by
  by_cases hundone : course.IsUndone
  · rw [course.concluded_of_undone hundone]
    have hrestored := fun saves world hsaves =>
      ((journal.serves _ (journal.deeds start) saves).restore course.wellKept world hsaves).1
    unfold Course.IsUndone at hundone
    unfold Course.undoneFrom
    cases hresult : course.result with
    | error error => exact ⟨[], .nothing, hrestored _ _ (journal.saves_ended course)⟩
    | ok draft =>
        rw [hresult] at hundone
        simp only
        cases hsuccess : draft.success with
        | false => exact ⟨[], .nothing, hrestored _ _ (journal.saves_ended course)⟩
        | true =>
            rcases hundone hsuccess with ⟨error, hrefused⟩
            have hsaved := journal.saves_saved course draft
            rw [hrefused] at hsaved
            exact ⟨_, .refused course draft hresult hsuccess, hrestored _ _ hsaved⟩
  · rcases course.exists_of_not_undone hundone with ⟨draft, hresult, hsuccess, hkept⟩
    rcases course.exists_look with ⟨look, _, hsurvey, _⟩
    have hprogress := ((journal.serves _ _ _).ended course
      ⟨[], (List.append_nil _).symm, rfl⟩).1.trans hsurvey
    have hsaved := journal.saves_saved course draft
    rw [hkept] at hsaved
    rw [course.concluded_of_saved hprogress hresult hsuccess hkept]
    exact ⟨_, .committed course draft hresult hsuccess look _,
      hsaved.append (journal.saveFingerprints look.observation.fingerprints _)⟩

theorem commits_of_run (journal : Journal services) (project : Project) (start : σ) :
    ∃ saves, Commits services project start saves ∧
      journal.Saves (journal.deeds start) saves (runIn (run services project) start).2 := by
  have hstart : journal.Saves (journal.deeds start) [] start := ⟨[], (List.append_nil _).symm, rfl⟩
  have hserves := journal.serves project.destination (journal.deeds start) []
  rcases run_or_course hserves.milliseconds hserves.lookForChanges hstart with
    ⟨hsaves, _⟩ | ⟨⟨course⟩⟩
  · exact ⟨[], .nothing, hsaves⟩
  · rcases journal.commits_of_course course with ⟨saves, hcommits, hsaves⟩
    refine ⟨saves, hcommits, ?_⟩
    rw [course.runIn_run]
    rcases hconcluded : course.concluded with ⟨answer, left⟩
    rw [hconcluded] at hsaves
    cases answer with
    | error error => exact hsaves
    | ok draft => exact hsaves.of_deeds_eq (journal.milliseconds left)

end Journal

/-!
# What is stored from build to build
-/

theorem Course.mode_ne_noOp {start : σ} (course : Course services project start) {draft : Draft}
    (hresult : course.result = .ok draft) : draft.mode ≠ .noOp := by
  rcases course.of_result hresult with ⟨_, _, _, _, hattempt⟩ | ⟨_, _, _, _, hfull⟩
  · rcases Completion.exists_of_runFrom hattempt with ⟨_, hfinishes⟩
    rw [hfinishes.mode_eq]
    exact Mode.noConfusion
  · rw [Course.mode_of_compileAll hfull]
    exact Mode.noConfusion

namespace Stores

variable (stores : Stores services) {start : σ}

/-- What builds come to from nothing, if nobody else changes what is stored. -/
inductive Reached : σ → Prop where
  | empty {world : σ} (nothing : stores.stored world = (none, none)) : Reached world
  | edited {world world' : σ} (before : Reached world)
      (kept : stores.stored world' = stores.stored world) : Reached world'
  | built {world : σ} (project : Project) (before : Reached world) :
      Reached (runIn (run services project) world).2

theorem stored_run (course : Course services project start) :
    stores.stored (runIn (run services project) start).2 =
      stores.stored course.concluded.2 := by
  rw [course.runIn_run]
  rcases course.concluded with ⟨answer, left⟩
  cases answer with
  | error error => rfl
  | ok draft => exact (stores.serves project.destination (stores.stored left)).milliseconds left rfl

theorem stored_run_cases (project : Project) (start : σ) :
    (stores.stored (runIn (run services project) start).2 = stores.stored start ∧
      ∀ report, (runIn (run services project) start).1 = .ok report →
        report.mode = .noOp ∨ report.success = false) ∨
    ∃ course : Course services project start, ¬course.IsUndone := by
  have hserves := stores.serves project.destination (stores.stored start)
  rcases run_or_course hserves.milliseconds hserves.lookForChanges rfl with
    ⟨hstored, _, hmode⟩ | ⟨⟨course⟩⟩
  · exact Or.inl ⟨hstored, fun report hreport => Or.inl (hmode report hreport)⟩
  · by_cases hundone : course.IsUndone
    · left
      refine ⟨(stores.stored_run course).trans (stores.stored_of_undone course hundone), ?_⟩
      intro report hreport
      right
      rcases course.of_report hreport with ⟨draft, hresult, hsettled, _, _, hsuccess⟩
      unfold Course.IsUndone at hundone
      rw [hresult] at hundone
      rw [hsuccess]
      cases hdraft : draft.success with
      | false => rfl
      | true =>
          rcases hundone hdraft with ⟨error, hrefused⟩
          rw [course.saved_of_settle hdraft hsettled] at hrefused
          cases hrefused
    · exact Or.inr ⟨course, hundone⟩

theorem owners_of_kept (course : Course services project start) (hkept : ¬course.IsUndone) :
    stores.owners (runIn (run services project) start).2 ≠ none := by
  rcases course.exists_of_not_undone hkept with ⟨draft, hresult, hsuccess, hsaved⟩
  rcases course.exists_look with ⟨look, _⟩
  have howners := (stores.stored_of_saved course look hresult hsuccess hsaved).1
  rw [(stores.stored_eq_iff.mp (stores.stored_run course)).2, howners]
  exact Option.some_ne_none _

theorem Reached.owners_ne_none {stores : Stores services} {world : σ}
    (h : stores.Reached world) :
    stores.fingerprints world ≠ none → stores.owners world ≠ none := by
  induction h with
  | empty nothing =>
      intro hfingerprints
      exact absurd (congrArg Prod.fst nothing) hfingerprints
  | edited _ kept ih =>
      rw [(stores.stored_eq_iff.mp kept).1, (stores.stored_eq_iff.mp kept).2]
      exact ih
  | built project _ ih =>
      rcases stores.stored_run_cases project _ with ⟨hstored, _⟩ | ⟨course, hkept⟩
      · rw [(stores.stored_eq_iff.mp hstored).1, (stores.stored_eq_iff.mp hstored).2]
        exact ih
      · exact fun _ => stores.owners_of_kept course hkept

theorem exists_of_report (stores : Stores services) {report : Report}
    (hreport : (runIn (run services project) start).1 = .ok report)
    (hmode : report.mode ≠ .noOp) (hsuccess : report.success = true) :
    ∃ course : Course services project start, ∃ draft, course.result = .ok draft ∧
      draft.success = true ∧ draft.mode = report.mode ∧ (course.saved draft).1 = .ok () ∧
        course.concluded.1 = .ok draft := by
  rcases stores.stored_run_cases project start with ⟨_, hnone⟩ | ⟨course, hkept⟩
  · rcases hnone report hreport with hnoOp | hfailed
    · exact absurd hnoOp hmode
    · rw [hsuccess] at hfailed
      cases hfailed
  · rcases course.exists_of_not_undone hkept with ⟨draft, hresult, hdraft, hsaved⟩
    rcases course.of_report hreport with ⟨found, hsame, hsettled, hdraftMode, _⟩
    rw [hresult] at hsame
    cases hsame
    refine ⟨course, draft, hresult, hdraft, hdraftMode.symm, hsaved, ?_⟩
    unfold Course.concluded conclude
    rw [hresult, runIn_bind, hsettled]
    rfl

theorem fingerprints_of_report (look : FirstLook services project start) {report : Report}
    (hreport : (runIn (run services project) start).1 = .ok report)
    (hmode : report.mode ≠ .noOp) (hsuccess : report.success = true) :
    stores.fingerprints (runIn (run services project) start).2 =
      some look.observation.fingerprints := by
  rcases stores.exists_of_report hreport hmode hsuccess with
    ⟨course, draft, hresult, hdraft, _, hsaved, hconcluded⟩
  rw [(stores.stored_eq_iff.mp (stores.stored_run course)).1]
  exact (stores.stored_of_saved course look hresult hdraft hsaved).2 draft hconcluded

theorem owners_of_report {report : Report}
    (hreport : (runIn (run services project) start).1 = .ok report)
    (hmode : report.mode ≠ .noOp) (hsuccess : report.success = true) :
    ∃ course : Course services project start, ∃ draft, course.result = .ok draft ∧
      draft.success = true ∧ draft.mode = report.mode ∧
        stores.owners (runIn (run services project) start).2 = some draft.ownership.byClass := by
  rcases stores.exists_of_report hreport hmode hsuccess with
    ⟨course, draft, hresult, hdraft, hdraftMode, hsaved, _⟩
  rcases course.exists_look with ⟨look, _⟩
  refine ⟨course, draft, hresult, hdraft, hdraftMode, ?_⟩
  rw [(stores.stored_eq_iff.mp (stores.stored_run course)).2]
  exact (stores.stored_of_saved course look hresult hdraft hsaved).1

end Stores

theorem FirstLook.run_of_committed {start : σ} (look : FirstLook services project start)
    (stores : Stores services) (journal : Journal services)
    (hcommitted : stores.fingerprints start = some look.observation.fingerprints) :
    (∃ report, (runIn (run services project) start).1 = .ok report ∧ report.mode = .noOp ∧
      report.success = true) ∧
    stores.stored (runIn (run services project) start).2 = stores.stored start ∧
    journal.deeds (runIn (run services project) start).2 = journal.deeds start := by
  rw [← stores.committed_eq look] at hcommitted
  rw [look.runIn_run_of_unchanged (look.unchanged_of_committed hcommitted)]
  refine ⟨⟨_, rfl, rfl, rfl⟩, (stores.serves _ _).left look rfl, ?_⟩
  have hstarted := journal.milliseconds start
  have hlooked : Maintains (fun world => journal.deeds world = journal.deeds start)
      (fun _ => True) (lookForChanges services project) := by
    refine Maintains.bind ?_ fun survey => (journal.looks _).changes survey
    refine Maintains.bind ?_ fun _ => maintains_pure _
    intro world hworld
    exact ⟨(journal.loadFingerprints world).trans hworld, fun _ _ => trivial⟩
  rw [journal.milliseconds]
  exact (hlooked.of_runIn hstarted look.runIn_lookForChanges).1

/--
The saves of a build are those of its register and of the fingerprints that it
saw first, in this order, and only if it succeeded. So fingerprints are never
stored without owners, only a build that succeeds stores anything, and a build
over the sources that were stored last does nothing.
-/
theorem commits_once_after_register (project : Project) (stores : Stores services)
    (journal : Journal services) :
    (∀ start, ∃ done,
      journal.deeds (runIn (run services project) start).2 = journal.deeds start ++ done ∧
        Commits services project start (done.filter Deed.isSave)) ∧
    (∀ world, stores.Reached world →
      stores.fingerprints world ≠ none → stores.owners world ≠ none) ∧
    (∀ start report, (runIn (run services project) start).1 = .ok report →
      report.mode = .noOp ∨ report.success = false →
        stores.stored (runIn (run services project) start).2 = stores.stored start) ∧
    ∀ start report, (runIn (run services project) start).1 = .ok report →
      report.mode ≠ .noOp → report.success = true →
        ∀ (look : FirstLook services project start) (later : σ),
          stores.fingerprints later =
            stores.fingerprints (runIn (run services project) start).2 →
          ∀ again : FirstLook services project later,
            again.observation.fingerprints = look.observation.fingerprints →
              (∃ report, (runIn (run services project) later).1 = .ok report ∧
                report.mode = .noOp ∧ report.success = true) ∧
              stores.stored (runIn (run services project) later).2 = stores.stored later ∧
              journal.deeds (runIn (run services project) later).2 = journal.deeds later := by
  refine ⟨?_, fun world hreached => hreached.owners_ne_none, ?_, ?_⟩
  · intro start
    rcases journal.commits_of_run project start with ⟨saves, hcommits, done, hdone, hsaves⟩
    rw [← hsaves] at hcommits
    exact ⟨done, hdone, hcommits⟩
  · intro start report hreport hnothing
    rcases stores.stored_run_cases project start with ⟨hstored, _⟩ | ⟨course, hkept⟩
    · exact hstored
    · rcases course.exists_of_not_undone hkept with ⟨draft, hresult, hdraft, _⟩
      rcases course.of_report hreport with ⟨_, hsame, _, hmode, _, hsuccess⟩
      rw [hresult] at hsame
      cases hsame
      rw [hmode, hsuccess] at hnothing
      rcases hnothing with hnoOp | hfailed
      · exact absurd hnoOp (course.mode_ne_noOp hresult)
      · rw [hdraft] at hfailed
        cases hfailed
  · intro start report hreport hmode hsuccess look later hlater again hagain
    apply again.run_of_committed stores journal
    rw [hlater, hagain]
    exact stores.fingerprints_of_report look hreport hmode hsuccess

/-!
# A first build

One source compiles to one class. After the first build another one finds
nothing to do.
-/

end Build

namespace Shelf

theorem stored_remove (path : Path) (shelf : Shelf) :
    (shelf.remove path).2.fingerprints = shelf.fingerprints ∧
      (shelf.remove path).2.register = shelf.register := by
  unfold remove
  cases shelf.held path.components with
  | none => exact ⟨rfl, rfl⟩
  | some bytes => exact ⟨rfl, rfl⟩

theorem stored_putAll (destination : Path) (made : List Product) (shelf : Shelf) :
    (shelf.putAll destination made).fingerprints = shelf.fingerprints ∧
      (shelf.putAll destination made).register = shelf.register := by
  induction made generalizing shelf with
  | nil => exact ⟨rfl, rfl⟩
  | cons product rest ih => exact ih _

def stores (sources : List String) (products : List Product) (succeeds : Bool) :
    Build.Stores (services sources products succeeds) where
  fingerprints := Shelf.fingerprints
  owners shelf := shelf.register.map Ownership.byClass
  serves destination was := {
    kindOf := fun _ _ h => h
    filesBelow := fun _ _ h => h
    readFile := fun _ _ h => h
    modified := fun _ _ h => h
    disk := fun _ _ => trivial
    malformedClass := fun _ _ => trivial
    milliseconds := fun _ h => h
    makeDirectories := fun _ _ _ _ h => h
    writeFile := fun _ _ _ h => h
    removeFile := by
      intro name shelf h
      have hstored := stored_remove (classFileIn destination name) shelf
      show ((shelf.remove (classFileIn destination name)).2.fingerprints,
        (shelf.remove (classFileIn destination name)).2.register.map Ownership.byClass) = was
      rw [hstored.1, hstored.2]
      exact h
    compile := by
      intro batch shelf h
      have hstored := stored_putAll batch.destination
        (products.filter fun product => product.source ∈ batch.sources) shelf
      refine ⟨?_, fun _ _ => trivial⟩
      show ((shelf.putAll batch.destination _).fingerprints,
        (shelf.putAll batch.destination _).register.map Ownership.byClass) = was
      rw [hstored.1, hstored.2]
      exact h
    loadFingerprints := fun _ h => ⟨h, fun _ _ => trivial⟩
    loadOwnership := fun _ h => ⟨h, fun _ _ => trivial⟩ }
  loadFingerprints h := (Except.ok.inj h).symm
  loadOwnership h := congrArg (Option.map Ownership.byClass) (Except.ok.inj h).symm
  saveFingerprints_keeps _ _ := rfl
  saveFingerprints_ok _ := rfl
  saveOwnership_keeps _ _ := rfl
  saveOwnership_ok _ := rfl
  saveOwnership_error := nofun

end Shelf

namespace Build

theorem commits_once_after_register_of_first_build :
    let services := recorded (Shelf.services ["A.java"] (Shelf.soloProducts "A.java") true)
    let project := Shelf.project Shelf.out
    let stores := recordedStores (Shelf.stores ["A.java"] (Shelf.soloProducts "A.java") true)
    let start : Shelf × List Deed := (⟨[], none, none⟩, [])
    let first := runIn (run services project) start
    let second := runIn (run services project) first.2
    (∃ report, first.1 = .ok report ∧ report.mode = .cold ∧ report.success = true) ∧
      (∃ register seen, first.2.2.filter Deed.isSave =
        [.savedRegister register true, .savedFingerprints seen true]) ∧
      stores.fingerprints first.2 ≠ none ∧ stores.owners first.2 ≠ none ∧
      (∃ report, second.1 = .ok report ∧ report.mode = .noOp) ∧ second.2.2 = first.2.2 := by
  intro services project stores start first second
  have hreport : (first.1.toOption.map fun report => (report.mode, report.success)) =
      some (.cold, true) := by
    decide +kernel
  have hstored : (stores.fingerprints first.2).isSome = true := by
    decide +kernel
  have hsaves : (first.2.2.filter Deed.isSave).map (fun deed => match deed with
      | .savedRegister _ kept => kept
      | .savedFingerprints _ kept => kept
      | _ => false) = [true, true] := by
    decide +kernel
  have hfirst : ((runIn (lookForChanges services project)
      (services.host.milliseconds.run start).2).1.toOption.bind fun found =>
        found.2.observation.map Observation.fingerprints) = some (Shelf.current ["A.java"]) := by
    decide +kernel
  have hsecond : ((runIn (lookForChanges services project)
      (services.host.milliseconds.run first.2).2).1.toOption.bind fun found =>
        found.2.observation.map Observation.fingerprints) = some (Shelf.current ["A.java"]) := by
    decide +kernel
  have hfingerprints : stores.fingerprints first.2 ≠ none := by
    rw [← Option.isSome_iff_ne_none]
    exact hstored
  rcases FirstLook.exists_of_seen hfirst with ⟨look, hlook⟩
  rcases FirstLook.exists_of_seen hsecond with ⟨again, hagain⟩
  rcases commits_once_after_register project stores
    (recordedJournal (Shelf.services ["A.java"] (Shelf.soloProducts "A.java") true)) with
    ⟨hcommits, hreached, _, hnothing⟩
  have hbuilt : stores.Reached first.2 := .built project (.empty rfl)
  have howners := hreached first.2 hbuilt hfingerprints
  have hshape : ∃ register seen, first.2.2.filter Deed.isSave =
      [.savedRegister register true, .savedFingerprints seen true] := by
    rcases hcommits start with ⟨done, hdone, hcommits⟩
    have hall : first.2.2 = done := hdone
    rw [hall] at hsaves ⊢
    generalize done.filter Deed.isSave = saves at hcommits hsaves ⊢
    cases hcommits with
    | nothing => cases hsaves
    | refused => cases hsaves
    | committed course draft _ _ look kept =>
        cases hsaves
        exact ⟨_, _, rfl⟩
  rcases hrun : first.1 with error | report
  · rw [hrun] at hreport
    cases hreport
  · rw [hrun] at hreport
    have hended : report.mode = .cold ∧ report.success = true :=
      Prod.mk.inj (Option.some.inj hreport)
    have hmode : report.mode ≠ .noOp := by
      rw [hended.1]
      exact Mode.noConfusion
    rcases hnothing start report hrun hmode hended.2 look first.2 rfl again
      (hagain.trans hlook.symm) with ⟨⟨later, hlater, hnoOp, _⟩, _, hdeeds⟩
    exact ⟨⟨report, rfl, hended⟩, hshape, hfingerprints, howners, ⟨later, hlater, hnoOp⟩, hdeeds⟩

end Build
end Recompile
