import Recompile.Proofs.Build.Stages

/-!
# The course of a build

A build that finds changes goes through its rounds and then keeps or undoes
the result. The course of a build is what it knows before the rounds; all that
happens later follows from it.
-/

namespace Recompile
namespace Build

variable {σ : Type}

theorem StoresSpare.lookForChanges {services : Services (StateM σ)} {project : Project}
    {files : ClassFiles services.host project.destination} (hstores : StoresSpare files) :
    files.Spares (lookForChanges services project) := by
  refine files.spares_bind ?_ fun survey => files.spares_changes survey
  exact files.spares_bind hstores.loadFingerprints fun _ => files.spares_pure _

/-- A build that finds changes, up to the point where it begins to compile. -/
structure Course (services : Services (StateM σ)) (project : Project) (start : σ) where
  survey : Survey
  changes : SourceChanges
  begun : σ
  looked : runIn (lookForChanges services project) (services.host.milliseconds.run start).2 =
    (.ok (changes, survey), begun)
  changed : changes.isEmpty = false

namespace Course

variable {services : Services (StateM σ)} {project : Project} {start : σ}
  (course : Course services project start)

def first : Progress :=
  ⟨course.survey, .empty⟩

def result : Except Failure Draft :=
  ((compileNeeded services project course.changes).runFrom course.first course.begun).1

def progress : Progress :=
  ((compileNeeded services project course.changes).runFrom course.first course.begun).2.1

def ended : σ :=
  ((compileNeeded services project course.changes).runFrom course.first course.begun).2.2

def rounds : List (Round σ) :=
  neededRounds services project course.changes course.first course.begun

def concluded : Except Failure Draft × σ :=
  runIn (conclude services course.result course.progress) course.ended

theorem runIn_run :
    runIn (run services project) start =
      match course.concluded with
      | (.ok draft, world) =>
        (.ok {
          mode := draft.mode
          changes := course.changes
          statuses := draft.statuses
          dependants := draft.dependants
          success := draft.success
          milliseconds := (services.host.milliseconds.run world).1 -
            (services.host.milliseconds.run start).1 }, (services.host.milliseconds.run world).2)
      | (.error error, world) => (.error error, world) := by
  unfold run
  rw [runIn_bind, runIn_lift]
  simp only
  rw [runIn_bind, course.looked]
  simp only
  rw [if_neg (by rw [course.changed]; exact Bool.false_ne_true)]
  rw [runIn_bind, runIn_exceptLift]
  simp only
  rcases hconcluded : course.concluded with ⟨answer, world⟩
  unfold concluded result ended progress first Step.runFrom at hconcluded
  rw [runIn_bind, hconcluded]
  cases answer with
  | ok draft => rfl
  | error error => rfl

/-!
# Undoing

A build is undone when its steps failed or did not succeed, and when the
register cannot be saved.
-/

def saved (course : Course services project start) (draft : Draft) : Except Failure Unit × σ :=
  runIn (services.ownership.save draft.ownership) course.ended

def IsUndone : Prop :=
  match course.result with
  | .error _ => True
  | .ok draft => draft.success = true → ∃ error, (course.saved draft).1 = .error error

def undoneFrom : σ :=
  match course.result with
  | .error _ => course.ended
  | .ok draft => if draft.success then (course.saved draft).2 else course.ended

theorem isUndone_of_failed (hfailed : course.result.toOption.map Draft.success = some false) :
    course.IsUndone := by
  unfold IsUndone
  cases hresult : course.result with
  | error error => exact trivial
  | ok draft =>
      intro hsuccess
      rw [hresult] at hfailed
      exact absurd (hsuccess.symm.trans (Option.some.inj hfailed)) Bool.noConfusion

variable {files : ClassFiles services.host project.destination}

theorem runIn_settle_of_failed {draft : Draft} (hfailed : draft.success = false)
    (progress : Progress) (world : σ) :
    runIn (settle services progress draft) world =
      runIn (progress.backup.restore services.host) world := by
  unfold settle
  rw [if_neg (by rw [hfailed]; exact Bool.false_ne_true)]

theorem runIn_settle_of_succeeded {draft : Draft} (hsuccess : draft.success = true)
    (progress : Progress) (world : σ) :
    runIn (settle services progress draft) world =
      match runIn (services.ownership.save draft.ownership) world with
      | (.error error, world) =>
        (.error error, (runIn (progress.backup.restore services.host) world).2)
      | (.ok (), world) => runIn (progress.survey.commit services.fingerprints) world := by
  unfold settle
  rw [if_pos hsuccess, runIn_bind, runIn_exceptLift]
  rcases hsaved : runIn (services.ownership.save draft.ownership) world with ⟨saved, world'⟩
  unfold runIn at hsaved
  rw [hsaved]
  cases saved with
  | error error => rfl
  | ok value => rfl

theorem concluded_of_undone (hundone : course.IsUndone) :
    course.concluded.2 = (runIn (course.progress.backup.restore services.host)
      course.undoneFrom).2 := by
  unfold concluded conclude undoneFrom
  unfold IsUndone at hundone
  cases hresult : course.result with
  | error error => rfl
  | ok draft =>
      rw [hresult] at hundone
      simp only
      rw [runIn_bind]
      cases hsuccess : draft.success with
      | false =>
          rw [runIn_settle_of_failed hsuccess, if_neg Bool.false_ne_true]
          rcases runIn (course.progress.backup.restore services.host) course.ended with
            ⟨restored, world⟩
          cases restored <;> rfl
      | true =>
          obtain ⟨error, herror⟩ := hundone hsuccess
          rw [runIn_settle_of_succeeded hsuccess, if_pos rfl]
          unfold saved at herror ⊢
          rcases hsaved : runIn (services.ownership.save draft.ownership) course.ended with
            ⟨answer, world⟩
          rw [hsaved] at herror
          cases herror
          rfl

/-!
# Class files from the start to the end
-/

theorem held_begun (hstores : StoresSpare files) :
    files.held course.begun = files.held start := by
  have hkeeps := hstores.lookForChanges (services.host.milliseconds.run start).2
  rw [course.looked, files.milliseconds_keeps] at hkeeps
  exact hkeeps

theorem held_loaded (hstores : StoresSpare files) {result : Except Failure (Option Ownership)}
    {loaded : σ} (hload : runIn services.ownership.load course.begun = (result, loaded)) :
    files.held loaded = files.held start := by
  have hkeeps := hstores.loadOwnership course.begun
  rw [hload] at hkeeps
  exact hkeeps.trans (course.held_begun hstores)

theorem held_run (files : ClassFiles services.host project.destination) :
    files.held (runIn (run services project) start).2 = files.held course.concluded.2 := by
  rw [course.runIn_run]
  rcases course.concluded with ⟨answer, world⟩
  cases answer with
  | ok draft => exact files.milliseconds_keeps world
  | error error => rfl

theorem held_undoneFrom (hstores : StoresSpare files) :
    files.held course.undoneFrom = files.held course.ended := by
  unfold undoneFrom
  cases course.result with
  | error error => rfl
  | ok draft =>
      cases hsuccess : draft.success with
      | false => simp [hsuccess]
      | true => simpa [hsuccess, saved] using hstores.saveOwnership draft.ownership course.ended

theorem ends_rounds (hstores : StoresSpare files) (hcompiler : WritesListed files)
    (hbelow : LoadsBelow services course.begun) :
    Ends files course.rounds course.first course.begun course.progress course.ended :=
  ends_compileNeeded hstores hcompiler hbelow rfl

theorem held_run_of_undone (hstores : StoresSpare files) (hcompiler : WritesListed files)
    (hbelow : LoadsBelow services course.begun) (hundone : course.IsUndone)
    (hrestores : (runIn (course.progress.backup.restore services.host) course.undoneFrom).1 =
      .ok ()) :
    files.held (runIn (run services project) start).2 =
      files.restored course.progress.backup course.ended := by
  have hkept : course.progress.backup.WellKept project.destination ClassName.LeadsBelow :=
    (course.ends_rounds hstores hcompiler hbelow).wellKept
      (Backup.wellKept_empty project.destination _)
  have hrestored : files.held (runIn (course.progress.backup.restore services.host)
      course.undoneFrom).2 = files.restored course.progress.backup course.undoneFrom :=
    files.held_restore hkept (Prod.ext hrestores rfl)
  rw [course.held_run files, course.concluded_of_undone hundone, hrestored]
  funext key
  rw [ClassFiles.restored, ClassFiles.restored, course.held_undoneFrom hstores]

/-- What the rounds tell of a file is what undoing makes of it. -/
theorem held_run_iff_of_undone (hstores : StoresSpare files) (hcompiler : WritesListed files)
    (hbelow : LoadsBelow services course.begun) (hundone : course.IsUndone)
    (hrestores : (runIn (course.progress.backup.restore services.host) course.undoneFrom).1 =
      .ok ()) (key : FileKey) (was : Option Bytes) :
    files.held (runIn (run services project) start).2 key = was ↔
      Recoverable files key was (files.held start key) course.rounds := by
  rw [course.held_run_of_undone hstores hcompiler hbelow hundone hrestores,
    (course.ends_rounds hstores hcompiler hbelow).restored_iff key was]
  have hempty : course.first.backup.noted? key = none := Backup.noted?_empty key
  rw [returns_of_not_noted hempty, course.held_begun hstores]

/-!
# Reports

A build that comes to a report has come to a draft and has settled it. One that
reports success has saved the register of the draft.
-/

theorem of_report {report : Report}
    (hreport : (runIn (run services project) start).1 = .ok report) :
    ∃ draft, course.result = .ok draft ∧
      runIn (settle services course.progress draft) course.ended =
        (.ok (), course.concluded.2) ∧
      report.mode = draft.mode ∧ report.statuses = draft.statuses ∧
      report.success = draft.success := by
  rw [course.runIn_run] at hreport
  unfold concluded conclude at hreport ⊢
  cases hresult : course.result with
  | error error =>
      rw [hresult] at hreport
      cases hreport
  | ok draft =>
      rw [hresult] at hreport
      simp only at hreport ⊢
      rw [runIn_bind] at hreport
      rcases hsettled : runIn (settle services course.progress draft) course.ended with
        ⟨settled, world⟩
      rw [hsettled] at hreport
      cases settled with
      | error error => cases hreport
      | ok value =>
          cases hreport
          refine ⟨draft, rfl, ?_, rfl, rfl, rfl⟩
          rw [runIn_bind, hsettled]
          rfl

theorem saved_of_settle {draft : Draft} (hsuccess : draft.success = true) {world' : σ}
    (hsettled : runIn (settle services course.progress draft) course.ended = (.ok (), world')) :
    (course.saved draft).1 = .ok () := by
  rw [runIn_settle_of_succeeded hsuccess] at hsettled
  unfold saved
  rcases hsaved : runIn (services.ownership.save draft.ownership) course.ended with
    ⟨answer, between⟩
  rw [hsaved] at hsettled
  cases answer with
  | error error => cases hsettled
  | ok value => rfl

theorem held_settle_of_ok (hstores : StoresSpare files) {draft : Draft}
    (hsuccess : draft.success = true) {progress : Progress} {world world' : σ}
    (hsettled : runIn (settle services progress draft) world = (.ok (), world')) :
    files.held world' = files.held world := by
  rw [runIn_settle_of_succeeded hsuccess] at hsettled
  have hkeeps := hstores.saveOwnership draft.ownership world
  rcases hsaved : runIn (services.ownership.save draft.ownership) world with ⟨saved, between⟩
  rw [hsaved] at hsettled hkeeps
  cases saved with
  | error error => cases hsettled
  | ok value =>
      have hcommit : files.Spares (progress.survey.commit services.fingerprints) := by
        unfold Survey.commit
        cases progress.survey.observation with
        | none => exact files.spares_pure _
        | some observation => exact hstores.saveFingerprints observation.fingerprints
      have hcommitted := hcommit between
      simp only at hsettled
      rw [hsettled] at hcommitted
      exact hcommitted.trans hkeeps

theorem held_run_of_success (hstores : StoresSpare files) {report : Report}
    (hreport : (runIn (run services project) start).1 = .ok report)
    (hsuccess : report.success = true) :
    files.held (runIn (run services project) start).2 = files.held course.ended := by
  obtain ⟨draft, _, hsettled, _, _, hdraft⟩ := course.of_report hreport
  rw [hsuccess] at hdraft
  rw [course.held_run files]
  exact held_settle_of_ok hstores hdraft.symm hsettled

/-!
# The two ways through the rounds

A build compiles what changed, or it compiles everything. It compiles
everything when no register is stored, and when an attempt to do with less is
given up.
-/

theorem rounds_of_attempt (course : Course services project start) {register : Ownership}
    {loaded : σ}
    (hregister : runIn services.ownership.load course.begun = (.ok (some register), loaded))
    (hkept : ((compileChanges services project course.changes register).runFrom
      course.first loaded).1 ≠ .ok none) :
    course.rounds =
      attemptRounds services project course.changes register course.first loaded := by
  unfold rounds neededRounds
  rw [Step.runFrom_perform, hregister]
  simp only
  rcases hattempt : (compileChanges services project course.changes register).runFrom
    course.first loaded with ⟨attempt, progress, world⟩
  rw [hattempt] at hkept
  cases attempt with
  | error error => exact List.append_nil _
  | ok finished =>
      cases finished with
      | none => exact absurd rfl hkept
      | some draft => exact List.append_nil _

/--
Where a build turns to all sources, if it does: the rounds of an attempt that
it gave up, and the progress and surroundings from which it goes on.
-/
def full? (course : Course services project start) :
    Option (List (Round σ) × Progress × σ) :=
  match runIn services.ownership.load course.begun with
  | (.error _, _) => none
  | (.ok none, world) => some ([], course.first, world)
  | (.ok (some register), world) =>
    match (compileChanges services project course.changes register).runFrom
      course.first world with
    | (.ok none, progress, left) =>
      some (attemptRounds services project course.changes register course.first world,
        progress, left)
    | _ => none

/-- A build turns to all sources when no register is stored, or when its attempt gives up. -/
theorem of_full (course : Course services project start) {abandoned : List (Round σ)}
    {progress : Progress} {world : σ} (hfull : course.full? = some (abandoned, progress, world)) :
    (runIn services.ownership.load course.begun = (.ok none, world) ∧ abandoned = [] ∧
      progress = course.first) ∨
    ∃ register loaded, runIn services.ownership.load course.begun = (.ok (some register), loaded) ∧
      (compileChanges services project course.changes register).runFrom course.first loaded =
        (.ok none, progress, world) ∧
      abandoned = attemptRounds services project course.changes register course.first loaded := by
  unfold full? at hfull
  rcases hload : runIn services.ownership.load course.begun with ⟨stored, loaded⟩
  rw [hload] at hfull
  rcases stored with error | stored
  · cases hfull
  · cases stored with
    | none =>
        cases hfull
        exact Or.inl ⟨rfl, rfl, rfl⟩
    | some register =>
        simp only at hfull
        rcases hattempt : (compileChanges services project course.changes register).runFrom
          course.first loaded with ⟨attempt, middle, left⟩
        rw [hattempt] at hfull
        rcases attempt with error | draft
        · cases hfull
        · cases draft with
          | none =>
              cases hfull
              exact Or.inr ⟨register, loaded, rfl, hattempt, rfl⟩
          | some draft => cases hfull

theorem rounds_of_full (course : Course services project start) {abandoned : List (Round σ)}
    {progress : Progress} {world : σ} (hfull : course.full? = some (abandoned, progress, world)) :
    course.rounds = abandoned ++ fullRounds services project progress world := by
  unfold rounds neededRounds
  rw [Step.runFrom_perform]
  rcases course.of_full hfull with
    ⟨hload, habandoned, hprogress⟩ | ⟨register, loaded, hload, hattempt, habandoned⟩
  · rw [hload, habandoned, hprogress]
    rfl
  · rw [hload, habandoned]
    simp only
    rw [hattempt]

theorem runFrom_of_full (course : Course services project start) {abandoned : List (Round σ)}
    {progress : Progress} {world : σ} (hfull : course.full? = some (abandoned, progress, world)) :
    (compileAll services project).runFrom progress world =
      (course.result, course.progress, course.ended) := by
  have hneeded : (compileNeeded services project course.changes).runFrom course.first
      course.begun = (course.result, course.progress, course.ended) := rfl
  unfold compileNeeded at hneeded
  rw [Step.runFrom_bind, Step.runFrom_perform] at hneeded
  rcases course.of_full hfull with ⟨hload, _, hprogress⟩ | ⟨register, loaded, hload, hattempt, _⟩
  · rw [hload] at hneeded
    rw [hprogress]
    exact hneeded
  · rw [hload] at hneeded
    simp only [Step.runFrom_bind] at hneeded
    rw [hattempt] at hneeded
    exact hneeded

theorem of_part (course : Course services project start) (hpart : course.full? = none) :
    (∃ error, runIn services.ownership.load course.begun = (.error error, course.ended) ∧
      course.result = .error error ∧ course.progress = course.first) ∨
    ∃ register loaded, runIn services.ownership.load course.begun = (.ok (some register), loaded) ∧
      (compileChanges services project course.changes register).runFrom course.first loaded =
        (course.result.map some, course.progress, course.ended) := by
  have hneeded : (compileNeeded services project course.changes).runFrom course.first
      course.begun = (course.result, course.progress, course.ended) := rfl
  unfold compileNeeded at hneeded
  unfold full? at hpart
  rw [Step.runFrom_bind, Step.runFrom_perform] at hneeded
  rcases hload : runIn services.ownership.load course.begun with ⟨stored, loaded⟩
  rw [hload] at hpart hneeded
  rcases stored with error | stored
  · simp only [Prod.mk.injEq] at hneeded
    rw [← hneeded.1, ← hneeded.2.1, ← hneeded.2.2]
    exact Or.inl ⟨error, rfl, rfl, rfl⟩
  · cases stored with
    | none => cases hpart
    | some register =>
        right
        refine ⟨register, loaded, rfl, ?_⟩
        simp only [Step.runFrom_bind] at hpart hneeded
        rcases hattempt : (compileChanges services project course.changes register).runFrom
          course.first loaded with ⟨attempt, middle, left⟩
        rw [hattempt] at hpart hneeded
        rcases attempt with error | draft
        · simp only [Prod.mk.injEq] at hneeded
          rw [← hneeded.1, ← hneeded.2.1, ← hneeded.2.2]
          rfl
        · cases draft with
          | none => cases hpart
          | some draft =>
              simp only [Step.runFrom_pure, Prod.mk.injEq] at hneeded
              rw [← hneeded.1, ← hneeded.2.1, ← hneeded.2.2]
              rfl

theorem of_result {draft : Draft} (hresult : course.result = .ok draft) :
    (∃ register loaded,
      runIn services.ownership.load course.begun = (.ok (some register), loaded) ∧
        course.rounds =
          attemptRounds services project course.changes register course.first loaded ∧
        (compileChanges services project course.changes register).runFrom course.first loaded =
          (.ok (some draft), course.progress, course.ended)) ∨
    ∃ abandoned progress world, course.full? = some (abandoned, progress, world) ∧
      (compileAll services project).runFrom progress world =
        (.ok draft, course.progress, course.ended) := by
  cases hfull : course.full? with
  | some turned =>
      refine Or.inr ⟨turned.1, turned.2.1, turned.2.2, rfl, ?_⟩
      rw [course.runFrom_of_full hfull, hresult]
  | none =>
      rcases course.of_part hfull with ⟨_, _, herror, _⟩ | ⟨register, loaded, hload, hattempt⟩
      · rw [hresult] at herror
        cases herror
      · rw [hresult] at hattempt
        refine Or.inl ⟨register, loaded, hload, course.rounds_of_attempt hload ?_, hattempt⟩
        rw [hattempt]
        exact nofun

end Course
end Build
end Recompile
