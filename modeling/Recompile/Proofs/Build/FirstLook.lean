import Recompile.Proofs.Build.Course
import Recompile.Proofs.Build.Serving
import Recompile.Proofs.Sources.Differences

/-!
# The first look at the sources

A build looks at its sources once, before anything else, and what it saw then
is what it goes by until its end: it compares that with what was saved last, a
full build compiles that, and that is what is saved.
-/

namespace Recompile

namespace Build

variable {σ : Type}

/-- What a build finds stored about the sources, and what it sees of them when it looks. -/
structure FirstLook (services : Services (StateM σ)) (project : Project) (start : σ) where
  committed : Option Fingerprints
  loaded : σ
  loads : runIn services.fingerprints.load (services.host.milliseconds.run start).2 =
    (.ok committed, loaded)
  observation : Observation
  left : σ
  looks : runIn (Survey.look services.host
    ⟨services.method, project.sourceRoot, committed.getD ∅, none⟩) loaded =
      (.ok observation, left)

namespace FirstLook

variable {services : Services (StateM σ)} {project : Project} {start : σ}
  (look : FirstLook services project start)

def survey : Survey :=
  ⟨services.method, project.sourceRoot, look.committed.getD ∅, some look.observation⟩

theorem runIn_lookForChanges :
    runIn (lookForChanges services project) (services.host.milliseconds.run start).2 =
      (.ok (look.observation.changes, look.survey), look.left) := by
  unfold lookForChanges Survey.start Survey.changes Survey.observe
  simp only [runIn_bind, look.loads, runIn_pure, look.looks]
  rfl

theorem exists_of_runIn_lookForChanges {changes : SourceChanges} {survey : Survey} {left : σ}
    (h : runIn (lookForChanges services project) (services.host.milliseconds.run start).2 =
      (.ok (changes, survey), left)) :
    ∃ look : FirstLook services project start,
      changes = look.observation.changes ∧ survey = look.survey ∧ left = look.left := by
  unfold lookForChanges Survey.start at h
  rcases ok_of_runIn_bind h with ⟨started, between, hstarted, hlooked⟩
  rcases ok_of_runIn_bind hstarted with ⟨committed, loaded, hloaded, hdone⟩
  rw [runIn_pure] at hdone
  cases hdone
  unfold Survey.changes Survey.observe at hlooked
  rcases ok_of_runIn_bind hlooked with ⟨seen, _, hseen, hdone⟩
  rcases ok_of_runIn_bind hseen with ⟨observation, _, hlook, hkept⟩
  rw [runIn_pure] at hkept
  cases hkept
  cases hdone
  exact ⟨⟨committed, _, hloaded, observation, _, hlook⟩, rfl, rfl, rfl⟩

theorem exists_of_seen {seen : Fingerprints}
    (h : ((runIn (lookForChanges services project)
      (services.host.milliseconds.run start).2).1.toOption.bind fun found =>
        found.2.observation.map Observation.fingerprints) = some seen) :
    ∃ look : FirstLook services project start, look.observation.fingerprints = seen := by
  rcases hlooked : runIn (lookForChanges services project)
    (services.host.milliseconds.run start).2 with ⟨found, left⟩
  rw [hlooked] at h
  cases found with
  | error error => cases h
  | ok found =>
      rcases exists_of_runIn_lookForChanges hlooked with ⟨look, _, hsurvey, _⟩
      refine ⟨look, ?_⟩
      have hseen : found.2.observation.map Observation.fingerprints = some seen := h
      rw [hsurvey] at hseen
      exact Option.some.inj hseen

theorem changes_eq :
    look.observation.changes =
      .between (look.committed.getD ∅) look.observation.fingerprints := by
  have hlooks := look.looks
  unfold Survey.look at hlooks
  rcases ok_of_runIn_bind hlooks with ⟨_, _, _, hrest⟩
  rcases ok_of_runIn_bind hrest with ⟨current, _, _, hdone⟩
  rw [runIn_pure, Prod.mk.injEq, Except.ok.injEq] at hdone
  rw [← hdone.1]

theorem runIn_run_of_unchanged (hunchanged : look.observation.changes.isEmpty = true) :
    runIn (run services project) start =
      (.ok ⟨.noOp, look.observation.changes, ∅, ∅, true,
        (services.host.milliseconds.run look.left).1 -
          (services.host.milliseconds.run start).1⟩,
        (services.host.milliseconds.run look.left).2) := by
  unfold run
  rw [runIn_bind, runIn_lift]
  simp only
  rw [runIn_bind, look.runIn_lookForChanges]
  simp only
  rw [if_pos hunchanged]
  rfl

theorem unchanged_of_committed (h : look.committed = some look.observation.fingerprints) :
    look.observation.changes.isEmpty = true := by
  rw [look.changes_eq, h]
  exact SourceChanges.isEmpty_between_iff.mpr rfl

end FirstLook

namespace Course

variable {services : Services (StateM σ)} {project : Project} {start : σ}

theorem exists_look (course : Course services project start) :
    ∃ look : FirstLook services project start,
      course.changes = look.observation.changes ∧ course.survey = look.survey ∧
        course.begun = look.left :=
  FirstLook.exists_of_runIn_lookForChanges course.looked

theorem exists_observation (course : Course services project start) :
    ∃ observation, course.survey.observation = some observation := by
  rcases course.exists_look with ⟨look, _, hsurvey, _⟩
  rw [hsurvey]
  exact ⟨look.observation, rfl⟩

theorem survey_eq (course : Course services project start)
    (look : FirstLook services project start) : course.survey = look.survey := by
  have hlooked := course.looked.symm.trans look.runIn_lookForChanges
  exact congrArg Prod.snd (Except.ok.inj (congrArg Prod.fst hlooked))

end Course

/-- A build fails before it has looked, sees no changes, or sees some and takes its course. -/
theorem run_cases (services : Services (StateM σ)) (project : Project) (start : σ) :
    (∃ error left,
      runIn (lookForChanges services project) (services.host.milliseconds.run start).2 =
        (.error error, left) ∧
      runIn (run services project) start = (.error error, left)) ∨
    (∃ look : FirstLook services project start, look.observation.changes.isEmpty = true) ∨
    Nonempty (Course services project start) := by
  rcases hlooked : runIn (lookForChanges services project)
    (services.host.milliseconds.run start).2 with ⟨found, left⟩
  cases found with
  | error error =>
      refine Or.inl ⟨error, left, rfl, ?_⟩
      unfold run
      rw [runIn_bind, runIn_lift]
      simp only
      rw [runIn_bind, hlooked]
  | ok found =>
      apply Or.inr
      cases hchanged : found.1.isEmpty with
      | true =>
          rcases FirstLook.exists_of_runIn_lookForChanges hlooked with ⟨look, hchanges, _, _⟩
          rw [hchanges] at hchanged
          exact Or.inl ⟨look, hchanged⟩
      | false => exact Or.inr ⟨⟨found.2, found.1, left, hlooked, hchanged⟩⟩

theorem run_or_course {services : Services (StateM σ)} {project : Project} {start : σ}
    {keeps : σ → Prop} {fails : Failure → Prop}
    (hclock : ∀ world, keeps world → keeps (services.host.milliseconds.run world).2)
    (hlook : Maintains keeps fails (lookForChanges services project)) (hkeeps : keeps start) :
    (keeps (runIn (run services project) start).2 ∧
      (∀ error, (runIn (run services project) start).1 = .error error → fails error) ∧
      ∀ report, (runIn (run services project) start).1 = .ok report → report.mode = .noOp) ∨
    Nonempty (Course services project start) := by
  have hbegun := hclock start hkeeps
  rcases run_cases services project start with
    ⟨error, left, hlooked, hrun⟩ | ⟨look, hunchanged⟩ | hcourse
  · left
    have hleft := hlook.of_runIn hbegun hlooked
    rw [hrun]
    refine ⟨hleft.1, ?_, nofun⟩
    intro found hfound
    cases hfound
    exact hleft.2 error rfl
  · left
    have hleft := hlook.of_runIn hbegun look.runIn_lookForChanges
    rw [look.runIn_run_of_unchanged hunchanged]
    refine ⟨hclock look.left hleft.1, nofun, ?_⟩
    intro report hreport
    cases hreport
    rfl
  · exact Or.inr hcourse

/-!
# Keeping and undoing

A course ends in one of three ways. Its steps may come to nothing, and then it
is undone. Or the register is refused, and it is undone as well. Or the register
is saved, and the fingerprints of the first look after it.
-/

namespace Course

variable {services : Services (StateM σ)} {project : Project} {start : σ}
  (course : Course services project start)

def committed (look : FirstLook services project start) (draft : Draft) :
    Except Failure Unit × σ :=
  runIn (services.fingerprints.save look.observation.fingerprints) (course.saved draft).2

theorem concluded_of_saved {look : FirstLook services project start}
    (hsurvey : course.progress.survey = look.survey) {draft : Draft}
    (hresult : course.result = .ok draft) (hsuccess : draft.success = true)
    (hsaved : (course.saved draft).1 = .ok ()) :
    course.concluded =
      ((course.committed look draft).1.map fun _ => draft, (course.committed look draft).2) := by
  unfold concluded conclude
  rw [hresult, runIn_bind, runIn_settle_of_succeeded hsuccess]
  unfold committed
  unfold saved at hsaved ⊢
  rcases hsave : runIn (services.ownership.save draft.ownership) course.ended with
    ⟨answer, between⟩
  rw [hsave] at hsaved
  cases hsaved
  unfold Survey.commit
  rw [hsurvey]
  simp only [FirstLook.survey]
  rcases runIn (services.fingerprints.save look.observation.fingerprints) between with
    ⟨kept, left⟩
  cases kept <;> rfl

theorem exists_of_not_undone (hkept : ¬course.IsUndone) :
    ∃ draft, course.result = .ok draft ∧ draft.success = true ∧
      (course.saved draft).1 = .ok () := by
  unfold IsUndone at hkept
  cases hresult : course.result with
  | error error =>
      rw [hresult] at hkept
      exact absurd trivial hkept
  | ok draft =>
      rw [hresult] at hkept
      have hrest := Classical.not_imp.mp hkept
      refine ⟨draft, rfl, hrest.1, ?_⟩
      cases hsaved : (course.saved draft).1 with
      | ok value => rfl
      | error error => exact absurd ⟨error, hsaved⟩ hrest.2

end Course
end Build
end Recompile
