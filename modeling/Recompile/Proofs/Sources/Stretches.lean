import Recompile.Proofs.Build.Agreement
import Recompile.Proofs.Sources.Histories

/-!
# From the start of a survey to its end

All answers of a survey tell how the sources were when it was first answered,
and that is what it saves. So whatever is edited after that is different from
what is stored, and the next survey reports it.
-/

namespace Recompile
namespace Survey

variable {σ : Type} {host : Host (StateM σ)} {cell : Cell (StateM σ) Fingerprints}

/-- A survey that is open: how it was started, and all that has happened since. -/
structure Stretch (keeping : Keeping host cell) where
  number : Nat
  method : FingerprintMethod
  root : Path
  before : Scene σ
  events : List (Event keeping)
  started : before.answer (.start number method root : Event keeping) = .done
  stays : ∀ event ∈ events, event.handles number = false

namespace Stretch

variable {keeping : Keeping host cell} (stretch : Stretch keeping)

def opened : Scene σ :=
  stretch.before.next (.start stretch.number stretch.method stretch.root : Event keeping)

def now : Scene σ :=
  stretch.opened.run stretch.events

def base : Fingerprints :=
  (keeping.stored stretch.before.world).getD ∅

def askChanges : Event keeping :=
  .changes stretch.number

def askSources : Event keeping :=
  .sources stretch.number

def commit : Event keeping :=
  .commit stretch.number

def rollback : Event keeping :=
  .rollback stretch.number

/-- How things were when the survey was first answered, once these steps are done. -/
def firstSeen? (events : List (Event keeping)) : Option σ :=
  stretch.opened.firstAnswered? stretch.number events

def Describes (world : σ) (seen : Fingerprints) : Prop :=
  Survey.Describes host stretch.method stretch.root world seen

def survey : Survey :=
  ⟨stretch.method, stretch.root, stretch.base, none⟩

theorem surveys_opened : stretch.opened.surveys stretch.number = some stretch.survey :=
  Scene.of_start stretch.started

theorem seen_cases {events : List (Event keeping)}
    (hstays : ∀ event ∈ events, event.handles stretch.number = false) :
    (stretch.firstSeen? events = none ∧
      (stretch.opened.run events).surveys stretch.number = some stretch.survey) ∨
    ∃ world observation, stretch.firstSeen? events = some world ∧
      (stretch.opened.run events).surveys stretch.number =
        some { stretch.survey with observation := some observation } ∧
      stretch.Describes world observation.fingerprints ∧
      observation.changes = .between stretch.base observation.fingerprints :=
  Scene.surveys_run_of_unseen hstays stretch.surveys_opened rfl

theorem exists_survey : ∃ survey, stretch.now.surveys stretch.number = some survey := by
  rcases stretch.seen_cases stretch.stays with ⟨_, hsurvey⟩ | ⟨_, _, _, hsurvey, _⟩
  · exact ⟨_, hsurvey⟩
  · exact ⟨_, hsurvey⟩

theorem of_seen_next {event : Event keeping} (hevent : event.handles stretch.number = false)
    {survey : Survey} {observation : Observation}
    (hsurvey : (stretch.now.next event).surveys stretch.number = some survey)
    (hseen : survey.observation = some observation) :
    ∃ world, stretch.firstSeen? (stretch.events ++ [event]) = some world ∧
      stretch.Describes world observation.fingerprints ∧
      observation.changes = .between stretch.base observation.fingerprints := by
  have hrun : stretch.opened.run (stretch.events ++ [event]) = stretch.now.next event :=
    List.foldl_concat ..
  have hstays : ∀ other ∈ stretch.events ++ [event], other.handles stretch.number = false := by
    intro other hother
    rcases List.mem_append.mp hother with hmem | hlast
    · exact stretch.stays other hmem
    · rw [List.mem_singleton.mp hlast]
      exact hevent
  rcases stretch.seen_cases hstays with ⟨_, hunseen⟩ | ⟨world, found, hfirst, hfound, hdescribes⟩
  · rw [hrun, hsurvey] at hunseen
    cases hunseen
    cases hseen
  · rw [hrun, hsurvey] at hfound
    cases hfound
    cases hseen
    exact ⟨world, hfirst, hdescribes⟩

theorem of_changes {changes : SourceChanges}
    (h : stretch.now.answer stretch.askChanges = .changes changes) :
    ∃ world seen, stretch.firstSeen? (stretch.events ++ [stretch.askChanges]) = some world ∧
      stretch.Describes world seen ∧ changes = .between stretch.base seen := by
  rcases stretch.exists_survey with ⟨survey, hsurvey⟩
  rcases Scene.of_changes hsurvey h with ⟨observation, rfl, hnext⟩
  rcases stretch.of_seen_next rfl hnext rfl with ⟨world, hfirst, hdescribes, hchanges⟩
  exact ⟨world, observation.fingerprints, hfirst, hdescribes, hchanges⟩

theorem of_sources {sources : List String}
    (h : stretch.now.answer stretch.askSources = .sources sources) :
    ∃ world seen, stretch.firstSeen? (stretch.events ++ [stretch.askSources]) = some world ∧
      stretch.Describes world seen ∧ sources = seen.keys := by
  rcases stretch.exists_survey with ⟨survey, hsurvey⟩
  rcases Scene.of_sources hsurvey h with ⟨observation, rfl, hnext⟩
  rcases stretch.of_seen_next rfl hnext rfl with ⟨world, hfirst, hdescribes, _⟩
  exact ⟨world, observation.fingerprints, hfirst, hdescribes, rfl⟩

theorem of_firstSeen {world : σ} (h : stretch.firstSeen? stretch.events = some world) :
    ∃ seen, stretch.Describes world seen ∧
      stretch.now.answer stretch.askChanges = .changes (.between stretch.base seen) ∧
      stretch.now.answer stretch.askSources = .sources seen.keys ∧
      (stretch.now.answer stretch.commit = .done →
        keeping.stored (stretch.now.next stretch.commit).world = some seen) := by
  rcases stretch.seen_cases stretch.stays with ⟨hnone, _⟩ |
    ⟨_, observation, hfirst, hsurvey, hdescribes, hchanges⟩
  · cases h.symm.trans hnone
  · cases h.symm.trans hfirst
    have hanswer : stretch.now.answer stretch.askChanges = .changes observation.changes :=
      (Scene.answer_of_seen hsurvey rfl).1
    rw [hchanges] at hanswer
    exact ⟨observation.fingerprints, hdescribes, hanswer, (Scene.answer_of_seen hsurvey rfl).2,
      Scene.of_commit_of_seen hsurvey rfl⟩

theorem of_not_firstSeen (h : stretch.firstSeen? stretch.events = none) :
    stretch.now.answer stretch.commit = .done ∧
      (stretch.now.next stretch.commit).world = stretch.now.world := by
  rcases stretch.seen_cases stretch.stays with ⟨_, hsurvey⟩ | ⟨_, _, hfirst, _⟩
  · exact Scene.of_commit_of_unseen hsurvey rfl
  · cases h.symm.trans hfirst

/-- What a survey saves is what the next one compares with. -/
theorem base_eq {first second : Stretch keeping} {between : List (Event keeping)}
    {seen : Fingerprints}
    (hsaved : keeping.stored (first.now.next first.commit).world = some seen)
    (hspares : ∀ event ∈ between, event.isCommit = false)
    (hbefore : second.before = (first.now.next first.commit).run between) :
    second.base = seen := by
  unfold base
  rw [hbefore, Scene.stored_run hspares, hsaved, Option.getD_some]

end Stretch

/--
All answers of a survey tell how the sources were when it was first answered.
That is what a commit saves, and nothing else changes what is stored. The
changes are the exact difference from what was stored before, so a source that
is edited after it was seen is among those of the next survey.
-/
theorem first_answer_is_told_and_saved (keeping : Keeping host cell) :
    (∀ stretch : Stretch keeping,
      (∀ changes, stretch.now.answer stretch.askChanges = .changes changes →
        ∃ world seen, stretch.firstSeen? (stretch.events ++ [stretch.askChanges]) = some world ∧
          stretch.Describes world seen ∧ changes = .between stretch.base seen) ∧
      (∀ sources, stretch.now.answer stretch.askSources = .sources sources →
        ∃ world seen, stretch.firstSeen? (stretch.events ++ [stretch.askSources]) = some world ∧
          stretch.Describes world seen ∧ sources = seen.keys) ∧
      (∀ world, stretch.firstSeen? stretch.events = some world →
        ∃ seen, stretch.Describes world seen ∧
          stretch.now.answer stretch.askChanges = .changes (.between stretch.base seen) ∧
          stretch.now.answer stretch.askSources = .sources seen.keys ∧
          (stretch.now.answer stretch.commit = .done →
            keeping.stored (stretch.now.next stretch.commit).world = some seen)) ∧
      (stretch.firstSeen? stretch.events = none →
        stretch.now.answer stretch.commit = .done ∧
          (stretch.now.next stretch.commit).world = stretch.now.world) ∧
      (stretch.now.next stretch.rollback).world = stretch.now.world) ∧
    (∀ (scene : Scene σ) (event : Event keeping), event.isCommit = false →
      keeping.stored (scene.next event).world = keeping.stored scene.world) ∧
    (∀ committed current : Fingerprints,
      ((SourceChanges.between committed current).isEmpty = true ↔ committed = current) ∧
      ∀ source,
        (source ∈ (SourceChanges.between committed current).added ↔
          source ∉ committed ∧ source ∈ current) ∧
        (source ∈ (SourceChanges.between committed current).changed ↔
          source ∈ committed ∧ source ∈ current ∧ committed[source]? ≠ current[source]?) ∧
        (source ∈ (SourceChanges.between committed current).removed ↔
          source ∈ committed ∧ source ∉ current) ∧
        ((∃ fate, (SourceChanges.between committed current).Tells committed current source fate) ↔
          source ∈ committed ∨ source ∈ current) ∧
        ∀ fate other,
          (SourceChanges.between committed current).Tells committed current source fate →
          (SourceChanges.between committed current).Tells committed current source other →
            fate = other) ∧
    ∀ (first second : Stretch keeping) (between : List (Event keeping)) (world world' : σ),
      first.firstSeen? first.events = some world → first.now.answer first.commit = .done →
      (∀ event ∈ between, event.isCommit = false) →
      second.before = (first.now.next first.commit).run between →
      second.firstSeen? second.events = some world' →
        ∃ seen seen', first.Describes world seen ∧ second.Describes world' seen' ∧
          second.now.answer second.askChanges = .changes (.between seen seen') ∧
          ∀ source, seen[source]? ≠ seen'[source]? →
            source ∈ (SourceChanges.between seen seen').added ∨
            source ∈ (SourceChanges.between seen seen').changed ∨
            source ∈ (SourceChanges.between seen seen').removed := by
  refine ⟨fun stretch => ⟨fun _ => stretch.of_changes, fun _ => stretch.of_sources,
    fun _ => stretch.of_firstSeen, stretch.of_not_firstSeen, rfl⟩,
    fun scene event => scene.stored_next, ?_, ?_⟩
  · intro committed current
    refine ⟨SourceChanges.isEmpty_between_iff, fun source => ?_⟩
    exact ⟨SourceChanges.mem_added_between, SourceChanges.mem_changed_between,
      SourceChanges.mem_removed_between, SourceChanges.exists_tells_iff,
      fun fate other => SourceChanges.Tells.unique⟩
  · intro first second between world world' hfirst hdone hspares hbefore hsecond
    rcases first.of_firstSeen hfirst with ⟨seen, hseen, _, _, hsaves⟩
    rcases second.of_firstSeen hsecond with ⟨seen', hseen', hanswer, _, _⟩
    rw [Stretch.base_eq (hsaves hdone) hspares hbefore] at hanswer
    refine ⟨seen, seen', hseen, hseen', hanswer, ?_⟩
    intro source hdifferent
    rcases SourceChanges.not_tells_unchanged_iff.mpr hdifferent with ⟨fate, hchanged, htells⟩
    cases fate with
    | added => exact Or.inl htells
    | changed => exact Or.inr (Or.inl htells)
    | removed => exact Or.inr (Or.inr htells)
    | unchanged => exact absurd rfl hchanged

end Survey

/-!
# A source that is edited between two looks
-/

namespace Desk

open Survey

def keeping : Keeping host (services [] []).fingerprints where
  stored desk := desk.shelf.fingerprints
  reads _ := {
    kindOf := fun _ _ h => h
    filesBelow := fun _ _ h => h
    readFile := fun path desk h => (left_readFile path desk).trans h
    modified := fun _ _ h => h
    disk := fun _ _ => trivial
    malformedClass := fun _ _ => trivial }
  load_ok h := (Except.ok.inj h).symm
  load_keeps _ := rfl
  save_ok _ := rfl

def overwrite (version : Nat) : keeping.Edit where
  change desk := { desk with tree := desk.tree.map fun entry => (entry.1, written version) }
  spares _ := rfl

def firstSurvey : Stretch keeping where
  number := 0
  method := .modifiedTime
  root := Shelf.sourceRoot
  before := ⟨Build.bareDesk 1, fun _ => none⟩
  events := [.changes 0, .edit (overwrite 2), .sources 0]
  started := rfl
  stays := by decide

def secondSurvey : Stretch keeping where
  number := 1
  method := .modifiedTime
  root := Shelf.sourceRoot
  before := firstSurvey.now.next firstSurvey.commit
  events := [.changes 1]
  started := rfl
  stays := by decide

theorem isGiven_of_open {scene : Scene Desk} {number : Nat} {committed : Fingerprints}
    (h : scene.surveys number = some ⟨.modifiedTime, Shelf.sourceRoot, committed, none⟩) :
    (scene.answer (.changes number : Event keeping)).isGiven = true := by
  show (scene.ask number (Survey.changes host) .changes).1.isGiven = true
  unfold Scene.ask Survey.changes Survey.observe
  rw [h]
  simp only [runIn_bind, runIn_look, runIn_pure]
  rfl

theorem current_congr {desk other : Desk} (h : desk.tree = other.tree) :
    desk.current = other.current := by
  unfold current found sources version versionAt bytes?
  rw [h]

theorem commit_of_open {scene : Scene Desk} {number : Nat} {survey : Survey}
    (h : scene.surveys number = some survey) :
    scene.answer (.commit number : Event keeping) = .done ∧
      (scene.next (.commit number : Event keeping)).world.tree = scene.world.tree := by
  show (scene.save _ number).1 = .done ∧ (scene.save _ number).2.world.tree = _
  rcases survey with ⟨method, root, committed, observation⟩
  unfold Scene.save Survey.commit
  rw [h]
  cases observation <;> exact ⟨rfl, rfl⟩

theorem describes_current (desk : Desk) :
    Survey.Describes host .modifiedTime Shelf.sourceRoot desk desk.current :=
  (of_runIn_look keeping.reads (runIn_look ∅ desk)).1

theorem changed_of_overwrite :
    ∃ changes, firstSurvey.firstSeen? firstSurvey.events = some (Build.bareDesk 1) ∧
      firstSurvey.now.answer firstSurvey.commit = .done ∧
      secondSurvey.now.answer secondSurvey.askChanges = .changes changes ∧
      "A.java" ∈ changes.changed := by
  have hfirst : firstSurvey.firstSeen? firstSurvey.events = some (Build.bareDesk 1) := by
    show (if (true && (firstSurvey.opened.answer (.changes 0 : Event keeping)).isGiven) = true
      then some (Build.bareDesk 1) else _) = _
    rw [isGiven_of_open rfl]
    rfl
  have hsecond : secondSurvey.firstSeen? secondSurvey.events =
      some secondSurvey.opened.world := by
    show (if (true && (secondSurvey.opened.answer (.changes 1 : Event keeping)).isGiven) = true
      then some secondSurvey.opened.world else _) = _
    have hopened : secondSurvey.opened.surveys 1 =
        some ⟨.modifiedTime, Shelf.sourceRoot, secondSurvey.base, none⟩ :=
      secondSurvey.surveys_opened
    rw [isGiven_of_open hopened]
    rfl
  rcases firstSurvey.exists_survey with ⟨survey, hsurvey⟩
  rcases commit_of_open hsurvey with ⟨hdone, hkept⟩
  have htree : secondSurvey.opened.world.tree = (Build.bareDesk 2).tree := by
    have hnow : firstSurvey.now.world = (overwrite 2).change (Build.bareDesk 1) := by
      show (Scene.next _ (.sources 0 : Event keeping)).world = _
      rw [Scene.world_next_sources]
      show (overwrite 2).change (Scene.next _ (.changes 0 : Event keeping)).world = _
      rw [Scene.world_next_changes]
      rfl
    show (firstSurvey.now.next (.commit firstSurvey.number : Event keeping)).world.tree = _
    rw [hkept, hnow]
    rfl
  rcases (first_answer_is_told_and_saved keeping).2.2.2 firstSurvey secondSurvey [] _ _ hfirst
    hdone nofun rfl hsecond with ⟨seen, seen', hseen, hseen', hanswer, _⟩
  refine ⟨_, hfirst, hdone, hanswer, ?_⟩
  have hold : seen["A.java"]? = some (timeFingerprint 1) := by
    rw [hseen.unique (describes_current _), getElem?_current, if_pos (by decide +kernel)]
    rfl
  have hnew : seen'["A.java"]? = some (timeFingerprint 2) := by
    rw [hseen'.unique (describes_current _), current_congr htree, getElem?_current,
      if_pos (by decide +kernel)]
    rfl
  rw [SourceChanges.mem_changed_between, Std.ExtTreeMap.mem_iff_isSome_getElem?,
    Std.ExtTreeMap.mem_iff_isSome_getElem?, hold, hnew]
  decide

end Desk
end Recompile
