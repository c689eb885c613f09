import Recompile.Proofs.Sources.Observing

/-!
# Surveys while the sources change

Several surveys may be open at once, and the sources may be edited at any time
between their steps. A survey has seen how the sources were when it was first
answered, and nothing but a commit changes what is stored.
-/

namespace Recompile
namespace Survey

variable {σ : Type} {host : Host (StateM σ)} {cell : Cell (StateM σ) Fingerprints}

/-- A host that reads only, and a cell that holds what was saved to it last. -/
structure Keeping (host : Host (StateM σ)) (cell : Cell (StateM σ) Fingerprints) where
  stored : σ → Option Fingerprints
  reads : ReadsOnly host
  load_ok : ∀ {world committed}, (runIn cell.load world).1 = .ok committed →
    committed = stored world
  load_keeps : ∀ world, stored (runIn cell.load world).2 = stored world
  save_ok : ∀ {seen world}, (runIn (cell.save seen) world).1 = .ok () →
    stored (runIn (cell.save seen) world).2 = some seen

structure Keeping.Edit (keeping : Keeping host cell) where
  change : σ → σ
  spares : ∀ world, keeping.stored (change world) = keeping.stored world

inductive Event (keeping : Keeping host cell) where
  | edit (edit : keeping.Edit)
  | start (number : Nat) (method : FingerprintMethod) (root : Path)
  | changes (number : Nat)
  | sources (number : Nat)
  | commit (number : Nat)
  | rollback (number : Nat)

namespace Event

variable {keeping : Keeping host cell}

def handles (number : Nat) : Event keeping → Bool
  | start other _ _ => other = number
  | commit other => other = number
  | rollback other => other = number
  | _ => false

def asks (number : Nat) : Event keeping → Bool
  | changes other => other = number
  | sources other => other = number
  | _ => false

def isCommit : Event keeping → Bool
  | commit _ => true
  | _ => false

end Event

inductive Answer where
  | silent
  | failed (failure : Failure)
  | done
  | changes (changes : SourceChanges)
  | sources (sources : List String)

def Answer.isGiven : Answer → Bool
  | changes _ => true
  | sources _ => true
  | _ => false

structure Scene (σ : Type) where
  world : σ
  surveys : Nat → Option Survey

namespace Scene

def put (scene : Scene σ) (number : Nat) (survey : Option Survey) (world : σ) : Scene σ :=
  ⟨world, fun other => if other = number then survey else scene.surveys other⟩

def ask {α : Type} (scene : Scene σ) (number : Nat)
    (operation : Survey → ExceptT Failure (StateM σ) (α × Survey)) (reply : α → Answer) :
    Answer × Scene σ :=
  match scene.surveys number with
  | none => (.silent, scene)
  | some survey =>
    match runIn (operation survey) scene.world with
    | (.ok (value, after), world) => (reply value, scene.put number (some after) world)
    | (.error failure, world) => (.failed failure, { scene with world := world })

def begin (cell : Cell (StateM σ) Fingerprints) (scene : Scene σ) (number : Nat)
    (method : FingerprintMethod) (root : Path) : Answer × Scene σ :=
  match runIn (Survey.start cell method root) scene.world with
  | (.ok survey, world) => (.done, scene.put number (some survey) world)
  | (.error failure, world) => (.failed failure, { scene with world := world })

def save (cell : Cell (StateM σ) Fingerprints) (scene : Scene σ) (number : Nat) :
    Answer × Scene σ :=
  match scene.surveys number with
  | none => (.silent, scene)
  | some survey =>
    match runIn (survey.commit cell) scene.world with
    | (.ok (), world) => (.done, scene.put number none world)
    | (.error failure, world) => (.failed failure, scene.put number none world)

def step {keeping : Keeping host cell} (scene : Scene σ) : Event keeping → Answer × Scene σ
  | .edit edit => (.silent, { scene with world := edit.change scene.world })
  | .start number method root => scene.begin cell number method root
  | .changes number => scene.ask number (Survey.changes host) .changes
  | .sources number => scene.ask number (Survey.sources host) .sources
  | .commit number => scene.save cell number
  | .rollback number => (.done, scene.put number none scene.world)

variable {keeping : Keeping host cell}

def answer (scene : Scene σ) (event : Event keeping) : Answer :=
  (scene.step event).1

def next (scene : Scene σ) (event : Event keeping) : Scene σ :=
  (scene.step event).2

def run (scene : Scene σ) (events : List (Event keeping)) : Scene σ :=
  events.foldl next scene

/-- How things were when a survey was asked and gave an answer for the first time. -/
def firstAnswered? (number : Nat) (scene : Scene σ) : List (Event keeping) → Option σ
  | [] => none
  | event :: later =>
    if event.asks number && (scene.answer event).isGiven then some scene.world
    else firstAnswered? number (scene.next event) later

/-!
# What one step does
-/

theorem surveys_put_self (scene : Scene σ) (number : Nat) (survey : Option Survey) (world : σ) :
    (scene.put number survey world).surveys number = survey :=
  if_pos rfl

theorem surveys_put_of_ne (scene : Scene σ) {number other : Nat} (h : other ≠ number)
    (survey : Option Survey) (world : σ) :
    (scene.put number survey world).surveys other = scene.surveys other :=
  if_neg h

theorem surveys_ask_of_ne {α : Type} (scene : Scene σ) {number other : Nat} (h : other ≠ number)
    (operation : Survey → ExceptT Failure (StateM σ) (α × Survey)) (reply : α → Answer) :
    (scene.ask number operation reply).2.surveys other = scene.surveys other := by
  unfold ask
  split
  · rfl
  · split
    · exact scene.surveys_put_of_ne h _ _
    · rfl

theorem surveys_begin_of_ne (scene : Scene σ) {number other : Nat} (h : other ≠ number)
    (method : FingerprintMethod) (root : Path) :
    (scene.begin cell number method root).2.surveys other = scene.surveys other := by
  unfold begin
  split
  · exact scene.surveys_put_of_ne h _ _
  · rfl

theorem surveys_save_of_ne (scene : Scene σ) {number other : Nat} (h : other ≠ number) :
    (scene.save cell number).2.surveys other = scene.surveys other := by
  unfold save
  split
  · rfl
  · split
    · exact scene.surveys_put_of_ne h _ _
    · exact scene.surveys_put_of_ne h _ _

/-- A step of another survey, like an edit, leaves a survey as it is. -/
theorem surveys_next_of_other (scene : Scene σ) {event : Event keeping} {number : Nat}
    (hopen : event.handles number = false) (hasks : event.asks number = false) :
    (scene.next event).surveys number = scene.surveys number := by
  cases event with
  | edit => rfl
  | start other => exact scene.surveys_begin_of_ne (Ne.symm (of_decide_eq_false hopen)) _ _
  | changes other => exact scene.surveys_ask_of_ne (Ne.symm (of_decide_eq_false hasks)) _ _
  | sources other => exact scene.surveys_ask_of_ne (Ne.symm (of_decide_eq_false hasks)) _ _
  | commit other => exact scene.surveys_save_of_ne (Ne.symm (of_decide_eq_false hopen))
  | rollback other => exact scene.surveys_put_of_ne (Ne.symm (of_decide_eq_false hopen)) _ _

/-- Whether a survey that is asked now answers with what is observed here. -/
def Sees (host : Host (StateM σ)) (survey : Survey) (world : σ) (observation : Observation) :
    Prop :=
  survey.observation = some observation ∨
    survey.observation = none ∧
      Describes host survey.method survey.root world observation.fingerprints ∧
        observation.changes = .between survey.committed observation.fingerprints

def telling {α : Type} (host : Host (StateM σ)) (tell : Observation → α) (survey : Survey) :
    ExceptT Failure (StateM σ) (α × Survey) := do
  let (observation, survey) ← observe host survey
  return (tell observation, survey)

section Asking

variable {scene : Scene σ} {number : Nat} {survey : Survey} {α : Type}

theorem of_ask (keeping : Keeping host cell) (hsurvey : scene.surveys number = some survey)
    (tell : Observation → α) (reply : α → Answer) :
    (∃ observation, Sees host survey scene.world observation ∧
      scene.ask number (telling host tell) reply =
        (reply (tell observation),
          scene.put number (some { survey with observation := some observation }) scene.world)) ∨
    ∃ failure, survey.observation = none ∧
      scene.ask number (telling host tell) reply = (.failed failure, scene) := by
  unfold ask telling
  rw [hsurvey]
  simp only [runIn_bind]
  rcases hrun : runIn (observe host survey) scene.world with ⟨result, left⟩
  cases result with
  | ok found =>
      rcases found with ⟨observation, after⟩
      rcases of_runIn_observe keeping.reads hrun with ⟨rfl, rfl, hsees⟩
      exact Or.inl ⟨observation, hsees, rfl⟩
  | error failure =>
      cases ReadsOnly.left_eq (fun was => (keeping.reads was).observe survey) hrun
      refine Or.inr ⟨failure, ?_, rfl⟩
      cases hseen : survey.observation with
      | none => rfl
      | some observation =>
          rw [runIn_observe_of_some hseen] at hrun
          cases hrun

theorem given_or_kept (keeping : Keeping host cell) (hsurvey : scene.surveys number = some survey)
    (tell : Observation → α) {reply : α → Answer} (hreply : ∀ told, (reply told).isGiven = true) :
    (∃ observation, Sees host survey scene.world observation ∧
      (scene.ask number (telling host tell) reply).1.isGiven = true ∧
      (scene.ask number (telling host tell) reply).2 =
        scene.put number (some { survey with observation := some observation }) scene.world) ∨
    survey.observation = none ∧ (scene.ask number (telling host tell) reply).1.isGiven = false ∧
      (scene.ask number (telling host tell) reply).2 = scene := by
  rcases of_ask keeping hsurvey tell reply with ⟨observation, hsees, hask⟩ | ⟨failure, hnone, hask⟩
  · rw [hask]
    exact Or.inl ⟨observation, hsees, hreply _, rfl⟩
  · rw [hask]
    exact Or.inr ⟨hnone, rfl, rfl⟩

theorem of_given (keeping : Keeping host cell) (hsurvey : scene.surveys number = some survey)
    (tell : Observation → α) (reply : α → Answer)
    (hgiven : (scene.ask number (telling host tell) reply).1.isGiven = true) :
    ∃ observation, (scene.ask number (telling host tell) reply).1 = reply (tell observation) ∧
      (scene.ask number (telling host tell) reply).2.surveys number =
        some { survey with observation := some observation } := by
  rcases of_ask keeping hsurvey tell reply with ⟨observation, _, hask⟩ | ⟨failure, _, hask⟩
  · rw [hask]
    exact ⟨observation, rfl, scene.surveys_put_self number _ _⟩
  · rw [hask] at hgiven
    cases hgiven

theorem ask_of_seen (keeping : Keeping host cell) (hsurvey : scene.surveys number = some survey)
    {observation : Observation} (hseen : survey.observation = some observation)
    (tell : Observation → α) (reply : α → Answer) :
    (scene.ask number (telling host tell) reply).1 = reply (tell observation) := by
  rcases of_ask keeping hsurvey tell reply with
    ⟨found, hknown | ⟨hnone, _⟩, hask⟩ | ⟨failure, hnone, _⟩
  · cases hseen.symm.trans hknown
    rw [hask]
  · cases hseen.symm.trans hnone
  · cases hseen.symm.trans hnone

theorem of_asks {event : Event keeping} (hasks : event.asks number = true)
    (hsurvey : scene.surveys number = some survey) :
    (∃ observation, Sees host survey scene.world observation ∧
      (scene.answer event).isGiven = true ∧
      scene.next event =
        scene.put number (some { survey with observation := some observation }) scene.world) ∨
    survey.observation = none ∧ (scene.answer event).isGiven = false ∧
      scene.next event = scene := by
  cases event with
  | changes other =>
      cases of_decide_eq_true hasks
      exact given_or_kept keeping hsurvey Observation.changes fun _ => rfl
  | sources other =>
      cases of_decide_eq_true hasks
      exact given_or_kept keeping hsurvey (fun observation => observation.fingerprints.keys)
        fun _ => rfl
  | _ => cases hasks

theorem of_changes {changes : SourceChanges} (hsurvey : scene.surveys number = some survey)
    (h : scene.answer (.changes number : Event keeping) = .changes changes) :
    ∃ observation, changes = observation.changes ∧
      (scene.next (.changes number : Event keeping)).surveys number =
        some { survey with observation := some observation } := by
  have hgiven := congrArg Answer.isGiven h
  rcases of_given keeping hsurvey Observation.changes Answer.changes hgiven with
    ⟨observation, hanswer, hnext⟩
  cases h.symm.trans hanswer
  exact ⟨observation, rfl, hnext⟩

theorem of_sources {sources : List String} (hsurvey : scene.surveys number = some survey)
    (h : scene.answer (.sources number : Event keeping) = .sources sources) :
    ∃ observation, sources = observation.fingerprints.keys ∧
      (scene.next (.sources number : Event keeping)).surveys number =
        some { survey with observation := some observation } := by
  have hgiven := congrArg Answer.isGiven h
  rcases of_given keeping hsurvey (fun observation => observation.fingerprints.keys)
    Answer.sources hgiven with ⟨observation, hanswer, hnext⟩
  cases h.symm.trans hanswer
  exact ⟨observation, rfl, hnext⟩

theorem answer_of_seen {observation : Observation} (hsurvey : scene.surveys number = some survey)
    (hseen : survey.observation = some observation) :
    scene.answer (.changes number : Event keeping) = .changes observation.changes ∧
      scene.answer (.sources number : Event keeping) =
        .sources observation.fingerprints.keys := by
  constructor
  · exact ask_of_seen keeping hsurvey hseen Observation.changes Answer.changes
  · exact ask_of_seen keeping hsurvey hseen (fun observation => observation.fingerprints.keys)
      Answer.sources

end Asking

/-!
# What a survey has seen after any steps
-/

theorem surveys_run_of_seen {scene : Scene σ} {number : Nat} {survey : Survey}
    {observation : Observation} {events : List (Event keeping)}
    (hopen : ∀ event ∈ events, event.handles number = false)
    (hsurvey : scene.surveys number = some survey) (hseen : survey.observation = some observation) :
    (scene.run events).surveys number = some survey := by
  induction events generalizing scene with
  | nil => exact hsurvey
  | cons event later ih =>
      rcases List.forall_mem_cons.mp hopen with ⟨hevent, hlater⟩
      apply ih hlater
      cases hasks : event.asks number with
      | false => rw [scene.surveys_next_of_other hevent hasks, hsurvey]
      | true =>
          rcases of_asks hasks hsurvey with ⟨found, hsees, _, hnext⟩ | ⟨hnone, _, _⟩
          · rcases hsees with hknown | ⟨hnone, _⟩
            · rw [hnext, surveys_put_self, ← hknown]
            · rw [hseen] at hnone
              cases hnone
          · rw [hseen] at hnone
            cases hnone

theorem surveys_run_of_unseen {scene : Scene σ} {number : Nat} {survey : Survey}
    {events : List (Event keeping)} (hopen : ∀ event ∈ events, event.handles number = false)
    (hsurvey : scene.surveys number = some survey) (hunseen : survey.observation = none) :
    (firstAnswered? number scene events = none ∧
      (scene.run events).surveys number = some survey) ∨
    ∃ world observation, firstAnswered? number scene events = some world ∧
      (scene.run events).surveys number =
        some { survey with observation := some observation } ∧
      Describes host survey.method survey.root world observation.fingerprints ∧
      observation.changes = .between survey.committed observation.fingerprints := by
  induction events generalizing scene with
  | nil => exact Or.inl ⟨rfl, hsurvey⟩
  | cons event later ih =>
      rcases List.forall_mem_cons.mp hopen with ⟨hevent, hlater⟩
      unfold firstAnswered?
      cases hasks : event.asks number with
      | false =>
          rw [Bool.false_and, if_neg Bool.false_ne_true]
          apply ih hlater
          rw [scene.surveys_next_of_other hevent hasks, hsurvey]
      | true =>
          rcases of_asks hasks hsurvey with ⟨observation, hsees, hgiven, hnext⟩ |
            ⟨_, hgiven, hnext⟩
          · rcases hsees with hknown | ⟨_, hdescribes, hchanges⟩
            · rw [hunseen] at hknown
              cases hknown
            · rw [hgiven, Bool.true_and, if_pos rfl]
              refine Or.inr ⟨scene.world, observation, rfl, ?_, hdescribes, hchanges⟩
              show ((scene.next event).run later).surveys number = _
              apply surveys_run_of_seen hlater _ rfl
              rw [hnext, surveys_put_self]
          · rw [hgiven, Bool.and_false, if_neg Bool.false_ne_true]
            apply ih hlater
            rw [hnext, hsurvey]

/-!
# What is stored
-/

theorem world_ask {α : Type} {scene : Scene σ} {number : Nat}
    {operation : Survey → ExceptT Failure (StateM σ) (α × Survey)} {reply : α → Answer}
    (h : ∀ survey, ∀ was : σ, Maintains (fun world => world = was) (fun _ => True)
      (operation survey)) :
    (scene.ask number operation reply).2.world = scene.world := by
  unfold ask
  split
  · rfl
  next survey _ =>
    split
    next hrun => exact ReadsOnly.left_eq (h survey) hrun
    next hrun => exact ReadsOnly.left_eq (h survey) hrun

theorem world_next_changes (scene : Scene σ) (number : Nat) :
    (scene.next (.changes number : Event keeping)).world = scene.world :=
  world_ask fun survey was => (keeping.reads was).changes survey

theorem world_next_sources (scene : Scene σ) (number : Nat) :
    (scene.next (.sources number : Event keeping)).world = scene.world :=
  world_ask fun survey was => (keeping.reads was).surveyed survey

theorem stored_next (scene : Scene σ) {event : Event keeping} (h : event.isCommit = false) :
    keeping.stored (scene.next event).world = keeping.stored scene.world := by
  cases event with
  | edit edit => exact edit.spares scene.world
  | start number method root =>
      show keeping.stored (scene.begin cell number method root).2.world = _
      unfold begin Survey.start
      rw [runIn_bind]
      have hkeeps := keeping.load_keeps scene.world
      rcases hload : runIn cell.load scene.world with ⟨result, left⟩
      rw [hload] at hkeeps
      cases result <;> exact hkeeps
  | changes number => rw [world_next_changes]
  | sources number => rw [world_next_sources]
  | commit => cases h
  | rollback => rfl

theorem stored_run {scene : Scene σ} {events : List (Event keeping)}
    (h : ∀ event ∈ events, event.isCommit = false) :
    keeping.stored (scene.run events).world = keeping.stored scene.world := by
  induction events generalizing scene with
  | nil => rfl
  | cons event later ih =>
      rcases List.forall_mem_cons.mp h with ⟨hevent, hlater⟩
      exact (ih hlater).trans (scene.stored_next hevent)

theorem of_start {scene : Scene σ} {number : Nat} {method : FingerprintMethod} {root : Path}
    (h : scene.answer (.start number method root : Event keeping) = .done) :
    (scene.next (.start number method root : Event keeping)).surveys number =
      some ⟨method, root, (keeping.stored scene.world).getD ∅, none⟩ := by
  have hbegin : (scene.begin cell number method root).1 = .done := h
  show (scene.begin cell number method root).2.surveys number = _
  unfold begin Survey.start at hbegin ⊢
  rw [runIn_bind] at hbegin ⊢
  rcases hload : runIn cell.load scene.world with ⟨result, left⟩
  rw [hload] at hbegin
  cases result with
  | error failure => cases hbegin
  | ok committed =>
      cases keeping.load_ok (congrArg Prod.fst hload)
      exact scene.surveys_put_self number _ _

theorem of_commit_of_seen {scene : Scene σ} {number : Nat} {survey : Survey}
    {observation : Observation} (hsurvey : scene.surveys number = some survey)
    (hseen : survey.observation = some observation)
    (hdone : scene.answer (.commit number : Event keeping) = .done) :
    keeping.stored (scene.next (.commit number : Event keeping)).world =
      some observation.fingerprints := by
  have hsave : (scene.save cell number).1 = .done := hdone
  show keeping.stored (scene.save cell number).2.world = _
  have hcommit : survey.commit cell = cell.save observation.fingerprints := by
    unfold commit
    rw [hseen]
  unfold save at hsave ⊢
  rw [hsurvey] at hsave ⊢
  simp only [hcommit] at hsave ⊢
  rcases hrun : runIn (cell.save observation.fingerprints) scene.world with ⟨result, left⟩
  rw [hrun] at hsave
  cases result with
  | error failure => cases hsave
  | ok =>
      have hstored := keeping.save_ok (congrArg Prod.fst hrun)
      rw [hrun] at hstored
      exact hstored

theorem of_commit_of_unseen {scene : Scene σ} {number : Nat} {survey : Survey}
    (hsurvey : scene.surveys number = some survey) (hunseen : survey.observation = none) :
    scene.answer (.commit number : Event keeping) = .done ∧
      (scene.next (.commit number : Event keeping)).world = scene.world := by
  have hcommit : survey.commit cell = pure () := by
    unfold commit
    rw [hunseen]
  show (scene.save cell number).1 = .done ∧ (scene.save cell number).2.world = _
  unfold save
  rw [hsurvey]
  simp only [hcommit]
  exact ⟨rfl, rfl⟩

end Scene
end Survey
end Recompile
