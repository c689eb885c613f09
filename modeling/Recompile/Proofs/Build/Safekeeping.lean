import Recompile.Proofs.Build.Commit

/-!
# What a backup is good for

Class files are recorded and changed in turn, in any order and by anyone. The
backup goes by what it finds when it is told of a file: what it finds first
stays, so being told too late is the one thing that can go wrong. Where a file
is saved before it is first changed, or was not there and is recorded as new
before it is saved again, restoring makes up for all that happened to it.
-/

namespace Recompile
namespace Build
namespace Safekeeping

variable {σ : Type} {services : Services (StateM σ)} {project : Project}
  {files : ClassFiles services.host project.destination} {start world world' : σ}
  {progress progress' : Progress} {destination : Path} {key : FileKey}

/-!
# Calls and changes
-/

inductive Call where
  | save (classes : ClassSet)
  | saveOwned (register : Ownership) (sources : List String)
  | noteNew (before : Snapshot) (outcome : Outcome)

namespace Call

def step {m : Type → Type} [Monad m] (services : Services m) (project : Project) :
    Call → Step m Unit
  | save classes => backUp services project classes
  | saveOwned register sources => backUpOwned services project register sources
  | noteNew before outcome =>
    modifyBackup fun backup => backup.noteProduced project.destination before outcome

def LeadsBelow : Call → Prop
  | save classes => ∀ name ∈ classes, name.LeadsBelow
  | saveOwned register _ => register.LeadsBelow
  | noteNew _ outcome => ∀ name ∈ outcome.classes, name.LeadsBelow

def passed (destination : Path) : Call → Set FileKey
  | save classes => fileKeys destination classes
  | saveOwned register sources => ownedKeys destination register sources
  | noteNew _ _ => ∅

def news (destination : Path) : Call → Set FileKey
  | noteNew before outcome =>
    {key | ∃ name ∈ outcome.classes, before.contains name = false ∧ fileKey destination name = key}
  | _ => ∅

theorem mem_news_noteNew {before : Snapshot} {outcome : Outcome} :
    key ∈ (noteNew before outcome).news destination ↔
      ∃ name ∈ outcome.classes, before.contains name = false ∧ fileKey destination name = key :=
  Iff.rfl

end Call

inductive Event where
  | called (call : Call) (ok : Bool)
  | changed (name : ClassName) (now : Option Bytes)

/-- Whether a file is passed on to be saved, though perhaps not all is saved that was to be. -/
def Passes (destination : Path) (key : FileKey) (event : Event) : Prop :=
  ∃ call ok, event = .called call ok ∧ key ∈ call.passed destination

def Saves (destination : Path) (key : FileKey) (event : Event) : Prop :=
  ∃ call, event = .called call true ∧ key ∈ call.passed destination

def NotesNew (destination : Path) (key : FileKey) (event : Event) : Prop :=
  ∃ call ok, event = .called call ok ∧ key ∈ call.news destination

def Changes (destination : Path) (key : FileKey) (event : Event) : Prop :=
  ∃ name now, event = .changed name now ∧ fileKey destination name = key

theorem not_passes_changed (name : ClassName) (now : Option Bytes) :
    ¬Passes destination key (.changed name now) := by
  rintro ⟨_, _, hcall, _⟩
  exact Event.noConfusion hcall

theorem not_saves_changed (name : ClassName) (now : Option Bytes) :
    ¬Saves destination key (.changed name now) := by
  rintro ⟨_, hcall, _⟩
  exact Event.noConfusion hcall

theorem not_notesNew_changed (name : ClassName) (now : Option Bytes) :
    ¬NotesNew destination key (.changed name now) := by
  rintro ⟨_, _, hcall, _⟩
  exact Event.noConfusion hcall

/-- What events lead to from nothing recorded. What else happens spares the class files. -/
inductive Session (files : ClassFiles services.host project.destination) (start : σ) :
    List Event → Progress → σ → Prop where
  | begins (survey : Survey) : Session files start [] ⟨survey, .empty⟩ start
  | called {events : List Event} {progress progress' : Progress} {world world' : σ}
      {result : Except Failure Unit} (before : Session files start events progress world)
      (call : Call) (hbelow : call.LeadsBelow)
      (h : (call.step services project).runFrom progress world = (result, progress', world')) :
      Session files start (events ++ [.called call result.toBool]) progress' world'
  | changed {events : List Event} {progress : Progress} {world world' : σ}
      (before : Session files start events progress world) (name : ClassName)
      (now : Option Bytes)
      (h : files.held world' =
        Function.update (files.held world) (fileKey project.destination name) now) :
      Session files start (events ++ [.changed name now]) progress world'
  | elsewhere {events : List Event} {progress : Progress} {world world' : σ}
      (before : Session files start events progress world)
      (h : files.held world' = files.held world) : Session files start events progress world'

def SavedFirst (destination : Path) (key : FileKey) (events : List Event) : Prop :=
  ∃ front event back, events = front ++ event :: back ∧ Saves destination key event ∧
    ∀ earlier ∈ front, ¬Changes destination key earlier

/-- Whether a file is recorded as new, and this before it is saved once it has changed. -/
def NotedInTime (destination : Path) (key : FileKey) (events : List Event) : Prop :=
  (∃ event ∈ events, NotesNew destination key event) ∧
    ∀ front event back, events = front ++ event :: back → Passes destination key event →
      (∃ earlier ∈ front, Changes destination key earlier) →
        ∃ earlier ∈ front, NotesNew destination key earlier

/-- Whether every file that is changed is recorded in time, and only absent or saved ones as new. -/
structure Guarded (files : ClassFiles services.host project.destination) (start : σ)
    (events : List Event) : Prop where
  changed : ∀ key, (∃ event ∈ events, Changes project.destination key event) →
    SavedFirst project.destination key events ∨
      files.held start key = none ∧ NotedInTime project.destination key events
  new : ∀ key front event back, events = front ++ event :: back →
    NotesNew project.destination key event →
      files.held start key = none ∨ ∃ earlier ∈ front, Saves project.destination key earlier

/-!
# One call

A file that a call records is recorded as it is at that time, or as absent. A
call that succeeds leaves out nothing that it was passed.
-/

inductive Records (files : ClassFiles services.host project.destination) (call : Call)
    (ok : Bool) (world : σ) (key : FileKey) :
    Option (Option Bytes) → Option (Option Bytes) → Prop where
  | known (previous : Option Bytes) :
      Records files call ok world key (some previous) (some previous)
  | untouched (hpassed : ok = true → key ∉ call.passed project.destination)
      (hnew : key ∉ call.news project.destination) : Records files call ok world key none none
  | saved (hpassed : key ∈ call.passed project.destination) :
      Records files call ok world key none (some (files.held world key))
  | new (hnew : key ∈ call.news project.destination) :
      Records files call ok world key none (some none)

theorem Records.of_noted {call : Call} {ok : Bool} {before : Option (Option Bytes)}
    {previous : Option Bytes} (h : Records files call ok world key before (some previous)) :
    before = some previous ∨ before = none ∧
      (key ∈ call.passed project.destination ∧ previous = files.held world key ∨
        key ∈ call.news project.destination ∧ previous = none) := by
  cases h with
  | known => exact Or.inl rfl
  | saved hpassed => exact Or.inr ⟨rfl, Or.inl ⟨hpassed, rfl⟩⟩
  | new hnew => exact Or.inr ⟨rfl, Or.inr ⟨hnew, rfl⟩⟩

theorem Records.of_not_noted {call : Call} {ok : Bool} {before : Option (Option Bytes)}
    (h : Records files call ok world key before none) :
    before = none ∧ (ok = true → key ∉ call.passed project.destination) ∧
      key ∉ call.news project.destination := by
  cases h with
  | untouched hpassed hnew => exact ⟨rfl, hpassed, hnew⟩

theorem records_of_sweeps {call : Call} {result : Except Failure Unit} {saved : Set FileKey}
    {step : Step (StateM σ) Unit} (hsweeps : Sweeps files saved ∅ step progress world)
    (hsaved : saved = call.passed project.destination)
    (hnews : call.news project.destination = ∅)
    (h : step.runFrom progress world = (result, progress', world')) :
    files.held world' = files.held world ∧
      (progress.backup.WellKept project.destination ClassName.LeadsBelow →
        progress'.backup.WellKept project.destination ClassName.LeadsBelow) ∧
      ∀ key, Records files call result.toBool world key (progress.backup.noted? key)
        (progress'.backup.noted? key) := by
  rcases hsweeps with ⟨_, _, _, hrun, part, hpart, removed, hremoved, hsweep, hall⟩
  rw [h] at hrun
  cases hrun
  refine ⟨?_, hsweep.wellKept, fun key => ?_⟩
  · funext key
    exact hsweep.left key fun hkey => hremoved hkey
  · cases hnoted : progress.backup.noted? key with
    | some previous =>
        rw [hsweep.unchanged key (Or.inr (by rw [hnoted]; exact Option.some_ne_none _)), hnoted]
        exact .known previous
    | none =>
        by_cases hkey : key ∈ part
        · rw [hsweep.noted key hkey hnoted]
          exact .saved (hsaved ▸ hpart hkey)
        · rw [hsweep.unchanged key (Or.inl hkey), hnoted]
          refine .untouched (fun hok => ?_) (by rw [hnews]; exact Set.notMem_empty key)
          cases result with
          | error error => cases hok
          | ok value =>
              rw [← hsaved, ← (hall value rfl).1]
              exact hkey

theorem records_of_step (files : ClassFiles services.host project.destination) {call : Call}
    {result : Except Failure Unit} (hbelow : call.LeadsBelow)
    (h : (call.step services project).runFrom progress world = (result, progress', world')) :
    files.held world' = files.held world ∧
      (progress.backup.WellKept project.destination ClassName.LeadsBelow →
        progress'.backup.WellKept project.destination ClassName.LeadsBelow) ∧
      ∀ key, Records files call result.toBool world key (progress.backup.noted? key)
        (progress'.backup.noted? key) := by
  cases call with
  | save classes => exact records_of_sweeps (sweeps_backUp hbelow progress world) rfl rfl h
  | saveOwned register sources =>
      exact records_of_sweeps (sweeps_backUpOwned hbelow sources progress world) rfl rfl h
  | noteNew before outcome =>
      cases h
      refine ⟨rfl, fun hkept => hkept.noteAbsent before hbelow, fun key => ?_⟩
      show Records _ _ _ _ _ _ ((Backup.noteAbsent _ _ _ _).noted? key)
      rw [Backup.noted?_noteAbsent]
      cases hnoted : progress.backup.noted? key with
      | some previous =>
          rw [if_neg fun hnew => Option.some_ne_none _ hnew.1]
          exact .known previous
      | none =>
          split
          · next hnew => exact .new hnew.2
          · next hnew =>
              exact .untouched (fun _ => Set.notMem_empty key) fun hkey => hnew ⟨rfl, hkey⟩

/-!
# A session
-/

theorem Guarded.exists_record {events front back : List Event} {event : Event}
    (hguarded : Guarded files start events) (hevents : events = front ++ event :: back)
    (hpassed : Passes project.destination key event)
    (hchanged : ∃ earlier ∈ front, Changes project.destination key earlier) :
    ∃ earlier ∈ front,
      Saves project.destination key earlier ∨ NotesNew project.destination key earlier := by
  rcases hchanged with ⟨change, hchange, hchanges⟩
  have hmem : change ∈ events := by
    rw [hevents]
    exact List.mem_append_left _ hchange
  rcases hguarded.changed key ⟨change, hmem, hchanges⟩ with
    ⟨first, save, later, hsplit, hsaves, hnone⟩ | ⟨_, _, hnoted⟩
  · -- The save comes before the change, and so before this event.
    rw [hevents, List.append_eq_append_iff] at hsplit
    rcases hsplit with ⟨rest, hfirst, _⟩ | ⟨rest, hfront, hlater⟩
    · rw [hfirst] at hnone
      exact absurd hchanges (hnone change (List.mem_append_left _ hchange))
    · cases rest with
      | nil =>
          rw [hfront, List.append_nil] at hchange
          exact absurd hchanges (hnone change hchange)
      | cons other rest =>
          rw [List.cons_append, List.cons.injEq] at hlater
          refine ⟨save, ?_, Or.inl hsaves⟩
          rw [hfront, hlater.1]
          exact List.mem_append_right _ List.mem_cons_self
  · rcases hnoted front event back hevents hpassed ⟨change, hchange, hchanges⟩ with
      ⟨earlier, hearlier, hnew⟩
    exact ⟨earlier, hearlier, Or.inr hnew⟩

theorem notedInTime_of_note {front back : List Event} {note : Event}
    (hnote : NotesNew destination key note)
    (hfront : ∀ event ∈ front ++ [note], ¬Passes destination key event) :
    NotedInTime destination key (front ++ note :: back) := by
  refine ⟨⟨note, List.mem_append_right _ List.mem_cons_self, hnote⟩, ?_⟩
  intro first event later hsplit hpassed _
  refine ⟨note, ?_, hnote⟩
  rw [List.append_eq_append_iff] at hsplit
  rcases hsplit with ⟨rest, hfirst, hrest⟩ | ⟨rest, hfront', hrest⟩
  · cases rest with
    | nil =>
        rw [List.nil_append, List.cons.injEq] at hrest
        rw [← hrest.1] at hpassed
        exact absurd hpassed (hfront note (List.mem_append_right _ List.mem_cons_self))
    | cons other rest =>
        rw [List.cons_append, List.cons.injEq] at hrest
        rw [hfirst, hrest.1]
        exact List.mem_append_right _ List.mem_cons_self
  · -- The event would stand before the note or be the note.
    have hmem : event ∈ front ++ [note] := by
      rw [hfront', List.append_assoc]
      apply List.mem_append_right
      cases rest with
      | nil =>
          rw [List.nil_append, List.cons.injEq] at hrest
          rw [hrest.1]
          exact List.mem_cons_self
      | cons other rest =>
          rw [List.cons_append, List.cons.injEq] at hrest
          rw [hrest.1]
          exact List.mem_cons_self
    exact absurd hpassed (hfront event hmem)

structure Tracks (files : ClassFiles services.host project.destination) (start : σ)
    (events : List Event) (progress : Progress) (world : σ) : Prop where
  wellKept : progress.backup.WellKept project.destination ClassName.LeadsBelow
  recorded : ∀ key, progress.backup.noted? key ≠ none → ∃ event ∈ events,
    Passes project.destination key event ∨ NotesNew project.destination key event
  unrecorded : ∀ key, progress.backup.noted? key = none → ∀ event ∈ events,
    ¬Saves project.destination key event ∧ ¬NotesNew project.destination key event
  unchanged : ∀ key, (∀ event ∈ events, ¬Changes project.destination key event) →
    files.held world key = files.held start key

theorem Tracks.called {events : List Event} {call : Call} {result : Except Failure Unit}
    (htracks : Tracks files start events progress world) (hbelow : call.LeadsBelow)
    (h : (call.step services project).runFrom progress world = (result, progress', world')) :
    Tracks files start (events ++ [.called call result.toBool]) progress' world' := by
  rcases records_of_step files hbelow h with ⟨hheld, hkept, hrecords⟩
  refine ⟨hkept htracks.wellKept, fun key hnoted => ?_, fun key hnoted => ?_, fun key hnone => ?_⟩
  · rcases Option.ne_none_iff_exists'.mp hnoted with ⟨previous, hprevious⟩
    have hrecord := hrecords key
    rw [hprevious] at hrecord
    rcases hrecord.of_noted with hbefore | ⟨_, ⟨hpassed, _⟩ | ⟨hnew, _⟩⟩
    · rcases htracks.recorded key (by rw [hbefore]; exact Option.some_ne_none _) with
        ⟨event, hevent, hkey⟩
      exact ⟨event, List.mem_append_left _ hevent, hkey⟩
    · exact ⟨_, List.mem_append_right _ List.mem_cons_self, Or.inl ⟨call, _, rfl, hpassed⟩⟩
    · exact ⟨_, List.mem_append_right _ List.mem_cons_self, Or.inr ⟨call, _, rfl, hnew⟩⟩
  · have hrecord := hrecords key
    rw [hnoted] at hrecord
    rcases hrecord.of_not_noted with ⟨hbefore, hpassed, hnew⟩
    refine List.forall_mem_append.mpr ⟨htracks.unrecorded key hbefore, ?_⟩
    rw [List.forall_mem_singleton]
    constructor
    · rintro ⟨other, hevent, hother⟩
      rw [Event.called.injEq] at hevent
      rw [← hevent.1] at hother
      exact hpassed hevent.2 hother
    · rintro ⟨other, ok, hevent, hother⟩
      rw [Event.called.injEq] at hevent
      rw [← hevent.1] at hother
      exact hnew hother
  · rw [hheld]
    exact htracks.unchanged key fun event hevent => hnone event (List.mem_append_left _ hevent)

theorem Tracks.changed {events : List Event} {name : ClassName} {now : Option Bytes}
    (htracks : Tracks files start events progress world)
    (h : files.held world' =
      Function.update (files.held world) (fileKey project.destination name) now) :
    Tracks files start (events ++ [.changed name now]) progress world' where
  wellKept := htracks.wellKept
  recorded key hnoted := by
    rcases htracks.recorded key hnoted with ⟨event, hevent, hkey⟩
    exact ⟨event, List.mem_append_left _ hevent, hkey⟩
  unrecorded key hnoted event hevent := by
    rcases List.mem_append.mp hevent with hevent | hevent
    · exact htracks.unrecorded key hnoted event hevent
    · rw [List.mem_singleton.mp hevent]
      exact ⟨not_saves_changed name now, not_notesNew_changed name now⟩
  unchanged key hnone := by
    have hother : key ≠ fileKey project.destination name := by
      intro hkey
      have hmem : Event.changed name now ∈ events ++ [.changed name now] :=
        List.mem_append_right _ List.mem_cons_self
      exact hnone _ hmem ⟨name, now, rfl, hkey.symm⟩
    rw [h, Function.update_of_ne hother]
    exact htracks.unchanged key fun event hevent => hnone event (List.mem_append_left _ hevent)

theorem Session.tracks {events : List Event}
    (h : Session files start events progress world) : Tracks files start events progress world := by
  induction h with
  | begins survey =>
      refine ⟨Backup.wellKept_empty _ _, fun key hnoted => ?_, fun _ _ => nofun, fun _ _ => rfl⟩
      exact absurd (Backup.noted?_empty key) hnoted
  | called _ call hbelow h ih => exact ih.called hbelow h
  | changed _ name now h ih => exact ih.changed h
  | elsewhere _ h ih =>
      exact ⟨ih.wellKept, ih.recorded, ih.unrecorded, fun key hnone => by
        rw [h]
        exact ih.unchanged key hnone⟩

/--
By induction on the session, whatever follows it: what is recorded for the first
time has not changed before, or else it would be recorded already.
-/
theorem Session.noted_eq {events : List Event} (h : Session files start events progress world)
    {later : List Event} (hguarded : Guarded files start (events ++ later))
    {previous : Option Bytes} (hnoted : progress.backup.noted? key = some previous) :
    previous = files.held start key := by
  induction h generalizing later previous with
  | begins survey =>
      rw [Backup.noted?_empty] at hnoted
      cases hnoted
  | @called events progress progress' world world' result before call hbelow h ih =>
      have htracks := before.tracks
      have hrecord := (records_of_step files hbelow h).2.2 key
      rw [List.append_assoc, List.singleton_append] at hguarded
      rw [hnoted] at hrecord
      rcases hrecord.of_noted with hbefore | ⟨hbefore, ⟨hpassed, rfl⟩ | ⟨hnew, rfl⟩⟩
      · exact ih hguarded hbefore
      · apply htracks.unchanged key
        intro change hchange hchanges
        rcases hguarded.exists_record rfl ⟨call, _, rfl, hpassed⟩ ⟨change, hchange, hchanges⟩ with
          ⟨earlier, hearlier, hrecorded⟩
        have hnone := htracks.unrecorded key hbefore earlier hearlier
        exact hrecorded.elim hnone.1 hnone.2
      · rcases hguarded.new key events _ later rfl ⟨call, _, rfl, hnew⟩ with
          habsent | ⟨earlier, hearlier, hsaved⟩
        · exact habsent.symm
        · exact absurd hsaved (htracks.unrecorded key hbefore earlier hearlier).1
  | changed _ name now h ih =>
      rw [List.append_assoc] at hguarded
      exact ih hguarded hnoted
  | elsewhere _ h ih => exact ih hguarded hnoted

theorem Session.restored_eq {events : List Event}
    (h : Session files start events progress world) (hguarded : Guarded files start events) :
    files.restored progress.backup world = files.held start := by
  funext key
  unfold ClassFiles.restored
  cases hnoted : progress.backup.noted? key with
  | some previous =>
      rw [← List.append_nil events] at hguarded
      exact h.noted_eq hguarded hnoted
  | none =>
      apply h.tracks.unchanged key
      intro change hchange hchanges
      have hnone := h.tracks.unrecorded key hnoted
      rcases hguarded.changed key ⟨change, hchange, hchanges⟩ with
        ⟨front, save, back, rfl, hsaves, _⟩ | ⟨_, ⟨event, hevent, hnew⟩, _⟩
      · exact (hnone save (List.mem_append_right _ List.mem_cons_self)).1 hsaves
      · exact (hnone event hevent).2 hnew

/-!
# Restoring
-/

def IsFor (destination : Path) (name : ClassName) (path : Path) : Prop :=
  path = classFileIn destination name ∨ (classFileIn destination name).parent? = some path

def Adds (journal : Journal services) (was : List Deed) (allowed : Deed → Prop) (world : σ) :
    Prop :=
  ∃ done, journal.deeds world = was ++ done ∧ ∀ deed ∈ done, allowed deed

theorem Adds.append {journal : Journal services} {was : List Deed} {allowed : Deed → Prop}
    (h : Adds journal was allowed world) {deed : Deed} (hdeed : allowed deed)
    (hdeeds : journal.deeds world' = journal.deeds world ++ [deed]) :
    Adds journal was allowed world' := by
  rcases h with ⟨done, hdone, hall⟩
  refine ⟨done ++ [deed], by rw [hdeeds, hdone, List.append_assoc], fun other hother => ?_⟩
  rcases List.mem_append.mp hother with hother | hother
  · exact hall other hother
  · rw [List.mem_singleton.mp hother]
    exact hdeed

theorem touched_of_restore (journal : Journal services) {backup : Backup}
    (hkept : backup.WellKept project.destination ClassName.LeadsBelow) (world : σ) :
    ∃ done, journal.deeds (runIn (backup.restore services.host) world).2 =
        journal.deeds world ++ done ∧
      ∀ deed ∈ done, ∃ name path, deed = .touched path ∧ IsFor project.destination name path ∧
        backup.noted? (fileKey project.destination name) ≠ none := by
  have hrestore : Maintains (Adds journal (journal.deeds world) fun deed =>
      ∃ name path, deed = .touched path ∧ IsFor project.destination name path ∧
        backup.noted? (fileKey project.destination name) ≠ none) (fun _ => True)
      (backup.restore services.host) := by
    refine maintains_restore fun entry hentry => ?_
    have hsaved := Std.ExtTreeMap.mem_toList_iff_getElem?_eq_some.mp hentry
    rcases hkept _ _ _ hsaved with ⟨name, _, hpath, hkey⟩
    have hnoted : backup.noted? (fileKey project.destination name) ≠ none := by
      rw [← hkey, Backup.noted?, hsaved]
      exact Option.some_ne_none _
    refine maintains_restoreFile (fun parent hparent left hadds => ?_)
      (fun bytes left hadds => ?_) (fun left hadds => ?_) (fun _ _ => trivial) _
    · rw [hpath] at hparent
      exact hadds.append ⟨name, parent, rfl, Or.inr hparent, hnoted⟩
        (journal.makeDirectories parent left)
    · exact hadds.append ⟨name, entry.2.1, rfl, Or.inl hpath, hnoted⟩
        (journal.writeFile entry.2.1 bytes left)
    · exact hadds.append ⟨name, entry.2.1, rfl, Or.inl hpath, hnoted⟩
        (journal.removeFile entry.2.1 left)
  exact (hrestore world ⟨[], (List.append_nil _).symm, List.forall_mem_nil _⟩).1

/--
Class files are saved, recorded as new, written and deleted in any order. If each
file that is changed is saved before that, or was absent and is recorded as new
before it is saved afterwards, and if only absent or saved files are recorded as
new, then restoring brings every file back to what it held at the start. It
touches nothing but files that were recorded, and their directories.
-/
theorem restoring_brings_back_start (journal : Journal services) {events : List Event}
    (h : Session files start events progress world) (hguarded : Guarded files start events)
    (hrestored : runIn (progress.backup.restore services.host) world = (.ok (), world')) :
    files.held world' = files.held start ∧
      ∃ done, journal.deeds world' = journal.deeds world ++ done ∧
        ∀ deed ∈ done, ∃ name path, deed = .touched path ∧
          IsFor project.destination name path ∧
          progress.backup.noted? (fileKey project.destination name) ≠ none ∧
          ∃ event ∈ events, Passes project.destination (fileKey project.destination name) event ∨
            NotesNew project.destination (fileKey project.destination name) event := by
  have htracks := h.tracks
  constructor
  · rw [files.held_restore htracks.wellKept hrestored, h.restored_eq hguarded]
  · rcases touched_of_restore journal htracks.wellKept world with ⟨done, hdone, htouched⟩
    rw [hrestored] at hdone
    refine ⟨done, hdone, fun deed hdeed => ?_⟩
    rcases htouched deed hdeed with ⟨name, path, hpath, hfor, hnoted⟩
    exact ⟨name, path, hpath, hfor, hnoted, htracks.recorded _ hnoted⟩

/-!
A class is saved, overwritten, saved again and deleted, and another one comes
and is recorded as new before it is saved. Restoring leaves nothing of that.
-/

def recordedFiles (files : ClassFiles services.host destination) :
    ClassFiles (recorded services).host destination where
  held state := files.held state.1
  kindOf_keeps path state := files.kindOf_keeps path state.1
  filesBelow_keeps path state := files.filesBelow_keeps path state.1
  readFile_keeps path state := files.readFile_keeps path state.1
  modified_keeps path state := files.modified_keeps path state.1
  milliseconds_keeps state := files.milliseconds_keeps state.1
  makeDirectories_keeps path state := files.makeDirectories_keeps path state.1
  readFile_ok hname h := files.readFile_ok hname h
  readFile_notFound hname h := files.readFile_notFound hname h
  removeFile_ok hname h := files.removeFile_ok hname h
  removeFile_notFound hname h := files.removeFile_notFound hname h
  removeFile_error hname h := files.removeFile_error hname h
  writeFile_ok hname h := files.writeFile_ok hname h

def shelved : Services (StateM (Shelf × List Deed)) :=
  recorded (Shelf.services [] [] true)

def shelvedFiles : ClassFiles shelved.host (Shelf.project Shelf.out).destination :=
  recordedFiles (Shelf.classFiles [] [] true Shelf.out)

abbrev Standing := Progress × Shelf × List Deed

namespace Standing

def called (call : Call) (standing : Standing) : Standing :=
  ((call.step shelved (Shelf.project Shelf.out)).runFrom standing.1 standing.2).2

def overwritten (name : ClassName) (bytes : Bytes) (standing : Standing) : Standing :=
  (standing.1, standing.2.1.put (classFileIn Shelf.out name) bytes, standing.2.2)

def erased (name : ClassName) (standing : Standing) : Standing :=
  (standing.1, standing.2.1.drop (classFileIn Shelf.out name), standing.2.2)

def first : Standing :=
  (⟨Shelf.survey [] (Shelf.soloShelf none none), .empty⟩, Shelf.soloShelf none none, [])

end Standing

section Shelved

variable {events : List Event} {standing : Standing}

theorem held_shelvedFiles (state : Shelf × List Deed) : shelvedFiles.held state = state.1.held :=
  rfl

theorem Session.callAfter (h : Session shelvedFiles Standing.first.2 events standing.1 standing.2)
    {call : Call} (hbelow : call.LeadsBelow)
    (hok : ((call.step shelved (Shelf.project Shelf.out)).runFrom
      standing.1 standing.2).1.toBool = true) :
    Session shelvedFiles Standing.first.2 (events ++ [.called call true])
      (standing.called call).1 (standing.called call).2 := by
  rw [← hok]
  exact h.called call hbelow rfl

theorem Session.overwriteAfter
    (h : Session shelvedFiles Standing.first.2 events standing.1 standing.2) (name : ClassName)
    (bytes : Bytes) :
    Session shelvedFiles Standing.first.2 (events ++ [.changed name (some bytes)])
      (standing.overwritten name bytes).1 (standing.overwritten name bytes).2 := by
  refine h.changed name (some bytes) ?_
  rw [held_shelvedFiles, held_shelvedFiles]
  exact Shelf.held_put standing.2.1 (classFileIn Shelf.out name) bytes

theorem Session.eraseAfter
    (h : Session shelvedFiles Standing.first.2 events standing.1 standing.2) (name : ClassName) :
    Session shelvedFiles Standing.first.2 (events ++ [.changed name none])
      (standing.erased name).1 (standing.erased name).2 := by
  refine h.changed name none ?_
  rw [held_shelvedFiles, held_shelvedFiles]
  exact Shelf.held_drop standing.2.1 (classFileIn Shelf.out name)

def stranger : ClassName := ⟨"Y"⟩

def strangerOutcome : Outcome :=
  ⟨true, Shelf.produced [⟨"B.java", stranger, []⟩] ["B.java"], ∅⟩

def saving (name : ClassName) : Event :=
  .called (.save (.ofList [name])) true

def notingStranger : Event :=
  .called (.noteNew (.ofList []) strangerOutcome) true

def untilNoted : List Event :=
  [saving Shelf.solo, .changed Shelf.solo (some []), saving Shelf.solo, .changed Shelf.solo none,
    .changed stranger (some [])]

def lastStanding : Standing :=
  ((((((Standing.first.called (.save (.ofList [Shelf.solo]))).overwritten Shelf.solo []).called
    (.save (.ofList [Shelf.solo]))).erased Shelf.solo).overwritten stranger []).called
      (.noteNew (.ofList []) strangerOutcome)).called (.save (.ofList [stranger]))

theorem mem_ofList_singleton {name other : ClassName} :
    other ∈ (.ofList [name] : ClassSet) ↔ other = name := by
  rw [Std.ExtTreeSet.mem_ofList, List.contains_iff_mem, List.mem_singleton]

theorem leadsBelow_save {name : ClassName} (hname : name.LeadsBelow) :
    (Call.save (.ofList [name])).LeadsBelow := by
  intro other hother
  rw [mem_ofList_singleton.mp hother]
  exact hname

theorem leadsBelow_noteStranger : (Call.noteNew (.ofList []) strangerOutcome).LeadsBelow := by
  intro name hname
  rcases Shelf.mem_classes_iff.mp hname with ⟨product, hproduct, _, rfl⟩
  rw [List.mem_singleton.mp hproduct]
  decide

theorem session_lastStanding :
    Session shelvedFiles Standing.first.2 (untilNoted ++ [notingStranger, saving stranger])
      lastStanding.1 lastStanding.2 := by
  have hbegins : Session shelvedFiles Standing.first.2 [] Standing.first.1 Standing.first.2 :=
    .begins _
  have hsolo : (Call.save (.ofList [Shelf.solo])).LeadsBelow := leadsBelow_save (by decide)
  have hstranger : (Call.save (.ofList [stranger])).LeadsBelow := leadsBelow_save (by decide)
  exact (((((((hbegins.callAfter hsolo (by decide +kernel)).overwriteAfter _ _).callAfter hsolo
    (by decide +kernel)).eraseAfter _).overwriteAfter _ _).callAfter leadsBelow_noteStranger
      (by decide +kernel)).callAfter hstranger (by decide +kernel))

theorem passes_saving_iff {name : ClassName} :
    Passes Shelf.out key (saving name) ↔ fileKey Shelf.out name = key := by
  constructor
  · rintro ⟨call, ok, hsaving, hkey⟩
    cases hsaving
    rcases mem_fileKeys.mp hkey with ⟨other, hother, hsame⟩
    rw [← mem_ofList_singleton.mp hother]
    exact hsame
  · intro hkey
    exact ⟨_, _, rfl, mem_fileKeys.mpr ⟨name, mem_ofList_singleton.mpr rfl, hkey⟩⟩

theorem not_notesNew_saving (name : ClassName) : ¬NotesNew Shelf.out key (saving name) := by
  rintro ⟨call, ok, hsaving, hkey⟩
  cases hsaving
  exact Set.notMem_empty key hkey

theorem not_passes_notingStranger : ¬Passes Shelf.out key notingStranger := by
  rintro ⟨call, ok, hnoting, hkey⟩
  cases hnoting
  exact Set.notMem_empty key hkey

theorem notesNew_notingStranger_iff :
    NotesNew Shelf.out key notingStranger ↔ fileKey Shelf.out stranger = key := by
  constructor
  · rintro ⟨call, ok, hnoting, hkey⟩
    cases hnoting
    rcases Call.mem_news_noteNew.mp hkey with ⟨name, hname, _, hkey⟩
    rcases Shelf.mem_classes_iff.mp hname with ⟨product, hproduct, _, rfl⟩
    rw [List.mem_singleton.mp hproduct] at hkey
    exact hkey
  · intro hkey
    refine ⟨_, _, rfl, stranger, ?_, by decide +kernel, hkey⟩
    exact Shelf.mem_classes_iff.mpr ⟨_, List.mem_singleton.mpr rfl, List.mem_singleton.mpr rfl, rfl⟩

theorem guarded_lastStanding :
    Guarded shelvedFiles Standing.first.2 (untilNoted ++ [notingStranger, saving stranger]) := by
  have habsent : shelvedFiles.held Standing.first.2 (fileKey Shelf.out stranger) = none := by
    decide +kernel
  constructor
  · rintro key ⟨event, hevent, name, now, rfl, rfl⟩
    have hname : name = Shelf.solo ∨ name = stranger := by
      simp only [untilNoted, saving, notingStranger, List.cons_append, List.nil_append,
        List.mem_cons, List.not_mem_nil, Event.changed.injEq, reduceCtorEq] at hevent
      tauto
    rcases hname with rfl | rfl
    · refine Or.inl ⟨[], saving Shelf.solo, _, rfl, ?_, nofun⟩
      exact ⟨_, rfl, mem_fileKeys.mpr ⟨Shelf.solo, mem_ofList_singleton.mpr rfl, rfl⟩⟩
    · refine Or.inr ⟨habsent, notedInTime_of_note (notesNew_notingStranger_iff.mpr rfl) ?_⟩
      have hsolo : ¬Passes Shelf.out (fileKey Shelf.out stranger) (saving Shelf.solo) := by
        rw [passes_saving_iff]
        decide +kernel
      simp only [untilNoted, List.cons_append, List.nil_append, List.forall_mem_cons]
      exact ⟨hsolo, not_passes_changed _ _, hsolo, not_passes_changed _ _, not_passes_changed _ _,
        not_passes_notingStranger, nofun⟩
  · intro key front event back hsplit hnew
    have hevent : event ∈ untilNoted ++ [notingStranger, saving stranger] := by
      rw [hsplit]
      exact List.mem_append_right _ List.mem_cons_self
    simp only [untilNoted, List.cons_append, List.nil_append, List.mem_cons, List.not_mem_nil,
      or_false] at hevent
    rcases hevent with rfl | rfl | rfl | rfl | rfl | rfl | rfl
    · exact absurd hnew (not_notesNew_saving _)
    · exact absurd hnew (not_notesNew_changed _ _)
    · exact absurd hnew (not_notesNew_saving _)
    · exact absurd hnew (not_notesNew_changed _ _)
    · exact absurd hnew (not_notesNew_changed _ _)
    · rw [← notesNew_notingStranger_iff.mp hnew]
      exact Or.inl habsent
    · exact absurd hnew (not_notesNew_saving _)

theorem start_is_back_after_lastStanding :
    Session shelvedFiles Standing.first.2 (untilNoted ++ [notingStranger, saving stranger])
        lastStanding.1 lastStanding.2 ∧
      Guarded shelvedFiles Standing.first.2 (untilNoted ++ [notingStranger, saving stranger]) ∧
      ∃ left, runIn (lastStanding.1.backup.restore shelved.host) lastStanding.2 = (.ok (), left) ∧
        left.1.held = (Shelf.soloShelf none none).held := by
  have hok : (runIn (lastStanding.1.backup.restore shelved.host) lastStanding.2).1.toBool =
      true := by
    decide +kernel
  rcases hrun : runIn (lastStanding.1.backup.restore shelved.host) lastStanding.2 with
    ⟨result, left⟩
  rw [hrun] at hok
  rcases exists_of_toBool hok with ⟨_, rfl⟩
  have hback := restoring_brings_back_start (recordedJournal (Shelf.services [] [] true))
    session_lastStanding guarded_lastStanding hrun
  exact ⟨session_lastStanding, guarded_lastStanding, left, rfl, hback.1⟩

end Shelved

end Safekeeping
end Build
end Recompile
