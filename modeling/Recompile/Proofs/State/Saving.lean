import Recompile.Proofs.Ownership.Reloading
import Recompile.Proofs.State.Tables
import Recompile.Proofs.Step

/-!
# What is saved is what is loaded

The tables are kept in a medium that is opened and closed. While it is open, a
table is read in full, and a change of it is made with all its steps or not at
all. Whatever is saved, loaded, opened and closed in a row, a cell loads what was
saved to it last by a save that succeeded. Saves that fail, and saves to the
other cell, are not seen.
-/

namespace Recompile
namespace State

variable {κ σ α β : Type}

/-!
# Operations on what is open
-/

def runOn (operation : StateT κ (StateM σ) α) (handle : κ) (world : σ) : α × κ × σ :=
  let found := (operation.run handle).run world
  (found.1.1, found.1.2, found.2)

theorem runOn_bind (operation : StateT κ (StateM σ) α) (next : α → StateT κ (StateM σ) β)
    (handle : κ) (world : σ) :
    runOn (operation >>= next) handle world =
      let found := runOn operation handle world
      runOn (next found.1) found.2.1 found.2.2 :=
  rfl

theorem runOn_lift (operation : StateT κ (StateM σ) α) (handle : κ) (world : σ) :
    runOn (liftM operation : ExceptT Failure (StateT κ (StateM σ)) α).run handle world =
      (.ok (runOn operation handle world).1, (runOn operation handle world).2) :=
  rfl

theorem runOn_result (operation : StateT κ (StateM σ) (Except StateFault α)) (handle : κ)
    (world : σ) :
    runOn (TableStore.result operation).run handle world =
      ((runOn operation handle world).1.mapError Failure.state,
        (runOn operation handle world).2) := by
  unfold TableStore.result
  rw [ExceptT.run_bind, runOn_bind, runOn_lift]
  rcases runOn operation handle world with ⟨answer, handle', world'⟩
  cases answer with
  | ok value => rfl
  | error fault => rfl

theorem runOn_map (operation : ExceptT Failure (StateT κ (StateM σ)) α) (change : α → β)
    (handle : κ) (world : σ) :
    runOn (do return change (← operation) : ExceptT Failure (StateT κ (StateM σ)) β).run handle
        world =
      ((runOn operation.run handle world).1.map change, (runOn operation.run handle world).2) := by
  rw [ExceptT.run_bind, runOn_bind]
  rcases runOn operation.run handle world with ⟨answer, handle', world'⟩
  cases answer with
  | ok value => rfl
  | error error => rfl

/-!
# Media
-/

structure Medium (κ σ : Type) where
  store : TableStore (StateT κ (StateM σ))
  opens : ExceptT Failure (StateM σ) κ

namespace Medium

/--
Whether a medium keeps tables under their names. What is open can be read, and
a change of a table makes of it what its steps do, and touches no other table;
or it fails and leaves all of them alone. Opening changes no table.
-/
structure Keeps (medium : Medium κ σ) (isOpen : κ → σ → Prop)
    (held : σ → String → Option Rows) : Prop where
  opens : ∀ world, held (runIn medium.opens world).2 = held world ∧
    ∀ handle, (runIn medium.opens world).1 = .ok handle →
      isOpen handle (runIn medium.opens world).2
  reads : ∀ {handle world}, isOpen handle world → ∀ name, ∃ found handle' world',
    runOn (medium.store.read name) handle world = (.ok found, handle', world') ∧
      isOpen handle' world' ∧ held world' = held world ∧
      Option.Rel Lists found (held world name.text)
  changes : ∀ {handle world}, isOpen handle world → ∀ name edits {answer handle' world'},
    runOn (medium.store.change name edits) handle world = (answer, handle', world') →
      isOpen handle' world' ∧
      ((∃ rows, answer = .ok () ∧ afterEdits? (held world name.text) edits = some rows ∧
          held world' = Function.update (held world) name.text rows) ∨
        ∃ fault, answer = .error fault ∧ held world' = held world)

/-- Whether a change never fails but for a step that is refused. -/
def HasRoom (medium : Medium κ σ) (isOpen : κ → σ → Prop) (held : σ → String → Option Rows) :
    Prop :=
  ∀ handle world, isOpen handle world → ∀ name edits,
    (afterEdits? (held world name.text) edits).isSome = true →
      (runOn (medium.store.change name edits) handle world).1 = .ok ()

namespace Keeps

variable {medium : Medium κ σ} {isOpen : κ → σ → Prop} {held : σ → String → Option Rows}
  {handle handle' : κ} {world world' : σ} {name : TableName}

theorem load (h : medium.Keeps isOpen held) (hopen : isOpen handle world) {known : Option Table}
    (hknown : Option.Rel Holds (held world name.text) known) :
    ∃ handle' world',
      runOn (medium.store.load name).run handle world = (.ok known, handle', world') ∧
        isOpen handle' world' ∧ held world' = held world := by
  rcases h.reads hopen name with ⟨found, handle', world', hread, hopen', hheld, hlists⟩
  refine ⟨handle', world', ?_, hopen', hheld⟩
  unfold TableStore.load
  rw [runOn_result, runOn_bind, hread]
  generalize held world name.text = rows at hknown hlists
  cases hlists with
  | none =>
      cases hknown
      rfl
  | some hlists =>
      cases hknown with
      | some hholds =>
          simp only [table_of_lists hlists hholds]
          rfl

theorem replace (h : medium.Keeps isOpen held) (hopen : isOpen handle world) {table : Table}
    {answer : Except Failure Unit}
    (hrun : runOn (medium.store.replace name table).run handle world =
      (answer, handle', world')) :
    isOpen handle' world' ∧
      ((answer = .ok () ∧ HasGoodKeys table ∧ ∃ rows, Holds rows table ∧
          held world' = Function.update (held world) name.text (some rows)) ∨
        ∃ error, answer = .error error ∧ held world' = held world) := by
  unfold TableStore.replace at hrun
  rw [runOn_result] at hrun
  rcases hchange : runOn (medium.store.change name (replacement table)) handle world with
    ⟨found, left⟩
  rw [hchange] at hrun
  cases hrun
  rcases h.changes hopen name _ hchange with
    ⟨hopen', ⟨rows, rfl, hafter, hheld⟩ | ⟨fault, rfl, hheld⟩⟩
  · refine ⟨hopen', Or.inl ⟨rfl, ?_⟩⟩
    by_cases hgood : HasGoodKeys table
    · rcases exists_afterEdits?_replacement hgood (held world name.text) with ⟨left, hleft, hholds⟩
      rw [hleft] at hafter
      cases hafter
      exact ⟨hgood, left, hholds, hheld⟩
    · rw [afterEdits?_replacement_eq_none hgood] at hafter
      cases hafter
  · exact ⟨hopen', Or.inr ⟨_, rfl, hheld⟩⟩

theorem replace_ok (hroom : medium.HasRoom isOpen held) (hopen : isOpen handle world)
    {table : Table} (hgood : HasGoodKeys table) :
    (runOn (medium.store.replace name table).run handle world).1 = .ok () := by
  unfold TableStore.replace
  rw [runOn_result]
  have hafter : (afterEdits? (held world name.text) (replacement table)).isSome = true := by
    rcases exists_afterEdits?_replacement hgood (held world name.text) with ⟨left, hleft, _⟩
    rw [hleft]
    rfl
  rw [hroom handle world hopen name _ hafter]
  rfl

theorem replace_answer (h : medium.Keeps isOpen held) (hopen : isOpen handle world) {table : Table}
    {answer : Except Failure Unit}
    (hrun : runOn (medium.store.replace name table).run handle world =
      (answer, handle', world')) :
    (¬HasGoodKeys table → ∃ error, answer = .error error) ∧
      (medium.HasRoom isOpen held → HasGoodKeys table → answer = .ok ()) := by
  constructor
  · intro hbad
    rcases (h.replace hopen hrun).2 with ⟨_, hgood, _⟩ | ⟨error, hanswer, _⟩
    · exact absurd hgood hbad
    · exact ⟨error, hanswer⟩
  · intro hroom hgood
    have hok : (runOn (medium.store.replace name table).run handle world).1 = .ok () :=
      replace_ok hroom hopen hgood
    rw [hrun] at hok
    exact hok

end Keeps
end Medium

/-!
# Histories
-/

inductive Event where
  | opened (answer : Except Failure Unit)
  | closed
  | savedFingerprints (table : Fingerprints) (answer : Except Failure Unit)
  | savedOwnership (register : Ownership) (answer : Except Failure Unit)
  | loadedFingerprints (answer : Except Failure (Option Fingerprints))
  | loadedOwnership (answer : Except Failure (Option Ownership))

namespace Event

def fingerprints? : Event → Option Fingerprints
  | savedFingerprints table (.ok ()) => some table
  | _ => none

def register? : Event → Option Ownership
  | savedOwnership register (.ok ()) => some register
  | _ => none

def table? (event : Event) : TableName → Option Table
  | .fingerprints => event.fingerprints?
  | .owners => event.register?.map TableStore.ownershipRows

end Event

def lastSaved (saved? : Event → Option α) (events : List Event) : Option α :=
  (events.filterMap saved?).getLast?

theorem lastSaved_concat (saved? : Event → Option α) (events : List Event) (event : Event) :
    lastSaved saved? (events ++ [event]) = (saved? event).or (lastSaved saved? events) := by
  unfold lastSaved
  rw [List.filterMap_append, List.getLast?_append]
  congr 1
  cases hsaved : saved? event with
  | none => rw [List.filterMap_cons_none hsaved]; rfl
  | some value => rw [List.filterMap_cons_some hsaved]; rfl

def lastTable (events : List Event) : TableName → Option Table
  | .fingerprints => lastSaved Event.fingerprints? events
  | .owners => (lastSaved Event.register? events).map TableStore.ownershipRows

theorem lastTable_concat (events : List Event) (event : Event) (name : TableName) :
    lastTable (events ++ [event]) name = (event.table? name).or (lastTable events name) := by
  cases name with
  | fingerprints => exact lastSaved_concat Event.fingerprints? events event
  | owners =>
      have hlast := lastSaved_concat Event.register? events event
      exact (congrArg (Option.map TableStore.ownershipRows) hlast).trans Option.map_or

namespace Medium

inductive Leads (medium : Medium κ σ) : Option κ × σ → Event → Option κ × σ → Prop where
  | opened {world world' : σ} {handle : κ}
      (h : runIn medium.opens world = (.ok handle, world')) :
      Leads medium (none, world) (.opened (.ok ())) (some handle, world')
  | refused {world world' : σ} {error : Failure}
      (h : runIn medium.opens world = (.error error, world')) :
      Leads medium (none, world) (.opened (.error error)) (none, world')
  | closed (handle : κ) (world : σ) : Leads medium (some handle, world) .closed (none, world)
  | savedFingerprints {handle handle' : κ} {world world' : σ} {table : Fingerprints}
      {answer : Except Failure Unit}
      (h : runOn (medium.store.fingerprints.save table).run handle world =
        (answer, handle', world')) :
      Leads medium (some handle, world) (.savedFingerprints table answer) (some handle', world')
  | savedOwnership {handle handle' : κ} {world world' : σ} {register : Ownership}
      {answer : Except Failure Unit}
      (h : runOn (medium.store.ownership.save register).run handle world =
        (answer, handle', world')) :
      Leads medium (some handle, world) (.savedOwnership register answer) (some handle', world')
  | loadedFingerprints {handle handle' : κ} {world world' : σ}
      {answer : Except Failure (Option Fingerprints)}
      (h : runOn medium.store.fingerprints.load.run handle world = (answer, handle', world')) :
      Leads medium (some handle, world) (.loadedFingerprints answer) (some handle', world')
  | loadedOwnership {handle handle' : κ} {world world' : σ}
      {answer : Except Failure (Option Ownership)}
      (h : runOn medium.store.ownership.load.run handle world = (answer, handle', world')) :
      Leads medium (some handle, world) (.loadedOwnership answer) (some handle', world')

inductive Runs (medium : Medium κ σ) : Option κ × σ → List Event → Option κ × σ → Prop where
  | nil (place : Option κ × σ) : Runs medium place [] place
  | cons {start middle finish : Option κ × σ} {event : Event} {events : List Event}
      (hfirst : Leads medium start event middle) (hrest : Runs medium middle events finish) :
      Runs medium start (event :: events) finish

theorem Runs.exists_leads {medium : Medium κ σ} {start finish : Option κ × σ}
    {before after : List Event} {event : Event}
    (h : medium.Runs start (before ++ event :: after) finish) :
    ∃ place place', medium.Runs start before place ∧ medium.Leads place event place' := by
  induction before generalizing start with
  | nil =>
      cases h with
      | cons hfirst hrest => exact ⟨_, _, .nil _, hfirst⟩
  | cons first before ih =>
      cases h with
      | cons hfirst hrest =>
          rcases ih hrest with ⟨place, place', hbefore, hevent⟩
          exact ⟨place, place', .cons hfirst hbefore, hevent⟩

/-- Whether all is as events left it: what is open is, and what is held was saved last. -/
structure Stands (isOpen : κ → σ → Prop) (held : σ → String → Option Rows) (events : List Event)
    (place : Option κ × σ) : Prop where
  isOpen : ∀ handle, place.1 = some handle → isOpen handle place.2
  tables : ∀ name : TableName, Option.Rel Holds (held place.2 name.text) (lastTable events name)

namespace Stands

variable {medium : Medium κ σ} {isOpen : κ → σ → Prop} {held : σ → String → Option Rows}
  {events earlier : List Event} {event : Event} {start finish place place' : Option κ × σ}
  {handle handle' : κ} {world world' : σ}

theorem of_unchanged (hstands : Stands isOpen held events place)
    (hopen : ∀ handle, place'.1 = some handle → isOpen handle place'.2)
    (hheld : held place'.2 = held place.2) (hevent : ∀ name, event.table? name = none) :
    Stands isOpen held (events ++ [event]) place' := by
  refine ⟨hopen, ?_⟩
  intro name
  rw [lastTable_concat, hevent, Option.none_or, hheld]
  exact hstands.tables name

theorem of_kept (hstands : Stands isOpen held events place) (hopen : isOpen handle world)
    (hheld : held world = held place.2) (hevent : ∀ name, event.table? name = none) :
    Stands isOpen held (events ++ [event]) (some handle, world) := by
  refine hstands.of_unchanged ?_ hheld hevent
  rintro _ ⟨⟩
  exact hopen

theorem replaced (h : medium.Keeps isOpen held)
    (hstands : Stands isOpen held events (some handle, world))
    {name : TableName} {table : Table} {answer : Except Failure Unit}
    (hrun : runOn (medium.store.replace name table).run handle world = (answer, handle', world'))
    (hevent : ∀ other, event.table? other =
      if answer.toBool = true ∧ other = name then some table else none) :
    Stands isOpen held (events ++ [event]) (some handle', world') := by
  rcases h.replace (hstands.isOpen handle rfl) hrun with
    ⟨hopen, ⟨rfl, _, rows, hholds, hheld⟩ | ⟨error, rfl, hheld⟩⟩
  · constructor
    · rintro _ ⟨⟩
      exact hopen
    · intro other
      rw [lastTable_concat, hevent, hheld]
      by_cases hname : other = name
      · rw [if_pos ⟨rfl, hname⟩, hname, Function.update_self]
        exact .some hholds
      · have htext : other.text ≠ name.text := by
          cases other <;> cases name <;> first | exact absurd rfl hname | decide
        rw [if_neg fun hboth => hname hboth.2, Function.update_of_ne htext]
        exact hstands.tables other
  · refine hstands.of_kept hopen hheld ?_
    intro other
    rw [hevent, if_neg]
    exact fun hboth => nomatch hboth.1

theorem leads (h : medium.Keeps isOpen held) (hstands : Stands isOpen held events place)
    (hleads : medium.Leads place event place') : Stands isOpen held (events ++ [event]) place' := by
  cases hleads with
  | @opened world world' handle hrun =>
      rcases h.opens world with ⟨hheld, hopen⟩
      rw [hrun] at hheld hopen
      exact hstands.of_kept (hopen handle rfl) hheld (by rintro ⟨⟩ <;> rfl)
  | @refused world world' error hrun =>
      have hheld := (h.opens world).1
      rw [hrun] at hheld
      exact hstands.of_unchanged nofun hheld (by rintro ⟨⟩ <;> rfl)
  | closed handle world => exact hstands.of_unchanged nofun rfl (by rintro ⟨⟩ <;> rfl)
  | @savedFingerprints _ _ _ _ table answer hrun =>
      refine hstands.replaced h hrun ?_
      rintro ⟨⟩ <;> cases answer <;> rfl
  | @savedOwnership _ _ _ _ register answer hrun =>
      refine hstands.replaced h hrun ?_
      rintro ⟨⟩ <;> cases answer <;> rfl
  | loadedFingerprints hrun =>
      rcases h.load (hstands.isOpen _ rfl) (hstands.tables .fingerprints) with
        ⟨_, _, hload, hopen, hheld⟩
      cases hload.symm.trans hrun
      exact hstands.of_kept hopen hheld (by rintro ⟨⟩ <;> rfl)
  | loadedOwnership hrun =>
      rcases h.load (hstands.isOpen _ rfl) (hstands.tables .owners) with
        ⟨_, _, hload, hopen, hheld⟩
      unfold TableStore.ownership at hrun
      rw [runOn_map, hload] at hrun
      cases hrun
      exact hstands.of_kept hopen hheld (by rintro ⟨⟩ <;> rfl)

theorem runs (h : medium.Keeps isOpen held) (hstands : Stands isOpen held earlier start)
    (hruns : medium.Runs start events finish) :
    Stands isOpen held (earlier ++ events) finish := by
  induction hruns generalizing earlier with
  | nil place =>
      rw [List.append_nil]
      exact hstands
  | cons hfirst _ ih =>
      rw [List.append_cons]
      exact ih (hstands.leads h hfirst)

theorem loadedFingerprints (h : medium.Keeps isOpen held)
    (hstands : Stands isOpen held events place) {answer : Except Failure (Option Fingerprints)}
    (hleads : medium.Leads place (.loadedFingerprints answer) place') :
    answer = .ok (lastSaved Event.fingerprints? events) := by
  cases hleads with
  | loadedFingerprints hrun =>
      rcases h.load (hstands.isOpen _ rfl) (hstands.tables .fingerprints) with
        ⟨_, _, hload, _, _⟩
      cases hload.symm.trans hrun
      rfl

theorem loadedOwnership (h : medium.Keeps isOpen held)
    (hstands : Stands isOpen held events place) {answer : Except Failure (Option Ownership)}
    (hleads : medium.Leads place (.loadedOwnership answer) place') :
    answer = .ok ((lastSaved Event.register? events).map Ownership.reload) := by
  cases hleads with
  | loadedOwnership hrun =>
      rcases h.load (hstands.isOpen _ rfl) (hstands.tables .owners) with ⟨_, _, hload, _, _⟩
      unfold TableStore.ownership at hrun
      rw [runOn_map, hload] at hrun
      cases hrun
      have hreload : TableStore.ofOwnershipRows ∘ TableStore.ownershipRows = Ownership.reload :=
        funext TableStore.ofOwnershipRows_ownershipRows
      rw [Except.map, lastTable, Option.map_map, hreload]

end Stands

/--
Whatever is done with a medium in which nothing was saved at first, each load
gives what was saved last to the same cell, a register as far as it is kept. A
save fails if some key is empty or too long, and if there is room it does so in
no other case. As no event but a save that succeeds has a part in what is loaded,
a save that fails leaves both cells as they were, and the other cell is
left alone by all.
-/
theorem loads_give_last_saved {medium : Medium κ σ} {isOpen : κ → σ → Prop}
    {held : σ → String → Option Rows} (h : medium.Keeps isOpen held) {start : σ}
    (hfresh : ∀ name : TableName, held start name.text = none) {events : List Event}
    {finish : Option κ × σ} (hruns : medium.Runs (none, start) events finish) :
    (∀ before answer after, events = before ++ .loadedFingerprints answer :: after →
      answer = .ok (lastSaved Event.fingerprints? before)) ∧
    (∀ before answer after, events = before ++ .loadedOwnership answer :: after →
      answer = .ok ((lastSaved Event.register? before).map Ownership.reload)) ∧
    (∀ table answer, .savedFingerprints table answer ∈ events →
      ((∃ key ∈ table, ¬isGoodKeySize (Bytes.ofText key).length = true) →
        ∃ error, answer = .error error) ∧
      (medium.HasRoom isOpen held →
        (∀ key ∈ table, isGoodKeySize (Bytes.ofText key).length = true) → answer = .ok ())) ∧
    ∀ register answer, .savedOwnership register answer ∈ events →
      ((∃ name ∈ register.byClass, ¬isGoodKeySize (Bytes.ofText name.text).length = true) →
        ∃ error, answer = .error error) ∧
      (medium.HasRoom isOpen held →
        (∀ name ∈ register.byClass, isGoodKeySize (Bytes.ofText name.text).length = true) →
          answer = .ok ()) := by
  have hfirst : Stands isOpen held [] (none, start) := by
    refine ⟨nofun, ?_⟩
    intro name
    rw [hfresh]
    cases name <;> exact .none
  have hreached : ∀ before event after, events = before ++ event :: after →
      ∃ place place', Stands isOpen held before place ∧ medium.Leads place event place' := by
    rintro before event after rfl
    rcases hruns.exists_leads with ⟨place, place', hbefore, hleads⟩
    exact ⟨place, place', hfirst.runs h hbefore, hleads⟩
  refine ⟨?_, ?_, ?_, ?_⟩
  · intro before answer after hevents
    rcases hreached before _ after hevents with ⟨place, place', hstands, hleads⟩
    exact hstands.loadedFingerprints h hleads
  · intro before answer after hevents
    rcases hreached before _ after hevents with ⟨place, place', hstands, hleads⟩
    exact hstands.loadedOwnership h hleads
  · intro table answer hmem
    rcases List.append_of_mem hmem with ⟨before, after, hevents⟩
    rcases hreached before _ after hevents with ⟨place, place', hstands, hleads⟩
    cases hleads with
    | savedFingerprints hrun =>
        have hanswer := h.replace_answer (hstands.isOpen _ rfl) hrun
        exact ⟨fun ⟨key, hkey, hbad⟩ => hanswer.1 fun hgood => hbad (hgood key hkey), hanswer.2⟩
  · intro register answer hmem
    rcases List.append_of_mem hmem with ⟨before, after, hevents⟩
    rcases hreached before _ after hevents with ⟨place, place', hstands, hleads⟩
    cases hleads with
    | savedOwnership hrun =>
        have hanswer := h.replace_answer (hstands.isOpen _ rfl) hrun
        rw [TableStore.hasGoodKeys_ownershipRows_iff] at hanswer
        exact ⟨fun ⟨name, hname, hbad⟩ => hanswer.1 fun hgood => hbad (hgood name hname), hanswer.2⟩

def inMemory : Medium Unit (String → Option Rows) where
  store := {
    read := fun name => do
      let tables ← StateT.lift (m := StateM (String → Option Rows)) get
      return .ok ((tables name.text).map fun rows => ⟨rows.toList, none⟩)
    change := fun name edits => do
      let tables ← StateT.lift (m := StateM (String → Option Rows)) get
      match afterEdits? (tables name.text) edits with
      | some rows => do
        StateT.lift (set (Function.update tables name.text rows))
        return .ok ()
      | none => return .error .badKeySize
  }
  opens := pure ()

theorem runOn_change_inMemory (name : TableName) (edits : List Edit)
    (tables : String → Option Rows) :
    runOn (inMemory.store.change name edits) () tables =
      match afterEdits? (tables name.text) edits with
      | some rows => (.ok (), (), Function.update tables name.text rows)
      | none => (.error .badKeySize, (), tables) := by
  have hchange : runOn (inMemory.store.change name edits) () tables =
      runOn (match afterEdits? (tables name.text) edits with
        | some rows => (do
          StateT.lift (set (Function.update tables name.text rows))
          return .ok () : StateT Unit (StateM (String → Option Rows)) (Except StateFault Unit))
        | none => return .error .badKeySize) () tables := rfl
  rw [hchange]
  cases afterEdits? (tables name.text) edits with
  | some rows => rfl
  | none => rfl

theorem keeps_inMemory : inMemory.Keeps (fun _ _ => True) id where
  opens _ := ⟨rfl, fun _ _ => trivial⟩
  reads {_ tables} _ name := by
    refine ⟨_, _, _, rfl, trivial, rfl, ?_⟩
    show Option.Rel Lists ((tables name.text).map _) (tables name.text)
    cases tables name.text with
    | none => exact .none
    | some rows =>
        exact .some ⟨rfl, fun _ _ => Std.ExtTreeMap.mem_toList_iff_getElem?_eq_some⟩
  changes {_ tables} _ name edits answer handle' tables' h := by
    rw [runOn_change_inMemory] at h
    refine ⟨trivial, ?_⟩
    cases hafter : afterEdits? (tables name.text) edits with
    | some rows =>
        rw [hafter] at h
        cases h
        exact Or.inl ⟨rows, rfl, hafter, rfl⟩
    | none =>
        rw [hafter] at h
        cases h
        exact Or.inr ⟨_, rfl, rfl⟩

theorem hasRoom_inMemory : inMemory.HasRoom (fun _ _ => True) id := by
  intro _ tables _ name edits hafter
  rcases Option.isSome_iff_exists.mp hafter with ⟨rows, hrows⟩
  have hrows' : afterEdits? (tables name.text) edits = some rows := hrows
  rw [runOn_change_inMemory, hrows']

def oneFingerprint : Fingerprints :=
  (∅ : Fingerprints).insert "A.java" "1"

def idleRegister : Ownership where
  bySource := ((∅ : Std.ExtTreeMap String ClassSet).insert "A.java"
    ((∅ : ClassSet).insert ⟨"A"⟩)).insert "B.java" ∅
  byClass := (∅ : Std.ExtTreeMap ClassName String).insert ⟨"A"⟩ "A.java"

theorem hasGoodKeys_oneFingerprint : HasGoodKeys oneFingerprint := by
  intro key hkey
  unfold oneFingerprint at hkey
  rw [Std.ExtTreeMap.mem_insert, Std.LawfulEqCmp.compare_eq_iff_eq] at hkey
  rcases hkey with rfl | hnone
  · decide
  · exact absurd hnone Std.ExtTreeMap.not_mem_empty

theorem hasGoodKeys_idleRegister : HasGoodKeys (TableStore.ownershipRows idleRegister) := by
  rw [TableStore.hasGoodKeys_ownershipRows_iff]
  intro name hname
  unfold idleRegister at hname
  rw [Std.ExtTreeMap.mem_insert, Std.LawfulEqCmp.compare_eq_iff_eq] at hname
  rcases hname with rfl | hnone
  · decide
  · exact absurd hnone Std.ExtTreeMap.not_mem_empty

theorem loads_give_last_saved_of_empty_key :
    inMemory.Keeps (fun _ _ => True) id ∧
      ∃ first refused second third finish,
        inMemory.Runs (none, fun _ => none)
          [.opened (.ok ()), .loadedFingerprints first, .savedFingerprints oneFingerprint (.ok ()),
            .savedFingerprints (oneFingerprint.insert "" "2") refused, .closed, .opened (.ok ()),
            .savedOwnership idleRegister (.ok ()), .loadedFingerprints second,
            .loadedOwnership third] finish ∧
        first = .ok none ∧ (∃ error, refused = .error error) ∧
        second = .ok (some oneFingerprint) ∧ third = .ok (some idleRegister.reload) := by
  refine ⟨keeps_inMemory, ?_⟩
  have hload : ∀ tables, ∃ answer tables',
      inMemory.Leads (some (), tables) (.loadedFingerprints answer) (some (), tables') :=
    fun _ => ⟨_, _, .loadedFingerprints rfl⟩
  have howners : ∀ tables, ∃ answer tables',
      inMemory.Leads (some (), tables) (.loadedOwnership answer) (some (), tables') :=
    fun _ => ⟨_, _, .loadedOwnership rfl⟩
  have hsave : ∀ table tables, ∃ answer tables',
      inMemory.Leads (some (), tables) (.savedFingerprints table answer) (some (), tables') :=
    fun _ _ => ⟨_, _, .savedFingerprints rfl⟩
  have hsaved : ∀ tables, ∃ tables',
      inMemory.Leads (some (), tables) (.savedFingerprints oneFingerprint (.ok ()))
        (some (), tables') := by
    intro tables
    refine ⟨_, .savedFingerprints (Prod.ext ?_ rfl)⟩
    exact Keeps.replace_ok hasRoom_inMemory trivial hasGoodKeys_oneFingerprint
  have hregistered : ∀ tables, ∃ tables',
      inMemory.Leads (some (), tables) (.savedOwnership idleRegister (.ok ()))
        (some (), tables') := by
    intro tables
    refine ⟨_, .savedOwnership (Prod.ext ?_ rfl)⟩
    exact Keeps.replace_ok hasRoom_inMemory trivial hasGoodKeys_idleRegister
  rcases hload fun _ => none with ⟨first, tables₁, h₁⟩
  rcases hsaved tables₁ with ⟨tables₂, h₂⟩
  rcases hsave (oneFingerprint.insert "" "2") tables₂ with ⟨refused, tables₃, h₃⟩
  rcases hregistered tables₃ with ⟨tables₄, h₄⟩
  rcases hload tables₄ with ⟨second, tables₅, h₅⟩
  rcases howners tables₅ with ⟨third, tables₆, h₆⟩
  have hruns : inMemory.Runs (none, fun _ => none) _ (some (), tables₆) :=
    .cons (.opened rfl) <| .cons h₁ <| .cons h₂ <| .cons h₃ <| .cons (.closed _ _) <|
      .cons (.opened rfl) <| .cons h₄ <| .cons h₅ <| .cons h₆ <| .nil _
  rcases loads_give_last_saved keeps_inMemory (fun _ => rfl) hruns with
    ⟨hloads, hregisters, hsaves, _⟩
  have hrefused : ∃ error, refused = .error error :=
    (hsaves _ refused (.tail _ (.tail _ (.tail _ (.head _))))).1
      ⟨"", Std.ExtTreeMap.mem_insert_self, by decide⟩
  refine ⟨first, refused, second, third, _, hruns, hloads [_] _ _ rfl, hrefused, ?_, ?_⟩
  · rcases hrefused with ⟨error, rfl⟩
    exact hloads [_, _, _, _, _, _, _] second _ rfl
  · exact hregisters [_, _, _, _, _, _, _, _] third _ rfl

end Medium

end State
end Recompile
