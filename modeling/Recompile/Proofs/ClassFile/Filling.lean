import Recompile.Proofs.ClassFile.Entries
import Recompile.Proofs.ClassFile.Faults

/-!
# Filling the pool

The index at which the pool is filled goes up by one or two with each entry,
and it has two bytes, as the count has. The loop is told here with sums that
may not fit into these: no rule goes on from such a sum. Reading a pool still
is what a run of the loop comes to, whatever the count and the bytes, so no
index ever grows too large, and each entry that was read stands at its index.
-/

namespace Recompile
namespace ClassFile

def next? (index : UInt16) : Option UInt16 :=
  if index.toNat + 1 < 2 ^ 16 then some (index + 1) else none

structure Filling where
  index : UInt16
  entries : Array Constant
  cursor : Cursor

structure Numbered where
  index : UInt16
  constant : Constant

/--
How the loop runs while its index is below the count: what it reads on the way,
and what it comes to. A constant that is kept is pushed, and a second slot
behind a wide one. The index after it is asked for before a wide one is kept.
-/
inductive Fills (count : UInt16) :
    Filling → List Numbered → Except Fault (Pool × Cursor) → Prop where
  | full {now : Filling} (hcount : count ≤ now.index) :
      Fills count now [] (.ok (⟨now.entries⟩, now.cursor))
  | failed {now : Filling} {fault : Fault} (hindex : now.index < count)
      (hread : readConstant now.index.toNat now.cursor = .error fault) :
      Fills count now [] (.error fault)
  | narrow {now : Filling} {constant : Constant} {left : Cursor} {second : UInt16}
      {reads : List Numbered} {answer : Except Fault (Pool × Cursor)} (hindex : now.index < count)
      (hread : readConstant now.index.toNat now.cursor = .ok (constant, left))
      (hnarrow : constant.isWide = false) (hsecond : next? now.index = some second)
      (hmore : Fills count ⟨second, now.entries.push constant, left⟩ reads answer) :
      Fills count now (⟨now.index, constant⟩ :: reads) answer
  | refused {now : Filling} {constant : Constant} {left : Cursor} {second : UInt16}
      (hindex : now.index < count)
      (hread : readConstant now.index.toNat now.cursor = .ok (constant, left))
      (hwide : constant.isWide = true) (hsecond : next? now.index = some second)
      (hcount : count ≤ second) :
      Fills count now [⟨now.index, constant⟩] (.error (.wideAtEnd now.index.toNat))
  | wide {now : Filling} {constant : Constant} {left : Cursor} {second third : UInt16}
      {reads : List Numbered} {answer : Except Fault (Pool × Cursor)} (hindex : now.index < count)
      (hread : readConstant now.index.toNat now.cursor = .ok (constant, left))
      (hwide : constant.isWide = true) (hsecond : next? now.index = some second)
      (hcount : second < count) (hthird : next? second = some third)
      (hmore : Fills count ⟨third, (now.entries.push constant).push .unusable, left⟩ reads answer) :
      Fills count now (⟨now.index, constant⟩ :: reads) answer

variable {count index second : UInt16} {now : Filling} {reads : List Numbered}
  {answer : Except Fault (Pool × Cursor)}

theorem toNat_of_next? (h : next? index = some second) : second.toNat = index.toNat + 1 := by
  unfold next? at h
  by_cases hsum : index.toNat + 1 < 2 ^ 16
  · rw [if_pos hsum, Option.some.injEq] at h
    rw [← h, UInt16.toNat_add]
    exact Nat.mod_eq_of_lt hsum
  · rw [if_neg hsum] at h
    cases h

theorem exists_next? (h : index < count) :
    ∃ second, next? index = some second ∧ second.toNat = index.toNat + 1 := by
  have hcount := count.toNat_lt
  have hsum : index.toNat + 1 < 2 ^ 16 := by
    have hlt := UInt16.lt_iff_toNat_lt.mp h
    omega
  have hnext : next? index = some (index + 1) := by
    rw [next?, if_pos hsum]
  exact ⟨index + 1, hnext, toNat_of_next? hnext⟩

theorem Fills.unique {others : List Numbered} {other : Except Fault (Pool × Cursor)}
    (h : Fills count now reads answer) (hother : Fills count now others other) :
    others = reads ∧ other = answer := by
  induction h generalizing others other with
  | full hcount =>
      cases hother with
      | full => exact ⟨rfl, rfl⟩
      | failed hindex | narrow hindex | refused hindex | wide hindex =>
          exact absurd hindex (UInt16.not_lt.mpr hcount)
  | failed hindex hread =>
      cases hother with
      | full hcount => exact absurd hindex (UInt16.not_lt.mpr hcount)
      | failed _ hread' =>
          cases hread.symm.trans hread'
          exact ⟨rfl, rfl⟩
      | narrow _ hread' | refused _ hread' | wide _ hread' => cases hread.symm.trans hread'
  | narrow hindex hread hnarrow hsecond _ ih =>
      cases hother with
      | full hcount => exact absurd hindex (UInt16.not_lt.mpr hcount)
      | failed _ hread' => cases hread.symm.trans hread'
      | narrow _ hread' _ hsecond' hmore =>
          cases hread.symm.trans hread'
          cases hsecond.symm.trans hsecond'
          obtain ⟨rfl, rfl⟩ := ih hmore
          exact ⟨rfl, rfl⟩
      | refused _ hread' hwide | wide _ hread' hwide =>
          cases hread.symm.trans hread'
          cases hnarrow.symm.trans hwide
  | refused hindex hread hwide hsecond hcount =>
      cases hother with
      | full hcount' => exact absurd hindex (UInt16.not_lt.mpr hcount')
      | failed _ hread' => cases hread.symm.trans hread'
      | narrow _ hread' hnarrow =>
          cases hread.symm.trans hread'
          cases hwide.symm.trans hnarrow
      | refused _ hread' =>
          cases hread.symm.trans hread'
          exact ⟨rfl, rfl⟩
      | wide _ hread' _ hsecond' hbelow =>
          cases hsecond.symm.trans hsecond'
          exact absurd hbelow (UInt16.not_lt.mpr hcount)
  | wide hindex hread hwide hsecond hbelow hthird _ ih =>
      cases hother with
      | full hcount => exact absurd hindex (UInt16.not_lt.mpr hcount)
      | failed _ hread' => cases hread.symm.trans hread'
      | narrow _ hread' hnarrow =>
          cases hread.symm.trans hread'
          cases hwide.symm.trans hnarrow
      | refused _ _ _ hsecond' hcount =>
          cases hsecond.symm.trans hsecond'
          exact absurd hbelow (UInt16.not_lt.mpr hcount)
      | wide _ hread' _ hsecond' _ hthird' hmore =>
          cases hread.symm.trans hread'
          cases hsecond.symm.trans hsecond'
          cases hthird.symm.trans hthird'
          obtain ⟨rfl, rfl⟩ := ih hmore
          exact ⟨rfl, rfl⟩

/-!
# The loop ends with what the reader gives
-/

section Steps

variable {left place : Nat} {entries : Array Constant} {cursor after : Cursor}
  {constant : Constant}

theorem readSlots_of_error {fault : Fault} (hread : readConstant place cursor = .error fault) :
    readSlots (left + 1) place entries cursor = .error fault := by
  rw [readSlots, Decoder.bind_eq, hread]
  rfl

theorem readSlots_of_narrow (hread : readConstant place cursor = .ok (constant, after))
    (hnarrow : constant.isWide = false) :
    readSlots (left + 1) place entries cursor =
      readSlots left (place + 1) (entries.push constant) after := by
  rw [readSlots, Decoder.bind_eq, hread]
  show (if constant.isWide then _ else _ : Decoder _) after = _
  rw [hnarrow]
  rfl

theorem readSlots_of_refused (hread : readConstant place cursor = .ok (constant, after))
    (hwide : constant.isWide = true) :
    readSlots 1 place entries cursor = .error (.wideAtEnd place) := by
  rw [readSlots, Decoder.bind_eq, hread]
  show (if constant.isWide then _ else _ : Decoder _) after = _
  rw [hwide]
  rfl

theorem readSlots_of_wide (hread : readConstant place cursor = .ok (constant, after))
    (hwide : constant.isWide = true) :
    readSlots (left + 2) place entries cursor =
      readSlots left (place + 2) ((entries.push constant).push .unusable) after := by
  rw [readSlots, Decoder.bind_eq, hread]
  show (if constant.isWide then _ else _ : Decoder _) after = _
  rw [hwide]
  rfl

end Steps

def pooled (found : Except Fault (Array Constant × Cursor)) : Except Fault (Pool × Cursor) :=
  found.map fun filled => (⟨filled.1⟩, filled.2)

/-- Each step of the loop takes the slots off that the count leaves, so it comes to an end. -/
theorem exists_fills_readSlots (count : UInt16) (left : Nat) (now : Filling)
    (hleft : left = count.toNat - now.index.toNat) :
    ∃ reads, Fills count now reads
      (pooled (readSlots left now.index.toNat now.entries now.cursor)) := by
  -- A wide constant takes two slots off at once, so the one before is not enough.
  induction left using Nat.strongRecOn generalizing now with
  | ind left ih =>
  cases left with
  | zero =>
      have hcount : count ≤ now.index := UInt16.le_iff_toNat_le.mpr (by omega)
      exact ⟨[], .full hcount⟩
  | succ left =>
      have hindex : now.index < count := UInt16.lt_iff_toNat_lt.mpr (by omega)
      obtain ⟨second, hsecond, hone⟩ := exists_next? hindex
      cases hread : readConstant now.index.toNat now.cursor with
      | error fault =>
          rw [readSlots_of_error hread]
          exact ⟨[], .failed hindex hread⟩
      | ok found =>
          obtain ⟨constant, after⟩ := found
          cases hwide : constant.isWide with
          | false =>
              obtain ⟨reads, hmore⟩ := ih left (Nat.lt_succ_self left)
                ⟨second, now.entries.push constant, after⟩ (by simp only; omega)
              rw [readSlots_of_narrow hread hwide, ← hone]
              exact ⟨_, .narrow hindex hread hwide hsecond hmore⟩
          | true =>
              cases left with
              | zero =>
                  have hcount : count ≤ second := UInt16.le_iff_toNat_le.mpr (by omega)
                  rw [readSlots_of_refused hread hwide]
                  exact ⟨_, .refused hindex hread hwide hsecond hcount⟩
              | succ left =>
                  have hcount : second < count := UInt16.lt_iff_toNat_lt.mpr (by omega)
                  obtain ⟨third, hthird, htwo⟩ := exists_next? hcount
                  obtain ⟨reads, hmore⟩ := ih left (by omega)
                    ⟨third, (now.entries.push constant).push .unusable, after⟩
                    (by simp only; omega)
                  have hplace : third.toNat = now.index.toNat + 2 := by omega
                  rw [readSlots_of_wide hread hwide, ← hplace]
                  exact ⟨_, .wide hindex hread hwide hsecond hcount hthird hmore⟩

/-!
# What stands in the slots

The slots of the constants that were read come one after the other behind what
was there before, and the index of each constant says how many are before it.
-/

theorem slots_of_narrow {constant : Constant} (h : constant.isWide = false) :
    constant.slots = [constant] := by
  rw [Constant.slots, h]
  rfl

theorem slots_of_wide {constant : Constant} (h : constant.isWide = true) :
    constant.slots = [constant, .unusable] := by
  rw [Constant.slots, h]
  rfl

def slotsRead (reads : List Numbered) : List Constant :=
  reads.flatMap fun read => read.constant.slots

theorem slotsRead_cons (read : Numbered) (reads : List Numbered) :
    slotsRead (read :: reads) = read.constant.slots ++ slotsRead reads :=
  List.flatMap_cons

theorem slotsRead_append (before after : List Numbered) :
    slotsRead (before ++ after) = slotsRead before ++ slotsRead after :=
  List.flatMap_append

variable {pool : Pool} {left : Cursor}

theorem Fills.toList_entries (h : Fills count now reads answer)
    (hpool : answer = .ok (pool, left)) :
    pool.entries.toList = now.entries.toList ++ slotsRead reads := by
  induction h with
  | full =>
      cases hpool
      exact (List.append_nil _).symm
  | failed => cases hpool
  | narrow _ _ hnarrow _ _ ih =>
      rw [ih hpool, slotsRead_cons, slots_of_narrow hnarrow, Array.toList_push, List.append_assoc]
  | refused => cases hpool
  | wide _ _ hwide _ _ _ _ ih =>
      rw [ih hpool, slotsRead_cons, slots_of_wide hwide, Array.toList_push, Array.toList_push,
        List.append_assoc, List.append_assoc]
      rfl

theorem Fills.index_add_length (h : Fills count now reads answer)
    (hpool : answer = .ok (pool, left)) :
    now.index.toNat + (slotsRead reads).length = max now.index.toNat count.toNat := by
  induction h with
  | full hcount =>
      have hle := UInt16.le_iff_toNat_le.mp hcount
      exact (Nat.max_eq_left hle).symm
  | failed => cases hpool
  | narrow hindex _ hnarrow hsecond _ ih =>
      have hsum := ih hpool
      have hone := toNat_of_next? hsecond
      have hlt := UInt16.lt_iff_toNat_lt.mp hindex
      rw [slotsRead_cons, slots_of_narrow hnarrow, List.length_append, List.length_singleton]
      simp only at hsum ⊢
      omega
  | refused => cases hpool
  | wide _ _ hwide hsecond hcount hthird _ ih =>
      have hsum := ih hpool
      have hone := toNat_of_next? hsecond
      have htwo := toNat_of_next? hthird
      have hlt := UInt16.lt_iff_toNat_lt.mp hcount
      rw [slotsRead_cons, slots_of_wide hwide, List.length_append]
      simp only [List.length_cons, List.length_nil] at hsum ⊢
      omega

theorem Fills.index_eq {before after : List Numbered} {read : Numbered}
    (h : Fills count now reads answer) (hreads : reads = before ++ read :: after) :
    read.index.toNat = now.index.toNat + (slotsRead before).length := by
  induction h generalizing before with
  | full | failed => exact absurd hreads.symm (by simp)
  | narrow _ _ hnarrow hsecond _ ih =>
      cases before with
      | nil =>
          cases hreads
          rfl
      | cons first before =>
          obtain ⟨rfl, hmore⟩ := List.cons.inj hreads
          have hone := toNat_of_next? hsecond
          rw [ih hmore, slotsRead_cons, slots_of_narrow hnarrow, List.length_append, hone,
            Nat.add_assoc]
          rfl
  | refused =>
      cases before with
      | nil =>
          cases hreads
          rfl
      | cons first before => exact absurd (List.cons.inj hreads).2.symm (by simp)
  | wide _ _ hwide hsecond _ hthird _ ih =>
      cases before with
      | nil =>
          cases hreads
          rfl
      | cons first before =>
          obtain ⟨rfl, hmore⟩ := List.cons.inj hreads
          have hone := toNat_of_next? hsecond
          have htwo := toNat_of_next? hthird
          rw [ih hmore, slotsRead_cons, slots_of_wide hwide, List.length_append, htwo, hone]
          simp only [List.length_cons, List.length_nil]
          omega

theorem Fills.getElem?_add {read : Numbered} {place : Nat} (h : Fills count now reads answer)
    (hlevel : now.entries.size = now.index.toNat) (hpool : answer = .ok (pool, left))
    (hread : read ∈ reads) (hplace : place < read.constant.slots.length) :
    pool.entries[read.index.toNat + place]? = read.constant.slots[place]? := by
  have hall := h.toList_entries hpool
  obtain ⟨before, after, rfl⟩ := List.append_of_mem hread
  -- The index counts all that stands before the slots of the constant.
  rw [slotsRead_append, slotsRead_cons, ← List.append_assoc] at hall
  have hlength : (now.entries.toList ++ slotsRead before).length = read.index.toNat := by
    rw [h.index_eq rfl, List.length_append, Array.length_toList, hlevel]
  rw [← Array.getElem?_toList, hall, ← hlength, List.getElem?_append_right (Nat.le_add_right _ _),
    Nat.add_sub_cancel_left, List.getElem?_append_left hplace]

/-!
# What is refused

A constant is refused for the slot that it lacks if the count ends before that
slot, and nothing else is refused for that.
-/

theorem Fills.index_lt (h : Fills count now reads answer) : ∀ read ∈ reads, read.index < count := by
  induction h with
  | full | failed => nofun
  | narrow hindex _ _ _ _ ih => exact List.forall_mem_cons.mpr ⟨hindex, ih⟩
  | refused hindex => exact List.forall_mem_singleton.mpr hindex
  | wide hindex _ _ _ _ _ _ ih => exact List.forall_mem_cons.mpr ⟨hindex, ih⟩

namespace Decoder

variable {fault : Fault} (hend : ∀ offset wanted, Fault.unexpectedEnd offset wanted ≠ fault)
  (htext : ∀ place, Fault.badText place ≠ fault)

include hend htext in
theorem avoids_readText (place : Nat) : Avoids (readText place) fault := by
  refine (avoids_u2 hend).bind fun length => (avoids_take hend length.toNat).bind fun raw => ?_
  cases ModifiedUtf8.decode? raw with
  | none => exact avoids_throw (htext place)
  | some value => exact avoids_pure _

include hend htext in
theorem avoids_readConstant (htag : ∀ tag place, Fault.unknownTag tag place ≠ fault)
    (place : Nat) : Avoids (readConstant place) fault := by
  refine (avoids_u1 hend).bind fun byte => ?_
  have hunknown := htag byte place
  generalize byte.toNat = tag
  split
  case h_1 => exact avoids_readText hend htext place
  case h_2 | h_3 => exact (avoids_u4 hend).map _
  case h_4 | h_5 => exact (avoids_u8 hend).map _
  case h_6 | h_7 | h_13 => exact (avoids_u2 hend).map _
  case h_11 => exact (avoids_u2 hend).bind fun _ => (avoids_u2 hend).map _
  case h_18 => exact avoids_throw hunknown
  all_goals exact (avoids_take hend _).map _

end Decoder

theorem Fills.eq_wideAtEnd_iff (h : Fills count now reads answer) (place : Nat) :
    answer = .error (.wideAtEnd place) ↔
      ∃ read ∈ reads, read.constant.isWide = true ∧ read.index.toNat = place ∧
        count.toNat ≤ place + 1 := by
  induction h with
  | full => exact iff_of_false nofun nofun
  | @failed now fault _ hread =>
      have havoids : readConstant now.index.toNat now.cursor ≠ .error (.wideAtEnd place) := by
        apply Decoder.avoids_readConstant <;> nofun
      rw [hread] at havoids
      refine iff_of_false ?_ nofun
      intro hfault
      cases hfault
      exact havoids rfl
  | narrow _ _ hnarrow _ _ ih => simp [ih, hnarrow]
  | @refused now constant _ second _ _ hwide hsecond hcount =>
      have hone := toNat_of_next? hsecond
      have hle := UInt16.le_iff_toNat_le.mp hcount
      simp only [Except.error.injEq, Fault.wideAtEnd.injEq, List.mem_singleton, exists_eq_left,
        hwide, true_and]
      constructor
      · rintro rfl
        exact ⟨rfl, by omega⟩
      · exact And.left
  | @wide now constant _ second _ _ _ _ _ hwide hsecond hcount _ _ ih =>
      have hone := toNat_of_next? hsecond
      have hlt := UInt16.lt_iff_toNat_lt.mp hcount
      rw [ih]
      simp only [List.mem_cons, exists_eq_or_imp]
      refine (or_iff_right ?_).symm
      rintro ⟨_, rfl, hle⟩
      omega

/-!
# Looking up what was read
-/

/-- Whether a slot is there, and no index leads to anything in it. -/
def Pool.IsUnusable (pool : Pool) (slot : Nat) : Prop :=
  pool.entries[slot]? = some .unusable ∧
    ∀ index expected, index.toNat = slot →
      pool.get index expected = .error (.badIndex index expected)

theorem Pool.isUnusable_of_getElem? {slot : Nat} (h : pool.entries[slot]? = some .unusable) :
    pool.IsUnusable slot := by
  refine ⟨h, ?_⟩
  rintro index expected rfl
  rw [Pool.get, h]

theorem Pool.get_of_getElem? {constant : Constant} (h : pool.entries[index.toNat]? = some constant)
    (husable : constant ≠ .unusable) (expected : Expectation) :
    pool.get index expected = .ok constant := by
  rw [Pool.get, h]
  cases constant <;> first | rfl | exact absurd rfl husable

theorem Decoder.ne_unusable_of_readConstant {place : Nat} {cursor after : Cursor}
    {constant : Constant} (h : readConstant place cursor = .ok (constant, after)) :
    constant ≠ .unusable := by
  obtain ⟨_, _, ⟨entry, _, _, rfl⟩, _⟩ := (reads_readConstant place).iff_behind.mp h
  cases entry <;> nofun

theorem Fills.ne_unusable (h : Fills count now reads answer) :
    ∀ read ∈ reads, read.constant ≠ .unusable := by
  induction h with
  | full | failed => nofun
  | narrow _ hread _ _ _ ih =>
      exact List.forall_mem_cons.mpr ⟨Decoder.ne_unusable_of_readConstant hread, ih⟩
  | refused _ hread =>
      exact List.forall_mem_singleton.mpr (Decoder.ne_unusable_of_readConstant hread)
  | wide _ hread _ _ _ _ _ ih =>
      exact List.forall_mem_cons.mpr ⟨Decoder.ne_unusable_of_readConstant hread, ih⟩

/-!
# Reading a whole pool
-/

def Filling.start (cursor : Cursor) : Filling :=
  ⟨1, #[.unusable], cursor⟩

theorem exists_fills_readPool (count : UInt16) (offset : Nat) (bytes : Bytes) :
    ∃ reads, Fills count (.start ⟨offset + 2, bytes⟩) reads
      (readPool ⟨offset, Entry.short count ++ bytes⟩) := by
  have hcount : Decoder.u2 ⟨offset, Entry.short count ++ bytes⟩ =
      .ok (count, ⟨offset + 2, bytes⟩) :=
    (Decoder.reads_u2 _ _ _).mpr ⟨_, rfl, rfl, rfl⟩
  obtain ⟨reads, h⟩ :=
    exists_fills_readSlots count (count.toNat - 1) (.start ⟨offset + 2, bytes⟩) rfl
  refine ⟨reads, ?_⟩
  rw [readPool, Decoder.bind_eq, hcount]
  exact h

/--
Whatever the count of a pool and the bytes behind it, the loop that fills the
pool ends in one way, no index is too large for two bytes on it, and what it
comes to is the answer of the reader.
-/
theorem readPool_fills_slots_by_index (count : UInt16) (offset : Nat) (bytes : Bytes) :
    ∃ reads answer, readPool ⟨offset, Entry.short count ++ bytes⟩ = answer ∧
      Fills count (.start ⟨offset + 2, bytes⟩) reads answer ∧
      (∀ others other, Fills count (.start ⟨offset + 2, bytes⟩) others other →
        others = reads ∧ other = answer) ∧
      (∀ read ∈ reads, read.index.toNat + 1 < 2 ^ 16 ∧
        (read.constant.isWide = true → read.index.toNat + 1 < count.toNat →
          read.index.toNat + 2 < 2 ^ 16)) ∧
      (∀ read ∈ reads, read.constant.isWide = true →
        (answer = .error (.wideAtEnd read.index.toNat) ↔ ¬ read.index.toNat + 1 < count.toNat)) ∧
      (∀ place, answer = .error (.wideAtEnd place) →
        ∃ read ∈ reads, read.constant.isWide = true ∧ read.index.toNat = place) ∧
      ∀ pool left, answer = .ok (pool, left) →
        pool.entries.size = max count.toNat 1 ∧ pool.IsUnusable 0 ∧
        pool.entries.toList = .unusable :: slotsRead reads ∧
        ∀ read ∈ reads, pool.entries[read.index.toNat]? = some read.constant ∧
          (∀ expected, pool.get read.index expected = .ok read.constant) ∧
          (read.constant.isWide = true → pool.IsUnusable (read.index.toNat + 1)) := by
  obtain ⟨reads, h⟩ := exists_fills_readPool count offset bytes
  generalize readPool ⟨offset, Entry.short count ++ bytes⟩ = answer at h
  have hlimit := count.toNat_lt
  have hbelow : ∀ read ∈ reads, read.index.toNat < count.toNat := fun read hread =>
    UInt16.lt_iff_toNat_lt.mp (h.index_lt read hread)
  refine ⟨reads, answer, rfl, h, fun _ _ => h.unique, ?_, ?_, ?_, ?_⟩
  · intro read hread
    have hlt := hbelow read hread
    exact ⟨by omega, fun _ _ => by omega⟩
  · intro read hread hwide
    rw [h.eq_wideAtEnd_iff, Nat.not_lt]
    constructor
    · rintro ⟨_, _, _, _, hle⟩
      exact hle
    · intro hle
      exact ⟨read, hread, hwide, rfl, hle⟩
  · intro place hplace
    obtain ⟨read, hread, hwide, hindex, _⟩ := (h.eq_wideAtEnd_iff place).mp hplace
    exact ⟨read, hread, hwide, hindex⟩
  · intro pool left hpool
    have hall : pool.entries.toList = .unusable :: slotsRead reads := h.toList_entries hpool
    have hstop : 1 + (slotsRead reads).length = max 1 count.toNat := h.index_add_length hpool
    have hsize : pool.entries.size = max count.toNat 1 := by
      rw [← Array.length_toList, hall, List.length_cons]
      omega
    have hzero : pool.entries[0]? = some .unusable := by
      rw [← Array.getElem?_toList, hall]
      rfl
    refine ⟨hsize, Pool.isUnusable_of_getElem? hzero, hall, ?_⟩
    intro read hread
    have hslots : ∀ place < read.constant.slots.length,
        pool.entries[read.index.toNat + place]? = read.constant.slots[place]? :=
      fun place => h.getElem?_add rfl hpool hread
    have hentry : pool.entries[read.index.toNat]? = some read.constant := by
      cases hwide : read.constant.isWide with
      | false => simpa [slots_of_narrow hwide] using hslots 0
      | true => simpa [slots_of_wide hwide] using hslots 0
    refine ⟨hentry, Pool.get_of_getElem? hentry (h.ne_unusable read hread), ?_⟩
    intro hwide
    apply Pool.isUnusable_of_getElem?
    simpa [slots_of_wide hwide] using hslots 1

theorem readPool_fills_slots_behind_long :
    ∃ reads pool left, readPool ⟨8, [0, 4, 5, 0, 0, 0, 0, 0, 0, 0, 7, 3, 0, 0, 0, 9]⟩ =
        .ok (pool, left) ∧
      Fills 4 (.start ⟨10, [5, 0, 0, 0, 0, 0, 0, 0, 7, 3, 0, 0, 0, 9]⟩) reads (.ok (pool, left)) ∧
      slotsRead reads = [.long 7, .unusable, .integer 9] ∧ pool.entries.size = 4 ∧
      pool.IsUnusable 0 := by
  obtain ⟨reads, _, hanswer, hrun, _, _, _, _, hpool⟩ :=
    readPool_fills_slots_by_index 4 8 [5, 0, 0, 0, 0, 0, 0, 0, 7, 3, 0, 0, 0, 9]
  have hread : readPool ⟨8, [0, 4, 5, 0, 0, 0, 0, 0, 0, 0, 7, 3, 0, 0, 0, 9]⟩ =
      .ok (⟨#[.unusable, .long 7, .unusable, .integer 9]⟩, ⟨24, []⟩) :=
    rfl
  cases hanswer.symm.trans hread
  obtain ⟨hsize, hzero, hall, _⟩ := hpool _ _ rfl
  exact ⟨reads, _, _, hread, hrun, (List.cons.inj hall).2.symm, hsize, hzero⟩

/-- A long number at index 2 of a pool whose count is 3. -/
example : readPool ⟨8, [0, 3, 3, 0, 0, 0, 7, 5, 0, 0, 0, 0, 0, 0, 0, 7]⟩ =
    .error (.wideAtEnd 2) :=
  rfl

end ClassFile
end Recompile
