import Recompile.ClassFile.Surface
import Recompile.Proofs.ClassFile.Content

/-!
# Where a class file ends

A reader goes only by the bytes that it takes up. What comes behind these does
not change its answer, and where it lacks some it says so before anything else.
So a class file that is cut is told from every other one, wherever it is cut,
and so is one with bytes behind its end.
-/

namespace Recompile
namespace ClassFile

namespace Cursor

def extend (cursor : Cursor) (more : Bytes) : Cursor :=
  ⟨cursor.offset, cursor.rest ++ more⟩

def stop (cursor : Cursor) : Nat :=
  cursor.offset + cursor.rest.length

end Cursor

namespace Decoder

variable {α β : Type} {read : Decoder α} {next : α → Decoder β}

/-!
# Readers that go by what they take up
-/

def IsShort (cursor : Cursor) (answer : Except Fault α) : Prop :=
  ∃ place wanted, answer = .error (.unexpectedEnd place wanted) ∧
    place ≤ cursor.stop ∧ cursor.stop < place + wanted

def leaving (more : Bytes) (answer : Except Fault (α × Cursor)) : Except Fault (α × Cursor) :=
  answer.map fun found => (found.1, found.2.extend more)

/--
Whether a reader goes only by what it takes up: with more bytes at the end its
answer is the same, unless it lacked some. It goes on in the bytes it was given.
-/
structure Steady (read : Decoder α) : Prop where
  stop_eq : ∀ {cursor value left}, read cursor = .ok (value, left) → left.stop = cursor.stop
  extend : ∀ cursor more,
    IsShort cursor (read cursor) ∨ read (cursor.extend more) = leaving more (read cursor)

theorem steady_pure (value : α) : Steady (pure value) where
  stop_eq h := by
    cases h
    rfl
  extend _ _ := Or.inr rfl

theorem steady_throw (fault : Fault) : Steady (throw fault : Decoder α) where
  stop_eq h := by cases h
  extend _ _ := Or.inr rfl

theorem Steady.bind (h : Steady read) (hnext : ∀ value, Steady (next value)) :
    Steady (read >>= next) where
  stop_eq {cursor result left} hresult := by
    rw [bind_eq, Recompile.bind_eq_ok] at hresult
    rcases hresult with ⟨⟨value, between⟩, hvalue, hresult⟩
    rw [(hnext value).stop_eq hresult, h.stop_eq hvalue]
  extend cursor more := by
    rw [bind_eq, bind_eq]
    rcases h.extend cursor more with ⟨place, wanted, hshort, hplace⟩ | hsame
    · refine Or.inl ⟨place, wanted, ?_, hplace⟩
      rw [hshort]
      rfl
    · rw [hsame]
      cases hvalue : read cursor with
      | error fault => exact Or.inr rfl
      | ok found =>
          have hstop := h.stop_eq hvalue
          unfold IsShort
          rw [← hstop]
          exact (hnext found.1).extend found.2 more

theorem Steady.map (h : Steady read) (change : α → β) : Steady (do return change (← read)) :=
  h.bind fun value => steady_pure (change value)

theorem take_eq_ok {count : Nat} {cursor : Cursor} (h : count ≤ cursor.rest.length) :
    take count cursor =
      .ok (cursor.rest.take count, ⟨cursor.offset + count, cursor.rest.drop count⟩) := by
  have hlength := List.length_take_of_le h
  apply (reads_take count _ _ _).mpr
  refine ⟨_, ⟨rfl, hlength⟩, (List.take_append_drop count cursor.rest).symm, ?_⟩
  rw [hlength]

theorem isShort_take {count : Nat} {cursor : Cursor} (h : cursor.rest.length < count) :
    IsShort cursor (take count cursor) := by
  refine ⟨cursor.offset, count, ?_, Nat.le_add_right _ _, Nat.add_lt_add_left h _⟩
  unfold take
  cases hsplit : splitOnto [] count cursor.rest with
  | none => rfl
  | some found =>
      rcases splitOnto_eq_some_iff.mp hsplit with ⟨front, _, hrest, hlength⟩
      rw [hrest, List.length_append, hlength] at h
      exact absurd h (Nat.not_lt.mpr (Nat.le_add_right _ _))

theorem steady_take (count : Nat) : Steady (take count) where
  stop_eq {cursor value left} h := by
    rcases (reads_take count _ _ _).mp h with ⟨written, _, hrest, hoffset⟩
    unfold Cursor.stop
    rw [hrest, hoffset, List.length_append, Nat.add_assoc]
  extend cursor more := by
    rcases Nat.lt_or_ge cursor.rest.length count with hshort | hcount
    · exact Or.inl (isShort_take hshort)
    · have hlonger : count ≤ (cursor.extend more).rest.length := by
        rw [Cursor.extend, List.length_append]
        exact Nat.le_add_right_of_le hcount
      right
      rw [take_eq_ok hcount, take_eq_ok hlonger, Cursor.extend,
        List.take_append_of_le_length hcount, List.drop_append_of_le_length hcount]
      rfl

theorem steady_u1 : Steady u1 :=
  (steady_take 1).map _

theorem steady_u2 : Steady u2 :=
  (steady_take 2).map _

theorem steady_u4 : Steady u4 :=
  (steady_take 4).map _

theorem steady_u8 : Steady u8 :=
  steady_u4.bind fun _ => steady_u4.map _

theorem Steady.repeatOnto (h : Steady read) (items : List α) (count : Nat) :
    Steady (Decoder.repeatOnto read items count) := by
  induction count generalizing items with
  | zero => exact steady_pure _
  | succ count ih => exact h.bind fun item => ih (item :: items)

theorem Steady.counted (h : Steady read) : Steady (Decoder.counted read) :=
  steady_u2.bind fun count => h.repeatOnto [] count.toNat

/-!
# The parts of a class file
-/

theorem steady_readText (index : Nat) : Steady (readText index) := by
  refine steady_u2.bind fun length => (steady_take length.toNat).bind fun raw => ?_
  cases ModifiedUtf8.decode? raw with
  | none => exact steady_throw _
  | some value => exact steady_pure _

theorem steady_readConstant (index : Nat) : Steady (readConstant index) := by
  refine steady_u1.bind fun byte => ?_
  generalize byte.toNat = tag
  split
  case h_1 => exact steady_readText index
  case h_2 | h_3 => exact steady_u4.map _
  case h_4 | h_5 => exact steady_u8.map _
  case h_6 | h_7 | h_13 => exact steady_u2.map _
  case h_11 => exact steady_u2.bind fun _ => steady_u2.map _
  case h_18 => exact steady_throw _
  all_goals exact (steady_take _).map _

theorem steady_readSlots (left index : Nat) (filled : Array Constant) :
    Steady (readSlots left index filled) := by
  induction left using Nat.strongRecOn generalizing index filled with
  | ind left ih =>
  cases left with
  | zero => exact steady_pure _
  | succ left =>
      rw [readSlots]
      refine (steady_readConstant index).bind fun constant => ?_
      cases constant.isWide with
      | false => exact ih left (Nat.lt_succ_self left) _ _
      | true =>
          cases left with
          | zero => exact steady_throw _
          | succ left => exact ih left (by omega) _ _

theorem steady_readPool : Steady readPool :=
  steady_u2.bind fun count => (steady_readSlots (count.toNat - 1) 1 #[.unusable]).map _

theorem steady_readAttribute : Steady readAttribute :=
  steady_u2.bind fun _ => steady_u4.bind fun length => (steady_take length.toNat).map _

theorem steady_readMember : Steady readMember :=
  steady_u2.bind fun _ => steady_u2.bind fun _ => steady_u2.bind fun _ =>
    steady_readAttribute.counted.map _

/-!
# Nothing but the whole
-/

/--
Whether a reader that accepts some bytes refuses every cut of these, for the
bytes that are missing, and all bytes behind them, with their number.
-/
def TakesWhole (read : Decoder α) : Prop :=
  ∀ cursor result, read cursor = .ok result →
    (∀ front back, cursor.rest = front ++ back → back ≠ [] →
      IsShort ⟨cursor.offset, front⟩ (read ⟨cursor.offset, front⟩)) ∧
    ∀ more, more ≠ [] → read (cursor.extend more) = .error (.trailing more.length)

theorem Steady.bind_takesWhole (h : Steady read) (hnext : ∀ value, TakesWhole (next value)) :
    TakesWhole (read >>= next) := by
  intro cursor result hresult
  rw [bind_eq, Recompile.bind_eq_ok] at hresult
  rcases hresult with ⟨⟨value, left⟩, hvalue, hresult⟩
  rcases hnext value left result hresult with ⟨hcut, hmore⟩
  constructor
  · intro front back hrest hback
    have hwhole : cursor = Cursor.extend ⟨cursor.offset, front⟩ back := by
      rw [Cursor.extend, ← hrest]
    rw [hwhole] at hvalue
    rw [bind_eq]
    rcases h.extend ⟨cursor.offset, front⟩ back with ⟨place, wanted, hshort, hplace⟩ | hsame
    · refine ⟨place, wanted, ?_, hplace⟩
      rw [hshort]
      rfl
    · rw [hsame] at hvalue
      cases hfront : read ⟨cursor.offset, front⟩ with
      | error fault =>
          rw [hfront] at hvalue
          cases hvalue
      | ok found =>
          rw [hfront] at hvalue
          cases hvalue
          have hstop := h.stop_eq hfront
          unfold IsShort
          rw [← hstop]
          exact hcut found.2.rest back rfl hback
  · intro more hsome
    rw [bind_eq]
    rcases h.extend cursor more with ⟨place, wanted, hshort, _⟩ | hsame
    · rw [hvalue] at hshort
      cases hshort
    · rw [hsame, hvalue]
      exact hmore more hsome

theorem takesWhole_throw_bind (fault : Fault) :
    TakesWhole ((throw fault : Decoder α) >>= next) := by
  intro cursor result hresult
  cases hresult

theorem takesWhole_end (value : α) : TakesWhole do
    let cursor ← get
    if cursor.rest ≠ [] then
      throw (.trailing cursor.rest.length)
    return value := by
  intro cursor result hresult
  rcases cursor with ⟨offset, rest⟩
  cases rest with
  | cons first rest => cases hresult
  | nil =>
      constructor
      · intro front back hrest hback
        exact absurd (List.append_eq_nil_iff.mp hrest.symm).2 hback
      · intro more hsome
        cases more with
        | nil => exact absurd rfl hsome
        | cons first more => rfl

theorem takesWhole_readLayout : TakesWhole readLayout := by
  refine steady_u4.bind_takesWhole fun found => ?_
  by_cases hmagic : found = magic
  · rw [if_neg (not_not_intro hmagic)]
    exact steady_u2.bind_takesWhole fun _ => steady_u2.bind_takesWhole fun _ =>
      steady_readPool.bind_takesWhole fun _ => steady_u2.bind_takesWhole fun _ =>
      steady_u2.bind_takesWhole fun _ => steady_u2.bind_takesWhole fun _ =>
      steady_u2.counted.bind_takesWhole fun _ =>
      steady_readMember.counted.bind_takesWhole fun _ =>
      steady_readMember.counted.bind_takesWhole fun _ =>
      steady_readAttribute.counted.bind_takesWhole fun _ => takesWhole_end _
  · rw [if_pos hmagic]
    exact takesWhole_throw_bind _

end Decoder

theorem refused_of_ofBytes {bytes : Bytes} {fault : Fault}
    (h : Layout.ofBytes bytes = .error fault) :
    surfaceOf bytes = .error fault ∧ originOf bytes = .error fault := by
  unfold surfaceOf originOf
  rw [h]
  exact ⟨rfl, rfl⟩

/--
A class file that is cut anywhere is refused for the bytes that are missing,
and one with bytes behind its end with their number.
-/
theorem cut_and_padded_files_are_refused {bytes : Bytes} {layout : Layout}
    (h : Layout.ofBytes bytes = .ok layout) :
    (∀ front, front <+: bytes → front ≠ bytes →
      ∃ place wanted, place ≤ front.length ∧ front.length < place + wanted ∧
        surfaceOf front = .error (.unexpectedEnd place wanted) ∧
        originOf front = .error (.unexpectedEnd place wanted)) ∧
    ∀ more, more ≠ [] →
      surfaceOf (bytes ++ more) = .error (.trailing more.length) ∧
      originOf (bytes ++ more) = .error (.trailing more.length) := by
  rcases Decoder.runOn_eq_ok.mp h with ⟨left, hread⟩
  rcases Decoder.takesWhole_readLayout _ _ hread with ⟨hcut, hmore⟩
  constructor
  · rintro front ⟨back, hbytes⟩ hstrict
    have hback : back ≠ [] := by
      rintro rfl
      rw [List.append_nil] at hbytes
      exact hstrict hbytes
    rcases hcut front back hbytes.symm hback with ⟨place, wanted, hshort, hplace, hstop⟩
    have hrefused : Layout.ofBytes front = .error (.unexpectedEnd place wanted) := by
      unfold Layout.ofBytes Decoder.runOn
      rw [hshort]
      rfl
    rw [Cursor.stop, Nat.zero_add] at hplace hstop
    exact ⟨place, wanted, hplace, hstop, refused_of_ofBytes hrefused⟩
  · intro more hsome
    have hrefused : Layout.ofBytes (bytes ++ more) = .error (.trailing more.length) := by
      unfold Layout.ofBytes Decoder.runOn
      have hlong := hmore more hsome
      rw [Cursor.extend] at hlong
      rw [hlong]
      rfl
    exact refused_of_ofBytes hrefused

theorem sample_cut_and_padded_is_refused :
    Layout.ofBytes (Content.sample [65] 4).bytes = .ok (Content.sample [65] 4).layout ∧
      (∃ place wanted, place ≤ 22 ∧ 22 < place + wanted ∧
        surfaceOf ((Content.sample [65] 4).bytes.take 22) = .error (.unexpectedEnd place wanted) ∧
        originOf ((Content.sample [65] 4).bytes.take 22) = .error (.unexpectedEnd place wanted)) ∧
      surfaceOf ((Content.sample [65] 4).bytes ++ [0, 0]) = .error (.trailing 2) ∧
      originOf ((Content.sample [65] 4).bytes ++ [0, 0]) = .error (.trailing 2) := by
  have hread : Layout.ofBytes (Content.sample [65] 4).bytes = .ok (Content.sample [65] 4).layout :=
    ofBytes_eq_ok_iff.mpr ⟨_, by decide +kernel, rfl, rfl⟩
  rcases cut_and_padded_files_are_refused hread with ⟨hcut, hmore⟩
  refine ⟨hread, hcut _ (List.take_prefix 22 _) ?_, hmore [0, 0] (List.cons_ne_nil _ _)⟩
  decide +kernel

end ClassFile
end Recompile
