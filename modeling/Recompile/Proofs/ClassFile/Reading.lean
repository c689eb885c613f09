import Recompile.ClassFile.Decoder
import Recompile.Proofs.Answers
import Recompile.Proofs.Bytes

/-!
# What a reader reads

What a reader accepts is told by the written forms of each value: it gives a
value exactly where one of these comes next, and goes on behind it. Readers in
a row read the forms of their values in a row.
-/

namespace Recompile
namespace ClassFile
namespace Decoder

variable {α β : Type}

/-- Whether a reader gives a value exactly where a form of it comes next. -/
def Reads (read : Decoder α) (form : Bytes → α → Prop) : Prop :=
  ∀ cursor value left, read cursor = .ok (value, left) ↔
    ∃ written, form written value ∧ cursor.rest = written ++ left.rest ∧
      left.offset = cursor.offset + written.length

def Cursor.behind (cursor : Cursor) (written rest : Bytes) : Cursor :=
  ⟨cursor.offset + written.length, rest⟩

variable {read : Decoder α} {form form' : Bytes → α → Prop} {next : α → Decoder β}
  {forms : α → Bytes → β → Prop}

theorem Reads.congr (h : Reads read form)
    (hform : ∀ written value, form written value ↔ form' written value) : Reads read form' := by
  have hsame : form = form' := by
    funext written value
    exact propext (hform written value)
  rw [← hsame]
  exact h

theorem Reads.iff_behind (h : Reads read form) {cursor left : Cursor} {value : α} :
    read cursor = .ok (value, left) ↔
      ∃ written rest, form written value ∧ cursor.rest = written ++ rest ∧
        left = Cursor.behind cursor written rest := by
  rw [h cursor value left]
  constructor
  · rintro ⟨written, hform, hrest, hoffset⟩
    exact ⟨written, left.rest, hform, hrest, by rw [Cursor.behind, ← hoffset]⟩
  · rintro ⟨written, rest, hform, hrest, rfl⟩
    exact ⟨written, hform, hrest, rfl⟩

theorem bind_eq (cursor : Cursor) :
    (read >>= next) cursor = (read cursor >>= fun found => next found.1 found.2) :=
  rfl

theorem Reads.bind_eq_ok (h : Reads read form) {cursor : Cursor} {result : β × Cursor} :
    (read >>= next) cursor = .ok result ↔
      ∃ value written rest, form written value ∧ cursor.rest = written ++ rest ∧
        next value (Cursor.behind cursor written rest) = .ok result := by
  rw [bind_eq, Recompile.bind_eq_ok]
  constructor
  · rintro ⟨⟨value, left⟩, hread, hnext⟩
    rcases h.iff_behind.mp hread with ⟨written, rest, hform, hrest, rfl⟩
    exact ⟨value, written, rest, hform, hrest, hnext⟩
  · rintro ⟨value, written, rest, hform, hrest, hnext⟩
    exact ⟨(value, _), h.iff_behind.mpr ⟨written, rest, hform, hrest, rfl⟩, hnext⟩

theorem Reads.bind_mk_eq_ok (h : Reads read form) {offset : Nat} {bytes : Bytes}
    {result : β × Cursor} :
    (read >>= next) ⟨offset, bytes⟩ = .ok result ↔
      ∃ value written rest, form written value ∧ bytes = written ++ rest ∧
        next value ⟨offset + written.length, rest⟩ = .ok result :=
  h.bind_eq_ok

theorem Reads.bind (h : Reads read form) (forms : α → Bytes → β → Prop)
    (hnext : ∀ value, Reads (next value) (forms value)) :
    Reads (read >>= next) fun written result =>
      ∃ value front back, form front value ∧ forms value back result ∧
        written = front ++ back := by
  intro cursor result left
  rw [h.bind_eq_ok]
  constructor
  · rintro ⟨value, front, rest, hfront, hrest, hresult⟩
    rcases (hnext value).iff_behind.mp hresult with ⟨back, rest', hback, hbehind, rfl⟩
    have hall : rest = back ++ rest' := hbehind
    refine ⟨front ++ back, ⟨value, front, back, hfront, hback, rfl⟩, ?_, ?_⟩
    · rw [hrest, hall, List.append_assoc]
      rfl
    · rw [List.length_append, ← Nat.add_assoc]
      rfl
  · rintro ⟨written, ⟨value, front, back, hfront, hback, rfl⟩, hrest, hoffset⟩
    refine ⟨value, front, back ++ left.rest, hfront, ?_, ?_⟩
    · rw [hrest, List.append_assoc]
    · apply (hnext value _ _ _).mpr
      refine ⟨back, hback, rfl, ?_⟩
      rw [hoffset, List.length_append, ← Nat.add_assoc]
      rfl

theorem reads_pure (value : α) :
    Reads (pure value) fun written found => written = [] ∧ found = value := by
  intro cursor found left
  constructor
  · intro h
    cases h
    exact ⟨[], ⟨rfl, rfl⟩, rfl, rfl⟩
  · rintro ⟨_, ⟨rfl, rfl⟩, hrest, hoffset⟩
    have hleft : cursor = left := by
      cases cursor
      cases left
      simp_all
    rw [hleft]
    rfl

theorem reads_throw (fault : Fault) :
    Reads (throw fault : Decoder α) fun _ _ => False := by
  intro cursor found left
  constructor
  · intro h
    cases h
  · rintro ⟨_, hfalse, _⟩
    exact hfalse.elim

theorem Reads.map (h : Reads read form) (change : α → β) :
    Reads (do return change (← read)) fun written result =>
      ∃ value, form written value ∧ result = change value := by
  apply (h.bind _ fun value => reads_pure (change value)).congr
  intro written result
  constructor
  · rintro ⟨value, front, _, hfront, ⟨rfl, rfl⟩, rfl⟩
    rw [List.append_nil]
    exact ⟨value, hfront, rfl⟩
  · rintro ⟨value, hvalue, rfl⟩
    exact ⟨value, written, [], hvalue, ⟨rfl, rfl⟩, (List.append_nil _).symm⟩

theorem Reads.skip (h : Reads read form) (result : β) :
    Reads (do let _ ← read; return result) fun written found =>
      (∃ value, form written value) ∧ found = result := by
  apply (h.map fun _ => result).congr
  intro written found
  exact exists_and_right

theorem reads_lift (answer : Except Fault α) :
    Reads (liftM answer : Decoder α) fun written value => written = [] ∧ answer = .ok value := by
  cases answer with
  | error fault =>
      apply (reads_throw fault).congr
      intro written value
      exact iff_of_false id fun h => nomatch h.2
  | ok known =>
      apply (reads_pure known).congr
      intro written value
      rw [Except.ok.injEq, @eq_comm _ value]

theorem runOn_eq_ok {bytes : Bytes} {value : α} :
    read.runOn bytes = .ok value ↔ ∃ left, read ⟨0, bytes⟩ = .ok (value, left) := by
  unfold runOn
  cases read ⟨0, bytes⟩ with
  | error fault => simp [Except.map]
  | ok found => simp [Except.map, Prod.ext_iff]

theorem Reads.runOn_eq_ok (h : Reads read form) {bytes : Bytes} {value : α} :
    read.runOn bytes = .ok value ↔
      ∃ written rest, form written value ∧ bytes = written ++ rest := by
  rw [Decoder.runOn_eq_ok]
  constructor
  · rintro ⟨left, hread⟩
    rcases h.iff_behind.mp hread with ⟨written, rest, hform, hrest, _⟩
    exact ⟨written, rest, hform, hrest⟩
  · rintro ⟨written, rest, hform, hrest⟩
    exact ⟨_, h.iff_behind.mpr ⟨written, rest, hform, hrest, rfl⟩⟩

/-!
# Numbers
-/

theorem splitOnto_eq_some_iff {taken front bytes rest : Bytes} {count : Nat} :
    splitOnto taken count bytes = some (front, rest) ↔
      ∃ more, front = taken.reverse ++ more ∧ bytes = more ++ rest ∧ more.length = count := by
  induction count generalizing taken bytes with
  | zero =>
      rw [splitOnto, Option.some.injEq, Prod.mk.injEq]
      constructor
      · rintro ⟨rfl, rfl⟩
        exact ⟨[], (List.append_nil _).symm, rfl, rfl⟩
      · rintro ⟨more, rfl, rfl, hlength⟩
        rw [List.length_eq_zero_iff.mp hlength, List.append_nil]
        exact ⟨rfl, rfl⟩
  | succ count ih =>
      cases bytes with
      | nil =>
          constructor
          · intro h
            cases h
          · rintro ⟨more, _, hnone, hlength⟩
            rw [(List.append_eq_nil_iff.mp hnone.symm).1] at hlength
            cases hlength
      | cons b bytes =>
          rw [splitOnto, ih]
          constructor
          · rintro ⟨more, rfl, rfl, hlength⟩
            exact ⟨b :: more, by simp, rfl, by rw [List.length_cons, hlength]⟩
          · rintro ⟨more, rfl, hbytes, hlength⟩
            cases more with
            | nil => cases hlength
            | cons first more =>
                rw [List.cons_append, List.cons.injEq] at hbytes
                refine ⟨more, ?_, hbytes.2, Nat.succ.inj hlength⟩
                rw [hbytes.1]
                simp

theorem reads_take (count : Nat) :
    Reads (take count) fun written value => value = written ∧ written.length = count := by
  intro cursor value left
  unfold take
  cases hsplit : splitOnto [] count cursor.rest with
  | none =>
      constructor
      · intro h
        cases h
      · rintro ⟨written, ⟨_, hlength⟩, hrest, _⟩
        have hsome : splitOnto [] count cursor.rest = some (written, left.rest) :=
          splitOnto_eq_some_iff.mpr ⟨written, rfl, hrest, hlength⟩
        rw [hsplit] at hsome
        cases hsome
  | some found =>
      rcases found with ⟨front, rest⟩
      rcases splitOnto_eq_some_iff.mp hsplit with ⟨_, rfl, hrest, hlength⟩
      constructor
      · intro h
        cases h
        exact ⟨_, ⟨rfl, hlength⟩, hrest, by rw [hlength]⟩
      · rintro ⟨written, ⟨rfl, hcount⟩, hwritten, hoffset⟩
        rw [hrest] at hwritten
        rcases List.append_inj hwritten (hlength.trans hcount.symm) with ⟨rfl, hleft⟩
        rw [hcount] at hoffset
        cases left
        simp_all

theorem reads_number {width : Nat} {number : α → Nat} {ofNumber : Nat → α}
    (hsmall : ∀ value, number value < 256 ^ width)
    (hvalue : ∀ value, ofNumber (number value) = value)
    (hnumber : ∀ n, n < 256 ^ width → number (ofNumber n) = n) :
    Reads (do return ofNumber (← take width).toNat) fun written value =>
      written = Bytes.ofNat width (number value) := by
  apply ((reads_take width).map fun bytes => ofNumber bytes.toNat).congr
  intro written value
  constructor
  · rintro ⟨bytes, ⟨rfl, hlength⟩, rfl⟩
    have hlt := Bytes.toNat_lt bytes
    rw [hlength] at hlt
    rw [hnumber _ hlt, ← hlength, Bytes.ofNat_toNat]
  · rintro rfl
    refine ⟨_, ⟨rfl, Bytes.length_ofNat _ _⟩, ?_⟩
    rw [Bytes.toNat_ofNat (hsmall value), hvalue]

theorem reads_u1 : Reads u1 fun written value => written = [value] := by
  apply (reads_number UInt8.toNat_lt (fun _ => UInt8.ofNat_toNat)
    fun n hn => UInt8.toNat_ofNat_of_lt hn).congr
  intro written value
  simp [Bytes.ofNat]

theorem reads_u2 : Reads u2 fun written value => written = Bytes.ofNat 2 value.toNat :=
  reads_number UInt16.toNat_lt (fun _ => UInt16.ofNat_toNat)
    fun _ hn => UInt16.toNat_ofNat_of_lt hn

theorem reads_u4 : Reads u4 fun written value => written = Bytes.ofNat 4 value.toNat :=
  reads_number UInt32.toNat_lt (fun _ => UInt32.ofNat_toNat)
    fun _ hn => UInt32.toNat_ofNat_of_lt hn

theorem ofNat_eight (number : Nat) :
    Bytes.ofNat 8 number =
      Bytes.ofNat 4 (number / 2 ^ 32) ++ Bytes.ofNat 4 (number % 2 ^ 32) := by
  rw [← Bytes.ofNat_mod 4 (number % 2 ^ 32), Bytes.ofNat_add 4 4, ← Bytes.ofNat_mod 4 number]
  simp

theorem reads_u8 : Reads u8 fun written value => written = Bytes.ofNat 8 value.toNat := by
  apply (reads_u4.bind _ fun high => reads_u4.map fun low =>
    UInt64.ofNat (high.toNat * 2 ^ 32 + low.toNat)).congr
  intro written value
  constructor
  · rintro ⟨high, _, _, rfl, ⟨low, rfl, rfl⟩, rfl⟩
    have hhigh := high.toNat_lt
    have hlow := low.toNat_lt
    have hnumber : high.toNat * 2 ^ 32 + low.toNat < UInt64.size := by
      unfold UInt64.size
      omega
    have hfirst : (high.toNat * 2 ^ 32 + low.toNat) / 2 ^ 32 = high.toNat := by omega
    have hsecond : (high.toNat * 2 ^ 32 + low.toNat) % 2 ^ 32 = low.toNat := by omega
    rw [UInt64.toNat_ofNat_of_lt' hnumber, ofNat_eight, hfirst, hsecond]
  · rintro rfl
    have hvalue := value.toNat_lt
    have hhigh : (UInt32.ofNat (value.toNat / 2 ^ 32)).toNat = value.toNat / 2 ^ 32 := by
      apply UInt32.toNat_ofNat_of_lt'
      unfold UInt32.size
      omega
    have hlow : (UInt32.ofNat (value.toNat % 2 ^ 32)).toNat = value.toNat % 2 ^ 32 := by
      apply UInt32.toNat_ofNat_of_lt'
      unfold UInt32.size
      omega
    refine ⟨UInt32.ofNat (value.toNat / 2 ^ 32), _, _, rfl,
      ⟨UInt32.ofNat (value.toNat % 2 ^ 32), rfl, ?_⟩, ?_⟩
    · rw [hhigh, hlow, Nat.mul_comm, Nat.div_add_mod, UInt64.ofNat_toNat]
    · rw [hhigh, hlow, ← ofNat_eight]

/-!
# Lists with their length in front
-/

theorem Reads.repeatOnto (h : Reads read form) (items : List α) (count : Nat) :
    Reads (Decoder.repeatOnto read items count) fun written all =>
      ∃ parts more, List.Forall₂ form parts more ∧ more.length = count ∧
        all = items.reverse ++ more ∧ written = parts.flatten := by
  induction count generalizing items with
  | zero =>
      apply (reads_pure items.reverse).congr
      intro written all
      constructor
      · rintro ⟨rfl, rfl⟩
        exact ⟨[], [], List.Forall₂.nil, rfl, (List.append_nil _).symm, rfl⟩
      · rintro ⟨parts, more, hparts, hlength, rfl, rfl⟩
        cases List.length_eq_zero_iff.mp hlength
        cases hparts
        exact ⟨rfl, List.append_nil _⟩
  | succ count ih =>
      apply (h.bind _ fun item => ih (item :: items)).congr
      intro written all
      constructor
      · rintro ⟨item, front, _, hitem, ⟨parts, more, hparts, hlength, rfl, rfl⟩, rfl⟩
        refine ⟨front :: parts, item :: more, List.Forall₂.cons hitem hparts, ?_, ?_, rfl⟩
        · rw [List.length_cons, hlength]
        · simp
      · rintro ⟨parts, more, hparts, hlength, rfl, rfl⟩
        cases hparts with
        | nil => cases hlength
        | @cons front item parts more hitem hparts =>
            refine ⟨item, front, parts.flatten, hitem, ⟨parts, more, hparts, ?_, ?_, rfl⟩, rfl⟩
            · exact Nat.succ.inj hlength
            · simp

theorem Reads.counted (h : Reads read form) :
    Reads (Decoder.counted read) fun written items =>
      ∃ parts, List.Forall₂ form parts items ∧ items.length < 2 ^ 16 ∧
        written = Bytes.ofNat 2 items.length ++ parts.flatten := by
  apply (reads_u2.bind _ fun count => h.repeatOnto [] count.toNat).congr
  intro written items
  constructor
  · rintro ⟨count, _, _, rfl, ⟨parts, more, hparts, hlength, rfl, rfl⟩, rfl⟩
    have hitems : items.length = count.toNat := hlength
    rw [hitems]
    exact ⟨parts, hparts, count.toNat_lt, rfl⟩
  · rintro ⟨parts, hparts, hlength, rfl⟩
    have hcount : (UInt16.ofNat items.length).toNat = items.length :=
      UInt16.toNat_ofNat_of_lt' hlength
    refine ⟨UInt16.ofNat items.length, _, _, rfl, ⟨parts, items, hparts, ?_, rfl, rfl⟩, ?_⟩
    · exact hcount.symm
    · rw [hcount]

def writtenList (write : α → Bytes) (items : List α) : Bytes :=
  Bytes.ofNat 2 items.length ++ items.flatMap write

variable {write : α → Bytes} {fits : α → Prop}

theorem forall₂_written_iff {parts : List Bytes} {items : List α} :
    List.Forall₂ (fun written item => fits item ∧ written = write item) parts items ↔
      (∀ item ∈ items, fits item) ∧ parts = items.map write := by
  induction items generalizing parts with
  | nil =>
      rw [List.forall₂_nil_right_iff]
      simp
  | cons item items ih =>
      rw [List.forall₂_cons_right_iff]
      constructor
      · rintro ⟨_, rest, ⟨hitem, rfl⟩, hrest, rfl⟩
        rcases ih.mp hrest with ⟨hitems, rfl⟩
        exact ⟨List.forall_mem_cons.mpr ⟨hitem, hitems⟩, rfl⟩
      · rintro ⟨hitems, rfl⟩
        rcases List.forall_mem_cons.mp hitems with ⟨hitem, hitems⟩
        exact ⟨_, _, ⟨hitem, rfl⟩, ih.mpr ⟨hitems, rfl⟩, rfl⟩

theorem Reads.counted_written
    (h : Reads read fun written item => fits item ∧ written = write item) :
    Reads (Decoder.counted read) fun written items =>
      (items.length < 2 ^ 16 ∧ ∀ item ∈ items, fits item) ∧ written = writtenList write items := by
  apply h.counted.congr
  intro written items
  unfold writtenList
  constructor
  · rintro ⟨parts, hparts, hlength, rfl⟩
    rcases forall₂_written_iff.mp hparts with ⟨hitems, rfl⟩
    exact ⟨⟨hlength, hitems⟩, rfl⟩
  · rintro ⟨⟨hlength, hitems⟩, rfl⟩
    exact ⟨_, forall₂_written_iff.mpr ⟨hitems, rfl⟩, hlength, rfl⟩

end Decoder
end ClassFile
end Recompile
