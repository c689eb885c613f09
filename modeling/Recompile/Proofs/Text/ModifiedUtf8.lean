import Recompile.Proofs.Text.Utf8
import Recompile.Text.ModifiedUtf8

/-!
# Modified UTF-8, written and read back

A text is written as its UTF-16 code units, and each of these as one to three
bytes of its own. Whatever code units are written, they are read back; and they
make a text if and only if none of them is a surrogate without its partner. A
byte string that is plain UTF-8 as well is read in the same way, so trying that
first makes no difference.
-/

namespace Recompile
namespace ModifiedUtf8

/-- The bytes of a code unit. NUL is written like the units that need two bytes. -/
def unitBytes (unit : UInt16) : Bytes :=
  if 0 < unit.toNat ∧ unit.toNat < 0x80 then [UInt8.ofNat unit.toNat]
  else if unit.toNat < 0x800 then
    [UInt8.ofNat (0xC0 + unit.toNat / 64), UInt8.ofNat (0x80 + unit.toNat % 64)]
  else
    [UInt8.ofNat (0xE0 + unit.toNat / 4096), UInt8.ofNat (0x80 + unit.toNat / 64 % 64),
      UInt8.ofNat (0x80 + unit.toNat % 64)]

def ofUnits (units : List UInt16) : Bytes :=
  units.flatMap unitBytes

def charUnits (c : Char) : List UInt16 :=
  if c.toNat < 0x10000 then [UInt16.ofNat c.toNat]
  else
    [UInt16.ofNat (0xD800 + (c.toNat - 0x10000) / 1024),
      UInt16.ofNat (0xDC00 + (c.toNat - 0x10000) % 1024)]

def unitsOf (text : List Char) : List UInt16 :=
  text.flatMap charUnits

theorem unitsOf_cons (c : Char) (text : List Char) :
    unitsOf (c :: text) = charUnits c ++ unitsOf text :=
  List.flatMap_cons

def encode (text : List Char) : Bytes :=
  ofUnits (unitsOf text)

/-!
# Lead bytes
-/

theorem forall_byte {holds : UInt8 → Prop} (h : ∀ n : Fin 256, holds (UInt8.ofFin n))
    (b : UInt8) : holds b :=
  h b.toFin

theorem isOne_iff (a : UInt8) : a &&& 0x80 = 0 ↔ a.toNat < 0x80 := by
  revert a
  exact forall_byte (by decide +kernel)

theorem isTwo_iff (a : UInt8) : a &&& 0xE0 = 0xC0 ↔ 0xC0 ≤ a.toNat ∧ a.toNat < 0xE0 := by
  revert a
  exact forall_byte (by decide +kernel)

theorem isThree_iff (a : UInt8) : a &&& 0xF0 = 0xE0 ↔ 0xE0 ≤ a.toNat ∧ a.toNat < 0xF0 := by
  revert a
  exact forall_byte (by decide +kernel)

variable {read : List UInt16} {a b c : UInt8} {rest : Bytes}

theorem codeUnitsOnto_one (h : a.toNat < 0x80) :
    codeUnitsOnto read (a :: rest) = codeUnitsOnto (UInt16.ofNat a.toNat :: read) rest := by
  rw [codeUnitsOnto.eq_def]
  simp only [isOne_iff, isTwo_iff, isThree_iff]
  rw [if_pos h]

theorem codeUnitsOnto_two (h : 0xC0 ≤ a.toNat ∧ a.toNat < 0xE0) :
    codeUnitsOnto read (a :: b :: rest) =
      codeUnitsOnto (UInt16.ofNat (a.toNat % 32 * 64 + b.toNat % 64) :: read) rest := by
  rw [codeUnitsOnto.eq_def]
  simp only [isOne_iff, isTwo_iff, isThree_iff]
  rw [if_neg (by omega), if_pos h]

theorem codeUnitsOnto_three (h : 0xE0 ≤ a.toNat ∧ a.toNat < 0xF0) :
    codeUnitsOnto read (a :: b :: c :: rest) =
      codeUnitsOnto
        (UInt16.ofNat (a.toNat % 16 * 4096 + b.toNat % 64 * 64 + c.toNat % 64) :: read) rest := by
  rw [codeUnitsOnto.eq_def]
  simp only [isOne_iff, isTwo_iff, isThree_iff]
  rw [if_neg (by omega), if_neg (by omega), if_pos h]

theorem codeUnitsOnto_none (h : 0xF0 ≤ a.toNat) : codeUnitsOnto read (a :: rest) = none := by
  rw [codeUnitsOnto.eq_def]
  simp only [isOne_iff, isTwo_iff, isThree_iff]
  rw [if_neg (by omega), if_neg (by omega), if_neg (by omega)]

/-!
# Code units
-/

theorem codeUnitsOnto_unitBytes (unit : UInt16) :
    codeUnitsOnto read (unitBytes unit ++ rest) = codeUnitsOnto (unit :: read) rest := by
  have hlt := unit.toNat_lt
  have hbyte : ∀ {number : Nat}, number < 256 → (UInt8.ofNat number).toNat = number :=
    fun hlt => UInt8.toNat_ofNat_of_lt' hlt
  have hunit : ∀ {number : Nat}, number = unit.toNat → UInt16.ofNat number = unit := by
    rintro number rfl
    exact UInt16.ofNat_toNat
  unfold unitBytes
  by_cases hone : 0 < unit.toNat ∧ unit.toNat < 0x80
  · rw [if_pos hone]
    have ha := hbyte (show unit.toNat < 256 by omega)
    rw [List.singleton_append, codeUnitsOnto_one (by omega), hunit ha]
  rw [if_neg hone]
  by_cases htwo : unit.toNat < 0x800
  · rw [if_pos htwo]
    have ha := hbyte (show 0xC0 + unit.toNat / 64 < 256 by omega)
    have hb := hbyte (show 0x80 + unit.toNat % 64 < 256 by omega)
    rw [List.cons_append, List.singleton_append, codeUnitsOnto_two (by omega),
      hunit (by omega)]
  · rw [if_neg htwo]
    have ha := hbyte (show 0xE0 + unit.toNat / 4096 < 256 by omega)
    have hb := hbyte (show 0x80 + unit.toNat / 64 % 64 < 256 by omega)
    have hc := hbyte (show 0x80 + unit.toNat % 64 < 256 by omega)
    rw [List.cons_append, List.cons_append, List.singleton_append,
      codeUnitsOnto_three (by omega), hunit (by omega)]

theorem codeUnitsOnto_ofUnits (units : List UInt16) :
    codeUnitsOnto read (ofUnits units ++ rest) = codeUnitsOnto (units.reverse ++ read) rest := by
  unfold ofUnits
  induction units generalizing read with
  | nil => rfl
  | cons unit units ih =>
      rw [List.flatMap_cons, List.append_assoc, codeUnitsOnto_unitBytes, ih, List.reverse_cons,
        List.append_assoc]
      rfl

theorem codeUnits?_ofUnits (units : List UInt16) : codeUnits? (ofUnits units) = some units := by
  have hread := @codeUnitsOnto_ofUnits [] [] units
  rw [List.append_nil, List.append_nil] at hread
  unfold codeUnits?
  rw [hread, codeUnitsOnto, List.reverse_reverse]

theorem unitBytes_ofNat {c : Char} (hlow : 0 < c.toNat) (hhigh : c.toNat < 0x10000) :
    unitBytes (UInt16.ofNat c.toNat) = String.utf8EncodeChar c := by
  have hunit : (UInt16.ofNat c.toNat).toNat = c.toNat := UInt16.toNat_ofNat_of_lt' hhigh
  have hval : c.val.toNat = c.toNat := rfl
  unfold unitBytes String.utf8EncodeChar
  rw [hunit, hval]
  simp only
  by_cases hone : c.toNat ≤ 0x7F
  · rw [if_pos (by omega), if_pos hone]
  rw [if_neg (by omega), if_neg hone]
  by_cases htwo : c.toNat ≤ 0x7FF
  · rw [if_pos (by omega), if_pos htwo]
    simp only [List.cons.injEq, ← UInt8.toNat_inj, UInt8.toNat_ofNat', and_true]
    omega
  · rw [if_neg (by omega), if_neg htwo, if_pos (by omega)]
    simp only [List.cons.injEq, ← UInt8.toNat_inj, UInt8.toNat_ofNat', and_true]
    omega

theorem codeUnitsOnto_encodeChar (c : Char) :
    codeUnitsOnto read (String.utf8EncodeChar c ++ rest) =
      if c.toNat < 0x10000 then codeUnitsOnto (UInt16.ofNat c.toNat :: read) rest else none := by
  by_cases hhigh : c.toNat < 0x10000
  · rw [if_pos hhigh]
    by_cases hlow : 0 < c.toNat
    · rw [← unitBytes_ofNat hlow hhigh, codeUnitsOnto_unitBytes]
    · have hnul : c.val.toNat = 0 := Nat.eq_zero_of_not_pos hlow
      have hzero : c.toNat = 0 := hnul
      unfold String.utf8EncodeChar
      rw [hnul, hzero]
      exact codeUnitsOnto_one (by decide)
  · rw [if_neg hhigh]
    have hval : c.val.toNat = c.toNat := rfl
    have hvalid : c.toNat.isValidChar := c.valid
    unfold Nat.isValidChar at hvalid
    unfold String.utf8EncodeChar
    rw [hval]
    simp only
    rw [if_neg (by omega), if_neg (by omega), if_neg (by omega), List.cons_append]
    apply codeUnitsOnto_none
    rw [UInt8.toNat_ofNat']
    omega

/-!
# Characters
-/

theorem isHighSurrogate_iff {unit : UInt16} :
    isHighSurrogate unit = true ↔ 0xD800 ≤ unit.toNat ∧ unit.toNat ≤ 0xDBFF := by
  unfold isHighSurrogate
  rw [Bool.and_eq_true, decide_eq_true_eq, decide_eq_true_eq, UInt16.le_iff_toNat_le,
    UInt16.le_iff_toNat_le]
  rfl

theorem isLowSurrogate_iff {unit : UInt16} :
    isLowSurrogate unit = true ↔ 0xDC00 ≤ unit.toNat ∧ unit.toNat ≤ 0xDFFF := by
  unfold isLowSurrogate
  rw [Bool.and_eq_true, decide_eq_true_eq, decide_eq_true_eq, UInt16.le_iff_toNat_le,
    UInt16.le_iff_toNat_le]
  rfl

variable {text : List Char} {units : List UInt16}

theorem charactersOnto_charUnits {found : List Char} (c : Char) :
    charactersOnto found (charUnits c ++ units) = charactersOnto (c :: found) units := by
  have hvalid : c.toNat.isValidChar := c.valid
  unfold Nat.isValidChar at hvalid
  have hchar : ∀ {number : Nat}, number = c.toNat → Char.ofNat number = c := by
    rintro number rfl
    exact Char.ofNat_toNat c
  have hunit : ∀ {number : Nat}, number < 0x10000 → (UInt16.ofNat number).toNat = number :=
    fun hlt => UInt16.toNat_ofNat_of_lt' hlt
  unfold charUnits
  by_cases hone : c.toNat < 0x10000
  · have hc := hunit hone
    rw [if_pos hone, List.singleton_append, charactersOnto.eq_def]
    simp only [isHighSurrogate_iff, isLowSurrogate_iff]
    rw [if_neg (by omega), if_neg (by omega), hchar hc]
  · have hhigh := hunit (show 0xD800 + (c.toNat - 0x10000) / 1024 < 0x10000 by omega)
    have hlow := hunit (show 0xDC00 + (c.toNat - 0x10000) % 1024 < 0x10000 by omega)
    rw [if_neg hone, List.cons_append, List.singleton_append, charactersOnto.eq_def]
    simp only [isHighSurrogate_iff, isLowSurrogate_iff]
    rw [if_pos (by omega), if_pos (by omega), hchar (by omega)]

theorem charactersOnto_unitsOf {found : List Char} (text : List Char) :
    charactersOnto found (unitsOf text ++ units) =
      charactersOnto (text.reverse ++ found) units := by
  induction text generalizing found with
  | nil => rfl
  | cons c text ih =>
      rw [unitsOf_cons, List.append_assoc, charactersOnto_charUnits, ih, List.reverse_cons,
        List.append_assoc]
      rfl

theorem characters?_unitsOf (text : List Char) : characters? (unitsOf text) = some text := by
  have hread := @charactersOnto_unitsOf [] [] text
  rw [List.append_nil, List.append_nil] at hread
  unfold characters?
  rw [hread, charactersOnto, List.reverse_reverse]

theorem charUnits_single {unit : UInt16} (hhigh : ¬isHighSurrogate unit = true)
    (hlow : ¬isLowSurrogate unit = true) : charUnits (Char.ofNat unit.toNat) = [unit] := by
  rw [isHighSurrogate_iff] at hhigh
  rw [isLowSurrogate_iff] at hlow
  have hlt := unit.toNat_lt
  have hvalid : unit.toNat.isValidChar := by
    unfold Nat.isValidChar
    omega
  have hvalue : (Char.ofNat unit.toNat).toNat = unit.toNat := Utf8.val_ofNat hvalid
  unfold charUnits
  rw [hvalue, if_pos (by omega), UInt16.ofNat_toNat]

theorem charUnits_pair {high low : UInt16} (hhigh : isHighSurrogate high = true)
    (hlow : isLowSurrogate low = true) :
    charUnits (Char.ofNat (0x10000 + (high.toNat - 0xD800) * 1024 + (low.toNat - 0xDC00))) =
      [high, low] := by
  rw [isHighSurrogate_iff] at hhigh
  rw [isLowSurrogate_iff] at hlow
  have hvalid : (0x10000 + (high.toNat - 0xD800) * 1024 + (low.toNat - 0xDC00)).isValidChar := by
    unfold Nat.isValidChar
    omega
  have hvalue : (Char.ofNat (0x10000 + (high.toNat - 0xD800) * 1024
      + (low.toNat - 0xDC00))).toNat =
        0x10000 + (high.toNat - 0xD800) * 1024 + (low.toNat - 0xDC00) := Utf8.val_ofNat hvalid
  unfold charUnits
  rw [hvalue, if_neg (by omega)]
  simp only [List.cons.injEq, ← UInt16.toNat_inj, UInt16.toNat_ofNat', and_true]
  omega

theorem exists_of_charactersOnto {found : List Char} (h : charactersOnto found units = some text) :
    ∃ more, text = found.reverse ++ more ∧ units = unitsOf more := by
  fun_induction charactersOnto found units with
  | case1 found =>
      cases h
      exact ⟨[], (List.append_nil _).symm, rfl⟩
  | case2 found high hhigh low rest hlow ih =>
      rcases ih h with ⟨more, rfl, rfl⟩
      refine ⟨_, by rw [List.reverse_cons, List.append_assoc, List.singleton_append], ?_⟩
      rw [unitsOf_cons, charUnits_pair hhigh hlow]
      rfl
  | case3 => cases h
  | case4 => cases h
  | case5 => cases h
  | case6 found unit rest hhigh hlow ih =>
      rcases ih h with ⟨more, rfl, rfl⟩
      refine ⟨_, by rw [List.reverse_cons, List.append_assoc, List.singleton_append], ?_⟩
      rw [unitsOf_cons, charUnits_single hhigh hlow]
      rfl

theorem characters?_eq_some_iff : characters? units = some text ↔ units = unitsOf text := by
  constructor
  · intro h
    rcases exists_of_charactersOnto h with ⟨more, rfl, hunits⟩
    exact hunits
  · rintro rfl
    exact characters?_unitsOf text

/-!
# Both ways of reading
-/

/-- The code units of what is plain UTF-8 as well, unless some character needs two of them. -/
theorem codeUnitsOnto_of_utf8 (text : List Char) :
    codeUnitsOnto read (text.flatMap String.utf8EncodeChar) = some (read.reverse ++ unitsOf text) ∨
      codeUnitsOnto read (text.flatMap String.utf8EncodeChar) = none := by
  induction text generalizing read with
  | nil =>
      left
      rw [List.flatMap_nil, codeUnitsOnto, unitsOf, List.flatMap_nil, List.append_nil]
  | cons c text ih =>
      rw [List.flatMap_cons, codeUnitsOnto_encodeChar]
      by_cases hone : c.toNat < 0x10000
      · rw [if_pos hone]
        have hunits : read.reverse ++ unitsOf (c :: text) =
            (UInt16.ofNat c.toNat :: read).reverse ++ unitsOf text := by
          rw [unitsOf_cons, charUnits, if_pos hone, List.reverse_cons, List.append_assoc]
        rw [hunits]
        exact ih
      · rw [if_neg hone]
        exact Or.inr rfl

theorem eq_unitsOf_of_utf8 {bytes : Bytes} {short : List Char}
    (hshort : Utf8.decode? bytes = some short) (hunits : codeUnits? bytes = some units) :
    units = unitsOf short := by
  rw [Utf8.decode?_eq_some_iff] at hshort
  unfold codeUnits? at hunits
  rw [hshort] at hunits
  rcases @codeUnitsOnto_of_utf8 [] short with hread | hnone
  · rw [hread] at hunits
    exact (Option.some.inj hunits).symm
  · rw [hnone] at hunits
    cases hunits

theorem eq_of_utf8 {bytes : Bytes} {short long : List Char}
    (hshort : Utf8.decode? bytes = some short)
    (hlong : (codeUnits? bytes).bind characters? = some long) : short = long := by
  rcases Option.bind_eq_some_iff.mp hlong with ⟨units, hunits, htext⟩
  rw [eq_unitsOf_of_utf8 hshort hunits, characters?_unitsOf] at htext
  exact Option.some.inj htext

theorem decode?_of_units {bytes : Bytes} (h : (codeUnits? bytes).bind characters? = some text) :
    decode? bytes = some text := by
  unfold decode?
  cases hshort : Utf8.decode? bytes with
  | none => exact h
  | some short =>
      simp only
      rw [eq_of_utf8 hshort h]

theorem decode?_ofUnits (units : List UInt16) : decode? (ofUnits units) = characters? units := by
  have hunits := codeUnits?_ofUnits units
  cases htext : characters? units with
  | some text =>
      apply decode?_of_units
      rw [hunits, Option.bind_some, htext]
  | none =>
      unfold decode?
      cases hshort : Utf8.decode? (ofUnits units) with
      | none =>
          simp only
          rw [hunits, Option.bind_some, htext]
      | some short =>
          rw [eq_unitsOf_of_utf8 hshort hunits, characters?_unitsOf] at htext
          cases htext

/--
A text that is written is read back. Whenever plain UTF-8 and code units both
come to a text they come to the same one, so trying the former first never
changes what the code units would have come to.
-/
theorem decode?_inverts_encode :
    (∀ text, decode? (encode text) = some text) ∧
    (∀ bytes short long, Utf8.decode? bytes = some short →
      (codeUnits? bytes).bind characters? = some long → short = long) ∧
    ∀ bytes long, (codeUnits? bytes).bind characters? = some long → decode? bytes = some long := by
  refine ⟨?_, fun _ _ _ => eq_of_utf8, fun _ _ => decode?_of_units⟩
  intro text
  unfold encode
  rw [decode?_ofUnits, characters?_unitsOf]

/-- NUL and a character beyond the first 65536 are written in forms of their own. -/
example : encode ['a', Char.ofNat 0, Char.ofNat 0x1F600] =
    [0x61, 0xC0, 0x80, 0xED, 0xA0, 0xBD, 0xED, 0xB8, 0x80] := by
  decide

theorem decode?_inverts_encode_of_two_bytes :
    decode? (encode ['a', Char.ofNat 0, Char.ofNat 0x1F600]) =
      some ['a', Char.ofNat 0, Char.ofNat 0x1F600] ∧
    (Utf8.decode? [0xC3, 0xA9] = some ['é'] ∧
      (codeUnits? [0xC3, 0xA9]).bind characters? = some [Char.ofNat 0xE9] ∧
      ['é'] = [Char.ofNat 0xE9]) ∧
    (codeUnits? [0xC1, 0x81]).bind characters? = some ['A'] ∧
      decode? [0xC1, 0x81] = some ['A'] := by
  rcases decode?_inverts_encode with ⟨hback, hsame, hloop⟩
  have hshort : Utf8.decode? [0xC3, 0xA9] = some ['é'] :=
    Utf8.decode?_eq_some_iff.mpr (by decide)
  have hlong : (codeUnits? [0xC3, 0xA9]).bind characters? = some [Char.ofNat 0xE9] := by
    decide
  have hoverlong : (codeUnits? [0xC1, 0x81]).bind characters? = some ['A'] := by
    decide
  exact ⟨hback _, ⟨hshort, hlong, hsame _ _ _ hshort hlong⟩, hoverlong, hloop _ _ hoverlong⟩

/-!
# Surrogates without a partner
-/

/-- Whether a code unit is a surrogate that has no partner among its neighbours. -/
def IsUnpaired (before : List UInt16) (unit : UInt16) (after : List UInt16) : Prop :=
  isHighSurrogate unit = true ∧ (∀ next ∈ after.head?, ¬isLowSurrogate next = true) ∨
    isLowSurrogate unit = true ∧ ∀ last ∈ before.getLast?, ¬isHighSurrogate last = true

def HasUnpaired (units : List UInt16) : Prop :=
  ∃ before unit after, units = before ++ unit :: after ∧ IsUnpaired before unit after

theorem isUnpaired_cons_iff {first unit : UInt16} {before after : List UInt16}
    (hfirst : ¬isHighSurrogate first = true) :
    IsUnpaired (first :: before) unit after ↔ IsUnpaired before unit after := by
  unfold IsUnpaired
  cases before with
  | nil => simp [hfirst]
  | cons second before => simp

theorem hasUnpaired_cons_iff {first : UInt16} {rest : List UInt16}
    (hfirst : ¬isHighSurrogate first = true) :
    HasUnpaired (first :: rest) ↔ isLowSurrogate first = true ∨ HasUnpaired rest := by
  constructor
  · rintro ⟨before, unit, after, hunits, hunpaired⟩
    cases before with
    | nil =>
        cases hunits
        rcases hunpaired with ⟨hhigh, _⟩ | ⟨hlow, _⟩
        · exact absurd hhigh hfirst
        · exact Or.inl hlow
    | cons first' before =>
        cases hunits
        exact Or.inr ⟨before, unit, after, rfl, (isUnpaired_cons_iff hfirst).mp hunpaired⟩
  · rintro (hlow | ⟨before, unit, after, rfl, hunpaired⟩)
    · exact ⟨[], first, rest, rfl, Or.inr ⟨hlow, nofun⟩⟩
    · exact ⟨first :: before, unit, after, rfl, (isUnpaired_cons_iff hfirst).mpr hunpaired⟩

theorem hasUnpaired_pair_iff {high low : UInt16} {rest : List UInt16}
    (hhigh : isHighSurrogate high = true) (hlow : isLowSurrogate low = true) :
    HasUnpaired (high :: low :: rest) ↔ HasUnpaired rest := by
  have hnotHigh : ¬isHighSurrogate low = true := by
    rw [isHighSurrogate_iff]
    rw [isLowSurrogate_iff] at hlow
    omega
  have hnotLow : ¬isLowSurrogate high = true := by
    rw [isLowSurrogate_iff]
    rw [isHighSurrogate_iff] at hhigh
    omega
  constructor
  · rintro ⟨before, unit, after, hunits, hunpaired⟩
    match before with
    | [] =>
        cases hunits
        rcases hunpaired with ⟨_, hnext⟩ | ⟨hlow', _⟩
        · exact absurd hlow (hnext low rfl)
        · exact absurd hlow' hnotLow
    | [first] =>
        cases hunits
        rcases hunpaired with ⟨hhigh', _⟩ | ⟨_, hlast⟩
        · exact absurd hhigh' hnotHigh
        · exact absurd hhigh (hlast high rfl)
    | first :: second :: before =>
        cases hunits
        exact ⟨before, unit, after, rfl, (isUnpaired_cons_iff hnotHigh).mp hunpaired⟩
  · rintro ⟨before, unit, after, rfl, hunpaired⟩
    exact ⟨high :: low :: before, unit, after, rfl,
      (isUnpaired_cons_iff hnotHigh).mpr hunpaired⟩

theorem charactersOnto_eq_none_iff {found : List Char} :
    charactersOnto found units = none ↔ HasUnpaired units := by
  fun_induction charactersOnto found units with
  | case1 found =>
      refine iff_of_false nofun ?_
      rintro ⟨before, unit, after, hunits, _⟩
      cases before <;> cases hunits
  | case2 found high hhigh low rest hlow ih => rw [ih, hasUnpaired_pair_iff hhigh hlow]
  | case3 found high hhigh next rest hnext =>
      refine iff_of_true rfl ⟨[], high, next :: rest, rfl, Or.inl ⟨hhigh, ?_⟩⟩
      rintro _ ⟨⟩
      exact hnext
  | case4 found high hhigh => exact iff_of_true rfl ⟨[], high, [], rfl, Or.inl ⟨hhigh, nofun⟩⟩
  | case5 found low rest hhigh hlow =>
      exact iff_of_true rfl ((hasUnpaired_cons_iff hhigh).mpr (Or.inl hlow))
  | case6 found unit rest hhigh hlow ih =>
      rw [ih, hasUnpaired_cons_iff hhigh]
      simp [hlow]

theorem characters?_eq_none_iff : characters? units = none ↔ HasUnpaired units :=
  charactersOnto_eq_none_iff

end ModifiedUtf8
end Recompile
