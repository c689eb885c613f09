import Recompile.Text.Utf8

/-!
# What is read as UTF-8

A step of reading gives a character exactly where the bytes of that character
come next. So a byte string is read to its end if and only if it consists of the
bytes of some characters, and then it is these that are read.
-/

namespace Recompile
namespace Utf8

theorem val_ofNat {number : Nat} (h : number.isValidChar) :
    (Char.ofNat number).val.toNat = number := by
  unfold Char.ofNat
  rw [dif_pos h]
  rfl

/-!
# Ranges of bytes
-/

theorem isBetween_iff {low high b : UInt8} :
    (decide (low ≤ b) && decide (b ≤ high)) = true ↔
      low.toNat ≤ b.toNat ∧ b.toNat ≤ high.toNat := by
  rw [Bool.and_eq_true, decide_eq_true_eq, decide_eq_true_eq, UInt8.le_iff_toNat_le,
    UInt8.le_iff_toNat_le]

theorem isContinuation_iff {b : UInt8} :
    isContinuation b = true ↔ 0x80 ≤ b.toNat ∧ b.toNat ≤ 0xBF :=
  isBetween_iff

theorem isSecond_iff {lead b first low last high : UInt8} (hne : first ≠ last)
    (hlow : 0x80 ≤ low.toNat) (hhigh : high.toNat ≤ 0xBF) :
    (if lead = first then decide (low ≤ b) && decide (b ≤ 0xBF)
      else if lead = last then decide (0x80 ≤ b) && decide (b ≤ high)
      else isContinuation b) = true ↔
      (0x80 ≤ b.toNat ∧ b.toNat ≤ 0xBF) ∧ (lead.toNat = first.toNat → low.toNat ≤ b.toNat) ∧
        (lead.toNat = last.toNat → b.toNat ≤ high.toNat) := by
  rw [UInt8.toNat_inj, UInt8.toNat_inj]
  by_cases hfirst : lead = first
  · subst hfirst
    rw [if_pos rfl, isBetween_iff]
    simp only [hne, forall_const, false_implies, and_true, UInt8.reduceToNat]
    omega
  rw [if_neg hfirst]
  by_cases hlast : lead = last
  · subst hlast
    rw [if_pos rfl, isBetween_iff]
    simp only [hfirst, forall_const, false_implies, true_and, UInt8.reduceToNat]
    omega
  · rw [if_neg hlast, isContinuation_iff]
    simp only [hfirst, hlast, false_implies, and_true]

theorem isSecondOfThree_iff {lead b : UInt8} :
    isSecondOfThree lead b = true ↔
      (0x80 ≤ b.toNat ∧ b.toNat ≤ 0xBF) ∧ (lead.toNat = 0xE0 → 0xA0 ≤ b.toNat) ∧
        (lead.toNat = 0xED → b.toNat ≤ 0x9F) :=
  isSecond_iff (by decide) (by decide) (by decide)

theorem isSecondOfFour_iff {lead b : UInt8} :
    isSecondOfFour lead b = true ↔
      (0x80 ≤ b.toNat ∧ b.toNat ≤ 0xBF) ∧ (lead.toNat = 0xF0 → 0x90 ≤ b.toNat) ∧
        (lead.toNat = 0xF4 → b.toNat ≤ 0x8F) :=
  isSecond_iff (by decide) (by decide) (by decide)

/-!
# The bytes of a character
-/

theorem encode_one {a : UInt8} (h : a.toNat ≤ 0x7F) :
    String.utf8EncodeChar (scalar a.toNat []) = [a] := by
  have hvalid : a.toNat.isValidChar := Or.inl (by omega)
  have hvalue : (scalar a.toNat []).val.toNat = a.toNat := val_ofNat hvalid
  simp only [String.utf8EncodeChar, hvalue]
  rw [if_pos h, UInt8.ofNat_toNat]

theorem encode_two {a b : UInt8} (hlead : 0xC2 ≤ a.toNat ∧ a.toNat ≤ 0xDF)
    (hsecond : 0x80 ≤ b.toNat ∧ b.toNat ≤ 0xBF) :
    String.utf8EncodeChar (scalar (a.toNat % 32) [b]) = [a, b] := by
  have hvalid : (64 * (a.toNat % 32) + b.toNat % 64).isValidChar := Or.inl (by omega)
  have hvalue : (scalar (a.toNat % 32) [b]).val.toNat =
      64 * (a.toNat % 32) + b.toNat % 64 := val_ofNat hvalid
  simp only [String.utf8EncodeChar, hvalue]
  rw [if_neg (by omega), if_pos (by omega)]
  simp only [List.cons.injEq, ← UInt8.toNat_inj, UInt8.toNat_ofNat', and_true]
  omega

theorem encode_three {a b c : UInt8} (hlead : 0xE0 ≤ a.toNat ∧ a.toNat ≤ 0xEF)
    (hsecond : isSecondOfThree a b = true) (hthird : 0x80 ≤ c.toNat ∧ c.toNat ≤ 0xBF) :
    String.utf8EncodeChar (scalar (a.toNat % 16) [b, c]) = [a, b, c] := by
  rw [isSecondOfThree_iff] at hsecond
  have hvalid : (64 * (64 * (a.toNat % 16) + b.toNat % 64) + c.toNat % 64).isValidChar := by
    unfold Nat.isValidChar
    omega
  have hvalue : (scalar (a.toNat % 16) [b, c]).val.toNat =
      64 * (64 * (a.toNat % 16) + b.toNat % 64) + c.toNat % 64 := val_ofNat hvalid
  simp only [String.utf8EncodeChar, hvalue]
  rw [if_neg (by omega), if_neg (by omega), if_pos (by omega)]
  simp only [List.cons.injEq, ← UInt8.toNat_inj, UInt8.toNat_ofNat', and_true]
  omega

theorem encode_four {a b c d : UInt8} (hlead : 0xF0 ≤ a.toNat ∧ a.toNat ≤ 0xF4)
    (hsecond : isSecondOfFour a b = true) (hthird : 0x80 ≤ c.toNat ∧ c.toNat ≤ 0xBF)
    (hfourth : 0x80 ≤ d.toNat ∧ d.toNat ≤ 0xBF) :
    String.utf8EncodeChar (scalar (a.toNat % 8) [b, c, d]) = [a, b, c, d] := by
  rw [isSecondOfFour_iff] at hsecond
  have hvalid : (64 * (64 * (64 * (a.toNat % 8) + b.toNat % 64) + c.toNat % 64)
      + d.toNat % 64).isValidChar := by
    unfold Nat.isValidChar
    omega
  have hvalue : (scalar (a.toNat % 8) [b, c, d]).val.toNat =
      64 * (64 * (64 * (a.toNat % 8) + b.toNat % 64) + c.toNat % 64) + d.toNat % 64 :=
    val_ofNat hvalid
  simp only [String.utf8EncodeChar, hvalue]
  rw [if_neg (by omega), if_neg (by omega), if_neg (by omega)]
  simp only [List.cons.injEq, ← UInt8.toNat_inj, UInt8.toNat_ofNat', and_true]
  omega

/-!
# One step of reading
-/

theorem next_one {a : UInt8} (h : a.toNat ≤ 0x7F) (rest : Bytes) :
    next a rest = (some (scalar a.toNat []), rest) := by
  unfold next
  rw [if_pos]
  exact UInt8.le_iff_toNat_le.mpr h

theorem next_two {a b : UInt8} (hlead : 0xC2 ≤ a.toNat ∧ a.toNat ≤ 0xDF)
    (hsecond : 0x80 ≤ b.toNat ∧ b.toNat ≤ 0xBF) (rest : Bytes) :
    next a (b :: rest) = (some (scalar (a.toNat % 32) [b]), rest) := by
  unfold next
  simp only [isContinuation_iff, Bool.and_eq_true, decide_eq_true_eq, UInt8.le_iff_toNat_le,
    UInt8.reduceToNat]
  rw [if_neg (by omega), if_pos hlead, if_pos hsecond]

theorem next_three {a b c : UInt8} (hlead : 0xE0 ≤ a.toNat ∧ a.toNat ≤ 0xEF)
    (hsecond : isSecondOfThree a b = true) (hthird : 0x80 ≤ c.toNat ∧ c.toNat ≤ 0xBF)
    (rest : Bytes) :
    next a (b :: c :: rest) = (some (scalar (a.toNat % 16) [b, c]), rest) := by
  unfold next
  simp only [isContinuation_iff, Bool.and_eq_true, decide_eq_true_eq, UInt8.le_iff_toNat_le,
    UInt8.reduceToNat]
  rw [if_neg (by omega), if_neg (by omega), if_pos hlead, if_pos hsecond, if_pos hthird]

theorem next_four {a b c d : UInt8} (hlead : 0xF0 ≤ a.toNat ∧ a.toNat ≤ 0xF4)
    (hsecond : isSecondOfFour a b = true) (hthird : 0x80 ≤ c.toNat ∧ c.toNat ≤ 0xBF)
    (hfourth : 0x80 ≤ d.toNat ∧ d.toNat ≤ 0xBF) (rest : Bytes) :
    next a (b :: c :: d :: rest) = (some (scalar (a.toNat % 8) [b, c, d]), rest) := by
  unfold next
  simp only [isContinuation_iff, Bool.and_eq_true, decide_eq_true_eq, UInt8.le_iff_toNat_le,
    UInt8.reduceToNat]
  rw [if_neg (by omega), if_neg (by omega), if_neg (by omega), if_pos hlead, if_pos hsecond,
    if_pos hthird, if_pos hfourth]

theorem encode_of_next {lead : UInt8} {tail rest : Bytes} {c : Char}
    (h : next lead tail = (some c, rest)) : lead :: tail = String.utf8EncodeChar c ++ rest := by
  unfold next at h
  simp only [isContinuation_iff, Bool.and_eq_true, decide_eq_true_eq, UInt8.le_iff_toNat_le,
    UInt8.reduceToNat] at h
  -- Of all the ways through, the four that end in a character are left.
  repeat' split at h
  all_goals cases h
  next hone =>
      rw [encode_one hone]
      rfl
  next htwo _ _ hsecond =>
      rw [encode_two htwo hsecond]
      rfl
  next hthree _ _ hsecond _ _ hthird =>
      rw [encode_three hthree hsecond hthird]
      rfl
  next hfour _ _ hsecond _ _ hthird _ _ hfourth =>
      rw [encode_four hfour hsecond hthird hfourth]
      rfl

theorem next_encode (c : Char) (rest : Bytes) :
    ∃ lead tail, String.utf8EncodeChar c ++ rest = lead :: tail ∧
      next lead tail = (some c, rest) := by
  have hvalid : c.val.toNat.isValidChar := c.valid
  have hchar : ∀ {number : Nat}, number = c.val.toNat → Char.ofNat number = c := by
    intro number hvalue
    rw [hvalue]
    exact Char.ofNat_toNat c
  have hbyte : ∀ {number : Nat}, number < 256 → (UInt8.ofNat number).toNat = number :=
    fun hlt => UInt8.toNat_ofNat_of_lt' hlt
  unfold Nat.isValidChar at hvalid
  unfold String.utf8EncodeChar
  simp only
  generalize c.val.toNat = number at *
  by_cases hone : number ≤ 0x7F
  · rw [if_pos hone]
    refine ⟨_, _, rfl, ?_⟩
    have ha := hbyte (show number < 256 by omega)
    rw [next_one (by omega), scalar, List.foldl_nil, hchar ha]
    rfl
  rw [if_neg hone]
  by_cases htwo : number ≤ 0x7FF
  · rw [if_pos htwo]
    refine ⟨_, _, List.cons_append, ?_⟩
    have ha := hbyte (show number / 64 % 32 + 0xC0 < 256 by omega)
    have hb := hbyte (show number % 64 + 0x80 < 256 by omega)
    rw [List.cons_append, next_two (by omega) (by omega), scalar, List.foldl_cons,
      List.foldl_nil, hchar (by omega)]
    rfl
  rw [if_neg htwo]
  by_cases hthree : number ≤ 0xFFFF
  · rw [if_pos hthree]
    refine ⟨_, _, List.cons_append, ?_⟩
    have ha := hbyte (show number / 4096 % 16 + 0xE0 < 256 by omega)
    have hb := hbyte (show number / 64 % 64 + 0x80 < 256 by omega)
    have hc := hbyte (show number % 64 + 0x80 < 256 by omega)
    rw [List.cons_append, List.cons_append,
      next_three (by omega) (isSecondOfThree_iff.mpr (by omega)) (by omega), scalar,
      List.foldl_cons, List.foldl_cons, List.foldl_nil, hchar (by omega)]
    rfl
  · rw [if_neg hthree]
    refine ⟨_, _, List.cons_append, ?_⟩
    have ha := hbyte (show number / 262144 % 8 + 0xF0 < 256 by omega)
    have hb := hbyte (show number / 4096 % 64 + 0x80 < 256 by omega)
    have hc := hbyte (show number / 64 % 64 + 0x80 < 256 by omega)
    have hd := hbyte (show number % 64 + 0x80 < 256 by omega)
    rw [List.cons_append, List.cons_append, List.cons_append,
      next_four (by omega) (isSecondOfFour_iff.mpr (by omega)) (by omega) (by omega), scalar,
      List.foldl_cons, List.foldl_cons, List.foldl_cons, List.foldl_nil, hchar (by omega)]
    rfl

/-!
# Reading to the end
-/

theorem scanOnto_eq (read : List (Option Char)) (bytes : Bytes) :
    scanOnto read bytes = read.reverse ++ scan bytes := by
  unfold scan
  induction hlength : bytes.length using Nat.strongRecOn generalizing read bytes with
  | ind length ih =>
      cases bytes with
      | nil => simp [scanOnto]
      | cons lead tail =>
          have hlt := next_length lead tail
          rw [List.length_cons] at hlength
          rw [scanOnto, scanOnto, ih _ (by omega) _ _ rfl, ih _ (by omega) [_] _ rfl]
          simp

theorem scan_cons (lead : UInt8) (tail : Bytes) :
    scan (lead :: tail) = (next lead tail).1 :: scan (next lead tail).2 := by
  unfold scan
  rw [scanOnto, scanOnto_eq]
  rfl

theorem scan_encode (c : Char) (rest : Bytes) :
    scan (String.utf8EncodeChar c ++ rest) = some c :: scan rest := by
  rcases next_encode c rest with ⟨lead, tail, hbytes, hnext⟩
  rw [hbytes, scan_cons, hnext]

theorem scan_flatMap_encode (text : List Char) :
    scan (text.flatMap String.utf8EncodeChar) = text.map some := by
  induction text with
  | nil => simp [scan, scanOnto]
  | cons c rest ih => rw [List.flatMap_cons, scan_encode, ih, List.map_cons]

theorem eq_of_scan {bytes : Bytes} {text : List Char} (h : scan bytes = text.map some) :
    bytes = text.flatMap String.utf8EncodeChar := by
  induction text generalizing bytes with
  | nil =>
      cases bytes with
      | nil => rfl
      | cons lead tail =>
          rw [scan_cons] at h
          cases h
  | cons c text ih =>
      cases bytes with
      | nil =>
          simp [scan, scanOnto] at h
      | cons lead tail =>
          rw [scan_cons, List.map_cons, List.cons.injEq] at h
          rw [List.flatMap_cons, ← ih h.2]
          exact encode_of_next (Prod.ext h.1 rfl)

theorem mapM_id_eq_some_iff {found : List (Option Char)} {text : List Char} :
    found.mapM id = some text ↔ found = text.map some := by
  induction found generalizing text with
  | nil => cases text <;> simp
  | cons first rest ih =>
      rw [List.mapM_cons]
      simp only [id, Option.bind_eq_bind, Option.bind_eq_some_iff, Option.pure_def,
        Option.some.injEq]
      constructor
      · rintro ⟨c, hfirst, more, hrest, rfl⟩
        rw [hfirst, ih.mp hrest, List.map_cons]
      · intro h
        cases text with
        | nil => cases h
        | cons c more =>
            rw [List.map_cons, List.cons.injEq] at h
            exact ⟨c, h.1, more, ih.mpr h.2, rfl⟩

theorem decode?_eq_some_iff {bytes : Bytes} {text : List Char} :
    decode? bytes = some text ↔ bytes = text.flatMap String.utf8EncodeChar := by
  unfold decode?
  rw [mapM_id_eq_some_iff]
  constructor
  · exact eq_of_scan
  · rintro rfl
    exact scan_flatMap_encode text

/-!
# Texts that are written and read back
-/

theorem ofText_eq (text : String) :
    Bytes.ofText text = text.toList.flatMap String.utf8EncodeChar := by
  unfold Bytes.ofText
  rw [String.toUTF8_eq_toByteArray, ← String.utf8Encode_toList]
  unfold List.utf8Encode
  simp

theorem flawWithin_encode (total : Nat) (c : Char) (rest : Bytes) :
    flawWithin total (String.utf8EncodeChar c ++ rest) = flawWithin total rest := by
  rcases next_encode c rest with ⟨lead, tail, hbytes, hnext⟩
  rw [hbytes, flawWithin, hnext]

theorem flawWithin_flatMap_encode (total : Nat) (text : List Char) :
    flawWithin total (text.flatMap String.utf8EncodeChar) = none := by
  induction text with
  | nil => simp [flawWithin]
  | cons c rest ih => rw [List.flatMap_cons, flawWithin_encode, ih]

theorem read_ofText (text : String) : read (Bytes.ofText text) = .ok text := by
  unfold read decodeLossy
  rw [ofText_eq, flawWithin_flatMap_encode, scan_flatMap_encode, List.map_map]
  have hchar : (fun read : Option Char => read.getD (Char.ofNat 0xFFFD)) ∘ some = id := rfl
  rw [hchar, List.map_id]
  exact congrArg Except.ok String.ofList_toList

theorem ofText_injective {text other : String} (h : Bytes.ofText text = Bytes.ofText other) :
    text = other := by
  have hread := read_ofText text
  rw [h, read_ofText other] at hread
  exact (Except.ok.inj hread).symm

end Utf8
end Recompile
