import Recompile.ClassFile.Surface
import Recompile.Proofs.Answers
import Recompile.Proofs.Surface.Compatibility

/-!
# Constants that are copied

A compiler copies the constant of another class to where it is used, with its
type and its value. The surface keeps less of it: a name, and a fingerprint of
the literal as it is written. What the fingerprint cannot tell apart is left to
the rules for fields, which do not reach the copies.
-/

namespace Recompile
namespace ClassFile

/-- A constant as it is copied to its uses; its value is told by the type and the literal. -/
@[ext]
structure CopiedConstant where
  name : String
  type : JavaType
  text : String
deriving DecidableEq

def CopiedConstant.shared (constant : CopiedConstant) : SharedConstant :=
  ⟨constant.name, literalFingerprint constant.text⟩

def Layout.constantWith (layout : Layout) (member : Member) (data : Bytes) :
    Except Fault CopiedConstant := do
  let name ← layout.pool.text member.name
  let type ← describe (JavaType.ofField (← layout.pool.text member.descriptor))
  let text ← layout.pool.literal (← Decoder.u2.runOn data)
  return ⟨name, type, text⟩

def Layout.constant? (layout : Layout) (member : Member) : Option CopiedConstant :=
  if isSharedConstant member.flags then
    (layout.attribute? member.attributes "ConstantValue").bind fun data =>
      (layout.constantWith member data).toOption
  else none

def copiedConstants (bytes : Bytes) : List CopiedConstant :=
  match Layout.ofBytes bytes with
  | .ok layout => layout.fields.filterMap layout.constant?
  | .error _ => []

/-!
# From fields to constants
-/

section Reading

variable {bytes : Bytes} {surface : ClassSurface} {layout : Layout} {member : Member}

theorem isPrivate_of_isSharedConstant {flags : Modifiers} (h : isSharedConstant flags = true) :
    flags.isPrivate = false := by
  unfold isSharedConstant at h
  rw [Bool.and_eq_true, Bool.not_eq_true'] at h
  exact h.2

theorem constant?_of_readField {field : FieldDecl} {shared : Option SharedConstant}
    (h : readField layout member = .ok (field, shared)) :
    shared = (layout.constant? member).map CopiedConstant.shared ∧
      ∀ constant ∈ layout.constant? member,
        field.flags.isPrivate = false ∧ field.name = constant.name ∧
          field.type = constant.type := by
  unfold readField at h
  rcases bind_eq_ok.mp h with ⟨name, hname, h⟩
  rcases bind_eq_ok.mp h with ⟨descriptor, hdescriptor, h⟩
  rcases bind_eq_ok.mp h with ⟨type, htype, h⟩
  unfold Layout.constant?
  by_cases hshared : isSharedConstant member.flags = true
  · rw [if_pos hshared] at h ⊢
    cases hattribute : layout.attribute? member.attributes "ConstantValue" with
    | none =>
        rw [hattribute] at h
        cases h
        exact ⟨rfl, nofun⟩
    | some data =>
        rw [hattribute] at h
        rcases bind_eq_ok.mp h with ⟨index, hindex, h⟩
        rcases bind_eq_ok.mp h with ⟨text, htext, h⟩
        cases h
        have hconstant : layout.constantWith member data = .ok ⟨name, type, text⟩ := by
          unfold Layout.constantWith
          rw [hname, hdescriptor, hindex]
          show (describe (JavaType.ofField descriptor) >>= fun type =>
            layout.pool.literal index >>= fun text => pure _) = _
          rw [htype, htext]
          rfl
        rw [Option.bind_some, hconstant]
        refine ⟨rfl, ?_⟩
        rintro _ ⟨⟩
        exact ⟨isPrivate_of_isSharedConstant hshared, rfl, rfl⟩
  · rw [if_neg hshared] at h ⊢
    cases h
    exact ⟨rfl, nofun⟩

theorem of_surfaceOf (h : surfaceOf bytes = .ok surface) :
    ∃ layout fields, Layout.ofBytes bytes = .ok layout ∧
      List.Forall₂ (fun member field => readField layout member = .ok field)
        layout.fields fields ∧
      surface.fields = fields.map Prod.fst ∧ surface.constants = fields.filterMap Prod.snd := by
  unfold surfaceOf at h
  rcases bind_eq_ok.mp h with ⟨layout, hlayout, h⟩
  rcases bind_eq_ok.mp h with ⟨_, _, h⟩
  simp only at h
  -- A class without a superclass goes on as any other.
  split at h
  case' isFalse => rcases bind_eq_ok.mp h with ⟨_, _, h⟩
  all_goals
    rcases bind_eq_ok.mp h with ⟨_, _, h⟩
    rcases bind_eq_ok.mp h with ⟨_, _, h⟩
    rcases bind_eq_ok.mp h with ⟨fields, hfields, h⟩
    rcases bind_eq_ok.mp h with ⟨_, _, h⟩
    rcases bind_eq_ok.mp h with ⟨_, _, h⟩
    cases h
    exact ⟨layout, fields, hlayout, forall₂_of_mapM hfields, rfl, rfl⟩

theorem constants_of_fields {members : List Member}
    {fields : List (FieldDecl × Option SharedConstant)}
    (h : List.Forall₂ (fun member field => readField layout member = .ok field) members fields) :
    fields.filterMap Prod.snd = (members.filterMap layout.constant?).map CopiedConstant.shared := by
  induction h with
  | nil => rfl
  | @cons member field members fields hfield _ ih =>
      have hshared := (constant?_of_readField hfield).1
      cases hconstant : layout.constant? member with
      | none => simpa [hshared, hconstant] using ih
      | some constant => simpa [hshared, hconstant] using ih

theorem constants_of_surfaceOf (h : surfaceOf bytes = .ok surface) :
    surface.constants = (copiedConstants bytes).map CopiedConstant.shared := by
  rcases of_surfaceOf h with ⟨layout, fields, hlayout, hfields, _, hconstants⟩
  unfold copiedConstants
  rw [hconstants, hlayout]
  exact constants_of_fields hfields

theorem field_of_mem_copiedConstants {constant : CopiedConstant} (h : surfaceOf bytes = .ok surface)
    (hconstant : constant ∈ copiedConstants bytes) :
    ∃ field ∈ surface.fields, field.flags.isPrivate = false ∧ field.name = constant.name ∧
      field.type = constant.type := by
  rcases of_surfaceOf h with ⟨layout, fields, hlayout, hfields, hsurface, _⟩
  unfold copiedConstants at hconstant
  rw [hlayout] at hconstant
  rcases List.mem_filterMap.mp hconstant with ⟨member, hmember, hfound⟩
  rw [hsurface]
  rcases List.mem_iff_getElem.mp hmember with ⟨i, hi, rfl⟩
  have hfield := hfields.get hi (hfields.length_eq ▸ hi)
  refine ⟨_, List.mem_map_of_mem (List.getElem_mem _), (constant?_of_readField hfield).2 _ hfound⟩

end Reading

/-!
# Lost constants
-/

section Lost

variable {old new : Bytes} {oldSurface newSurface : ClassSurface} {before : Snapshot}

theorem isLast_map_iff {α β : Type} {property : β → Prop} {items : List α} {found : β}
    {change : α → β} :
    IsLast property (items.map change) found ↔
      ∃ item, IsLast (fun other => property (change other)) items item ∧ change item = found := by
  constructor
  · rintro ⟨front, back, hitems, hfound, hback⟩
    rcases List.map_eq_append_iff.mp hitems with ⟨front', rest, rfl, rfl, hrest⟩
    rcases List.map_eq_cons_iff.mp hrest with ⟨item, back', rfl, rfl, rfl⟩
    refine ⟨item, ⟨front', back', rfl, hfound, ?_⟩, rfl⟩
    intro other hother
    exact hback _ (List.mem_map_of_mem hother)
  · rintro ⟨item, ⟨front, back, rfl, hitem, hback⟩, rfl⟩
    refine ⟨front.map change, back.map change, by simp, hitem, ?_⟩
    intro other hother
    rcases List.mem_map.mp hother with ⟨other, hmem, rfl⟩
    exact hback other hmem

/-- Whether no two literals of the two class files that differ have one fingerprint. -/
def DistinctTexts (old new : Bytes) : Prop :=
  ∀ constant ∈ copiedConstants old, ∀ kept ∈ copiedConstants new,
    literalFingerprint kept.text = literalFingerprint constant.text → kept.text = constant.text

theorem losesConstant_iff (hold : surfaceOf old = .ok oldSurface)
    (hnew : surfaceOf new = .ok newSurface) (hdistinct : DistinctTexts old new) :
    Compatibility.LosesConstant oldSurface newSurface ↔
      ∃ constant ∈ copiedConstants old, ∀ kept,
        IsLast (fun other => other.name = constant.name) (copiedConstants new) kept →
          kept.text ≠ constant.text := by
  unfold Compatibility.LosesConstant
  rw [constants_of_surfaceOf hold, constants_of_surfaceOf hnew]
  simp only [List.mem_map, exists_exists_and_eq_and, isLast_map_iff, forall_exists_index, and_imp,
    forall_apply_eq_imp_iff₂]
  refine exists_congr fun constant => and_congr_right fun hconstant => forall_congr' fun kept => ?_
  refine imp_congr_right fun hkept => not_congr ⟨hdistinct constant hconstant kept hkept.mem, ?_⟩
  intro htext
  exact congrArg literalFingerprint htext

/--
A change of constants reaches everywhere if and only if the literal of one of
them is not what the last constant of that name is written with. A constant may
be lost in no other way than that it is written as before and has another type,
and then no more than the direct dependants are reached.
-/
theorem globallyIncompatible_iff_literal_lost (hold : surfaceOf old = .ok oldSurface)
    (hnew : surfaceOf new = .ok newSurface) (before : Snapshot)
    (hdistinct : DistinctTexts old new) :
    (Compatibility.between before (some oldSurface) (some newSurface) = .globallyIncompatible ↔
      ∃ constant ∈ copiedConstants old, ∀ kept,
        IsLast (fun other => other.name = constant.name) (copiedConstants new) kept →
          kept.text ≠ constant.text) ∧
    ∀ constant ∈ copiedConstants old, constant ∉ copiedConstants new →
      Compatibility.between before (some oldSurface) (some newSurface) = .globallyIncompatible ∨
      (∃ kept, IsLast (fun other => other.name = constant.name) (copiedConstants new) kept ∧
        kept.text = constant.text ∧ kept.type ≠ constant.type) ∧
      ((newSurface.fields.map FieldDecl.name).Nodup →
        Compatibility.between before (some oldSurface) (some newSurface) = .incompatible) := by
  have hglobal : Compatibility.between before (some oldSurface) (some newSurface) =
      .globallyIncompatible ↔ _ :=
    Compatibility.betweenVersions_eq_globallyIncompatible_iff.trans
      (losesConstant_iff hold hnew hdistinct)
  refine ⟨hglobal, ?_⟩
  intro constant hconstant hlost
  rw [or_iff_not_imp_left]
  intro hlocal
  have hkeeps : ∃ kept,
      IsLast (fun other => other.name = constant.name) (copiedConstants new) kept ∧
        kept.text = constant.text := by
    by_contra hnone
    apply hlocal
    apply hglobal.mpr
    refine ⟨constant, hconstant, ?_⟩
    intro kept hkept htext
    exact hnone ⟨kept, hkept, htext⟩
  rcases hkeeps with ⟨kept, hkept, htext⟩
  -- A constant is its name, type and text, so one that is kept but for itself is retyped.
  have hretyped : kept.type ≠ constant.type := by
    intro htype
    apply hlost
    have hsame : kept = constant := CopiedConstant.ext hkept.holds htype htext
    rw [← hsame]
    exact hkept.mem
  refine ⟨⟨kept, hkept, htext, hretyped⟩, ?_⟩
  intro hunique
  rcases field_of_mem_copiedConstants hold hconstant with ⟨field, hfield, hvisible, hname, htype⟩
  rcases field_of_mem_copiedConstants hnew hkept.mem with ⟨other, hother, _, hname', htype'⟩
  -- The last field of a name need not be the constant; unique names make it so.
  have hlast := isLast_of_nodup hunique hother
  rw [hname', hkept.holds, ← hname] at hlast
  have hbreak : Compatibility.Break before oldSurface newSurface := by
    apply Compatibility.Break.fieldChanged field hfield hvisible other hlast
    apply Compatibility.FieldBreak.retyped
    rw [htype, htype']
    exact Ne.symm hretyped
  have hbroken : Compatibility.between before (some oldSurface) (some newSurface) ≠ .compatible :=
    Compatibility.betweenVersions_ne_compatible_iff.mpr (Or.inr hbreak)
  cases hlevel : Compatibility.between before (some oldSurface) (some newSurface) with
  | compatible => exact absurd hlevel hbroken
  | incompatible => rfl
  | globallyIncompatible => exact absurd hlevel hlocal

end Lost

def constantBytes (slots type : UInt8) (literal : Bytes) : Bytes :=
  [0xCA, 0xFE, 0xBA, 0xBE, 0, 0, 0, 52, 0, slots, 7, 0, 2, 1, 0, 1, 88, 1, 0, 1, 75,
    1, 0, 1, type, 1, 0, 13] ++ Bytes.ofText "ConstantValue" ++ literal ++
  [0, 0x21, 0, 1, 0, 0, 0, 0, 0, 1, 0, 0x19, 0, 3, 0, 4, 0, 1, 0, 5, 0, 0, 0, 2, 0, 6, 0, 0, 0, 0]

def intConstantBytes (value : UInt8) : Bytes :=
  constantBytes 7 73 [3, 0, 0, 0, value]

def longConstantBytes (value : UInt8) : Bytes :=
  constantBytes 8 74 [5, 0, 0, 0, 0, 0, 0, 0, value]

theorem globallyIncompatible_of_long_two :
    ∃ oldSurface newSurface,
      surfaceOf (intConstantBytes 1) = .ok oldSurface ∧
      surfaceOf (longConstantBytes 2) = .ok newSurface ∧
      DistinctTexts (intConstantBytes 1) (longConstantBytes 2) ∧
      Compatibility.between ⟨∅⟩ (some oldSurface) (some newSurface) = .globallyIncompatible := by
  have hread : (surfaceOf (intConstantBytes 1) >>= fun _ => surfaceOf (longConstantBytes 2) >>=
      fun _ => pure ()) = .ok () := by decide +kernel
  rcases bind_eq_ok.mp hread with ⟨oldSurface, hold, hread⟩
  rcases bind_eq_ok.mp hread with ⟨newSurface, hnew, _⟩
  have hdistinct : DistinctTexts (intConstantBytes 1) (longConstantBytes 2) := by
    unfold DistinctTexts
    decide +kernel
  refine ⟨oldSurface, newSurface, hold, hnew, hdistinct, ?_⟩
  apply (globallyIncompatible_iff_literal_lost hold hnew ⟨∅⟩ hdistinct).1.mpr
  refine ⟨⟨"K", ⟨.primitive .int, 0⟩, "1"⟩, by decide +kernel, ?_⟩
  intro kept hkept
  have hall : ∀ kept ∈ copiedConstants (longConstantBytes 2), kept.text ≠ "1" := by
    decide +kernel
  exact hall kept hkept.mem

theorem incompatible_of_long_one :
    ∃ oldSurface newSurface constant,
      surfaceOf (intConstantBytes 1) = .ok oldSurface ∧
      surfaceOf (longConstantBytes 1) = .ok newSurface ∧
      DistinctTexts (intConstantBytes 1) (longConstantBytes 1) ∧
      constant ∈ copiedConstants (intConstantBytes 1) ∧
      constant ∉ copiedConstants (longConstantBytes 1) ∧
      Compatibility.between ⟨∅⟩ (some oldSurface) (some newSurface) = .incompatible := by
  have hlevel : (surfaceOf (intConstantBytes 1) >>= fun oldSurface =>
      surfaceOf (longConstantBytes 1) >>= fun newSurface =>
        pure (Compatibility.between ⟨∅⟩ (some oldSurface) (some newSurface))) =
      .ok .incompatible := by
    decide +kernel
  rcases bind_eq_ok.mp hlevel with ⟨oldSurface, hold, hlevel⟩
  rcases bind_eq_ok.mp hlevel with ⟨newSurface, hnew, hlevel⟩
  refine ⟨oldSurface, newSurface, ⟨"K", ⟨.primitive .int, 0⟩, "1"⟩, hold, hnew, ?_,
    by decide +kernel, by decide +kernel, Except.ok.inj hlevel⟩
  unfold DistinctTexts
  decide +kernel

end ClassFile
end Recompile
