import Mathlib.Data.List.Forall2
import Mathlib.Data.List.TakeWhile
import Recompile.JavaType.Descriptor
import Recompile.Proofs.Text.Pieces

/-!
# Descriptors read and written

A descriptor is written from a type in one way, and it is read if and only if it
has the form that the grammar gives. Class names come with slashes and are kept
with dots, so what is written is what was read once its dots are slashes.
-/

namespace Recompile

/-!
# The grammar

The forms are told as texts, without the types that they stand for.
-/

def IsElementForm (text : List Char) : Prop :=
  (∃ code ∈ ['B', 'C', 'D', 'F', 'I', 'J', 'S', 'Z'], text = [code]) ∨
    ∃ name, name ≠ [] ∧ ';' ∉ name ∧ text = 'L' :: name ++ [';']

def IsTypeForm (text : List Char) : Prop :=
  ∃ brackets ≤ 255, ∃ element, IsElementForm element ∧
    text = List.replicate brackets '[' ++ element

def IsMethodForm (text : List Char) : Prop :=
  ∃ (parameters : List (List Char)) (result : List Char),
    (∀ parameter ∈ parameters, IsTypeForm parameter) ∧
    (IsTypeForm result ∨ result = ['V']) ∧ text = '(' :: parameters.flatten ++ ')' :: result

/-!
# Writing
-/

def slashed (text : List Char) : List Char :=
  text.map fun c => if c = '.' then '/' else c

def Primitive.code : Primitive → Char
  | byte => 'B'
  | char => 'C'
  | double => 'D'
  | float => 'F'
  | int => 'I'
  | long => 'J'
  | short => 'S'
  | boolean => 'Z'
  | void => 'V'

def Element.written : Element → List Char
  | primitive base => [base.code]
  | object name => 'L' :: slashed name.text.toList ++ [';']

def JavaType.written (type : JavaType) : List Char :=
  List.replicate type.dimensions.toNat '[' ++ type.element.written

def MethodType.written (method : MethodType) : List Char :=
  '(' :: method.parameters.flatMap JavaType.written ++ ')' :: method.result.written

def JavaType.descriptor (type : JavaType) : String :=
  String.ofList type.written

def MethodType.descriptor (method : MethodType) : String :=
  String.ofList method.written

/-- What an array, a field or a parameter is made of: no `void`, and a name that can be written. -/
def Element.IsProper : Element → Prop
  | primitive base => base ≠ .void
  | object name => name.text ≠ "" ∧ ';' ∉ name.text.toList ∧ '/' ∉ name.text.toList

def JavaType.IsProper (type : JavaType) : Prop :=
  type.element.IsProper

structure MethodType.IsProper (method : MethodType) : Prop where
  parameters : ∀ parameter ∈ method.parameters, parameter.IsProper
  result : method.result.IsProper ∨ method.result = ⟨.primitive .void, 0⟩

/-!
# Texts that stand for types

A text stands for one type at most, and where it begins a longer text that type
is read and the rest is left.
-/

inductive Element.Spells : List Char → Element → Prop where
  | primitive (base : Primitive) : Spells [base.code] (.primitive base)
  | object (name : List Char) (hne : name ≠ []) (hname : ';' ∉ name) :
      Spells ('L' :: name ++ [';']) (.object (ClassName.ofInternal (String.ofList name)))

structure JavaType.Spells (asResult : Bool) (text : List Char) (type : JavaType) : Prop where
  element : ∃ element, Element.Spells element type.element ∧
    text = List.replicate type.dimensions.toNat '[' ++ element
  void : type.element = .primitive .void → asResult = true ∧ type.dimensions = 0

def MethodType.Spells (text : List Char) (method : MethodType) : Prop :=
  ∃ parameters result, List.Forall₂ (JavaType.Spells false) parameters method.parameters ∧
    JavaType.Spells true result method.result ∧
      text = '(' :: parameters.flatten ++ ')' :: result

section Reading

variable {text rest : List Char} {element : Element} {type : JavaType} {asResult : Bool}

theorem Primitive.ofCode?_eq_some_iff {c : Char} {base : Primitive} :
    Primitive.ofCode? c = some base ↔ c = base.code := by
  constructor
  · intro h
    unfold Primitive.ofCode? at h
    split at h <;> cases h <;> rfl
  · rintro rfl
    cases base <;> rfl

theorem Primitive.code_ne (base : Primitive) :
    base.code ≠ 'L' ∧ base.code ≠ '[' ∧ base.code ≠ ')' := by
  cases base <;> decide

theorem Element.Spells.exists_cons {form : List Char} (h : Element.Spells form element) :
    ∃ c tail, form = c :: tail ∧ c ≠ '[' ∧ c ≠ ')' := by
  cases h with
  | primitive base => exact ⟨base.code, [], rfl, base.code_ne.2⟩
  | object name => exact ⟨'L', name ++ [';'], rfl, by decide, by decide⟩

theorem JavaType.readElement_eq_some_iff :
    JavaType.readElement text = some (element, rest) ↔
      ∃ form, Element.Spells form element ∧ text = form ++ rest := by
  constructor
  · intro h
    unfold JavaType.readElement at h
    split at h
    · cases h
    · split at h
      · cases h
      · cases h
      · next name after hne hsplit =>
          cases h
          rcases Text.splitFirst?_eq_some_iff.mp hsplit with ⟨htext, hname⟩
          exact ⟨_, .object name hne hname, by rw [htext]; simp⟩
    · rcases Option.map_eq_some_iff.mp h with ⟨base, hcode, hpair⟩
      cases hpair
      rw [Primitive.ofCode?_eq_some_iff.mp hcode]
      exact ⟨_, .primitive base, rfl⟩
  · rintro ⟨form, hform, rfl⟩
    cases hform with
    | primitive base => cases base <;> rfl
    | object name hne hname =>
        have hsplit : Text.splitFirst? ';' (name ++ ';' :: rest) = some (name, rest) :=
          Text.splitFirst?_eq_some_iff.mpr ⟨rfl, hname⟩
        cases name with
        | nil => exact absurd rfl hne
        | cons c name =>
            unfold JavaType.readElement
            simp only [List.cons_append, List.append_assoc, List.nil_append] at hsplit ⊢
            rw [hsplit]

theorem replicate_length_takeWhile (text : List Char) :
    List.replicate (text.takeWhile (· = '[')).length '[' ++
      text.drop (text.takeWhile (· = '[')).length = text := by
  have hall : text.takeWhile (· = '[') =
      List.replicate (text.takeWhile (· = '[')).length '[' := by
    rw [List.eq_replicate_iff]
    refine ⟨rfl, ?_⟩
    intro c hc
    simpa using List.mem_takeWhile_imp hc
  rw [← hall]
  exact List.prefix_iff_eq_append.mp (List.takeWhile_prefix _)

theorem takeWhile_replicate_append {brackets : Nat} {c : Char} {tail : List Char} (hc : c ≠ '[') :
    (List.replicate brackets '[' ++ c :: tail).takeWhile (· = '[') =
      List.replicate brackets '[' := by
  rw [List.takeWhile_append_of_pos]
  · simp [hc]
  · intro b hb
    simpa using (List.mem_replicate.mp hb).2

theorem JavaType.read_eq_some_iff :
    JavaType.read asResult text = some (type, rest) ↔
      ∃ form, JavaType.Spells asResult form type ∧ text = form ++ rest := by
  constructor
  · intro h
    unfold JavaType.read at h
    simp only at h
    split at h
    · cases h
    · next hbrackets =>
        split at h
        · cases h
        · next element after helement =>
            split at h
            · cases h
            · next hvoid =>
                cases h
                rcases JavaType.readElement_eq_some_iff.mp helement with ⟨form, hform, hdrop⟩
                have hcount : (UInt8.ofNat (text.takeWhile (· = '[')).length).toNat =
                    (text.takeWhile (· = '[')).length :=
                  UInt8.toNat_ofNat_of_lt (by unfold UInt8.size; omega)
                refine ⟨_, ⟨⟨form, hform, rfl⟩, ?_⟩, ?_⟩
                · intro hsame
                  simp only at hsame
                  rw [not_and, not_or, Bool.not_eq_false] at hvoid
                  refine ⟨(hvoid hsame).1, ?_⟩
                  rw [← UInt8.toNat_inj, hcount]
                  have hnone := (hvoid hsame).2
                  simp only [UInt8.toNat_zero]
                  omega
                · simp only
                  rw [hcount, List.append_assoc, ← hdrop, replicate_length_takeWhile]
  · rintro ⟨_, ⟨⟨form, hform, rfl⟩, hvoid⟩, rfl⟩
    rcases hform.exists_cons with ⟨c, tail, rfl, hc, _⟩
    have hbrackets : ((List.replicate type.dimensions.toNat '[' ++ c :: tail ++ rest).takeWhile
        (· = '[')).length = type.dimensions.toNat := by
      rw [List.append_assoc, List.cons_append, takeWhile_replicate_append hc,
        List.length_replicate]
    have helement : JavaType.readElement (c :: tail ++ rest) = some (type.element, rest) :=
      JavaType.readElement_eq_some_iff.mpr ⟨_, hform, rfl⟩
    have hlimit : ¬255 < type.dimensions.toNat := by
      have := type.dimensions.toNat_lt
      omega
    unfold JavaType.read
    simp only
    rw [hbrackets, if_neg hlimit, List.append_assoc, List.drop_left' List.length_replicate,
      helement]
    simp only
    rw [if_neg, UInt8.ofNat_toNat]
    rintro ⟨hsame, hrefused⟩
    rcases hvoid hsame with ⟨hresult, hnone⟩
    rw [hresult, hnone] at hrefused
    simp at hrefused

theorem JavaType.Spells.exists_cons {form : List Char} (h : JavaType.Spells asResult form type) :
    ∃ c tail, form = c :: tail ∧ c ≠ ')' := by
  rcases h.element with ⟨element, helement, rfl⟩
  rcases helement.exists_cons with ⟨c, tail, rfl, _, hc⟩
  cases type.dimensions.toNat with
  | zero => exact ⟨c, tail, rfl, hc⟩
  | succ n => exact ⟨'[', _, rfl, by decide⟩

theorem JavaType.ofField_eq_ok_iff {text : String} {type : JavaType} :
    JavaType.ofField text = .ok type ↔ JavaType.Spells false text.toList type := by
  have hread : JavaType.ofField text = .ok type ↔
      JavaType.read false text.toList = some (type, []) := by
    unfold JavaType.ofField
    split
    · next same heq => rw [heq]; simp
    · next hnone =>
        constructor
        · intro h
          cases h
        · intro h
          exact absurd h (hnone type)
  rw [hread, JavaType.read_eq_some_iff]
  simp

theorem MethodType.readParametersOnto_of_ne {before : List JavaType} {c : Char} {cs : List Char}
    (hc : c ≠ ')') :
    MethodType.readParametersOnto before (c :: cs) =
      (JavaType.read false (c :: cs)).bind fun found =>
        MethodType.readParametersOnto (found.1 :: before) found.2 := by
  rw [MethodType.readParametersOnto]
  · split
    · next hnone => rw [hnone]; rfl
    · next hsome => simp only [hsome, Option.bind_some]
  · exact hc

theorem MethodType.readParametersOnto_eq_some_iff {before types : List JavaType} :
    MethodType.readParametersOnto before text = some (types, rest) ↔
      ∃ forms new, List.Forall₂ (JavaType.Spells false) forms new ∧
        types = before.reverse ++ new ∧ text = forms.flatten ++ ')' :: rest := by
  constructor
  · intro h
    induction before, text using MethodType.readParametersOnto.induct with
    | case1 before => simp [MethodType.readParametersOnto] at h
    | case2 before tail =>
        simp only [MethodType.readParametersOnto, Option.some.injEq, Prod.mk.injEq] at h
        rcases h with ⟨rfl, rfl⟩
        exact ⟨[], [], .nil, by simp, rfl⟩
    | case3 before c cs hc hnone =>
        rw [MethodType.readParametersOnto_of_ne hc, hnone] at h
        cases h
    | case4 before c cs hc type tail hread hlt ih =>
        rw [MethodType.readParametersOnto_of_ne hc, hread] at h
        rcases ih h with ⟨forms, new, hforms, htypes, htail⟩
        rcases JavaType.read_eq_some_iff.mp hread with ⟨form, hform, htext⟩
        refine ⟨form :: forms, type :: new, .cons hform hforms, ?_, ?_⟩
        · rw [htypes]
          simp
        · rw [htext, htail]
          simp
  · rintro ⟨forms, new, hforms, rfl, rfl⟩
    induction hforms generalizing before with
    | nil => simp [MethodType.readParametersOnto]
    | @cons form type forms new hform hforms ih =>
        rcases hform.exists_cons with ⟨c, tail, rfl, hc⟩
        have hread : JavaType.read false (c :: tail ++ (forms.flatten ++ ')' :: rest)) =
            some (type, forms.flatten ++ ')' :: rest) :=
          JavaType.read_eq_some_iff.mpr ⟨_, hform, rfl⟩
        have hnew : before.reverse ++ type :: new = (type :: before).reverse ++ new := by
          simp
        rw [List.flatten_cons, List.append_assoc, List.cons_append,
          MethodType.readParametersOnto_of_ne hc, ← List.cons_append, hread, hnew]
        exact ih

theorem MethodType.ofText_eq_ok_iff {text : String} {method : MethodType} :
    MethodType.ofText text = .ok method ↔ MethodType.Spells text.toList method := by
  constructor
  · intro h
    unfold MethodType.ofText at h
    split at h
    · next tail htext =>
        split at h
        · cases h
        · next parameters last hparameters =>
            split at h
            · next result hresult =>
                cases h
                rcases MethodType.readParametersOnto_eq_some_iff.mp hparameters with
                  ⟨forms, new, hforms, rfl, htail⟩
                rcases JavaType.read_eq_some_iff.mp hresult with ⟨form, hform, hlast⟩
                rw [List.append_nil] at hlast
                refine ⟨forms, form, hforms, hform, ?_⟩
                rw [htext, htail, hlast]
                rfl
            · cases h
    · cases h
  · rintro ⟨forms, form, hforms, hform, htext⟩
    have hparameters : MethodType.readParametersOnto [] (forms.flatten ++ ')' :: form) =
        some (method.parameters, form) :=
      MethodType.readParametersOnto_eq_some_iff.mpr ⟨forms, _, hforms, rfl, rfl⟩
    have hresult : JavaType.read true form = some (method.result, []) :=
      JavaType.read_eq_some_iff.mpr ⟨form, hform, (List.append_nil form).symm⟩
    unfold MethodType.ofText
    rw [htext]
    simp only [List.cons_append]
    rw [hparameters]
    simp only
    rw [hresult]

end Reading

/-!
# Slashes and dots
-/

theorem slashed_append (a b : List Char) : slashed (a ++ b) = slashed a ++ slashed b :=
  List.map_append

theorem slashed_replicate (brackets : Nat) :
    slashed (List.replicate brackets '[') = List.replicate brackets '[' :=
  List.map_replicate

theorem slashed_eq_self {text : List Char} (h : '.' ∉ text) : slashed text = text := by
  unfold slashed
  rw [List.map_congr_left (g := id), List.map_id]
  intro c hc
  simp [ne_of_mem_of_not_mem hc h]

theorem slashed_ofInternal (name : List Char) :
    slashed (ClassName.ofInternal (String.ofList name)).text.toList = slashed name := by
  unfold slashed ClassName.ofInternal
  rw [String.toList_map, String.toList_ofList, List.map_map]
  refine List.map_congr_left ?_
  intro c _
  by_cases hc : c = '/'
  · rw [hc]
    rfl
  · simp [hc]

theorem ofInternal_slashed {name : ClassName} (h : '/' ∉ name.text.toList) :
    ClassName.ofInternal (String.ofList (slashed name.text.toList)) = name := by
  have htext : (name.text.toList.map fun c => if c = '.' then '/' else c).map
      (fun c => if c = '/' then '.' else c) = name.text.toList := by
    rw [List.map_map, List.map_congr_left (g := id), List.map_id]
    intro c hc
    have hne : c ≠ '/' := ne_of_mem_of_not_mem hc h
    by_cases hdot : c = '.'
    · rw [hdot]
      rfl
    · simp [hdot, hne]
  cases name with
  | mk text =>
      unfold ClassName.ofInternal slashed
      rw [ClassName.mk.injEq, ← String.toList_inj, String.toList_map, String.toList_ofList]
      exact htext

theorem Element.Spells.written_eq {form : List Char} {element : Element}
    (h : Element.Spells form element) : element.written = slashed form := by
  cases h with
  | primitive base => cases base <;> rfl
  | object name =>
      rw [Element.written, slashed_ofInternal, slashed_append]
      rfl

theorem JavaType.Spells.written_eq {asResult : Bool} {form : List Char} {type : JavaType}
    (h : JavaType.Spells asResult form type) : type.written = slashed form := by
  rcases h.element with ⟨element, helement, rfl⟩
  rw [JavaType.written, slashed_append, slashed_replicate, helement.written_eq]

theorem written_eq_of_forall₂ {forms : List (List Char)} {types : List JavaType}
    (h : List.Forall₂ (JavaType.Spells false) forms types) :
    types.flatMap JavaType.written = slashed forms.flatten := by
  induction h with
  | nil => rfl
  | cons hform _ ih =>
      rw [List.flatMap_cons, List.flatten_cons, slashed_append, ih, hform.written_eq]

theorem MethodType.Spells.written_eq {form : List Char} {method : MethodType}
    (h : MethodType.Spells form method) : method.written = slashed form := by
  rcases h with ⟨parameters, result, hparameters, hresult, rfl⟩
  rw [MethodType.written, slashed_append, written_eq_of_forall₂ hparameters, hresult.written_eq]
  rfl

/-!
# What is written stands for the value it is written from
-/

theorem Element.IsProper.spells {element : Element} (h : element.IsProper) :
    Element.Spells element.written element := by
  cases element with
  | primitive base => exact .primitive base
  | object name =>
      rcases h with ⟨hne, hsemicolon, hslash⟩
      have hname : Element.Spells ('L' :: slashed name.text.toList ++ [';'])
          (.object (ClassName.ofInternal (String.ofList (slashed name.text.toList)))) := by
        refine .object _ ?_ ?_
        · unfold slashed
          simpa using hne
        · unfold slashed
          rw [List.mem_map, not_exists]
          intro c hc
          have hsame : c = ';' := by
            grind
          exact hsemicolon (hsame ▸ hc.1)
      rwa [ofInternal_slashed hslash] at hname

theorem JavaType.IsProper.spells {asResult : Bool} {type : JavaType} (h : type.IsProper) :
    JavaType.Spells asResult type.written type where
  element := ⟨_, Element.IsProper.spells h, rfl⟩
  void := by
    intro hvoid
    unfold JavaType.IsProper at h
    rw [hvoid] at h
    exact absurd rfl h

theorem spells_void : JavaType.Spells true ['V'] ⟨.primitive .void, 0⟩ where
  element := ⟨['V'], .primitive .void, rfl⟩
  void := fun _ => ⟨rfl, rfl⟩

theorem MethodType.IsProper.spells {method : MethodType} (h : method.IsProper) :
    MethodType.Spells method.written method := by
  refine ⟨method.parameters.map JavaType.written, method.result.written, ?_, ?_, ?_⟩
  · rw [List.forall₂_map_left_iff, List.forall₂_same]
    intro parameter hparameter
    exact (h.parameters parameter hparameter).spells
  · cases h.result with
    | inl hresult => exact hresult.spells
    | inr hresult =>
        rw [hresult]
        exact spells_void
  · rw [MethodType.written, List.flatMap_def]

/-!
# The texts that stand for something are those of the grammar
-/

theorem mem_codes_iff {c : Char} :
    c ∈ ['B', 'C', 'D', 'F', 'I', 'J', 'S', 'Z'] ↔
      ∃ base : Primitive, base ≠ .void ∧ c = base.code := by
  constructor
  · intro h
    simp only [List.mem_cons, List.not_mem_nil, or_false] at h
    rcases h with rfl | rfl | rfl | rfl | rfl | rfl | rfl | rfl
    exacts [⟨.byte, by decide, rfl⟩, ⟨.char, by decide, rfl⟩, ⟨.double, by decide, rfl⟩,
      ⟨.float, by decide, rfl⟩, ⟨.int, by decide, rfl⟩, ⟨.long, by decide, rfl⟩,
      ⟨.short, by decide, rfl⟩, ⟨.boolean, by decide, rfl⟩]
  · rintro ⟨base, hbase, rfl⟩
    cases base with
    | void => exact absurd rfl hbase
    | _ => decide

theorem isElementForm_iff {text : List Char} :
    IsElementForm text ↔ ∃ element, element ≠ .primitive .void ∧ Element.Spells text element := by
  unfold IsElementForm
  constructor
  · rintro (⟨code, hcode, rfl⟩ | ⟨name, hne, hname, rfl⟩)
    · rcases mem_codes_iff.mp hcode with ⟨base, hbase, rfl⟩
      exact ⟨.primitive base, by simpa using hbase, .primitive base⟩
    · exact ⟨_, by simp, .object name hne hname⟩
  · rintro ⟨element, hvoid, hspells⟩
    cases hspells with
    | primitive base =>
        exact .inl ⟨base.code, mem_codes_iff.mpr ⟨base, by simpa using hvoid, rfl⟩, rfl⟩
    | object name hne hname => exact .inr ⟨name, hne, hname, rfl⟩

theorem isTypeForm_iff {text : List Char} :
    IsTypeForm text ↔ ∃ type, JavaType.Spells false text type := by
  constructor
  · rintro ⟨brackets, hbrackets, form, hform, rfl⟩
    rcases isElementForm_iff.mp hform with ⟨element, hvoid, helement⟩
    have hcount : (UInt8.ofNat brackets).toNat = brackets :=
      UInt8.toNat_ofNat_of_lt (by unfold UInt8.size; omega)
    exact ⟨⟨element, UInt8.ofNat brackets⟩, ⟨form, helement, by rw [hcount]⟩,
      fun hsame => absurd hsame hvoid⟩
  · rintro ⟨type, hspells⟩
    rcases hspells.element with ⟨form, helement, rfl⟩
    have hvoid : type.element ≠ .primitive .void := by
      intro hsame
      cases (hspells.void hsame).1
    have hlimit : type.dimensions.toNat ≤ 255 := by
      have := type.dimensions.toNat_lt
      omega
    exact ⟨_, hlimit, form, isElementForm_iff.mpr ⟨_, hvoid, helement⟩, rfl⟩

theorem isResultForm_iff {text : List Char} :
    (IsTypeForm text ∨ text = ['V']) ↔ ∃ type, JavaType.Spells true text type := by
  constructor
  · rintro (hform | rfl)
    · rcases isTypeForm_iff.mp hform with ⟨type, hspells⟩
      refine ⟨type, hspells.element, ?_⟩
      intro hsame
      cases (hspells.void hsame).1
    · exact ⟨_, spells_void⟩
  · rintro ⟨type, hspells⟩
    by_cases hvoid : type.element = .primitive .void
    · right
      rcases hspells.element with ⟨form, helement, rfl⟩
      rw [hvoid] at helement
      rw [(hspells.void hvoid).2]
      cases helement
      rfl
    · exact .inl (isTypeForm_iff.mpr ⟨type, hspells.element, fun hsame => absurd hsame hvoid⟩)

theorem exists_forall₂_iff {forms : List (List Char)} :
    (∃ types, List.Forall₂ (JavaType.Spells false) forms types) ↔
      ∀ form ∈ forms, IsTypeForm form := by
  induction forms with
  | nil => simp
  | cons form forms ih =>
      rw [List.forall_mem_cons, ← ih, isTypeForm_iff]
      constructor
      · rintro ⟨_, _ | ⟨hform, hforms⟩⟩
        exact ⟨⟨_, hform⟩, _, hforms⟩
      · rintro ⟨⟨type, hform⟩, types, hforms⟩
        exact ⟨type :: types, .cons hform hforms⟩

theorem isMethodForm_iff {text : List Char} :
    IsMethodForm text ↔ ∃ method, MethodType.Spells text method := by
  constructor
  · rintro ⟨parameters, result, hparameters, hresult, rfl⟩
    rcases exists_forall₂_iff.mpr hparameters with ⟨types, htypes⟩
    rcases isResultForm_iff.mp hresult with ⟨type, htype⟩
    exact ⟨⟨types, type⟩, parameters, result, htypes, htype, rfl⟩
  · rintro ⟨method, parameters, result, hparameters, hresult, rfl⟩
    exact ⟨parameters, result, exists_forall₂_iff.mp ⟨_, hparameters⟩,
      isResultForm_iff.mpr ⟨_, hresult⟩, rfl⟩

/-!
# Reading and writing
-/

structure Inverts {α : Type} (IsForm : List Char → Prop) (IsValue : α → Prop)
    (read : String → Except BadDescriptor α) (write : α → String) : Prop where
  accepts : ∀ text, (∃ value, read text = .ok value) ↔ IsForm text.toList
  write_read : ∀ text value, read text = .ok value → (write value).toList = slashed text.toList
  read_write : ∀ value, IsValue value → read (write value) = .ok value
  eq_of_read : ∀ a b value, '.' ∉ a.toList → '.' ∉ b.toList →
    read a = .ok value → read b = .ok value → a = b

theorem Inverts.of_spells {α : Type} {IsForm : List Char → Prop} {IsValue : α → Prop}
    {read : String → Except BadDescriptor α} {written : α → List Char}
    {Spells : List Char → α → Prop}
    (hread : ∀ {text value}, read text = .ok value ↔ Spells text.toList value)
    (hform : ∀ {text}, IsForm text ↔ ∃ value, Spells text value)
    (hwritten : ∀ {text value}, Spells text value → written value = slashed text)
    (hvalue : ∀ {value}, IsValue value → Spells (written value) value) :
    Inverts IsForm IsValue read fun value => String.ofList (written value) where
  accepts text := by
    rw [hform]
    exact exists_congr fun value => hread
  write_read text value h := by
    rw [String.toList_ofList]
    exact hwritten (hread.mp h)
  read_write value h := by
    rw [hread, String.toList_ofList]
    exact hvalue h
  eq_of_read a b value ha hb hreada hreadb := by
    have hsame : slashed a.toList = slashed b.toList := by
      rw [← hwritten (hread.mp hreada), hwritten (hread.mp hreadb)]
    rw [slashed_eq_self ha, slashed_eq_self hb] at hsame
    exact String.toList_inj.mp hsame

theorem readers_invert_descriptors :
    Inverts IsTypeForm JavaType.IsProper JavaType.ofField JavaType.descriptor ∧
      Inverts IsMethodForm MethodType.IsProper MethodType.ofText MethodType.descriptor :=
  ⟨.of_spells JavaType.ofField_eq_ok_iff isTypeForm_iff JavaType.Spells.written_eq
      JavaType.IsProper.spells,
    .of_spells MethodType.ofText_eq_ok_iff isMethodForm_iff MethodType.Spells.written_eq
      MethodType.IsProper.spells⟩

-- A dot is read like a slash, so the two are told apart no longer.
example : (JavaType.ofField "[La.b;").map JavaType.descriptor = .ok "[La/b;" := by
  cbv

end Recompile
