import Recompile.JavaType

/-!
# Descriptors

Class files write the types of fields and methods as descriptors: one letter
for a primitive type, a name between `L` and `;` for a class, and one bracket
for each array dimension. The descriptor of a method has its parameters in
parentheses before its result.
-/

namespace Recompile

structure BadDescriptor where
  text : String
deriving DecidableEq

def BadDescriptor.message (error : BadDescriptor) : String :=
  "invalid descriptor `" ++ error.text ++ "`"

namespace JavaType

/-!
# Reading one type

At most 255 brackets stand before the element. `void` is only read where a
result is expected, and never as an element of an array.
-/

def readElement (text : List Char) : Option (Element × List Char) :=
  match text with
  | [] => none
  | 'L' :: rest =>
    match Text.splitFirst? ';' rest with
    | none => none
    | some ([], _) => none
    | some (name, after) =>
      some (.object (ClassName.ofInternal (String.ofList name)), after)
  | code :: rest => (Primitive.ofCode? code).map fun base => (.primitive base, rest)

def read (asResult : Bool) (text : List Char) : Option (JavaType × List Char) :=
  let brackets := (text.takeWhile (· = '[')).length
  if 255 < brackets then none
  else
    match readElement (text.drop brackets) with
    | none => none
    | some (element, rest) =>
      if element = .primitive .void ∧ (asResult = false ∨ 0 < brackets) then none
      else some (⟨element, UInt8.ofNat brackets⟩, rest)

theorem readElement_length {text rest : List Char} {element : Element}
    (h : readElement text = some (element, rest)) : rest.length < text.length := by
  unfold readElement at h
  split at h
  · simp at h
  · split at h
    · simp at h
    · simp at h
    · next hsplit =>
        simp only [Option.some.injEq, Prod.mk.injEq] at h
        have hlt := Text.splitFirst?_length hsplit
        simp only [List.length_cons]
        rw [← h.2]
        omega
  · obtain ⟨base, _, heq⟩ := Option.map_eq_some_iff.1 h
    simp only [Prod.mk.injEq] at heq
    simp [← heq.2]

theorem read_length {asResult : Bool} {text rest : List Char} {type : JavaType}
    (h : read asResult text = some (type, rest)) : rest.length < text.length := by
  simp only [read] at h
  split at h
  · simp at h
  · split at h
    · simp at h
    · next helement =>
        split at h
        · simp at h
        · simp only [Option.some.injEq, Prod.mk.injEq] at h
          have hlt := readElement_length helement
          rw [List.length_drop] at hlt
          rw [← h.2]
          omega

def ofField (text : String) : Except BadDescriptor JavaType :=
  match read false text.toList with
  | some (type, []) => .ok type
  | _ => .error ⟨text⟩

/--
The type that a class entry of a constant pool names: an array is written as
a descriptor, any other class by its internal name.
-/
def ofPoolName (name : String) : Except BadDescriptor JavaType :=
  if name.toList.head? = some '[' then ofField name
  else if name = "" then .error ⟨name⟩
  else .ok (object (ClassName.ofInternal name))

end JavaType

namespace MethodType

def readParametersOnto (types : List JavaType) (text : List Char) :
    Option (List JavaType × List Char) :=
  match text with
  | [] => none
  | ')' :: rest => some (types.reverse, rest)
  | c :: cs =>
    match h : JavaType.read false (c :: cs) with
    | none => none
    | some (type, rest) =>
      have : rest.length < (c :: cs).length := JavaType.read_length h
      readParametersOnto (type :: types) rest
termination_by text.length
decreasing_by
  simp only [List.length_cons] at this ⊢
  omega

def ofText (text : String) : Except BadDescriptor MethodType :=
  match text.toList with
  | '(' :: rest =>
    match readParametersOnto [] rest with
    | none => .error ⟨text⟩
    | some (parameters, rest) =>
      match JavaType.read true rest with
      | some (result, []) => .ok ⟨parameters, result⟩
      | _ => .error ⟨text⟩
  | _ => .error ⟨text⟩

end MethodType
end Recompile
