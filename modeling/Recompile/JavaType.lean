import Recompile.ClassName

/-!
# Types

A type is a primitive type or a class, with a number of array dimensions. It
is displayed as a programmer writes it. A method has the types of its
parameters and of its result.
-/

namespace Recompile

inductive Primitive where
  | byte
  | char
  | double
  | float
  | int
  | long
  | short
  | boolean
  | void
deriving DecidableEq

namespace Primitive

def ofCode? : Char → Option Primitive
  | 'B' => some byte
  | 'C' => some char
  | 'D' => some double
  | 'F' => some float
  | 'I' => some int
  | 'J' => some long
  | 'S' => some short
  | 'Z' => some boolean
  | 'V' => some void
  | _ => none

def keyword : Primitive → String
  | byte => "byte"
  | char => "char"
  | double => "double"
  | float => "float"
  | int => "int"
  | long => "long"
  | short => "short"
  | boolean => "boolean"
  | void => "void"

end Primitive

/-- What a type is made of once the array dimensions are taken off. -/
inductive Element where
  | primitive (base : Primitive)
  | object (name : ClassName)
deriving DecidableEq

structure JavaType where
  element : Element
  dimensions : UInt8
deriving DecidableEq

namespace JavaType

def object (name : ClassName) : JavaType :=
  ⟨.object name, 0⟩

def isArray (type : JavaType) : Bool :=
  type.dimensions ≠ 0

def isPrimitive (type : JavaType) : Bool :=
  match type.element with
  | .primitive _ => true
  | .object _ => false

def className? (type : JavaType) : Option ClassName :=
  match type.element with
  | .primitive _ => none
  | .object name => some name

/-- The class on which a use of the type depends; runtime classes do not count. -/
def trackedClass? (type : JavaType) : Option ClassName :=
  type.className?.filter fun name => !name.isRuntime

def display (type : JavaType) : String :=
  let element :=
    match type.element with
    | .primitive base => base.keyword
    | .object name => name.text
  element ++ String.join (List.replicate type.dimensions.toNat "[]")

end JavaType

structure MethodType where
  parameters : List JavaType
  result : JavaType
deriving DecidableEq

namespace MethodType

def types (descriptor : MethodType) : List JavaType :=
  descriptor.parameters ++ [descriptor.result]

end MethodType
end Recompile
