import Std.Data.ExtTreeMap
import Std.Data.ExtTreeSet
import Recompile.Modifiers
import Recompile.JavaType

/-!
# The surface of a compiled class

The surface holds what other classes can observe without looking at method
bodies: modifiers, supertypes, fields, method signatures and constants that
a compiler may copy to their uses. With it go the references of the class to
other classes.
-/

namespace Recompile

abbrev ClassSet := Std.ExtTreeSet ClassName

structure FormatVersion where
  major : UInt16
  minor : UInt16
deriving DecidableEq

structure FieldDecl where
  flags : Modifiers
  name : String
  type : JavaType
deriving DecidableEq

structure Signature where
  name : String
  parameters : List JavaType
  result : JavaType
deriving DecidableEq

def Signature.display (signature : Signature) : String :=
  signature.result.display ++ " " ++ signature.name ++ "("
    ++ String.intercalate ", " (signature.parameters.map JavaType.display) ++ ")"

structure MethodDecl where
  flags : Modifiers
  signature : Signature
  exceptions : ClassSet
deriving DecidableEq

/-- A constant that other classes may have copied; of its value only a fingerprint is kept. -/
structure SharedConstant where
  name : String
  fingerprint : UInt64
deriving DecidableEq

/--
The classes that a class refers to: exposed ones, in declarations that are
not private, and internal ones everywhere else.
-/
structure References where
  exposed : ClassSet
  internal : ClassSet
deriving DecidableEq

namespace References

def empty : References :=
  ⟨∅, ∅⟩

def all (references : References) : List ClassName :=
  references.exposed.toList ++ references.internal.toList

def isEmpty (references : References) : Bool :=
  references.exposed.isEmpty && references.internal.isEmpty

def contains (references : References) (name : ClassName) : Bool :=
  references.exposed.contains name || references.internal.contains name

/-!
# Collecting references

References are noted while a class is read. A declaration decides by its flags
on which side its types go; what is met outside declarations is internal.
-/

def declare (references : References) (owner : Modifiers) (type : JavaType) :
    References :=
  match type.trackedClass? with
  | none => references
  | some name =>
    if owner.isPrivate then
      { references with internal := references.internal.insert name }
    else { references with exposed := references.exposed.insert name }

def mention (references : References) (type : JavaType) : References :=
  match type.trackedClass? with
  | none => references
  | some name => { references with internal := references.internal.insert name }

/-- Leaves the class itself out of both sides, and what is exposed out of the internal side. -/
def without (references : References) (own : ClassName) : References :=
  let exposed := references.exposed.erase own
  ⟨exposed, (references.internal.erase own).filter fun name => !exposed.contains name⟩

end References

structure ClassSurface where
  version : FormatVersion
  flags : Modifiers
  name : ClassName
  superClass : Option ClassName
  interfaces : List ClassName
  fields : List FieldDecl
  methods : List MethodDecl
  constants : List SharedConstant
  references : References
deriving DecidableEq

namespace ClassSurface

def staticInitializer : String := "<clinit>"

def constructor : String := "<init>"

def field? (surface : ClassSurface) (name : String) : Option FieldDecl :=
  surface.fields.reverse.find? fun field => field.name = name

def method? (surface : ClassSurface) (signature : Signature) : Option MethodDecl :=
  surface.methods.reverse.find? fun method => method.signature = signature

def constant? (surface : ClassSurface) (name : String) : Option UInt64 :=
  (surface.constants.reverse.find? fun constant => constant.name = name).map
    SharedConstant.fingerprint

def hasField (surface : ClassSurface) (name : String) : Bool :=
  surface.fields.any fun field => field.name = name

def hasMethod (surface : ClassSurface) (signature : Signature) : Bool :=
  surface.methods.any fun method => method.signature = signature

/-- The direct supertypes: the superclass, then the interfaces. -/
def supertypes (surface : ClassSurface) : List ClassName :=
  surface.superClass.toList ++ surface.interfaces

end ClassSurface
end Recompile
