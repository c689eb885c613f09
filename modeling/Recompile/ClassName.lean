import Recompile.Path

/-!
# Class names

The name of a compiled class is its binary name with dots between the
packages, such as `org.example.Outer$Inner`. Nested classes have names and
class files of their own.
-/

namespace Recompile

structure ClassName where
  text : String
deriving DecidableEq, Inhabited

namespace ClassName

instance : Ord ClassName where
  compare a b := compare a.text b.text

theorem compare_eq (a b : ClassName) : compare a b = compare a.text b.text :=
  rfl

instance : Std.OrientedOrd ClassName where
  eq_swap := by
    intro a b
    rw [compare_eq, compare_eq]
    exact Std.OrientedCmp.eq_swap

instance : Std.TransOrd ClassName where
  isLE_trans := by
    intro a b c hab hbc
    rw [compare_eq] at hab hbc ⊢
    exact Std.TransCmp.isLE_trans hab hbc

instance : Std.LawfulEqOrd ClassName where
  eq_of_compare := by
    intro a b h
    rw [compare_eq] at h
    cases a
    cases b
    exact congrArg ClassName.mk (Std.LawfulEqCmp.eq_of_compare h)

def ofInternal (name : String) : ClassName :=
  ⟨name.map fun c => if c = '/' then '.' else c⟩

/-- How the names in the runtime library begin; no dependency on these is followed. -/
def runtimeLead : String := "java."

def isRuntime (name : ClassName) : Bool :=
  (Text.after? runtimeLead.toList name.text.toList).isSome

def package (name : ClassName) : String :=
  match Text.splitLast? '.' name.text.toList with
  | some (package, _) => String.ofList package
  | none => ""

def simpleName (name : ClassName) : String :=
  match Text.splitLast? '.' name.text.toList with
  | some (_, simple) => String.ofList simple
  | none => name.text

def classFile (name : ClassName) : Path :=
  let parts := (Text.pieces '.' name.text.toList).map fun part => Path.mk (String.ofList part)
  (parts.foldl Path.join ⟨""⟩).withExtension "class"

end ClassName
end Recompile
