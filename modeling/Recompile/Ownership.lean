import Recompile.Surface
import Recompile.Failure

/-!
# Ownership of classes

The register says which source file each class was compiled from. It is kept
in both directions, by source and by class, and each change keeps the two in
step for the classes that it touches.
-/

namespace Recompile

structure Ownership where
  bySource : Std.ExtTreeMap String ClassSet
  byClass : Std.ExtTreeMap ClassName String
deriving DecidableEq

namespace Ownership

def empty : Ownership :=
  ⟨∅, ∅⟩

def addClass (bySource : Std.ExtTreeMap String ClassSet) (name : ClassName) (source : String) :
    Std.ExtTreeMap String ClassSet :=
  bySource.insert source ((bySource[source]?.getD ∅).insert name)

def ofClasses (byClass : Std.ExtTreeMap ClassName String) : Ownership :=
  { bySource :=
      byClass.toList.foldl (fun bySource (name, source) => addClass bySource name source) ∅
    byClass := byClass }

def classesOf? (ownership : Ownership) (source : String) : Option ClassSet :=
  ownership.bySource[source]?

def sourceOf? (ownership : Ownership) (name : ClassName) : Option String :=
  ownership.byClass[name]?

def classesOf (ownership : Ownership) (source : String) : Except Failure ClassSet :=
  match ownership.classesOf? source with
  | some classes => .ok classes
  | none => .error (.unknownSource source)

def sourceOf (ownership : Ownership) (name : ClassName) : Except Failure String :=
  match ownership.sourceOf? name with
  | some source => .ok source
  | none => .error (.unownedClass name)

def size (ownership : Ownership) : Nat :=
  ownership.byClass.size

def isEmpty (ownership : Ownership) : Bool :=
  ownership.byClass.isEmpty

/-!
# Changes

A source that is registered anew takes its classes from whoever had them, and
what it had before and has no longer is an orphan.
-/

/-- Takes a class away from an owner, who is dropped when nothing is left. -/
def release (ownership : Ownership) (owner : String) (name : ClassName) : Ownership :=
  match ownership.bySource[owner]? with
  | none => ownership
  | some classes =>
    let left := classes.erase name
    { ownership with
      bySource :=
        if left.isEmpty then ownership.bySource.erase owner
        else ownership.bySource.insert owner left }

def claim (source : String) (ownership : Ownership) (name : ClassName) : Ownership :=
  let claimed := { ownership with byClass := ownership.byClass.insert name source }
  match ownership.byClass[name]? with
  | none => claimed
  | some owner => if owner = source then claimed else claimed.release owner name

/-- Leaves classes without a source in the index by class. -/
def forget (ownership : Ownership) (classes : ClassSet) : Ownership :=
  { ownership with
    byClass := classes.toList.foldl (fun known name => known.erase name) ownership.byClass }

/-- Makes `classes` all that `source` owns; the answer is what it owned besides. -/
def register (ownership : Ownership) (source : String) (classes : ClassSet) :
    ClassSet × Ownership :=
  let claimed := classes.toList.foldl (claim source) ownership
  let previous := claimed.bySource[source]?.getD ∅
  let orphaned := previous \ classes
  (orphaned, { claimed with bySource := claimed.bySource.insert source classes }.forget orphaned)

def remove (ownership : Ownership) (source : String) : ClassSet × Ownership :=
  let owned := ownership.bySource[source]?.getD ∅
  (owned, { ownership with bySource := ownership.bySource.erase source }.forget owned)

end Ownership
end Recompile
