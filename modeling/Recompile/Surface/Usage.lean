import Recompile.Surface.Snapshot

/-!
# Uses and users

What each class of a snapshot refers to gives, read backwards, the users of
each class. Both directions are built together, so a question about either is
one lookup.
-/

namespace Recompile

structure Usage where
  uses : Std.ExtTreeMap ClassName References
  users : Std.ExtTreeMap ClassName References

namespace Usage

def empty : Usage :=
  ⟨∅, ∅⟩

def addExposed (source : ClassName) (users : Std.ExtTreeMap ClassName References)
    (target : ClassName) : Std.ExtTreeMap ClassName References :=
  let known := users[target]?.getD .empty
  users.insert target { known with exposed := known.exposed.insert source }

def addInternal (source : ClassName) (users : Std.ExtTreeMap ClassName References)
    (target : ClassName) : Std.ExtTreeMap ClassName References :=
  let known := users[target]?.getD .empty
  users.insert target { known with internal := known.internal.insert source }

def addClass (usage : Usage) (name : ClassName) (surface : ClassSurface) : Usage :=
  let users := surface.references.exposed.toList.foldl (addExposed name) usage.users
  { uses := usage.uses.insert name surface.references
    users := surface.references.internal.toList.foldl (addInternal name) users }

def ofSnapshot (snapshot : Snapshot) : Usage :=
  snapshot.classes.toList.foldl (fun usage (name, surface) => usage.addClass name surface) empty

/-- What a class refers to; a class outside the snapshot refers to nothing. -/
def usesOf (usage : Usage) (name : ClassName) : References :=
  usage.uses[name]?.getD .empty

def usersOf (usage : Usage) (name : ClassName) : References :=
  usage.users[name]?.getD .empty

def size (usage : Usage) : Nat :=
  usage.uses.size

def isEmpty (usage : Usage) : Bool :=
  usage.uses.isEmpty

end Usage
end Recompile
