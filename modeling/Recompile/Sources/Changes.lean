import Std.Data.ExtTreeMap
import Std.Data.ExtTreeSet

/-!
# Changed sources

Two sets of fingerprints, taken at different times, tell which sources came,
which went and which are different.
-/

namespace Recompile

abbrev Fingerprints := Std.ExtTreeMap String String

abbrev SourceSet := Std.ExtTreeSet String

structure SourceChanges where
  added : SourceSet
  changed : SourceSet
  removed : SourceSet
deriving DecidableEq

namespace SourceChanges

def none : SourceChanges :=
  ⟨∅, ∅, ∅⟩

def isEmpty (changes : SourceChanges) : Bool :=
  changes.added.isEmpty && changes.changed.isEmpty && changes.removed.isEmpty

def stale (changes : SourceChanges) : List String :=
  (changes.added ∪ changes.changed).toList

def between (committed current : Fingerprints) : SourceChanges where
  added := Std.ExtTreeSet.ofList (current.keys.filter fun source => !committed.contains source)
  changed :=
    Std.ExtTreeSet.ofList
      (current.keys.filter fun source =>
        committed.contains source && committed[source]? ≠ current[source]?)
  removed := Std.ExtTreeSet.ofList (committed.keys.filter fun source => !current.contains source)

end SourceChanges
end Recompile
