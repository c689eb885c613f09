import Recompile.Surface

/-!
# Snapshots

A snapshot holds the surface of every class that was found below one
directory at one time. It answers which classes stand above a given one.
-/

namespace Recompile

structure Snapshot where
  classes : Std.ExtTreeMap ClassName ClassSurface

namespace Snapshot

/-- Of two classes with one name the later one counts. -/
def ofList (classes : List ClassSurface) : Snapshot :=
  ⟨classes.foldl (fun known surface => known.insert surface.name surface) ∅⟩

def get? (snapshot : Snapshot) (name : ClassName) : Option ClassSurface :=
  snapshot.classes[name]?

def contains (snapshot : Snapshot) (name : ClassName) : Bool :=
  snapshot.classes.contains name

def size (snapshot : Snapshot) : Nat :=
  snapshot.classes.size

def isEmpty (snapshot : Snapshot) : Bool :=
  snapshot.classes.isEmpty

def toList (snapshot : Snapshot) : List ClassSurface :=
  snapshot.classes.values

/-!
# Ancestors

The walk goes through a queue, nearest supertypes first. Each class is taken
out of the ones still to be met when the walk comes to it, so a class is met
once and the walk ends. A name without a class ends its branch.
-/

theorem size_erase_lt {unmet : Std.ExtTreeMap ClassName ClassSurface} {name : ClassName}
    {surface : ClassSurface} (h : unmet[name]? = some surface) :
    (unmet.erase name).size < unmet.size := by
  have hmem : name ∈ unmet := by
    rw [Std.ExtTreeMap.mem_iff_isSome_getElem?, h]
    rfl
  have hpos : unmet.size ≠ 0 := by
    intro hzero
    rw [Std.ExtTreeMap.eq_empty_iff_size_eq_zero.mpr hzero] at hmem
    exact Std.ExtTreeMap.not_mem_empty hmem
  rw [Std.ExtTreeMap.size_erase, if_pos (Std.ExtTreeMap.contains_iff_mem.mpr hmem)]
  omega

def ancestorsFrom (queue : List ClassName) (unmet : Std.ExtTreeMap ClassName ClassSurface) :
    List ClassSurface :=
  match queue with
  | [] => []
  | name :: rest =>
    match h : unmet[name]? with
    | none => ancestorsFrom rest unmet
    | some surface =>
      have : (unmet.erase name).size < unmet.size := size_erase_lt h
      surface :: ancestorsFrom (rest ++ surface.supertypes) (unmet.erase name)
termination_by (unmet.size, queue.length)

/-- The supertypes of a class, and theirs in turn, nearest first. -/
def ancestors (snapshot : Snapshot) (name : ClassName) : List ClassSurface :=
  match snapshot.get? name with
  | none => []
  | some surface => ancestorsFrom surface.supertypes (snapshot.classes.erase name)

end Snapshot
end Recompile
