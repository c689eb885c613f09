import Mathlib.Data.List.Sort
import Recompile.Sources.Find

/-!
# What was found, in order

Sorting leaves the members as they are. Sorting by insertion comes to the same
as sorting by merging, and can be evaluated.
-/

namespace Recompile

theorem mergeSort_eq_insertionSort {α β : Type} [Ord β] [Std.TransOrd β] (key : α → β)
    (items : List α) :
    (items.mergeSort fun a b => (compare (key a) (key b)).isLE) =
      items.insertionSort fun a b => (compare (key a) (key b)).isLE = true := by
  have htrans : ∀ a b c, (compare (key a) (key b)).isLE = true →
      (compare (key b) (key c)).isLE = true → (compare (key a) (key c)).isLE = true :=
    fun _ _ _ => Std.TransCmp.isLE_trans
  have htotal : ∀ a b, ((compare (key a) (key b)).isLE || (compare (key b) (key a)).isLE) =
      true := by
    intro a b
    have hswap : compare (key b) (key a) = (compare (key a) (key b)).swap :=
      Std.OrientedCmp.eq_swap
    rw [hswap]
    cases compare (key a) (key b) <;> rfl
  induction items with
  | nil => simp
  | cons first rest ih =>
      rcases List.mergeSort_cons htrans htotal first rest with ⟨ahead, after, hall, hrest, hahead⟩
      have hsorted := List.pairwise_mergeSort htrans htotal (first :: rest)
      rw [hall] at hsorted
      have hafter := (List.pairwise_cons.mp (List.pairwise_append.mp hsorted).2.1).1
      rw [List.insertionSort_cons, ← ih, hrest, hall]
      clear hall hrest hsorted ih
      -- the first item stops behind those that it is not to come before
      induction ahead with
      | nil =>
          cases after with
          | nil => rfl
          | cons next later => simp [hafter next List.mem_cons_self]
      | cons next later ih =>
          have hnext : (compare (key first) (key next)).isLE = false := by
            simpa using hahead next List.mem_cons_self
          have hlater := ih fun other hother => hahead other (List.mem_cons_of_mem _ hother)
          simp [hnext, hlater]

namespace Find

theorem mem_sortKeys {key : String} {keys : List String} : key ∈ sortKeys keys ↔ key ∈ keys :=
  List.mem_mergeSort

theorem mem_sortPaths {path : Path} {paths : List Path} :
    path ∈ sortPaths paths ↔ path ∈ paths := by
  simp [sortPaths]

theorem sortKeys_eq_insertionSort (keys : List String) :
    sortKeys keys = keys.insertionSort fun a b => (compare a b).isLE = true :=
  mergeSort_eq_insertionSort id keys

theorem sortPaths_eq_insertionSort (paths : List Path) :
    sortPaths paths = ((paths.map fun path => (path.components, path)).insertionSort
      fun a b => (compare a.1 b.1).isLE = true).map Prod.snd :=
  congrArg (List.map Prod.snd) (mergeSort_eq_insertionSort Prod.fst _)

end Find
end Recompile
