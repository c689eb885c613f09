import Recompile.Sources.Changes

/-!
# The exact difference of two sets of fingerprints

Each source of either set has come, has gone, is different or is as it was, and
only one of these. Nothing is different if and only if the sets are the same.
-/

namespace Recompile
namespace SourceChanges

variable {committed current : Fingerprints} {source : String}

theorem mem_added_between :
    source ∈ (between committed current).added ↔ source ∉ committed ∧ source ∈ current := by
  unfold between
  rw [Std.ExtTreeSet.mem_ofList, List.contains_iff_mem, List.mem_filter, Std.ExtTreeMap.mem_keys,
    Bool.not_eq_true', ← Bool.not_eq_true, Std.ExtTreeMap.contains_iff_mem, and_comm]

theorem mem_changed_between :
    source ∈ (between committed current).changed ↔
      source ∈ committed ∧ source ∈ current ∧ committed[source]? ≠ current[source]? := by
  unfold between
  rw [Std.ExtTreeSet.mem_ofList, List.contains_iff_mem, List.mem_filter, Std.ExtTreeMap.mem_keys,
    Bool.and_eq_true, Std.ExtTreeMap.contains_iff_mem, decide_eq_true_eq, and_left_comm]

theorem mem_removed_between :
    source ∈ (between committed current).removed ↔ source ∈ committed ∧ source ∉ current := by
  unfold between
  rw [Std.ExtTreeSet.mem_ofList, List.contains_iff_mem, List.mem_filter, Std.ExtTreeMap.mem_keys,
    Bool.not_eq_true', ← Bool.not_eq_true, Std.ExtTreeMap.contains_iff_mem]

theorem mem_stale_between :
    source ∈ (between committed current).stale ↔
      source ∈ current ∧ committed[source]? ≠ current[source]? := by
  unfold stale between
  rw [Std.ExtTreeSet.mem_toList, Std.ExtTreeSet.mem_union_iff, Std.ExtTreeSet.mem_ofList,
    Std.ExtTreeSet.mem_ofList, List.contains_iff_mem, List.contains_iff_mem, List.mem_filter,
    List.mem_filter, Std.ExtTreeMap.mem_keys, ← and_or_left]
  refine and_congr_right fun hcurrent => ?_
  rw [Std.ExtTreeMap.mem_iff_isSome_getElem?, Option.isSome_iff_exists] at hcurrent
  rcases hcurrent with ⟨fingerprint, hfingerprint⟩
  rw [Std.ExtTreeMap.contains_eq_isSome_getElem?, hfingerprint]
  cases committed[source]? <;> simp

inductive Fate where
  | added
  | changed
  | removed
  | unchanged
deriving DecidableEq

def Tells (changes : SourceChanges) (committed current : Fingerprints) (source : String) :
    Fate → Prop
  | .added => source ∈ changes.added
  | .changed => source ∈ changes.changed
  | .removed => source ∈ changes.removed
  | .unchanged => source ∈ committed ∧ current[source]? = committed[source]?

def fate? : Option String → Option String → Option Fate
  | .none, .none => .none
  | .none, some _ => some .added
  | some _, .none => some .removed
  | some old, some new => if new = old then some .unchanged else some .changed

theorem tells_between_iff {fate : Fate} :
    (between committed current).Tells committed current source fate ↔
      fate? committed[source]? current[source]? = some fate := by
  have htells : (between committed current).Tells committed current source fate ↔
      match fate with
      | .added => source ∉ committed ∧ source ∈ current
      | .changed => source ∈ committed ∧ source ∈ current ∧ committed[source]? ≠ current[source]?
      | .removed => source ∈ committed ∧ source ∉ current
      | .unchanged => source ∈ committed ∧ current[source]? = committed[source]? := by
    cases fate with
    | added => exact mem_added_between
    | changed => exact mem_changed_between
    | removed => exact mem_removed_between
    | unchanged => exact Iff.rfl
  rw [htells]
  simp only [Std.ExtTreeMap.mem_iff_isSome_getElem?]
  cases committed[source]? with
  | none => cases current[source]? <;> cases fate <;> simp [fate?]
  | some old =>
      cases current[source]? with
      | none => cases fate <;> simp [fate?]
      | some new =>
          by_cases hsame : new = old
          · cases fate <;> simp [fate?, hsame]
          · cases fate <;> simp [fate?, hsame, Ne.symm hsame]

theorem exists_tells_iff :
    (∃ fate, (between committed current).Tells committed current source fate) ↔
      source ∈ committed ∨ source ∈ current := by
  simp only [tells_between_iff, Std.ExtTreeMap.mem_iff_isSome_getElem?]
  cases committed[source]? with
  | none => cases current[source]? <;> simp [fate?]
  | some old =>
      cases current[source]? with
      | none => simp [fate?]
      | some new => by_cases hsame : new = old <;> simp [fate?, hsame]

theorem Tells.unique {fate other : Fate}
    (h : (between committed current).Tells committed current source fate)
    (hother : (between committed current).Tells committed current source other) :
    fate = other :=
  Option.some.inj ((tells_between_iff.mp h).symm.trans (tells_between_iff.mp hother))

theorem not_tells_unchanged_iff :
    (∃ fate ≠ .unchanged, (between committed current).Tells committed current source fate) ↔
      committed[source]? ≠ current[source]? := by
  simp only [tells_between_iff]
  cases committed[source]? with
  | none => cases current[source]? <;> simp [fate?]
  | some old =>
      cases current[source]? with
      | none => simp [fate?]
      | some new =>
          by_cases hsame : new = old
          · simp [fate?, hsame]
          · simp [fate?, hsame, Ne.symm hsame]

theorem isEmpty_iff {changes : SourceChanges} :
    changes.isEmpty = true ↔ ∀ source, source ∉ changes.added ∧ source ∉ changes.changed ∧
      source ∉ changes.removed := by
  have hset : ∀ set : SourceSet, set.isEmpty = true ↔ ∀ source, source ∉ set := by
    intro set
    rw [Std.ExtTreeSet.isEmpty_iff, Std.ExtTreeSet.eq_empty_iff_forall_not_mem]
  unfold isEmpty
  simp only [Bool.and_eq_true, hset, and_assoc, forall_and]

theorem isEmpty_between_iff :
    (between committed current).isEmpty = true ↔ committed = current := by
  constructor
  · intro h
    apply Std.ExtTreeMap.ext_getElem?
    intro source
    apply Decidable.byContradiction
    intro hdifferent
    rcases not_tells_unchanged_iff.mpr hdifferent with ⟨fate, hchanged, htells⟩
    rcases isEmpty_iff.mp h source with ⟨hadded, hdiffers, hremoved⟩
    cases fate with
    | added => exact hadded htells
    | changed => exact hdiffers htells
    | removed => exact hremoved htells
    | unchanged => exact hchanged rfl
  · rintro rfl
    rw [isEmpty_iff]
    intro source
    simp [mem_added_between, mem_changed_between, mem_removed_between]

end SourceChanges
end Recompile
