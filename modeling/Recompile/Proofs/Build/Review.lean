import Recompile.Build.Incremental
import Recompile.Proofs.Answers
import Recompile.Proofs.Compilation
import Recompile.Proofs.Surface.Usage

/-!
# What a review finds

The review of a first batch goes from the classes that may have changed to
those that changed incompatibly, from these to the classes that refer to them,
and on to their sources. Classes that may have changed themselves are left out.
-/

namespace Recompile
namespace Build

variable {before after : Snapshot} {affected : ClassName → Prop} {ledger : Ledger}
  {name : ClassName} {source : String}

def Breaks (before after : Snapshot) (affected : ClassName → Prop) (name : ClassName) : Prop :=
  affected name ∧
    Compatibility.between before (before.get? name) (after.get? name) = .incompatible

def Follows (before after : Snapshot) (affected : ClassName → Prop) (name : ClassName) : Prop :=
  ¬affected name ∧ ∃ surface target, after.get? name = some surface ∧
    surface.references.contains target = true ∧ Breaks before after affected target

theorem mem_changed_iff :
    name ∈ ((changeLevels before after ledger.affected).filter fun (_, level) =>
        level = .incompatible).map Prod.fst ↔ Breaks before after (· ∈ ledger.affected) name := by
  unfold changeLevels Breaks
  simp only [List.mem_map, List.mem_filter, decide_eq_true_eq, Std.ExtTreeSet.mem_toList]
  constructor
  · rintro ⟨entry, ⟨⟨target, haffected, rfl⟩, hlevel⟩, rfl⟩
    exact ⟨haffected, hlevel⟩
  · rintro ⟨haffected, hlevel⟩
    exact ⟨_, ⟨⟨name, haffected, rfl⟩, hlevel⟩, rfl⟩

theorem mem_dependantClasses_iff {changed : List ClassName}
    (hchanged : ∀ target, target ∈ changed ↔ Breaks before after (· ∈ ledger.affected) target) :
    name ∈ dependantClasses (Usage.ofSnapshot after) ledger.affected changed ↔
      Follows before after (· ∈ ledger.affected) name := by
  have hout : (!ledger.affected.contains name) = true ↔ name ∉ ledger.affected := by
    rw [Bool.not_eq_true', ← Bool.not_eq_true, Std.ExtTreeSet.contains_iff_mem]
  unfold dependantClasses Follows
  simp only [List.mem_filter, List.mem_flatMap, Usage.mem_usersOf_ofSnapshot, hchanged, hout]
  constructor
  · rintro ⟨⟨target, hbreaks, surface, hfound, hrefers⟩, haffected⟩
    exact ⟨haffected, surface, target, hfound, hrefers, hbreaks⟩
  · rintro ⟨haffected, surface, target, hfound, hrefers, hbreaks⟩
    exact ⟨⟨target, hbreaks, surface, hfound, hrefers⟩, haffected⟩

theorem sourceOf_eq_ok_iff {ownership : Ownership} :
    ownership.sourceOf name = .ok source ↔ ownership.sourceOf? name = some source := by
  unfold Ownership.sourceOf
  cases ownership.sourceOf? name with
  | none => simp
  | some owner => simp

/-- The sources to compile once more are the owners of all classes that follow. -/
theorem owners_of_dependantSources {dependants : SourceSet}
    (h : dependantSources before after ledger = .ok (some dependants)) :
    (∀ name, Follows before after (· ∈ ledger.affected) name →
      ∃ source ∈ dependants, ledger.ownership.sourceOf? name = some source) ∧
    ∀ source ∈ dependants, ∃ name, Follows before after (· ∈ ledger.affected) name ∧
      ledger.ownership.sourceOf? name = some source := by
  unfold dependantSources at h
  simp only at h
  split at h
  · cases h
  · rcases hsources : (dependantClasses (Usage.ofSnapshot after) ledger.affected
      (((changeLevels before after ledger.affected).filter fun (_, level) =>
        level = .incompatible).map Prod.fst)).mapM ledger.ownership.sourceOf with error | sources
    · rw [hsources] at h
      cases h
    · rw [hsources] at h
      cases h
      obtain ⟨hclasses, howners⟩ := members_of_mapM hsources
      constructor
      · intro name hfollows
        obtain ⟨source, hsource, howner⟩ :=
          hclasses name ((mem_dependantClasses_iff fun _ => mem_changed_iff).mpr hfollows)
        refine ⟨source, ?_, sourceOf_eq_ok_iff.mp howner⟩
        rw [Std.ExtTreeSet.mem_ofList]
        exact List.contains_iff_mem.mpr hsource
      · intro source hsource
        rw [Std.ExtTreeSet.mem_ofList] at hsource
        obtain ⟨name, hname, howner⟩ := howners source (List.contains_iff_mem.mp hsource)
        exact ⟨name, (mem_dependantClasses_iff fun _ => mem_changed_iff).mp hname,
          sourceOf_eq_ok_iff.mp howner⟩

def Alarms (before after : Snapshot) (affected : ClassName → Prop) : Prop :=
  ∃ name, affected name ∧
    Compatibility.between before (before.get? name) (after.get? name) = .globallyIncompatible

theorem any_changeLevels_iff :
    ((changeLevels before after ledger.affected).any fun (_, level) =>
        level = .globallyIncompatible) = true ↔ Alarms before after (· ∈ ledger.affected) := by
  unfold changeLevels Alarms
  rw [List.any_map, List.any_eq_true]
  simp [Std.ExtTreeSet.mem_toList]

/-- A review fails only because of a class that follows and has no source. -/
theorem unowned_of_dependantSources {error : Failure}
    (h : dependantSources before after ledger = .error error) :
    ¬Alarms before after (· ∈ ledger.affected) ∧
      ∃ name, Follows before after (· ∈ ledger.affected) name ∧
        ledger.ownership.sourceOf? name = none ∧ error = .unownedClass name := by
  unfold dependantSources at h
  simp only at h
  split at h
  · cases h
  · rename_i hquiet
    rw [any_changeLevels_iff] at hquiet
    refine ⟨hquiet, ?_⟩
    cases hsources : (dependantClasses (Usage.ofSnapshot after) ledger.affected
      (((changeLevels before after ledger.affected).filter fun (_, level) =>
        level = .incompatible).map Prod.fst)).mapM ledger.ownership.sourceOf with
    | ok sources =>
        rw [hsources] at h
        cases h
    | error found =>
        rw [hsources] at h
        cases h
        rcases mapM_eq_error.1 _ hsources with ⟨name, hname, hanswer⟩
        refine ⟨name, (mem_dependantClasses_iff fun _ => mem_changed_iff).mp hname, ?_⟩
        unfold Ownership.sourceOf at hanswer
        cases howner : ledger.ownership.sourceOf? name with
        | some owner =>
            rw [howner] at hanswer
            cases hanswer
        | none =>
            rw [howner] at hanswer
            cases hanswer
            exact ⟨rfl, rfl⟩

theorem exists_dependantSources_eq_error (hquiet : ¬Alarms before after (· ∈ ledger.affected))
    (hfollows : Follows before after (· ∈ ledger.affected) name)
    (hnone : ledger.ownership.sourceOf? name = none) :
    ∃ error, dependantSources before after ledger = .error error := by
  rw [← any_changeLevels_iff] at hquiet
  have hfails : ledger.ownership.sourceOf name = .error (.unownedClass name) := by
    unfold Ownership.sourceOf
    rw [hnone]
  have hmem := (mem_dependantClasses_iff fun _ => mem_changed_iff).mpr hfollows
  rcases mapM_eq_error.2 ⟨name, hmem, _, hfails⟩ with ⟨error, herror⟩
  refine ⟨error, ?_⟩
  unfold dependantSources
  simp only
  rw [if_neg hquiet, herror]
  rfl

/-!
# Which sources have a status
-/

theorem mem_mergeStatuses (earlier later : Std.ExtTreeMap String SourceStatus) :
    source ∈ mergeStatuses earlier later ↔ source ∈ earlier ∨ source ∈ later := by
  unfold mergeStatuses
  rw [mem_foldl_of_adds Prod.fst]
  · rw [Std.ExtTreeMap.map_fst_toList_eq_keys, Std.ExtTreeMap.mem_keys]
  · rintro known ⟨first, status⟩ source
    rw [Std.ExtTreeMap.mem_insert, Std.LawfulEqCmp.compare_eq_iff_eq, @eq_comm _ first, or_comm]

end Build
end Recompile
