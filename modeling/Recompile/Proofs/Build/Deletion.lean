import Mathlib.Data.Set.Insert
import Recompile.Build.ClassFiles
import Recompile.Proofs.Build.Backup

/-!
# Deleting class files

A deletion removes the files at some keys and leaves all others. A step that
deletes and fails has removed some of them.
-/

namespace Recompile
namespace Build

variable {σ α β : Type} {host : Host (StateM σ)} {destination : Path}
  {files : ClassFiles host destination} {progress progress' : Progress}
  {world between world' : σ} {removed removed₁ removed₂ : Set FileKey}

structure Deletion (files : ClassFiles host destination) (removed : Set FileKey)
    (world world' : σ) : Prop where
  gone : ∀ key ∈ removed, files.held world' key = none
  left : ∀ key, key ∉ removed → files.held world' key = files.held world key

namespace Deletion

theorem of_held_eq (hheld : files.held world' = files.held world) :
    Deletion files ∅ world world' where
  gone _ hkey := hkey.elim
  left key _ := congrFun hheld key

theorem of_update {key : FileKey}
    (hheld : files.held world' = Function.update (files.held world) key none) :
    Deletion files {key} world world' where
  gone other hother := by
    rw [hheld, Set.mem_singleton_iff.mp hother, Function.update_self]
  left other hother := by
    rw [hheld, Function.update_of_ne fun hsame => hother (Set.mem_singleton_iff.mpr hsame)]

theorem trans (h₁ : Deletion files removed₁ world between)
    (h₂ : Deletion files removed₂ between world') :
    Deletion files (removed₁ ∪ removed₂) world world' where
  gone key hkey := by
    by_cases hsecond : key ∈ removed₂
    · exact h₂.gone key hsecond
    · rw [h₂.left key hsecond]
      exact h₁.gone key (hkey.resolve_right hsecond)
  left key hkey := by
    rw [h₂.left key fun hmem => hkey (Or.inr hmem), h₁.left key fun hmem => hkey (Or.inl hmem)]

theorem then_held_eq (h : Deletion files removed world between)
    (hheld : files.held world' = files.held between) : Deletion files removed world world' := by
  refine ⟨?_, ?_⟩
  · intro key hkey
    rw [hheld]
    exact h.gone key hkey
  · intro key hkey
    rw [hheld]
    exact h.left key hkey

end Deletion

/-!
# Steps that delete
-/

/-- Whether a step deletes the files at these keys, or fails after deleting some of them. -/
def Deletes (files : ClassFiles host destination) (removed : Set FileKey)
    (step : Step (StateM σ) α) (progress : Progress) (world : σ) : Prop :=
  ∃ result world', step.runFrom progress world = (result, progress, world') ∧
    ∃ removed' ⊆ removed, Deletion files removed' world world' ∧
      ∀ value, result = .ok value → removed' = removed

namespace Deletes

theorem of_ok {step : Step (StateM σ) α} {value : α}
    (h : Deletes files removed step progress world)
    (hrun : step.runFrom progress world = (.ok value, progress', world')) :
    Deletion files removed world world' := by
  obtain ⟨result, left, hrun', removed', _, hdeletion, hall⟩ := h
  rw [hrun] at hrun'
  cases hrun'
  rw [← hall value rfl]
  exact hdeletion

theorem progress_eq {step : Step (StateM σ) α} {result : Except Failure α}
    (h : Deletes files removed step progress world)
    (hrun : step.runFrom progress world = (result, progress', world')) :
    progress' = progress := by
  obtain ⟨_, _, hrun', _⟩ := h
  rw [hrun] at hrun'
  cases hrun'
  rfl

theorem of_pure (files : ClassFiles host destination) (value : α) (progress : Progress)
    (world : σ) :
    Deletes files ∅ (pure value) progress world :=
  ⟨.ok value, world, rfl, ∅, subset_rfl, Deletion.of_held_eq rfl, fun _ _ => rfl⟩

theorem of_deletion {step : Step (StateM σ) α} {value : α}
    (hrun : step.runFrom progress world = (.ok value, progress, world'))
    (hdeletion : Deletion files removed world world') :
    Deletes files removed step progress world :=
  ⟨_, _, hrun, removed, subset_rfl, hdeletion, fun _ _ => rfl⟩

theorem of_error {step : Step (StateM σ) α} {error : Failure}
    (hrun : step.runFrom progress world = (.error error, progress, world'))
    (hheld : files.held world' = files.held world) :
    Deletes files removed step progress world := by
  refine ⟨_, _, hrun, ∅, Set.empty_subset _, Deletion.of_held_eq hheld, ?_⟩
  intro value hok
  cases hok

theorem bind {step : Step (StateM σ) α} {next : α → Step (StateM σ) β}
    (hfirst : Deletes files removed₁ step progress world)
    (hnext : ∀ value between, step.runFrom progress world = (.ok value, progress, between) →
      Deletes files removed₂ (next value) progress between) :
    Deletes files (removed₁ ∪ removed₂) (step >>= next) progress world := by
  obtain ⟨result, between, hrun, removed', hsubset, hdeletion, hall⟩ := hfirst
  cases result with
  | ok value =>
      obtain ⟨second, world', hrun', removed'', hsubset', hrest, hall'⟩ :=
        hnext value between hrun
      have hwhole := hall value rfl
      subst hwhole
      refine ⟨second, world', ?_, removed' ∪ removed'',
        Set.union_subset_union_right _ hsubset', hdeletion.trans hrest, ?_⟩
      · rw [Step.runFrom_bind, hrun]
        exact hrun'
      · intro value' hok
        rw [hall' value' hok]
  | error error =>
      refine ⟨.error error, between, ?_, removed', hsubset.trans Set.subset_union_left,
        hdeletion, ?_⟩
      · rw [Step.runFrom_bind, hrun]
      · intro value hok
        cases hok

theorem forM {γ : Type} {act : γ → Step (StateM σ) PUnit} {removed : γ → Set FileKey}
    (items : List γ)
    (h : ∀ item ∈ items, ∀ between, Deletes files (removed item) (act item) progress between)
    (world : σ) :
    Deletes files {key | ∃ item ∈ items, key ∈ removed item} (items.forM act) progress world := by
  induction items generalizing world with
  | nil => simpa using of_pure files PUnit.unit progress world
  | cons item rest ih =>
      have hrest : ∀ value between,
          (act item).runFrom progress world = (.ok value, progress, between) →
            Deletes files {key | ∃ item ∈ rest, key ∈ removed item} (rest.forM act)
              progress between :=
        fun _ between _ => ih (fun other hother => h other (List.mem_cons_of_mem _ hother)) between
      have hall := (h item List.mem_cons_self world).bind hrest
      simpa [Set.ofPred_or, List.exists_mem_cons] using hall

end Deletes
end Build
end Recompile
