import Recompile.Proofs.Build.Deletion

/-!
# Sweeps

Apart from calls of the compiler, whatever a build does to class files is a
sweep: some files are backed up as they are, and some that are backed up are
removed. A sweep that breaks off has swept less. No sweep changes what the
files would be restored to.
-/

namespace Recompile
namespace Build

variable {σ α β : Type} {host : Host (StateM σ)} {destination : Path}
  {files : ClassFiles host destination}
  {progress middle progress' : Progress} {world between world' : σ}
  {saved removed saved₁ removed₁ saved₂ removed₂ : Set FileKey}

/-- The files at the keys in `saved` are backed up, and those in `removed` are gone. -/
structure Sweep (files : ClassFiles host destination) (saved removed : Set FileKey)
    (progress : Progress) (world : σ) (progress' : Progress) (world' : σ) : Prop
    extends Deletion files removed world world' where
  wellKept : progress.backup.WellKept destination ClassName.LeadsBelow →
    progress'.backup.WellKept destination ClassName.LeadsBelow
  noted : ∀ key ∈ saved, progress.backup.noted? key = none →
    progress'.backup.noted? key = some (files.held world key)
  unchanged : ∀ key, key ∉ saved ∨ progress.backup.noted? key ≠ none →
    progress'.backup.noted? key = progress.backup.noted? key
  covered : ∀ key ∈ removed, progress'.backup.noted? key ≠ none

namespace Sweep

theorem refl (progress : Progress) {world world' : σ}
    (hheld : files.held world' = files.held world) :
    Sweep files ∅ ∅ progress world progress world' where
  toDeletion := Deletion.of_held_eq hheld
  wellKept h := h
  noted _ hkey := hkey.elim
  unchanged _ _ := rfl
  covered _ hkey := hkey.elim

theorem of_noted (hnoted : ∀ key ∈ saved, progress.backup.noted? key ≠ none)
    (hheld : files.held world' = files.held world) :
    Sweep files saved ∅ progress world progress world' where
  toDeletion := Deletion.of_held_eq hheld
  wellKept h := h
  noted key hkey hentry := absurd hentry (hnoted key hkey)
  unchanged _ _ := rfl
  covered _ hkey := hkey.elim

theorem of_note {name : ClassName} {previous : Option Bytes} (hname : name.LeadsBelow)
    (hprevious : files.held world (fileKey destination name) = previous)
    (hheld : files.held world' = files.held world) :
    Sweep files {fileKey destination name} ∅ progress world
      { progress with
        backup := progress.backup.note (classFileIn destination name) previous } world' where
  toDeletion := Deletion.of_held_eq hheld
  wellKept h := h.note hname previous
  noted key hkey hentry := by
    rw [Set.mem_singleton_iff.mp hkey] at hentry ⊢
    rw [Backup.noted?_note, if_pos ⟨rfl, hentry⟩, hprevious]
  unchanged key hkey := by
    rw [Backup.noted?_note, if_neg]
    rintro ⟨hsame, hentry⟩
    rcases hkey with hother | hnoted
    · exact hother (Set.mem_singleton_iff.mpr hsame.symm)
    · exact hnoted hentry
  covered _ hkey := hkey.elim

theorem of_deletion (hdeletion : Deletion files removed world world')
    (hnoted : ∀ key ∈ removed, progress.backup.noted? key ≠ none) :
    Sweep files ∅ removed progress world progress world' where
  toDeletion := hdeletion
  wellKept h := h
  noted _ hkey := hkey.elim
  unchanged _ _ := rfl
  covered := hnoted

theorem noted?_ne_none (h : Sweep files saved removed progress world progress' world')
    {key : FileKey} (hkey : progress.backup.noted? key ≠ none) :
    progress'.backup.noted? key ≠ none := by
  rw [h.unchanged key (Or.inr hkey)]
  exact hkey

theorem noted?_ne_none_of_mem (h : Sweep files saved removed progress world progress' world')
    {key : FileKey} (hkey : key ∈ saved) : progress'.backup.noted? key ≠ none := by
  by_cases hentry : progress.backup.noted? key = none
  · rw [h.noted key hkey hentry]
    exact Option.some_ne_none _
  · exact h.noted?_ne_none hentry

theorem trans (h₁ : Sweep files saved₁ removed₁ progress world middle between)
    (h₂ : Sweep files saved₂ removed₂ middle between progress' world') :
    Sweep files (saved₁ ∪ saved₂) (removed₁ ∪ removed₂) progress world progress' world' where
  toDeletion := h₁.toDeletion.trans h₂.toDeletion
  wellKept h := h₂.wellKept (h₁.wellKept h)
  noted key hkey hentry := by
    by_cases hfirst : key ∈ saved₁
    · have hnoted := h₁.noted key hfirst hentry
      rw [h₂.unchanged key (Or.inr (by rw [hnoted]; exact Option.some_ne_none _)), hnoted]
    · have hmiddle : middle.backup.noted? key = none := by
        rw [h₁.unchanged key (Or.inl hfirst)]
        exact hentry
      have hsecond : key ∈ saved₂ := hkey.resolve_left hfirst
      have hthere : key ∉ removed₁ := fun hgone => h₁.covered key hgone hmiddle
      rw [h₂.noted key hsecond hmiddle, h₁.left key hthere]
  unchanged key hkey := by
    have hfirst : middle.backup.noted? key = progress.backup.noted? key :=
      h₁.unchanged key (hkey.imp_left fun hnot hmem => hnot (Or.inl hmem))
    have hsecond : key ∉ saved₂ ∨ middle.backup.noted? key ≠ none := by
      rw [hfirst]
      exact hkey.imp_left fun hnot hmem => hnot (Or.inr hmem)
    rw [h₂.unchanged key hsecond, hfirst]
  covered key hkey := by
    rcases hkey with hfirst | hsecond
    · exact h₂.noted?_ne_none (h₁.covered key hfirst)
    · exact h₂.covered key hsecond

theorem restored_eq (h : Sweep files saved removed progress world progress' world') :
    files.restored progress'.backup world' = files.restored progress.backup world := by
  funext key
  unfold ClassFiles.restored
  cases hentry : progress.backup.noted? key with
  | some previous =>
      rw [h.unchanged key (Or.inr (by rw [hentry]; exact Option.some_ne_none _)), hentry]
      rfl
  | none =>
      by_cases hsaved : key ∈ saved
      · rw [h.noted key hsaved hentry]
        rfl
      · have hafter : progress'.backup.noted? key = none := by
          rw [h.unchanged key (Or.inl hsaved)]
          exact hentry
        have hthere : key ∉ removed := fun hgone => h.covered key hgone hafter
        rw [hafter]
        exact h.left key hthere

end Sweep

/-!
# Steps that sweep

A step that fails may have swept less than it set out to, and nothing else.
-/

/-- Whether a step comes to a sweep of these keys, or fails after a sweep of some of them. -/
def Sweeps (files : ClassFiles host destination) (saved removed : Set FileKey)
    (step : Step (StateM σ) α) (progress : Progress) (world : σ) : Prop :=
  ∃ result progress' world',
    step.runFrom progress world = (result, progress', world') ∧
      ∃ saved' ⊆ saved, ∃ removed' ⊆ removed,
        Sweep files saved' removed' progress world progress' world' ∧
          ∀ value, result = .ok value → saved' = saved ∧ removed' = removed

namespace Sweeps

theorem of_ok {step : Step (StateM σ) α} {value : α}
    (h : Sweeps files saved removed step progress world)
    (hrun : step.runFrom progress world = (.ok value, progress', world')) :
    Sweep files saved removed progress world progress' world' := by
  obtain ⟨result, reached, left, hrun', saved', _, removed', _, hsweep, hall⟩ := h
  rw [hrun] at hrun'
  cases hrun'
  obtain ⟨hsaved, hremoved⟩ := hall value rfl
  rw [← hsaved, ← hremoved]
  exact hsweep

/-- Whatever a step that sweeps comes to, it changes no file that would not be restored. -/
theorem exists_sweep {step : Step (StateM σ) α} {result : Except Failure α}
    (h : Sweeps files saved removed step progress world)
    (hrun : step.runFrom progress world = (result, progress', world')) :
    ∃ saved' ⊆ saved, ∃ removed' ⊆ removed,
      Sweep files saved' removed' progress world progress' world' := by
  obtain ⟨_, reached, left, hrun', saved', hsaved, removed', hremoved, hsweep, _⟩ := h
  rw [hrun] at hrun'
  cases hrun'
  exact ⟨saved', hsaved, removed', hremoved, hsweep⟩

theorem of_deletes {step : Step (StateM σ) α} (h : Deletes files removed step progress world)
    (hnoted : ∀ key ∈ removed, progress.backup.noted? key ≠ none) :
    Sweeps files ∅ removed step progress world := by
  obtain ⟨result, world', hrun, removed', hsubset, hdeletion, hall⟩ := h
  refine ⟨result, progress, world', hrun, ∅, subset_rfl, removed', hsubset,
    Sweep.of_deletion hdeletion fun key hkey => hnoted key (hsubset hkey), ?_⟩
  exact fun value hok => ⟨rfl, hall value hok⟩

theorem of_sweep {step : Step (StateM σ) α} {value : α}
    (hrun : step.runFrom progress world = (.ok value, progress', world'))
    (hsweep : Sweep files saved removed progress world progress' world') :
    Sweeps files saved removed step progress world :=
  ⟨_, _, _, hrun, saved, subset_rfl, removed, subset_rfl, hsweep, fun _ _ => ⟨rfl, rfl⟩⟩

theorem of_error {step : Step (StateM σ) α} {error : Failure}
    (hrun : step.runFrom progress world = (.error error, progress, world'))
    (hheld : files.held world' = files.held world) :
    Sweeps files saved removed step progress world := by
  refine ⟨_, _, _, hrun, ∅, Set.empty_subset _, ∅, Set.empty_subset _,
    Sweep.refl progress hheld, ?_⟩
  intro value hok
  cases hok

theorem of_pure (files : ClassFiles host destination) (value : α) (progress : Progress)
    (world : σ) :
    Sweeps files ∅ ∅ (pure value) progress world :=
  ⟨.ok value, progress, world, rfl, ∅, subset_rfl, ∅, subset_rfl, Sweep.refl progress rfl,
    fun _ _ => ⟨rfl, rfl⟩⟩

theorem bind {step : Step (StateM σ) α} {next : α → Step (StateM σ) β}
    (hfirst : Sweeps files saved₁ removed₁ step progress world)
    (hnext : ∀ value middle between,
      step.runFrom progress world = (.ok value, middle, between) →
        Sweep files saved₁ removed₁ progress world middle between →
          Sweeps files saved₂ removed₂ (next value) middle between) :
    Sweeps files (saved₁ ∪ saved₂) (removed₁ ∪ removed₂) (step >>= next) progress world := by
  have hcopy := hfirst
  obtain ⟨result, middle, between, hrun, saved', hsaved, removed', hremoved, hsweep, _⟩ := hcopy
  cases result with
  | ok value =>
      have hwhole := hfirst.of_ok hrun
      obtain ⟨second, progress', world', hrun', saved'', hsaved', removed'', hremoved', hrest,
        hall⟩ := hnext value middle between hrun hwhole
      refine ⟨second, progress', world', ?_, saved₁ ∪ saved'',
        Set.union_subset_union_right _ hsaved', removed₁ ∪ removed'',
        Set.union_subset_union_right _ hremoved', hwhole.trans hrest, ?_⟩
      · rw [Step.runFrom_bind, hrun]
        exact hrun'
      · intro value' hok
        obtain ⟨rfl, rfl⟩ := hall value' hok
        exact ⟨rfl, rfl⟩
  | error error =>
      refine ⟨.error error, middle, between, ?_, saved', hsaved.trans Set.subset_union_left,
        removed', hremoved.trans Set.subset_union_left, hsweep, ?_⟩
      · rw [Step.runFrom_bind, hrun]
      · intro value hok
        cases hok

theorem forM {γ : Type} {act : γ → Step (StateM σ) PUnit} {saved : γ → Set FileKey}
    (items : List γ)
    (h : ∀ item ∈ items, ∀ middle between,
      Sweeps files (saved item) ∅ (act item) middle between)
    (progress : Progress) (world : σ) :
    Sweeps files {key | ∃ item ∈ items, key ∈ saved item} ∅ (items.forM act) progress world := by
  induction items generalizing progress world with
  | nil => simpa using of_pure files PUnit.unit progress world
  | cons item rest ih =>
      have hrest : ∀ value middle between,
          (act item).runFrom progress world = (.ok value, middle, between) →
            Sweep files (saved item) ∅ progress world middle between →
              Sweeps files {key | ∃ item ∈ rest, key ∈ saved item} ∅ (rest.forM act)
                middle between :=
        fun _ middle between _ _ =>
          ih (fun other hother => h other (List.mem_cons_of_mem _ hother)) middle between
      have hall := (h item List.mem_cons_self progress world).bind hrest
      simpa [Set.ofPred_or, List.exists_mem_cons] using hall

end Sweeps
end Build
end Recompile
