import Recompile.Proofs.Build.Rounds
import Recompile.Proofs.Build.Contract
import Recompile.Proofs.Looking

/-!
# What undoing a build brings back

A file comes back when the bytes from before are still there at the time at
which it is backed up, or at the end if it never is. A file that is taken for a
new one comes back when there was none before. Which rounds may have written it
in the meantime is all that matters.
-/

namespace Recompile
namespace Build

variable {σ α : Type} {services : Services (StateM σ)} {project : Project}
  {files : ClassFiles services.host project.destination}
  {progress middle progress' : Progress} {world between world' : σ}
  {rounds rounds₁ rounds₂ : List (Round σ)} {key : FileKey} {was : Option Bytes}

/--
Whether undoing a build after these rounds brings a file back to what it `was`.
The file holds `now` before the rounds, and is not backed up by then.
-/
def Recoverable (files : ClassFiles services.host project.destination) (key : FileKey)
    (was now : Option Bytes) : List (Round σ) → Prop
  | [] => now = was
  | round :: rest =>
    if round.guards project.destination key then now = was
    else if round.notes project.destination key then was = none
    else Recoverable files key was (files.held round.left key) rest

/-- The same from any progress: a file that is backed up comes back to what was noted. -/
def Returns (files : ClassFiles services.host project.destination) (progress : Progress)
    (world : σ) (rounds : List (Round σ)) (key : FileKey) (was : Option Bytes) : Prop :=
  match progress.backup.noted? key with
  | some previous => previous = was
  | none => Recoverable files key was (files.held world key) rounds

theorem returns_of_noted {previous : Option Bytes}
    (hnoted : progress.backup.noted? key = some previous) :
    Returns files progress world rounds key was ↔ previous = was := by
  unfold Returns
  rw [hnoted]

theorem returns_of_not_noted (hnoted : progress.backup.noted? key = none) :
    Returns files progress world rounds key was ↔
      Recoverable files key was (files.held world key) rounds := by
  unfold Returns
  rw [hnoted]

theorem returns_nil :
    Returns files progress world [] key was ↔ files.restored progress.backup world key = was := by
  unfold ClassFiles.restored
  cases hnoted : progress.backup.noted? key with
  | some previous => exact returns_of_noted hnoted
  | none => exact returns_of_not_noted hnoted

/-!
# Sweeps
-/

section Sweep

variable {saved removed : Set FileKey}

theorem Sweep.returns_of_mem (h : Sweep files saved removed progress world progress' world')
    (hkey : key ∈ saved) :
    Returns files progress' world' rounds key was ↔
      files.restored progress.backup world key = was := by
  cases hnoted : progress.backup.noted? key with
  | some previous =>
      have hafter : progress'.backup.noted? key = some previous := by
        rw [h.unchanged key (Or.inr (by rw [hnoted]; exact Option.some_ne_none _)), hnoted]
      rw [returns_of_noted hafter, ClassFiles.restored, hnoted, Option.getD_some]
  | none =>
      rw [returns_of_noted (h.noted key hkey hnoted), ClassFiles.restored, hnoted,
        Option.getD_none]

theorem Sweep.returns_of_not_mem (h : Sweep files saved removed progress world progress' world')
    (hkey : key ∉ saved) :
    Returns files progress' world' rounds key was ↔
      Returns files progress world rounds key was := by
  have hafter := h.unchanged key (Or.inl hkey)
  cases hnoted : progress.backup.noted? key with
  | some previous =>
      rw [hnoted] at hafter
      rw [returns_of_noted hafter, returns_of_noted hnoted]
  | none =>
      rw [hnoted] at hafter
      have hthere : key ∉ removed := fun hgone => h.covered key hgone hafter
      rw [returns_of_not_noted hafter, returns_of_not_noted hnoted, h.left key hthere]

end Sweep

/-!
# Stages

A stage that succeeds passes its files on to what follows; where a stage fails
only the end counts.
-/

/-- Whether what comes of each file is the same before a stage with these rounds and after it. -/
structure Passes (files : ClassFiles services.host project.destination) (rounds : List (Round σ))
    (progress : Progress) (world : σ) (progress' : Progress) (world' : σ) : Prop where
  wellKept : progress.backup.WellKept project.destination ClassName.LeadsBelow →
    progress'.backup.WellKept project.destination ClassName.LeadsBelow
  returns_iff : ∀ rest key was,
    Returns files progress' world' rest key was ↔
      Returns files progress world (rounds ++ rest) key was

/-- Whether undoing at the end of a stage with these rounds makes of each file what they tell. -/
structure Ends (files : ClassFiles services.host project.destination) (rounds : List (Round σ))
    (progress : Progress) (world : σ) (progress' : Progress) (world' : σ) : Prop where
  wellKept : progress.backup.WellKept project.destination ClassName.LeadsBelow →
    progress'.backup.WellKept project.destination ClassName.LeadsBelow
  restored_iff : ∀ key was,
    files.restored progress'.backup world' key = was ↔
      Returns files progress world rounds key was

theorem Passes.ends (h : Passes files rounds progress world progress' world') :
    Ends files rounds progress world progress' world' := by
  refine ⟨h.wellKept, ?_⟩
  intro key was
  rw [← returns_nil, h.returns_iff [] key was, List.append_nil]

theorem Passes.then (h₁ : Passes files rounds₁ progress world middle between)
    (h₂ : Passes files rounds₂ middle between progress' world') :
    Passes files (rounds₁ ++ rounds₂) progress world progress' world' := by
  refine ⟨fun h => h₂.wellKept (h₁.wellKept h), ?_⟩
  intro rest key was
  rw [h₂.returns_iff, h₁.returns_iff, List.append_assoc]

theorem Passes.thenEnds (h₁ : Passes files rounds₁ progress world middle between)
    (h₂ : Ends files rounds₂ middle between progress' world') :
    Ends files (rounds₁ ++ rounds₂) progress world progress' world' := by
  refine ⟨fun h => h₂.wellKept (h₁.wellKept h), ?_⟩
  intro key was
  rw [h₂.restored_iff, h₁.returns_iff]

theorem Ends.of_held_eq (h : Ends files rounds progress world progress' between)
    (hheld : files.held world' = files.held between) :
    Ends files rounds progress world progress' world' := by
  refine ⟨h.wellKept, ?_⟩
  intro key was
  rw [← h.restored_iff key was, ClassFiles.restored, ClassFiles.restored, hheld]

theorem Sweep.passes {removed : Set FileKey}
    (h : Sweep files ∅ removed progress world progress' world') :
    Passes files [] progress world progress' world' :=
  ⟨h.wellKept, fun _ _ _ => h.returns_of_not_mem (Set.notMem_empty _)⟩

/-- A sweep that nothing follows undoes itself, however much it backs up. -/
theorem Sweep.ends {saved removed : Set FileKey}
    (h : Sweep files saved removed progress world progress' world') :
    Ends files [] progress world progress' world' := by
  refine ⟨h.wellKept, ?_⟩
  intro key was
  rw [returns_nil, h.restored_eq]

theorem passes_of_spares {operation : ExceptT Failure (StateM σ) α} {result : Except Failure α}
    (h : files.Spares operation)
    (hrun : (perform operation).runFrom progress world = (result, progress', world')) :
    Passes files [] progress world progress' world' := by
  rw [Step.runFrom_perform] at hrun
  cases hrun
  exact Sweep.passes (Sweep.refl progress (h world))

/-!
# One batch

The files that the sources of a batch own are backed up just before the call,
and those that are new to the build just after it.
-/

theorem noted?_noteProduced (destination : Path) (before : Snapshot) (ownership : Ownership)
    (sources : List String) (backup : Backup) (outcome : Outcome) (world left : σ)
    (key : FileKey) :
    (backup.noteProduced destination before outcome).noted? key =
      if backup.noted? key = none ∧ Round.notes destination
          ⟨some before, ownership, sources, outcome, world, left⟩ key = true then some none
      else backup.noted? key := by
  unfold Backup.noteProduced
  rw [Backup.noted?_noteAbsent]
  simp only [Round.notes_iff]

theorem returns_cons_of_guards {round : Round σ} {rest : List (Round σ)}
    (hguards : round.guards project.destination key = true) :
    Returns files progress world (round :: rest) key was ↔
      files.restored progress.backup world key = was := by
  cases hnoted : progress.backup.noted? key with
  | some previous => rw [returns_of_noted hnoted, ClassFiles.restored, hnoted, Option.getD_some]
  | none =>
      rw [returns_of_not_noted hnoted, Recoverable, if_pos hguards, ClassFiles.restored, hnoted,
        Option.getD_none]

theorem passes_batch {before : Snapshot} {ownership : Ownership} {sources : List String}
    {outcome : Outcome} (hlisted : ∀ name ∈ outcome.classes, name.LeadsBelow)
    (hsaved : Sweep files (ownedKeys project.destination ownership sources) ∅ progress world
      middle between) (compiled left : σ) :
    Passes files [⟨some before, ownership, sources, outcome, compiled, left⟩] progress world
      { middle with
        backup := middle.backup.noteProduced project.destination before outcome } left := by
  refine ⟨fun h => (hsaved.wellKept h).noteAbsent before hlisted, ?_⟩
  intro rest key was
  rw [List.singleton_append]
  have hafter := noted?_noteProduced project.destination before ownership sources
    middle.backup outcome compiled left key
  -- What is noted after the round is all that matters of the backup.
  generalize middle.backup.noteProduced project.destination before outcome = backup at hafter ⊢
  by_cases howned : key ∈ ownedKeys project.destination ownership sources
  · have hnoted := hsaved.noted?_ne_none_of_mem howned
    have hguards : Round.guards project.destination
        ⟨some before, ownership, sources, outcome, compiled, left⟩ key = true :=
      Round.guards_iff.mpr howned
    have hback : Returns files middle between rest key was ↔ _ := hsaved.returns_of_mem howned
    rw [if_neg fun hnew => hnoted hnew.1] at hafter
    rw [returns_cons_of_guards hguards, ← hback]
    unfold Returns
    rw [hafter]
    cases hmiddle : middle.backup.noted? key with
    | some previous => exact Iff.rfl
    | none => exact absurd hmiddle hnoted
  · have hmiddle := hsaved.unchanged key (Or.inl howned)
    have hguards : ¬Round.guards project.destination
        ⟨some before, ownership, sources, outcome, compiled, left⟩ key = true :=
      fun hguards => howned (Round.guards_iff.mp hguards)
    cases hnoted : progress.backup.noted? key with
    | some previous =>
        rw [hmiddle, hnoted, if_neg fun hnew => Option.some_ne_none _ hnew.1] at hafter
        rw [returns_of_noted hafter, returns_of_noted hnoted]
    | none =>
        rw [returns_of_not_noted hnoted, Recoverable, if_neg hguards]
        rw [hmiddle, hnoted] at hafter
        by_cases hnotes : Round.notes project.destination
            ⟨some before, ownership, sources, outcome, compiled, left⟩ key = true
        · rw [if_pos ⟨rfl, hnotes⟩] at hafter
          rw [returns_of_noted hafter, if_pos hnotes, eq_comm]
        · rw [if_neg fun hnew => hnotes hnew.2] at hafter
          rw [returns_of_not_noted hafter, if_neg hnotes]

theorem of_runFrom_compileBatch {before : Snapshot} {ownership : Ownership}
    {sources : List String} {result : Except Failure Outcome}
    (hcompiler : WritesListed files) (hbelow : ownership.LeadsBelow)
    (hrun : (compileBatch services project before ownership sources).runFrom progress world =
      (result, progress', world')) :
    (∃ error, result = .error error ∧ Ends files [] progress world progress' world') ∨
      ∃ outcome between,
        result = .ok outcome ∧
        (∀ left, Passes files [⟨some before, ownership, sources, outcome, world', left⟩]
          progress world progress' left) ∧
        files.held between = files.held world ∧
        Accounts files between outcome world' := by
  have hbackedUp : Sweeps files (ownedKeys project.destination ownership sources) ∅
      (backUpOwned services project ownership sources) progress world :=
    sweeps_backUpOwned hbelow sources progress world
  rw [compileBatch] at hrun
  rcases Step.of_runFrom_bind hrun with ⟨_, middle, between, hbacked, hcall⟩ | ⟨error, hfailed, rfl⟩
  · have hsaved := hbackedUp.of_ok hbacked
    have hbetween : files.held between = files.held world := by
      funext key
      exact hsaved.left key (Set.notMem_empty key)
    rcases Step.of_runFrom_bind hcall with ⟨outcome, _, _, hcompiled, hnote⟩ | ⟨error, hfailed, rfl⟩
    · obtain ⟨rfl, haccounts⟩ := hcompiler.compile_ok hcompiled
      simp only [Step.runFrom_bind, Step.runFrom_modifyBackup, Step.runFrom_pure] at hnote
      cases hnote
      exact Or.inr ⟨outcome, between, rfl, passes_batch haccounts.below hsaved _, hbetween,
        haccounts⟩
    · obtain ⟨rfl, hkeeps⟩ := hcompiler.compile_error hfailed
      refine Or.inl ⟨error, rfl, ?_⟩
      exact hsaved.ends.of_held_eq hkeeps
  · obtain ⟨_, _, _, _, hpart⟩ := hbackedUp.exists_sweep hfailed
    exact Or.inl ⟨error, rfl, hpart.ends⟩

end Build
end Recompile
