import Recompile.Proofs.Build.ClassFiles
import Recompile.Proofs.Build.Maintaining

/-!
# What a build leaves to its services

Up to the point where it saves something, a build does nothing to its
surroundings but through single calls, and it writes and removes class files
only. What each of these calls keeps, a whole build keeps until then, and
undoing it does not break it either.
-/

namespace Recompile
namespace Build

variable {σ : Type}

/--
Whether the host and the compiler keep a property, and fail in certain ways only.
The host is asked to keep it when it works on class files of the destination.
-/
structure Supports (services : Services (StateM σ)) (destination : Path) (keeps : σ → Prop)
    (fails : Failure → Prop) : Prop extends Looks services.host keeps fails where
  milliseconds : ∀ world, keeps world → keeps (services.host.milliseconds.run world).2
  makeDirectories : ∀ name parent, (classFileIn destination name).parent? = some parent →
    ∀ world, keeps world → keeps ((services.host.makeDirectories parent).run world).2
  writeFile : ∀ name bytes world, keeps world →
    keeps ((services.host.writeFile (classFileIn destination name) bytes).run world).2
  removeFile : ∀ name world, keeps world →
    keeps ((services.host.removeFile (classFileIn destination name)).run world).2
  compile : ∀ batch, Maintains keeps fails (services.compile batch)

structure Serves (services : Services (StateM σ)) (destination : Path) (keeps : σ → Prop)
    (fails : Failure → Prop) : Prop extends Supports services destination keeps fails where
  loadFingerprints : Maintains keeps fails services.fingerprints.load
  loadOwnership : Maintains keeps fails services.ownership.load

variable {services : Services (StateM σ)} {project : Project} {keeps : σ → Prop}
  {fails : Failure → Prop}

/-!
# Restoring

Restoring keeps what is kept at the files of the backup and their directories.
-/

section Restoring

variable {path : Path}

theorem maintains_removeIfThere_of_removeFile
    (hremove : ∀ world, keeps world → keeps ((services.host.removeFile path).run world).2)
    (hdisk : ∀ cause, fails (.disk path cause)) :
    Maintains keeps fails (Backup.removeIfThere services.host path) := by
  refine (maintains_lift hremove).bind fun removed => ?_
  rcases removed with fault | _
  · cases fault <;> first | exact maintains_pure () | exact maintains_throw (hdisk _)
  · exact maintains_pure ()

theorem maintains_restoreFile
    (hmake : ∀ parent, path.parent? = some parent → ∀ world, keeps world →
      keeps ((services.host.makeDirectories parent).run world).2)
    (hwrite : ∀ bytes world, keeps world →
      keeps ((services.host.writeFile path bytes).run world).2)
    (hremove : ∀ world, keeps world → keeps ((services.host.removeFile path).run world).2)
    (hdisk : ∀ place cause, fails (.disk place cause)) (previous : Option Bytes) :
    Maintains keeps fails (Backup.restoreFile services.host path previous) := by
  cases previous with
  | none => exact maintains_removeIfThere_of_removeFile hremove (hdisk path)
  | some bytes =>
      have hwritten := maintains_diskAt path (hwrite bytes) (hdisk path)
      rw [Backup.restoreFile]
      cases hparent : path.parent? with
      | none => exact hwritten
      | some parent =>
          have hmade := maintains_diskAt parent (hmake parent hparent) (hdisk parent)
          exact hmade.bind fun _ => hwritten

theorem maintains_restore {backup : Backup}
    (h : ∀ entry ∈ backup.saved.toList,
      Maintains keeps fails (Backup.restoreFile services.host entry.2.1 entry.2.2)) :
    Maintains keeps fails (backup.restore services.host) := by
  unfold Backup.restore
  revert h
  induction backup.saved.toList with
  | nil => exact fun _ => maintains_pure ()
  | cons entry rest ih =>
      intro h
      have hrest := ih fun other hother => h other (List.mem_cons_of_mem _ hother)
      exact (h entry List.mem_cons_self).bind fun _ => hrest

end Restoring

namespace Supports

theorem restore {destination : Path} (h : Supports services destination keeps fails)
    {backup : Backup} (hkept : backup.WellKept destination fun _ => True) :
    Maintains keeps fails (backup.restore services.host) := by
  refine maintains_restore fun entry hentry => ?_
  rw [Std.ExtTreeMap.mem_toList_iff_getElem?_eq_some] at hentry
  rcases hkept entry.1 entry.2.1 entry.2.2 hentry with ⟨name, _, hpath, _⟩
  rw [hpath]
  exact maintains_restoreFile (h.makeDirectories name) (h.writeFile name) (h.removeFile name)
    h.disk entry.2.2

/-!
# Steps

The survey stays as it is from the first step to the last.
-/

variable (h : Supports services project.destination keeps fails) (survey : Survey)
include h

theorem backUpFile (path : Path) :
    (backUpFile services path).Maintains
      (fun progress world => progress.survey = survey ∧ keeps world) fails := by
  intro progress world hkeeps
  by_cases hsaved : progress.backup.isSaved path = true
  · rw [runFrom_backUpFile_of_saved hsaved]
    exact ⟨hkeeps, nofun⟩
  · rw [runFrom_backUpFile_of_not_saved (Bool.eq_false_iff.mpr hsaved)]
    have hread := h.readFile path world hkeeps.2
    rcases hfound : (services.host.readFile path).run world with ⟨found, left⟩
    rw [hfound] at hread
    rcases found with fault | bytes
    · cases fault
      case notFound => exact ⟨⟨hkeeps.1, hread⟩, nofun⟩
      all_goals
        constructor
        · exact ⟨hkeeps.1, hread⟩
        · intro error herror
          cases herror
          exact h.disk path _
    · exact ⟨⟨hkeeps.1, hread⟩, nofun⟩

theorem compileStep (sources : List String) :
    (Build.compile services project sources).Maintains
      (fun progress world => progress.survey = survey ∧ keeps world) fails := by
  unfold Build.compile
  by_cases hnone : sources = []
  · rw [if_pos hnone]
    exact Step.maintains_pure _
  · rw [if_neg hnone]
    intro progress world hkeeps
    have hcalled := h.compile (project.batch sources) world hkeeps.2
    exact ⟨⟨hkeeps.1, hcalled.1⟩, hcalled.2⟩

theorem works (before : Snapshot) :
    Works services project before (fun _ => True)
      (fun progress world => progress.survey = survey ∧ keeps world) fails := by
  have hperform : ∀ {α : Type} {operation : ExceptT Failure (StateM σ) α},
      Maintains keeps fails operation →
        Step.Maintains (fun progress world => progress.survey = survey ∧ keeps world) fails
          (perform operation) := by
    intro α operation hoperation progress world hkeeps
    have hkept := hoperation world hkeeps.2
    exact ⟨⟨hkeeps.1, hkept.1⟩, hkept.2⟩
  constructor
  · exact hperform (h.take _)
  · exact fun name _ => h.backUpFile survey _
  · exact fun name _ => hperform
      (maintains_removeIfThere_of_removeFile (h.removeFile name) (h.disk _))
  · intro sources
    refine (h.compileStep survey sources).bind fun outcome => ?_
    exact fun _ _ hkeeps => ⟨hkeeps, nofun⟩
  · exact fun _ _ _ => trivial

theorem compileChanges
    (hdepends : ∀ before after ledger error,
      dependantSources before after ledger = .error error → fails error)
    (changes : SourceChanges) (register : Ownership) :
    (compileChanges services project changes register).Maintains
      (fun progress world => progress.survey = survey ∧ keeps world) fails :=
  maintains_compileChanges (h.works survey) hdepends changes register.holdsOnly_true

theorem compileAll {observation : Observation} (hseen : survey.observation = some observation) :
    (compileAll services project).Maintains
      (fun progress world => progress.survey = survey ∧ keeps world) fails :=
  maintains_compileAll (fun _ _ hkeeps => (congrArg _ hkeeps.1).trans hseen) (h.compileStep survey)

end Supports

namespace Serves

variable (h : Serves services project.destination keeps fails)
include h

theorem lookForChanges : Maintains keeps fails (lookForChanges services project) := by
  refine Maintains.bind ?_ fun survey => h.changes survey
  exact h.loadFingerprints.bind fun _ => maintains_pure _

theorem compileNeeded (survey : Survey) {observation : Observation}
    (hseen : survey.observation = some observation)
    (hdepends : ∀ before after ledger error,
      dependantSources before after ledger = .error error → fails error)
    (changes : SourceChanges) :
    (compileNeeded services project changes).Maintains
      (fun progress world => progress.survey = survey ∧ keeps world) fails := by
  refine maintains_compileNeeded ?_ (h.compileChanges survey hdepends changes)
    (h.compileAll survey hseen)
  intro progress world hkeeps
  have hloaded := h.loadOwnership world hkeeps.2
  exact ⟨⟨hkeeps.1, hloaded.1⟩, hloaded.2⟩

end Serves

/-!
# What is backed up

Whatever the services do, a build backs up class files of the destination only.
-/

section BackedUp

variable (services : Services (StateM σ)) (project : Project) (observation : Observation)

def BacksUp (destination : Path) (observation : Observation) (progress : Progress) (_ : σ) : Prop :=
  progress.survey.observation = some observation ∧
    progress.backup.WellKept destination fun _ => True

theorem maintains_backsUp_compile (sources : List String) :
    (compile services project sources).Maintains
      (BacksUp project.destination observation) fun _ => True := by
  unfold compile
  by_cases hnone : sources = []
  · rw [if_pos hnone]
    exact Step.maintains_pure _
  · rw [if_neg hnone]
    exact fun _ _ hbacks => ⟨hbacks, fun _ _ => trivial⟩

theorem works_backsUp (before : Snapshot) :
    Works services project before (fun _ => True) (BacksUp project.destination observation)
      fun _ => True := by
  have hperform : ∀ {α : Type} (operation : ExceptT Failure (StateM σ) α),
      Step.Maintains (BacksUp project.destination observation) (fun _ => True)
        (perform operation) :=
    fun _ _ _ hbacks => ⟨hbacks, fun _ _ => trivial⟩
  constructor
  · exact hperform _
  · intro name _ progress world hbacks
    refine ⟨?_, fun _ _ => trivial⟩
    by_cases hsaved : progress.backup.isSaved (classFileIn project.destination name) = true
    · rw [runFrom_backUpFile_of_saved hsaved]
      exact hbacks
    · rw [runFrom_backUpFile_of_not_saved (Bool.eq_false_iff.mpr hsaved)]
      rcases (services.host.readFile (classFileIn project.destination name)).run world with
        ⟨fault | bytes, left⟩
      · cases fault
        case notFound => exact ⟨hbacks.1, hbacks.2.note trivial none⟩
        all_goals exact hbacks
      · exact ⟨hbacks.1, hbacks.2.note trivial (some bytes)⟩
  · exact fun name _ => hperform _
  · intro sources
    refine (maintains_backsUp_compile services project observation sources).bind fun outcome => ?_
    intro progress world hbacks
    exact ⟨⟨hbacks.1, hbacks.2.noteAbsent before fun _ _ => trivial⟩, nofun⟩
  · exact fun _ _ _ => trivial

theorem maintains_backsUp_compileNeeded (changes : SourceChanges) :
    (compileNeeded services project changes).Maintains
      (BacksUp project.destination observation) fun _ => True := by
  refine maintains_compileNeeded ?_ (fun register => ?_) ?_
  · exact fun _ _ hbacks => ⟨hbacks, fun _ _ => trivial⟩
  · exact maintains_compileChanges (works_backsUp services project observation)
      (fun _ _ _ _ _ => trivial) changes register.holdsOnly_true
  · exact maintains_compileAll (fun _ _ hbacks => hbacks.1)
      (maintains_backsUp_compile services project observation)

end BackedUp
end Build
end Recompile
