import Recompile.Build.ClassFiles
import Recompile.Proofs.Build.Sweep
import Recompile.Proofs.Ownership.Sequences

/-!
# Backing up and deleting

A class file that is backed up is noted as it is found. Deleting looks at no
backup: it is a sweep only where the files are backed up already.
-/

namespace Recompile

def fileKeys (destination : Path) (classes : ClassSet) : Set FileKey :=
  {key | ∃ name ∈ classes, fileKey destination name = key}

theorem mem_fileKeys {destination : Path} {classes : ClassSet} {key : FileKey} :
    key ∈ fileKeys destination classes ↔ ∃ name ∈ classes, fileKey destination name = key :=
  Iff.rfl

theorem setOf_mem_toList_eq_fileKeys (destination : Path) (classes : ClassSet) :
    {key | ∃ name ∈ classes.toList, key ∈ ({fileKey destination name} : Set FileKey)} =
      fileKeys destination classes := by
  ext key
  simp [mem_fileKeys, Std.ExtTreeSet.mem_toList, Set.mem_singleton_iff, eq_comm]

namespace Build

variable {σ α : Type} {services : Services (StateM σ)} {project : Project}
  {files : ClassFiles services.host project.destination}

theorem runFrom_backUpFile_of_saved {path : Path} {progress : Progress}
    (hsaved : progress.backup.isSaved path = true) (world : σ) :
    (backUpFile services path).runFrom progress world = (.ok (), progress, world) := by
  rw [backUpFile, Step.runFrom_bind, Step.runFrom_get]
  simp only [hsaved, if_true]
  rfl

theorem runFrom_backUpFile_of_not_saved {path : Path} {progress : Progress}
    (hsaved : progress.backup.isSaved path = false) (world : σ) :
    (backUpFile services path).runFrom progress world =
      match (services.host.readFile path).run world with
      | (.ok bytes, world) =>
        (.ok (), { progress with backup := progress.backup.note path (some bytes) }, world)
      | (.error .notFound, world) =>
        (.ok (), { progress with backup := progress.backup.note path none }, world)
      | (.error cause, world) => (.error (.disk path cause), progress, world) := by
  rw [backUpFile, Step.runFrom_bind, Step.runFrom_get]
  simp only [hsaved]
  rw [if_neg Bool.false_ne_true]
  rw [Step.runFrom_bind, Step.runFrom_lift]
  rcases (services.host.readFile path).run world with ⟨found, world'⟩
  rcases found with fault | bytes
  · cases fault <;> rfl
  · rfl

theorem sweeps_backUpFile {name : ClassName} (hname : name.LeadsBelow) (progress : Progress)
    (world : σ) :
    Sweeps files {fileKey project.destination name} ∅
      (backUpFile services (classFileIn project.destination name)) progress world := by
  by_cases hsaved : progress.backup.isSaved (classFileIn project.destination name) = true
  · refine Sweeps.of_sweep (runFrom_backUpFile_of_saved hsaved world) (Sweep.of_noted ?_ rfl)
    intro key hkey
    rw [Backup.isSaved_eq_isSome_noted?, Option.isSome_iff_ne_none] at hsaved
    rw [Set.mem_singleton_iff.mp hkey]
    exact hsaved
  · have hrun : (backUpFile services (classFileIn project.destination name)).runFrom progress
        world = _ := runFrom_backUpFile_of_not_saved (Bool.eq_false_iff.mpr hsaved) world
    have hkeeps := files.readFile_keeps (classFileIn project.destination name) world
    rcases hread : (services.host.readFile (classFileIn project.destination name)).run world with
      ⟨found, world'⟩
    have hfound : ((services.host.readFile
        (classFileIn project.destination name)).run world).1 = found := by
      rw [hread]
    rw [hread] at hrun hkeeps
    cases found with
    | ok bytes =>
        have hheld := files.readFile_ok hname hfound
        exact Sweeps.of_sweep hrun (Sweep.of_note hname hheld hkeeps)
    | error fault =>
        by_cases hmissing : fault = .notFound
        · subst hmissing
          have hheld := files.readFile_notFound hname hfound
          exact Sweeps.of_sweep hrun (Sweep.of_note hname hheld hkeeps)
        · have herror : (backUpFile services (classFileIn project.destination name)).runFrom
              progress world =
                (.error (.disk (classFileIn project.destination name) fault), progress,
                  world') := by
            rw [hrun]
            cases fault <;> first | rfl | exact absurd rfl hmissing
          exact Sweeps.of_error herror hkeeps

theorem sweeps_backUp {classes : ClassSet} (hbelow : ∀ name ∈ classes, name.LeadsBelow)
    (progress : Progress) (world : σ) :
    Sweeps files (fileKeys project.destination classes) ∅ (backUp services project classes)
      progress world := by
  rw [← setOf_mem_toList_eq_fileKeys]
  refine Sweeps.forM classes.toList (fun name hname => ?_) progress world
  exact sweeps_backUpFile (hbelow name (Std.ExtTreeSet.mem_toList.mp hname))

def ownedKeys (destination : Path) (ownership : Ownership) (sources : List String) :
    Set FileKey :=
  {key | ∃ source ∈ sources, ∃ classes,
    ownership.classesOf? source = some classes ∧ key ∈ fileKeys destination classes}

theorem sweeps_backUpOwned {ownership : Ownership} (hbelow : ownership.LeadsBelow)
    (sources : List String) (progress : Progress) (world : σ) :
    Sweeps files (ownedKeys project.destination ownership sources) ∅
      (backUpOwned services project ownership sources) progress world := by
  have hkeys : ownedKeys project.destination ownership sources =
      {key | ∃ source ∈ sources, key ∈ ownedKeys project.destination ownership [source]} := by
    simp [ownedKeys]
  rw [hkeys]
  refine Sweeps.forM sources (fun source _ middle between => ?_) progress world
  cases hclasses : ownership.classesOf? source with
  | none => simpa [ownedKeys, hclasses] using Sweeps.of_pure files () middle between
  | some classes =>
      have howned : ∀ name ∈ classes, name.LeadsBelow :=
        fun name hname => hbelow ⟨classes, hclasses, hname⟩
      simpa [ownedKeys, hclasses] using sweeps_backUp howned middle between

theorem deletes_deleteClassFile {name : ClassName} (hname : name.LeadsBelow)
    (progress : Progress) (world : σ) :
    Deletes files {fileKey project.destination name}
      (perform (Backup.removeIfThere services.host (classFileIn project.destination name)))
      progress world := by
  rcases hremoved : runIn (Backup.removeIfThere services.host
    (classFileIn project.destination name)) world with ⟨result, world'⟩
  have hrun : Step.runFrom
      (perform (Backup.removeIfThere services.host (classFileIn project.destination name)))
      progress world = (result, progress, world') := by
    rw [Step.runFrom_perform, hremoved]
  cases result with
  | ok value =>
      exact Deletes.of_deletion hrun (Deletion.of_update (files.held_removeIfThere hname hremoved))
  | error error => exact Deletes.of_error hrun (files.held_removeIfThere_error hname hremoved)

theorem deletes_deleteClassFiles {classes : ClassSet} (hbelow : ∀ name ∈ classes, name.LeadsBelow)
    (progress : Progress) (world : σ) :
    Deletes files (fileKeys project.destination classes)
      (deleteClassFiles services project classes) progress world := by
  rw [← setOf_mem_toList_eq_fileKeys]
  refine Deletes.forM classes.toList (fun name hname => ?_) world
  exact deletes_deleteClassFile (hbelow name (Std.ExtTreeSet.mem_toList.mp hname)) progress

end Build
end Recompile
