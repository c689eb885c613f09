import Recompile.Compilation
import Recompile.Surface.Snapshot
import Recompile.Machine.Host

/-!
# Backing up class files

A build remembers each class file as it was before the build first touched
it, and that a file which the build created was not there. Putting all of
this back undoes the build.
-/

namespace Recompile

/--
What was at each path, `none` for a file that was not there. Paths with equal
components are the same file; the one noted first is used to reach it.
-/
structure Backup where
  saved : Std.ExtTreeMap (List Path.Component) (Path × Option Bytes)

def classFileIn (destination : Path) (name : ClassName) : Path :=
  destination.join name.classFile

namespace Backup

def empty : Backup :=
  ⟨∅⟩

def isSaved (backup : Backup) (path : Path) : Bool :=
  backup.saved.contains path.components

/-- Notes what was at a path; what was noted first stays. -/
def note (backup : Backup) (path : Path) (previous : Option Bytes) : Backup :=
  ⟨backup.saved.insertIfNew path.components (path, previous)⟩

def noteAbsent (destination : Path) (before : Snapshot) (backup : Backup)
    (classes : List ClassName) : Backup :=
  (classes.filter fun name => !before.contains name).foldl
    (fun backup name => backup.note (classFileIn destination name) none) backup

def noteProduced (destination : Path) (before : Snapshot) (backup : Backup)
    (outcome : Outcome) : Backup :=
  noteAbsent destination before backup outcome.classes

variable {m : Type → Type} [Monad m]

/-- Removes a file; one that is not there is fine. -/
def removeIfThere (host : Host m) (path : Path) : ExceptT Failure m Unit := do
  match ← (host.removeFile path : m _) with
  | .ok () => return ()
  | .error .notFound => return ()
  | .error cause => throw (.disk path cause)

def restoreFile (host : Host m) (path : Path) : Option Bytes → ExceptT Failure m Unit
  | none => removeIfThere host path
  | some bytes => do
    match path.parent? with
    | some parent => diskAt parent (host.makeDirectories parent)
    | none => pure ()
    diskAt path (host.writeFile path bytes)

/-- Puts every file back, in the order of the paths, up to the first failure. -/
def restore (host : Host m) (backup : Backup) : ExceptT Failure m Unit :=
  backup.saved.toList.forM fun (_, path, previous) => restoreFile host path previous

end Backup
end Recompile
