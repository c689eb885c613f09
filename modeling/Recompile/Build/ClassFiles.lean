import Recompile.Build.Services

/-!
# Class files during a build

Before a class file may be overwritten or deleted it is backed up, unless
that has been done already. A batch of sources is compiled once the files of
the classes that they own are backed up.
-/

namespace Recompile
namespace Build

variable {m : Type → Type} [Monad m]

def backUpFile (services : Services m) (path : Path) : Step m Unit := do
  let progress ← get
  if progress.backup.isSaved path then return ()
  match ← (services.host.readFile path : m _) with
  | .ok bytes => modifyBackup fun backup => backup.note path (some bytes)
  | .error .notFound => modifyBackup fun backup => backup.note path none
  | .error cause => throw (.disk path cause)

def backUp (services : Services m) (project : Project) (classes : ClassSet) : Step m Unit :=
  classes.toList.forM fun name => backUpFile services (classFileIn project.destination name)

def backUpOwned (services : Services m) (project : Project) (ownership : Ownership)
    (sources : List String) : Step m Unit :=
  sources.forM fun source =>
    match ownership.classesOf? source with
    | some classes => backUp services project classes
    | none => return ()

def deleteClassFiles (services : Services m) (project : Project) (classes : ClassSet) :
    Step m Unit :=
  classes.toList.forM fun name =>
    perform (Backup.removeIfThere services.host (classFileIn project.destination name))

/-- Compiles a batch of sources, with the class files that they own backed up. -/
def compileBatch (services : Services m) (project : Project) (before : Snapshot)
    (ownership : Ownership) (sources : List String) : Step m Outcome := do
  backUpOwned services project ownership sources
  let outcome ← compile services project sources
  modifyBackup fun backup => backup.noteProduced project.destination before outcome
  return outcome

end Build
end Recompile
