import Recompile.Build.Backup
import Recompile.Build.Report
import Recompile.Sources.Survey

/-!
# What a build works with

A build reaches its surroundings through services: a host, a compiler, and
the cells for what is kept between builds. While it is under way it has a
survey of the sources and a backup of class files, and both are still there
when it fails.
-/

namespace Recompile

structure Services (m : Type → Type) where
  host : Host m
  compile : Batch → ExceptT Failure m Outcome
  method : FingerprintMethod
  fingerprints : Cell m Fingerprints
  ownership : Cell m Ownership

structure Project where
  sourceRoot : Path
  destination : Path
  classpath : String
deriving DecidableEq

def Project.batch (project : Project) (sources : List String) : Batch :=
  ⟨project.sourceRoot, sources, project.classpath, project.destination⟩

namespace Build

/-- What a build knows while it is under way, also at the moment at which it fails. -/
structure Progress where
  survey : Survey
  backup : Backup

abbrev Step (m : Type → Type) := ExceptT Failure (StateT Progress m)

/-- What a build comes to before anything is saved. -/
structure Draft where
  mode : Mode
  ownership : Ownership
  statuses : Std.ExtTreeMap String SourceStatus
  dependants : SourceSet
  success : Bool

variable {m : Type → Type} [Monad m]

def perform {α : Type} (operation : ExceptT Failure m α) : Step m α :=
  ExceptT.mk (StateT.lift operation.run)

def modifyBackup (change : Backup → Backup) : Step m Unit :=
  modify fun progress => { progress with backup := change progress.backup }

def compile (services : Services m) (project : Project) (sources : List String) :
    Step m Outcome :=
  if sources = [] then return .nothing
  else perform (services.compile (project.batch sources))

end Build
end Recompile
