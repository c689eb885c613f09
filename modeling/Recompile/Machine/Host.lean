import Recompile.Buffer
import Recompile.Failure

/-!
# The host

A build reaches files, programs and the clock through a host. The library is
written once over any monad that offers these operations; a machine in memory
and a real one are two of them.
-/

namespace Recompile

structure ProgramResult where
  exitCode : Nat
  standardOutput : Bytes
  standardError : Bytes

/-- What a path leads to, through links. -/
inductive FileKind where
  | directory
  | file
deriving DecidableEq

structure OpenFile where
  number : Nat
deriving DecidableEq

structure Host (m : Type → Type) where
  kindOf : Path → m (Except IoFault FileKind)
  /-- The absolute path without links of what a path leads to. -/
  realPath : Path → m (Except IoFault Path)
  readFile : Path → m (Except IoFault Bytes)
  /-- When a file was last written, in nanoseconds since the epoch. -/
  modified : Path → m (Except IoFault Int)
  /-- The regular files below a directory; links inside it are not followed. -/
  filesBelow : Path → m (Except IoFault (List Path))
  /-- Makes a directory with its parents; one that is there already is fine. -/
  makeDirectories : Path → m (Except IoFault Unit)
  writeFile : Path → Bytes → m (Except IoFault Unit)
  removeFile : Path → m (Except IoFault Unit)
  /-- Opens a file, which is made if it is missing. It stays usable when its name is gone. -/
  openFile : Path → m (Except IoFault OpenFile)
  readOpen : OpenFile → m (Except IoFault Buffer)
  /-- Writes pieces of an open file at their places. Before and between them it may grow. -/
  writeOpen : OpenFile → List (Nat × Buffer) → m (Except IoFault Unit)
  workingDirectory : m Path
  launch : Path → List String → m (Except IoFault ProgramResult)
  /-- The time in milliseconds since some fixed moment. -/
  milliseconds : m Nat

variable {m : Type → Type} [Monad m]

def Host.isDirectory (host : Host m) (path : Path) : m Bool := do
  match ← host.kindOf path with
  | .ok .directory => return true
  | _ => return false

def Host.isPresent (host : Host m) (path : Path) : m Bool := do
  match ← host.kindOf path with
  | .ok _ => return true
  | .error _ => return false

def Host.lift {σ : Type} (host : Host m) : Host (StateT σ m) where
  kindOf path := StateT.lift (host.kindOf path)
  realPath path := StateT.lift (host.realPath path)
  readFile path := StateT.lift (host.readFile path)
  modified path := StateT.lift (host.modified path)
  filesBelow path := StateT.lift (host.filesBelow path)
  makeDirectories path := StateT.lift (host.makeDirectories path)
  writeFile path bytes := StateT.lift (host.writeFile path bytes)
  removeFile path := StateT.lift (host.removeFile path)
  openFile path := StateT.lift (host.openFile path)
  readOpen file := StateT.lift (host.readOpen file)
  writeOpen file pieces := StateT.lift (host.writeOpen file pieces)
  workingDirectory := StateT.lift host.workingDirectory
  launch program arguments := StateT.lift (host.launch program arguments)
  milliseconds := StateT.lift host.milliseconds

/-- Names the path at which an operation failed. -/
def diskAt {α : Type} (path : Path)
    (operation : m (Except IoFault α)) : ExceptT Failure m α := do
  match ← (operation : m _) with
  | .ok value => return value
  | .error cause => throw (.disk path cause)

end Recompile
