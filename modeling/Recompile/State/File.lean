import Recompile.Machine.Host
import Recompile.State.Table

/-!
# The state file

The tables that survive between builds are in one file with a lock file
beside it. The file stays open during a build, so it can be read and saved to
when its name is gone. An open state file is a store of tables for as long as
it is handed on from one operation to the next.
-/

namespace Recompile

structure StateFile where
  file : OpenFile
  session : State.Session

def lockPath (path : Path) : Path :=
  ⟨path.text ++ "-lock"⟩

namespace StateFile

variable {m : Type → Type} [Monad m]

def onDisk {α : Type} (operation : m (Except IoFault α)) : ExceptT Failure m α := do
  match ← (operation : m _) with
  | .ok value => return value
  | .error fault => throw (.state (.disk fault))

/--
The file that a path stands for, without links. One that is not there yet
needs a directory that the path itself names.
-/
def locate (host : Host m) (path : Path) : ExceptT Failure m Path := do
  match ← (host.realPath path : m _) with
  | .ok found => return found
  | .error .notFound =>
    match path.parent?, path.fileName? with
    | some parent, some name => do
      let directory ← onDisk (host.realPath parent)
      return directory.join ⟨name⟩
    | _, _ => throw (.state (.disk .notFound))
  | .error fault => throw (.state (.disk fault))

def lockSize : Nat := 8192

def lockContents : Buffer :=
  Buffer.ofNumbers lockSize [(4, State.signature)]

/--
Opens the state file at a path, making its directory and files where they are
missing. A file without contents gets the form of a state file; any other has
to have it.
-/
def openAt (host : Host m) (path : Path) : ExceptT Failure m StateFile := do
  match path.parent? with
  | some parent => diskAt parent (host.makeDirectories parent)
  | none => pure ()
  let found ← locate host path
  let lock ← onDisk (host.openFile (lockPath found))
  onDisk (host.writeOpen lock [(0, lockContents)])
  let file ← onDisk (host.openFile found)
  match State.Session.start (← onDisk (host.readOpen file)) with
  | .error fault => throw (.state fault)
  | .ok (session, pieces) => do
    if !pieces.isEmpty then
      onDisk (host.writeOpen file pieces)
    return ⟨file, session⟩

/-!
# Reading and saving
-/

def catalogName (name : State.TableName) : Buffer :=
  Buffer.ofBytes (Bytes.ofText name.text)

def readTable (host : Host m) (name : State.TableName) :
    StateT StateFile m (Except StateFault (Option State.Scan)) := do
  let state ← get
  match ← StateT.lift (host.readOpen state.file) with
  | .error fault => return .error (.disk fault)
  | .ok contents => do
    let (scan, session) := state.session.read contents (catalogName name)
    set { state with session := session }
    return scan

def changeTable (host : Host m) (name : State.TableName) (edits : List State.Edit) :
    StateT StateFile m (Except StateFault Unit) := do
  let state ← get
  match ← StateT.lift (host.readOpen state.file) with
  | .error fault => return .error (.disk fault)
  | .ok contents =>
    let (result, session) := state.session.change contents (catalogName name) edits
    match result with
    | .error fault => do
      set { state with session := session }
      return .error fault
    | .ok pieces =>
      match ← StateT.lift (host.writeOpen state.file pieces) with
      | .ok () => do
        set { state with session := session }
        return .ok ()
      | .error fault => do
        set { state with session := state.session.undo session }
        return .error (.disk fault)

def store (host : Host m) : State.TableStore (StateT StateFile m) where
  read := readTable host
  change := changeTable host

end StateFile

/-!
# Clearing

The next build after the state was cleared compiles everything.
-/

structure ClearFault where
  what : String
  path : Path
  cause : IoFault
deriving DecidableEq

def ClearFault.chain (fault : ClearFault) : List String :=
  ["Failed to remove " ++ fault.what ++ " file: " ++ fault.path.text, fault.cause.message]

namespace StateFile

variable {m : Type → Type} [Monad m]

def removeIfPresent (host : Host m) (what : String) (path : Path) :
    ExceptT ClearFault m Unit := do
  if ← host.isPresent path then
    match ← (host.removeFile path : m _) with
    | .ok () => return ()
    | .error cause => throw ⟨what, path, cause⟩

def clear (host : Host m) (path : Path) : ExceptT ClearFault m Unit := do
  removeIfPresent host "state" path
  removeIfPresent host "state lock" (lockPath path)

end StateFile
end Recompile
