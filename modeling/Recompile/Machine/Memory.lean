import Recompile.Machine.Host
import Recompile.Machine.Tree.Operations

/-!
# A machine in memory

A machine is a file tree, a working directory in it, a clock and the files
that are open. It is a host in every state monad over it: programs are played
by a function, which may change the machine as a running program would.
-/

namespace Recompile

/-- What an open file is: the file at a place, or one whose name is gone. -/
inductive Opened where
  | named (place : Place)
  | nameless (contents : FileContents)
deriving DecidableEq

structure Machine where
  tree : Tree
  workingDirectory : Place
  /-- The time that the next file to be written gets, in nanoseconds since the epoch. -/
  clock : Int
  opened : List Opened
  /-- The directories in which programs are looked for by name. -/
  programs : List Path

namespace Machine

def fresh (workingDirectory : Place) (clock : Int) : Machine :=
  let directories := (List.range workingDirectory.length).map fun n =>
    workingDirectory.take (n + 1)
  { tree := directories.foldl (fun tree place => tree.put place .directory) Tree.empty
    workingDirectory := workingDirectory
    clock := clock
    opened := []
    programs := [] }

def write (machine : Machine) (path : Path) (bytes : Bytes) : Except IoFault Machine :=
  (machine.tree.write machine.workingDirectory path bytes machine.clock).map fun tree =>
    { machine with tree := tree, clock := machine.clock + 1 }

/-- An open file after the tree became smaller; without its name it keeps its contents. -/
def Opened.after (before tree : Tree) : Opened → Opened
  | .named place =>
    match before.entryAt? place, tree.entryAt? place with
    | some (.file contents), none => .nameless contents
    | _, _ => .named place
  | .nameless contents => .nameless contents

def shrunkTo (machine : Machine) (tree : Tree) : Machine :=
  { machine with
    tree := tree
    opened := machine.opened.map (Opened.after machine.tree tree) }

def remove (machine : Machine) (path : Path) : Except IoFault Machine :=
  (machine.tree.remove machine.workingDirectory path).map machine.shrunkTo

def removeAll (machine : Machine) (path : Path) : Machine :=
  machine.shrunkTo (machine.tree.removeAll machine.workingDirectory path)

def makeDirectories (machine : Machine) (path : Path) : Except IoFault Machine :=
  (machine.tree.makeDirectories machine.workingDirectory path).map fun tree =>
    { machine with tree := tree }

def realPath (machine : Machine) (path : Path) : Except IoFault Path :=
  (machine.tree.realPlace machine.workingDirectory path).map fun place =>
    ⟨"/" ++ String.intercalate "/" place⟩

def openFile (machine : Machine) (path : Path) : Except IoFault (OpenFile × Machine) :=
  (machine.tree.openFile machine.workingDirectory path machine.clock).map fun (place, tree) =>
    (⟨machine.opened.length⟩,
      { machine with
        tree := tree
        clock := machine.clock + 1
        opened := machine.opened ++ [.named place] })

def contentsOf (machine : Machine) (file : OpenFile) : Except IoFault FileContents :=
  match machine.opened[file.number]? with
  | some (.named place) =>
    match machine.tree.entryAt? place with
    | some (.file contents) => .ok contents
    | _ => .error .isADirectory
  | some (.nameless contents) => .ok contents
  | none => .error .notFound

def placeLimit : Nat := 2 ^ 63

def fileLimit : Nat := 2 ^ 44

/-- How much is kept of a file; what is written behind cannot be read again. -/
def keptLimit : Nat := 2 ^ 28

def canWrite (pieces : List (Nat × Buffer)) : Except IoFault Unit :=
  if pieces.any fun (place, _) => placeLimit ≤ place then .error .invalidArgument
  else if pieces.any fun (place, piece) => fileLimit < place + piece.size then
    .error .fileTooLarge
  else .ok ()

def writeOpen (machine : Machine) (file : OpenFile) (pieces : List (Nat × Buffer)) :
    Except IoFault Machine := do
  let contents ← machine.contentsOf file
  canWrite pieces
  let kept := pieces.filter fun (place, piece) => place + piece.size ≤ keptLimit
  let buffer := contents.buffer.overlay kept
  match machine.opened[file.number]? with
  | some (.named place) =>
    return { machine with
      tree := machine.tree.overwrite place buffer machine.clock
      clock := machine.clock + 1 }
  | _ =>
    return { machine with
      opened := machine.opened.set file.number (.nameless { contents with buffer := buffer }) }

def canLaunchAt (machine : Machine) (program : Path) : Except IoFault Unit :=
  match machine.tree.lookup machine.workingDirectory program with
  | .error fault => .error fault
  | .ok (_, .file contents) => if contents.executable then .ok () else .error .permissionDenied
  | .ok _ => .error .permissionDenied

/--
Whether a program with this name can be started from one of the directories.
One that may not be started is passed over, but told of if there is no other.
-/
def canLaunchIn (machine : Machine) (name : String) (otherwise : IoFault) :
    List Path → Except IoFault Unit
  | [] => .error otherwise
  | directory :: directories =>
    match machine.canLaunchAt (directory.join ⟨name⟩) with
    | .ok () => .ok ()
    | .error .permissionDenied => canLaunchIn machine name .permissionDenied directories
    | .error .notFound => canLaunchIn machine name otherwise directories
    | .error .notADirectory => canLaunchIn machine name otherwise directories
    | .error fault => .error fault

/-- The bytes that one argument of a program may take, with the byte that ends it. -/
def argumentLimit : Nat := 131072

def argumentsLimit : Nat := 2097152

def areShort (arguments : List String) : Bool :=
  let sizes := arguments.map fun argument => argument.utf8ByteSize + 1
  sizes.all (fun size => size ≤ argumentLimit) && sizes.sum ≤ argumentsLimit

def canFind (machine : Machine) (program : Path) : Except IoFault Unit :=
  if '/' ∈ program.text.toList then machine.canLaunchAt program
  else if program.text = "" then .error .notFound
  else machine.canLaunchIn program.text .notFound machine.programs

def canLaunch (machine : Machine) (program : Path) (arguments : List String) :
    Except IoFault Unit :=
  let words := program.text :: arguments
  if words.any fun word => word.toList.contains '\x00' then .error .argumentWithNul
  else
    match machine.canFind program with
    | .error fault => .error fault
    | .ok () => if areShort words then .ok () else .error .argumentsTooLong

def change {m : Type → Type} [Monad m]
    (step : Machine → Except IoFault Machine) : StateT Machine m (Except IoFault Unit) := do
  match step (← get) with
  | .ok machine => do
    set machine
    return .ok ()
  | .error fault => return .error fault

def host {m : Type → Type} [Monad m]
    (run : Path → List String → StateT Machine m ProgramResult) : Host (StateT Machine m) where
  kindOf path := do
    let machine ← get
    return machine.tree.kindOf machine.workingDirectory path
  realPath path := do
    let machine ← get
    return machine.realPath path
  readFile path := do
    let machine ← get
    return (machine.tree.contents machine.workingDirectory path).map FileContents.bytes
  modified path := do
    let machine ← get
    return (machine.tree.contents machine.workingDirectory path).map FileContents.modified
  filesBelow path := do
    let machine ← get
    return machine.tree.filesBelow machine.workingDirectory path
  makeDirectories path := change fun machine => machine.makeDirectories path
  writeFile path bytes := change fun machine => machine.write path bytes
  removeFile path := change fun machine => machine.remove path
  openFile path := do
    match (← get).openFile path with
    | .ok (file, machine) => do
      set machine
      return .ok file
    | .error fault => return .error fault
  readOpen file := do
    let machine ← get
    return (machine.contentsOf file).map FileContents.buffer
  writeOpen file pieces := change fun machine => machine.writeOpen file pieces
  workingDirectory := do
    let machine ← get
    return ⟨"/" ++ String.intercalate "/" machine.workingDirectory⟩
  launch program arguments := do
    let machine ← get
    match machine.canLaunch program arguments with
    | .error fault => return .error fault
    | .ok () => return .ok (← run program arguments)
  milliseconds := return 0

end Machine
end Recompile
