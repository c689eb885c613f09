import Std.Data.ExtTreeMap
import Recompile.Machine.Host

/-!
# File trees

A file tree maps places to directories, files and symbolic links. A place is
the list of names that leads to it from the root. Paths are resolved piece by
piece, as an operating system does it, so that every operation fails for the
reason it would fail for there.
-/

namespace Recompile

abbrev Place := List String

structure FileContents where
  buffer : Buffer
  /-- When the file was last written, in nanoseconds since the epoch. -/
  modified : Int
  executable : Bool
deriving DecidableEq

def FileContents.bytes (contents : FileContents) : Bytes :=
  contents.buffer.toBytes

inductive Entry where
  | directory
  | file (contents : FileContents)
  | link (target : Path)
deriving DecidableEq

structure Tree where
  entries : Std.ExtTreeMap Place Entry

namespace Tree

def empty : Tree :=
  ⟨∅⟩

/-- The root is a directory that no entry can hide. -/
def entryAt? (tree : Tree) (place : Place) : Option Entry :=
  if place = [] then some .directory else tree.entries[place]?

def put (tree : Tree) (place : Place) (entry : Entry) : Tree :=
  ⟨tree.entries.insert place entry⟩

def erase (tree : Tree) (place : Place) : Tree :=
  ⟨tree.entries.erase place⟩

def below (tree : Tree) (place : Place) : List (Place × Entry) :=
  tree.entries.toList.filterMap fun (other, entry) =>
    match place.isPrefixOf? other with
    | some (name :: names) => some (name :: names, entry)
    | _ => none

/-!
# Resolving paths

Names are looked up one after the other. A link on the way is replaced by the
names of its target; the number of links that may be followed is limited. A
slash at the end of a path, or of the target of a link that ends it, asks for
a directory.
-/

def nameLimit : Nat := 255

def pathLimit : Nat := 4096

def linkLimit : Nat := 40

inductive Purpose where
  /-- For what it leads to, through links. -/
  | target
  /-- For a file at its target that is made if it is missing. -/
  | writing
  /-- For its own entry, which may be a link. -/
  | entry
deriving DecidableEq

inductive Spot where
  | present (place : Place) (entry : Entry)
  /-- Nothing, in a directory that could take it. -/
  | absent (place : Place)
deriving DecidableEq

/-- How far names lead before a link stands in the way. -/
inductive Course where
  | arrived (spot : Spot)
  | detour (directory : Place) (target : Path) (names : List String)
  | failed (fault : IoFault)
deriving DecidableEq

def arrive (purpose : Purpose) (slash : Bool) (directory place : Place) :
    Option Entry → Course
  | none => .arrived (.absent place)
  | some .directory => .arrived (.present place .directory)
  | some (.file contents) =>
    if purpose = .target ∧ slash then .failed .notADirectory
    else .arrived (.present place (.file contents))
  | some (.link target) =>
    if purpose = .entry then .arrived (.present place (.link target))
    else .detour directory target []

/-- Follows names from a directory; no file is made under a name with a slash after it. -/
def follow (tree : Tree) (purpose : Purpose) (slash : Bool) (directory : Place) :
    List String → Course
  | [] => .arrived (.present directory .directory)
  | name :: names =>
    if name = "." then follow tree purpose slash directory names
    else if name = ".." then follow tree purpose slash directory.dropLast names
    else if names = [] ∧ purpose = .writing ∧ slash then .failed .isADirectory
    else if nameLimit < name.utf8ByteSize then .failed .nameTooLong
    else
      let place := directory ++ [name]
      match names, tree.entryAt? place with
      | [], entry => arrive purpose slash directory place entry
      | _ :: _, none => .failed .notFound
      | _ :: _, some .directory => follow tree purpose slash place names
      | _ :: _, some (.file _) => .failed .notADirectory
      | _ :: _, some (.link target) => .detour directory target names

def names (path : Path) : List String :=
  path.pieces.filter fun piece => piece ≠ ""

def start (directory : Place) (path : Path) : Place :=
  if path.isAbsolute then [] else directory

def asksForDirectory (path : Path) : Bool :=
  path.text.toList.getLast? = some '/'

def resolveWithin (tree : Tree) (purpose : Purpose) :
    Nat → Bool → Place → List String → Except IoFault Spot
  | 0, _, _, _ => .error .tooManyLinks
  | links + 1, slash, directory, names =>
    match tree.follow purpose slash directory names with
    | .arrived spot => .ok spot
    | .failed fault => .error fault
    | .detour from_ target rest =>
      let slash := slash || (rest.isEmpty && asksForDirectory target)
      resolveWithin tree purpose links slash (start from_ target) (Tree.names target ++ rest)

def resolveAny (tree : Tree) (purpose : Purpose) (directory : Place) (path : Path) :
    Except IoFault Spot :=
  if '\x00' ∈ path.text.toList then .error .pathWithNul
  else if path.text = "" then .error .notFound
  else
    resolveWithin tree purpose (linkLimit + 1) (asksForDirectory path) (start directory path)
      (names path)

def resolve (tree : Tree) (purpose : Purpose) (directory : Place) (path : Path) :
    Except IoFault Spot :=
  if pathLimit ≤ path.text.utf8ByteSize ∧ '\x00' ∉ path.text.toList then .error .nameTooLong
  else tree.resolveAny purpose directory path

/-- The place that a path leads to; the path may be of any length, but not that of the place. -/
def realPlace (tree : Tree) (directory : Place) (path : Path) : Except IoFault Place :=
  match tree.resolveAny .target directory path with
  | .error fault => .error fault
  | .ok (.absent _) => .error .notFound
  | .ok (.present place _) =>
    if pathLimit ≤ (String.intercalate "/" ("" :: place)).utf8ByteSize then .error .nameTooLong
    else .ok place

def lookup (tree : Tree) (directory : Place) (path : Path) : Except IoFault (Place × Entry) :=
  match tree.resolve .target directory path with
  | .error fault => .error fault
  | .ok (.absent _) => .error .notFound
  | .ok (.present place entry) => .ok (place, entry)

end Tree
end Recompile
