import Recompile.Machine.Tree

/-!
# Operations on a file tree

Each operation answers with its result or with the fault that it meets, and
where it changes the tree with the tree afterwards.
-/

namespace Recompile
namespace Tree

def kindOf (tree : Tree) (directory : Place) (path : Path) : Except IoFault FileKind :=
  match tree.lookup directory path with
  | .error fault => .error fault
  | .ok (_, .directory) => .ok .directory
  | .ok _ => .ok .file

def isDirectory (tree : Tree) (directory : Place) (path : Path) : Bool :=
  match tree.kindOf directory path with
  | .ok .directory => true
  | _ => false

def contents (tree : Tree) (directory : Place) (path : Path) : Except IoFault FileContents :=
  match tree.lookup directory path with
  | .error fault => .error fault
  | .ok (_, .file contents) => .ok contents
  | .ok _ => .error .isADirectory

def pathAlong (path : Path) (names : List String) : Path :=
  names.foldl (fun found name => found.join ⟨name⟩) path

/-- Whether an entry is a directory that its path is too long to look into. -/
def isOutOfReach (path : Path) (entry : Place × Entry) : Bool :=
  entry.2 = .directory && pathLimit ≤ (pathAlong path entry.1).text.utf8ByteSize

def filesBelow (tree : Tree) (directory : Place) (path : Path) : Except IoFault (List Path) :=
  match tree.lookup directory path with
  | .error fault => .error fault
  | .ok (place, .directory) =>
    let entries := tree.below place
    match entries.find? (isOutOfReach path) with
    | some (names, _) =>
      .error (.reported ((pathAlong path names).text ++ ": " ++ IoFault.nameTooLong.message))
    | none =>
      .ok
        (entries.filterMap fun (names, entry) =>
          match entry with
          | .file _ => some (pathAlong path names)
          | _ => none)
  | .ok _ => .error .notADirectory

def openFile (tree : Tree) (directory : Place) (path : Path) (now : Int) :
    Except IoFault (Place × Tree) :=
  match tree.resolve .writing directory path with
  | .error fault => .error fault
  | .ok (.absent place) => .ok (place, tree.put place (.file ⟨.empty, now, false⟩))
  | .ok (.present place (.file _)) => .ok (place, tree)
  | .ok (.present _ _) => .error .isADirectory

/-- Gives the file at a place new contents; its other properties stay. -/
def overwrite (tree : Tree) (place : Place) (buffer : Buffer) (now : Int) : Tree :=
  match tree.entryAt? place with
  | some (.file contents) =>
    tree.put place (.file { contents with buffer := buffer, modified := now })
  | _ => tree

def write (tree : Tree) (directory : Place) (path : Path) (bytes : Bytes) (now : Int) :
    Except IoFault Tree :=
  match tree.openFile directory path now with
  | .error fault => .error fault
  | .ok (place, opened) => .ok (opened.overwrite place (.ofBytes bytes) now)

def remove (tree : Tree) (directory : Place) (path : Path) : Except IoFault Tree :=
  match tree.resolve .entry directory path with
  | .error fault => .error fault
  | .ok (.absent _) => .error .notFound
  | .ok (.present _ .directory) => .error .isADirectory
  | .ok (.present place _) =>
    if asksForDirectory path then .error .notADirectory else .ok (tree.erase place)

def makeDirectory (tree : Tree) (directory : Place) (path : Path) : Except IoFault Tree :=
  match tree.resolve .entry directory path with
  | .error fault => .error fault
  | .ok (.absent place) => .ok (tree.put place .directory)
  | .ok (.present _ _) => .error .alreadyExists

/--
Makes a directory and as many of its parents as are missing. What is there
already is fine if it is a directory.
-/
def makeDirectoriesWithin : Nat → Tree → Place → Path → Except IoFault Tree
  | 0, _, _, _ => .error .notFound
  | levels + 1, tree, directory, path =>
    if path.text = "" then .ok tree
    else
      match tree.makeDirectory directory path with
      | .ok made => .ok made
      | .error .notFound =>
        match path.parent? with
        | none => .error .notFound
        | some parent =>
          match makeDirectoriesWithin levels tree directory parent with
          | .error fault => .error fault
          | .ok made =>
            match made.makeDirectory directory path with
            | .ok final => .ok final
            | .error fault => if made.isDirectory directory path then .ok made else .error fault
      | .error fault => if tree.isDirectory directory path then .ok tree else .error fault

def makeDirectories (tree : Tree) (directory : Place) (path : Path) : Except IoFault Tree :=
  makeDirectoriesWithin (path.pieces.length + 1) tree directory path

def removeAll (tree : Tree) (directory : Place) (path : Path) : Tree :=
  match tree.resolve .entry directory path with
  | .ok (.present place _) =>
    ⟨tree.entries.filter fun other _ => !place.isPrefixOf other⟩
  | _ => tree

end Tree
end Recompile
