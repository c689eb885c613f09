import Recompile.Machine.Host

/-!
# Finding files

Sources and class files are found by their extension below a directory.
Sources go by their key, the path below the root with slashes; class files
keep the root in front.
-/

namespace Recompile

def sourceExtension : String := "java"

def classExtension : String := "class"

/-- The path of a source below its root; none for the root itself and for paths elsewhere. -/
def sourceKey? (root path : Path) : Option String :=
  match root.below? path with
  | none => none
  | some [] => none
  | some components => some (String.intercalate "/" (components.map Path.Component.text))

namespace Find

def withExtension (extension : String) (files : List Path) : List Path :=
  files.filter fun path => path.extension? = some extension

def sortKeys (keys : List String) : List String :=
  keys.mergeSort fun a b => (compare a b).isLE

def sortPaths (paths : List Path) : List Path :=
  let keyed := paths.map fun path => (path.components, path)
  (keyed.mergeSort fun a b => (compare a.1 b.1).isLE).map Prod.snd

variable {m : Type → Type} [Monad m]

/-- Whether a root is a single dash, which stands for standard input. -/
def isStandardInput (root : Path) : Bool :=
  root.components = [.normal "-"]

def files (host : Host m) (root : Path) : ExceptT Failure m (List Path) :=
  if isStandardInput root then return []
  else diskAt root (host.filesBelow root)

def sources (host : Host m) (root : Path) : ExceptT Failure m (List String) := do
  if !(← host.isDirectory root) then
    throw (.disk root .sourceRootMissing)
  let files ← files host root
  return sortKeys ((withExtension sourceExtension files).filterMap (sourceKey? root))

/-- All class files below a directory, sorted; a missing directory has none. -/
def classFiles (host : Host m) (root : Path) : ExceptT Failure m (List Path) := do
  if !(← host.isDirectory root) then
    return []
  let files ← files host root
  return sortPaths (withExtension classExtension files)

end Find
end Recompile
