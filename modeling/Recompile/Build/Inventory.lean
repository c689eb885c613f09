import Recompile.ClassFile.Surface
import Recompile.Surface.Snapshot
import Recompile.Sources.Find

/-!
# Taking a snapshot

Every class file below a directory is read, wherever it lies: a class goes by
the name in its file, not by the path of the file.
-/

namespace Recompile
namespace Inventory

variable {m : Type → Type} [Monad m]

def readClass (host : Host m) (path : Path) : ExceptT Failure m ClassSurface := do
  let bytes ← diskAt path (host.readFile path)
  match ClassFile.surfaceOf bytes with
  | .ok surface => return surface
  | .error reason => throw (.malformedClass path reason)

def take (host : Host m) (root : Path) : ExceptT Failure m Snapshot := do
  let files ← Find.classFiles host root
  let classes ← files.mapM (readClass host)
  return Snapshot.ofList classes

end Inventory
end Recompile
