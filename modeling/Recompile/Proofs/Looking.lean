import Recompile.Proofs.ClassFiles

/-!
# Looking changes nothing

Listing directories, reading class files and surveying the sources leave every
class file as it is, also where they fail.
-/

namespace Recompile
namespace ClassFiles

variable {σ : Type} {host : Host (StateM σ)} {destination : Path}
  (files : ClassFiles host destination)

theorem looks (was : FileKey → Option Bytes) :
    Looks host (fun world => files.held world = was) (fun _ => True) where
  kindOf path world hwas := (files.kindOf_keeps path world).trans hwas
  filesBelow path world hwas := (files.filesBelow_keeps path world).trans hwas
  readFile path world hwas := (files.readFile_keeps path world).trans hwas
  modified path world hwas := (files.modified_keeps path world).trans hwas
  disk _ _ := trivial
  malformedClass _ _ := trivial

theorem spares_isDirectory (path : Path) :
    files.Spares (monadLift (host.isDirectory path) : ExceptT Failure (StateM σ) Bool) :=
  files.spares_iff_maintains.mpr fun was => (files.looks was).isDirectory path

theorem spares_classFiles (root : Path) : files.Spares (Find.classFiles host root) :=
  files.spares_iff_maintains.mpr fun was => (files.looks was).classFiles root

theorem spares_readClass (path : Path) : files.Spares (Inventory.readClass host path) :=
  files.spares_iff_maintains.mpr fun was => (files.looks was).readClass path

theorem spares_take (root : Path) : files.Spares (Inventory.take host root) :=
  files.spares_iff_maintains.mpr fun was => (files.looks was).take root

theorem spares_changes (survey : Survey) : files.Spares (survey.changes host) :=
  files.spares_iff_maintains.mpr fun was => (files.looks was).changes survey

theorem spares_surveyed (survey : Survey) : files.Spares (survey.sources host) :=
  files.spares_iff_maintains.mpr fun was => (files.looks was).surveyed survey

end ClassFiles
end Recompile
