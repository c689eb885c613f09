import Recompile.Build.ClassFiles

/-!
# The ledger of a build

The register changes while a build runs. Classes that a source lost, or that
a removed source owned, are gone with their files; classes that were produced
may be new. The ledger keeps account of both.
-/

namespace Recompile
namespace Build

variable {m : Type → Type} [Monad m]

/-- The register so far, with the classes that were lost and those that were produced. -/
structure Ledger where
  ownership : Ownership
  lost : ClassSet
  produced : ClassSet

def Ledger.affected (ledger : Ledger) : ClassSet :=
  ledger.lost ∪ ledger.produced

def removeSources (services : Services m) (project : Project) (ledger : Ledger) :
    List String → Step m Ledger
  | [] => return ledger
  | source :: rest => do
    let (owned, ownership) := ledger.ownership.remove source
    backUp services project owned
    deleteClassFiles services project owned
    removeSources services project
      { ledger with ownership := ownership, lost := ledger.lost ∪ owned } rest

/-- Enters what each source produced, and deletes the class files of orphans. -/
def registerProduced (services : Services m) (project : Project) (ledger : Ledger) :
    List (String × ClassSet) → Step m Ledger
  | [] => return ledger
  | (source, classes) :: rest => do
    let (orphans, ownership) := ledger.ownership.register source classes
    deleteClassFiles services project orphans
    registerProduced services project
      { ownership := ownership
        lost := ledger.lost ∪ orphans
        produced := ledger.produced ∪ classes } rest

end Build
end Recompile
