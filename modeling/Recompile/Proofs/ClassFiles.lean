import Mathlib.Logic.Function.Basic
import Recompile.Build.Backup
import Recompile.Proofs.Maintaining

/-!
# The class files of a destination

A host is known to a build by its operations alone. What these do to files is
said here once: a state of the surroundings holds bytes at keys, where a key is
the components of a path, and an operation that succeeds on the class file of a
class touches the key of that file and no other. A removal that fails leaves
every file as it was. This is said of names that lead below the destination
only, since a name with a root in it may be another way to write such a file.
-/

namespace Recompile

/-- Whether no part of a name can lead anywhere but below. -/
def ClassName.LeadsBelow (name : ClassName) : Prop :=
  '/' ∉ name.text.toList

instance (name : ClassName) : Decidable name.LeadsBelow :=
  inferInstanceAs (Decidable ('/' ∉ name.text.toList))

abbrev FileKey := List Path.Component

def fileKey (destination : Path) (name : ClassName) : FileKey :=
  (classFileIn destination name).components

/-- What a host holds at each key, and how its operations change that. -/
structure ClassFiles {σ : Type} (host : Host (StateM σ)) (destination : Path) where
  held : σ → FileKey → Option Bytes
  kindOf_keeps : ∀ path world, held ((host.kindOf path).run world).2 = held world
  filesBelow_keeps : ∀ path world, held ((host.filesBelow path).run world).2 = held world
  readFile_keeps : ∀ path world, held ((host.readFile path).run world).2 = held world
  modified_keeps : ∀ path world, held ((host.modified path).run world).2 = held world
  milliseconds_keeps : ∀ world, held (host.milliseconds.run world).2 = held world
  makeDirectories_keeps : ∀ path world,
    held ((host.makeDirectories path).run world).2 = held world
  readFile_ok : ∀ {name bytes world}, name.LeadsBelow →
    ((host.readFile (classFileIn destination name)).run world).1 = .ok bytes →
      held world (fileKey destination name) = some bytes
  readFile_notFound : ∀ {name world}, name.LeadsBelow →
    ((host.readFile (classFileIn destination name)).run world).1 = .error .notFound →
      held world (fileKey destination name) = none
  removeFile_ok : ∀ {name world}, name.LeadsBelow →
    ((host.removeFile (classFileIn destination name)).run world).1 = .ok () →
      held ((host.removeFile (classFileIn destination name)).run world).2 =
        Function.update (held world) (fileKey destination name) none
  removeFile_notFound : ∀ {name world}, name.LeadsBelow →
    ((host.removeFile (classFileIn destination name)).run world).1 = .error .notFound →
      held world (fileKey destination name) = none
  removeFile_error : ∀ {name fault world}, name.LeadsBelow →
    ((host.removeFile (classFileIn destination name)).run world).1 = .error fault →
      held ((host.removeFile (classFileIn destination name)).run world).2 = held world
  writeFile_ok : ∀ {name bytes world}, name.LeadsBelow →
    ((host.writeFile (classFileIn destination name) bytes).run world).1 = .ok () →
      held ((host.writeFile (classFileIn destination name) bytes).run world).2 =
        Function.update (held world) (fileKey destination name) (some bytes)

namespace ClassFiles

variable {σ : Type} {host : Host (StateM σ)} {destination : Path}

def Spares {α : Type} (files : ClassFiles host destination)
    (operation : ExceptT Failure (StateM σ) α) : Prop :=
  ∀ world, files.held (runIn operation world).2 = files.held world

variable (files : ClassFiles host destination) {α β : Type}

theorem spares_iff_maintains {operation : ExceptT Failure (StateM σ) α} :
    files.Spares operation ↔
      ∀ was, Maintains (fun world => files.held world = was) (fun _ => True) operation := by
  constructor
  · intro h was world hwas
    exact ⟨(h world).trans hwas, fun _ _ => trivial⟩
  · exact fun h world => (h _ world rfl).1

theorem spares_pure (value : α) : files.Spares (pure value) :=
  fun _ => rfl

theorem spares_bind {operation : ExceptT Failure (StateM σ) α}
    {next : α → ExceptT Failure (StateM σ) β} (hfirst : files.Spares operation)
    (hnext : ∀ value, files.Spares (next value)) : files.Spares (operation >>= next) := by
  simp only [spares_iff_maintains] at hfirst hnext ⊢
  exact fun was => (hfirst was).bind fun value => hnext value was

theorem spares_diskAt (path : Path) {operation : StateM σ (Except IoFault α)}
    (h : ∀ world, files.held (operation.run world).2 = files.held world) :
    files.Spares (diskAt path operation) := by
  rw [spares_iff_maintains]
  intro was
  exact maintains_diskAt path (fun world hwas => (h world).trans hwas) fun _ => trivial

end ClassFiles
end Recompile
