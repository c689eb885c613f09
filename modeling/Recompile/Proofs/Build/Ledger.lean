import Recompile.Build.Ledger
import Recompile.Proofs.Build.ClassFiles
import Recompile.Proofs.Ownership.Sequences

/-!
# The ledger and the class files

Removing sources sweeps the files of all that they own. Registering deletes the
files of orphans. Either way the ledger that comes out is told by the entries
alone.
-/

namespace Recompile
namespace Build

variable {σ : Type} {services : Services (StateM σ)} {project : Project}
  {files : ClassFiles services.host project.destination}
  {progress progress' : Progress} {world world' : σ} {ledger ledger' : Ledger}

theorem mem_ownedKeys {destination : Path} {ownership : Ownership} {sources : List String}
    {key : FileKey} :
    key ∈ ownedKeys destination ownership sources ↔
      ∃ name, (∃ source ∈ sources, ownership.Owns source name) ∧
        fileKey destination name = key := by
  constructor
  · rintro ⟨source, hsource, classes, hclasses, name, hname, hkey⟩
    exact ⟨name, ⟨source, hsource, classes, hclasses, hname⟩, hkey⟩
  · rintro ⟨name, ⟨source, hsource, classes, hclasses, hname⟩, hkey⟩
    exact ⟨source, hsource, classes, hclasses, name, hname, hkey⟩

/-!
# Removing sources
-/

theorem removeSources_cons (ledger : Ledger) (source : String) (rest : List String) :
    removeSources services project ledger (source :: rest) = (do
      backUp services project (ledger.ownership.remove source).1
      deleteClassFiles services project (ledger.ownership.remove source).1
      removeSources services project
        { ledger with
          ownership := (ledger.ownership.remove source).2
          lost := ledger.lost ∪ (ledger.ownership.remove source).1 } rest) :=
  rfl

theorem ownedKeys_cons (destination : Path) (ownership : Ownership) (source : String)
    (rest : List String) :
    ownedKeys destination ownership (source :: rest) =
      fileKeys destination (ownership.remove source).1 ∪
        ownedKeys destination (ownership.remove source).2 rest := by
  ext key
  rw [Set.mem_union, mem_ownedKeys, mem_ownedKeys, mem_fileKeys, ← exists_or]
  refine exists_congr fun name => ?_
  rw [← or_and_right, Ownership.exists_owns_cons]

theorem sweeps_removeSources (sources : List String) {ledger : Ledger}
    (hbelow : ledger.ownership.LeadsBelow) (progress : Progress) (world : σ) :
    Sweeps files (ownedKeys project.destination ledger.ownership sources)
      (ownedKeys project.destination ledger.ownership sources)
      (removeSources services project ledger sources) progress world := by
  induction sources generalizing ledger progress world with
  | nil =>
      have hnone : ownedKeys project.destination ledger.ownership [] = ∅ := by
        simp [ownedKeys]
      rw [hnone]
      exact Sweeps.of_pure files ledger progress world
  | cons source rest ih =>
      have hsteps : Sweeps files
          (fileKeys project.destination (ledger.ownership.remove source).1 ∪
            (∅ ∪ ownedKeys project.destination (ledger.ownership.remove source).2 rest))
          (∅ ∪ (fileKeys project.destination (ledger.ownership.remove source).1 ∪
            ownedKeys project.destination (ledger.ownership.remove source).2 rest))
          (removeSources services project ledger (source :: rest)) progress world := by
        have howned : ∀ name ∈ (ledger.ownership.remove source).1, name.LeadsBelow :=
          fun name hname => hbelow (Ownership.mem_fst_remove.mp hname)
        rw [removeSources_cons]
        refine (sweeps_backUp howned progress world).bind fun _ middle between _ hsaved => ?_
        have hdeletes : Sweeps files ∅
            (fileKeys project.destination (ledger.ownership.remove source).1)
            (deleteClassFiles services project (ledger.ownership.remove source).1) middle between :=
          Sweeps.of_deletes (deletes_deleteClassFiles howned middle between)
            fun key hkey => hsaved.noted?_ne_none_of_mem hkey
        exact hdeletes.bind fun _ middle between _ _ => ih (hbelow.remove source) middle between
      rw [Set.empty_union, Set.empty_union, ← ownedKeys_cons] at hsteps
      exact hsteps

structure Ledger.Removed (ledger : Ledger) (sources : List String) (ledger' : Ledger) :
    Prop where
  ownership_eq : ledger'.ownership = ledger.ownership.removeAll sources
  mem_lost : ∀ name, name ∈ ledger'.lost ↔
    name ∈ ledger.lost ∨ ∃ source ∈ sources, ledger.ownership.Owns source name
  produced_eq : ledger'.produced = ledger.produced

theorem Ledger.Removed.holdsOnly {sources : List String} {names : ClassName → Prop}
    (h : ledger.Removed sources ledger') (hholds : ledger.ownership.HoldsOnly names) :
    ledger'.ownership.HoldsOnly names := by
  rw [h.ownership_eq]
  exact hholds.removeAll sources

theorem removed_of_runFrom {sources : List String}
    (h : (removeSources services project ledger sources).runFrom progress world =
      (.ok ledger', progress', world')) : ledger.Removed sources ledger' := by
  induction sources generalizing ledger progress world with
  | nil =>
      cases h
      exact ⟨rfl, by simp, rfl⟩
  | cons source rest ih =>
      rw [removeSources_cons] at h
      rcases Step.ok_of_runFrom_bind h with ⟨_, _, _, _, h⟩
      rcases Step.ok_of_runFrom_bind h with ⟨_, _, _, _, h⟩
      have hrest := ih h
      refine ⟨hrest.ownership_eq, ?_, hrest.produced_eq⟩
      intro name
      rw [hrest.mem_lost, Std.ExtTreeSet.mem_union_iff, or_assoc, Ownership.exists_owns_cons]

/-!
# Registering

The files of orphans are deleted without a look at the backup. What the sources
of a batch own is in it, but a compiler may name other sources as well.
-/

theorem registerProduced_cons (ledger : Ledger) (entry : String × ClassSet)
    (rest : List (String × ClassSet)) :
    registerProduced services project ledger (entry :: rest) = (do
      deleteClassFiles services project (ledger.ownership.register entry.1 entry.2).1
      registerProduced services project
        { ownership := (ledger.ownership.register entry.1 entry.2).2
          lost := ledger.lost ∪ (ledger.ownership.register entry.1 entry.2).1
          produced := ledger.produced ∪ entry.2 } rest) :=
  rfl

def orphanKeys (destination : Path) (ownership : Ownership)
    (entries : List (String × ClassSet)) : Set FileKey :=
  {key | ∃ name, ownership.Orphaned name entries ∧ fileKey destination name = key}

theorem orphanKeys_nil (destination : Path) (ownership : Ownership) :
    orphanKeys destination ownership [] = ∅ := by
  simp [orphanKeys, Ownership.Orphaned]

theorem orphanKeys_cons (destination : Path) (ownership : Ownership)
    (entry : String × ClassSet) (rest : List (String × ClassSet)) :
    orphanKeys destination ownership (entry :: rest) =
      fileKeys destination (ownership.register entry.1 entry.2).1 ∪
        orphanKeys destination (ownership.register entry.1 entry.2).2 rest := by
  ext key
  simp only [orphanKeys, Ownership.Orphaned, Set.mem_union, mem_fileKeys, Set.mem_ofPred_eq,
    or_and_right, exists_or]

theorem deletes_registerProduced {entries : List (String × ClassSet)}
    (hentries : ∀ entry ∈ entries, ∀ name ∈ entry.2, name.LeadsBelow) {ledger : Ledger}
    (hbelow : ledger.ownership.LeadsBelow) (progress : Progress) (world : σ) :
    Deletes files (orphanKeys project.destination ledger.ownership entries)
      (registerProduced services project ledger entries) progress world := by
  induction entries generalizing ledger world with
  | nil =>
      rw [orphanKeys_nil]
      exact Deletes.of_pure files ledger progress world
  | cons entry rest ih =>
      have horphans : ∀ name ∈ (ledger.ownership.register entry.1 entry.2).1, name.LeadsBelow :=
        fun name hname => hbelow (Ownership.owns_of_mem_fst_register hname)
      have hregistered := hbelow.register (hentries entry List.mem_cons_self) entry.1
      have hrest : ∀ other ∈ rest, ∀ name ∈ other.2, name.LeadsBelow :=
        fun other hother => hentries other (List.mem_cons_of_mem _ hother)
      rw [registerProduced_cons, orphanKeys_cons]
      refine (deletes_deleteClassFiles horphans progress world).bind fun _ between _ => ?_
      exact ih hrest hregistered between

structure Ledger.Entered (ledger : Ledger) (entries : List (String × ClassSet))
    (ledger' : Ledger) : Prop where
  ownership_eq : ledger'.ownership = ledger.ownership.registerAll entries
  mem_lost : ∀ name, name ∈ ledger'.lost ↔
    name ∈ ledger.lost ∨ ledger.ownership.Orphaned name entries
  mem_produced : ∀ name, name ∈ ledger'.produced ↔
    name ∈ ledger.produced ∨ ∃ entry ∈ entries, name ∈ entry.2

theorem Ledger.Entered.holdsOnly {entries : List (String × ClassSet)} {names : ClassName → Prop}
    (h : ledger.Entered entries ledger') (hholds : ledger.ownership.HoldsOnly names)
    (hentries : ∀ entry ∈ entries, ∀ name ∈ entry.2, names name) :
    ledger'.ownership.HoldsOnly names := by
  rw [h.ownership_eq]
  exact hholds.registerAll hentries

theorem entered_of_runFrom {entries : List (String × ClassSet)}
    (h : (registerProduced services project ledger entries).runFrom progress world =
      (.ok ledger', progress', world')) : ledger.Entered entries ledger' := by
  induction entries generalizing ledger progress world with
  | nil =>
      cases h
      exact ⟨rfl, by simp [Ownership.Orphaned], by simp⟩
  | cons entry rest ih =>
      rw [registerProduced_cons] at h
      rcases Step.ok_of_runFrom_bind h with ⟨_, _, _, _, h⟩
      have hrest := ih h
      refine ⟨hrest.ownership_eq, ?_, ?_⟩
      · intro name
        rw [hrest.mem_lost, Std.ExtTreeSet.mem_union_iff, or_assoc]
        rfl
      · intro name
        rw [hrest.mem_produced, Std.ExtTreeSet.mem_union_iff, or_assoc]
        simp only [List.mem_cons, exists_eq_or_imp]

end Build
end Recompile
