import Recompile.ClassFile.Surface
import Recompile.Proofs.Build.ClassFiles
import Recompile.Proofs.ClassName

/-!
# What a build relies on

The compiler and the stores are not part of a build. A compiler keeps to its
contract when the class files that it writes are those of the classes that it
lists, and a failure to run it writes none. The stores keep their data elsewhere.
All classes are listed under names that are read off class files. These lead
below the destination, and so do those that builds have stored.
-/

namespace Recompile
namespace Build

variable {σ : Type} {services : Services (StateM σ)} {project : Project}

/-- Whether an outcome accounts for the class files that were written. -/
structure Accounts (files : ClassFiles services.host project.destination)
    (world : σ) (outcome : Outcome) (world' : σ) : Prop where
  present : ∀ name ∈ outcome.classes,
    files.held world' (fileKey project.destination name) ≠ none
  unlisted : ∀ key, (∀ name ∈ outcome.classes, fileKey project.destination name ≠ key) →
    files.held world' key = files.held world key
  below : ∀ name ∈ outcome.classes, name.LeadsBelow

/-- Whether every call of the compiler accounts for what it writes. -/
structure WritesListed (files : ClassFiles services.host project.destination) : Prop where
  accounts : ∀ {sources world outcome world'},
    runIn (services.compile (project.batch sources)) world = (.ok outcome, world') →
      Accounts files world outcome world'
  error_keeps : ∀ {sources world error world'},
    runIn (services.compile (project.batch sources)) world = (.error error, world') →
      files.held world' = files.held world

def Named (files : ClassFiles services.host project.destination) (outcome : Outcome)
    (world : σ) : Prop :=
  ∀ name ∈ outcome.classes, ∀ ⦃bytes surface⦄,
    files.held world (fileKey project.destination name) = some bytes →
      ClassFile.surfaceOf bytes = .ok surface → surface.name = name

/-- Whether every call puts into the files of the classes that it lists these classes. -/
def NamesFiles (files : ClassFiles services.host project.destination) : Prop :=
  ∀ {sources world outcome world'},
    runIn (services.compile (project.batch sources)) world = (.ok outcome, world') →
      Named files outcome world'

structure WritesNamed (files : ClassFiles services.host project.destination) : Prop where
  requested : ∀ {sources world outcome world'},
    runIn (services.compile (project.batch sources)) world = (.ok outcome, world') →
      ∀ source ∈ outcome.produced, source ∈ sources
  named : ∀ {sources world outcome world'},
    runIn (services.compile (project.batch sources)) world = (.ok outcome, world') →
      Named files outcome world'

structure ListsPlainly (outcome : Outcome) : Prop where
  once : ∀ {a b : String × ClassSet} {name}, a ∈ outcome.produced.toList →
    b ∈ outcome.produced.toList → name ∈ a.2 → name ∈ b.2 → a = b
  binary : ∀ name ∈ outcome.classes, name.IsBinary

/-- Whether every call of the compiler lists each class once and by a binary name. -/
def CompilesPlainly (services : Services (StateM σ)) (project : Project) : Prop :=
  ∀ sources world outcome world',
    runIn (services.compile (project.batch sources)) world = (.ok outcome, world') →
      ListsPlainly outcome

structure StoresSpare (files : ClassFiles services.host project.destination) : Prop where
  loadFingerprints : files.Spares services.fingerprints.load
  saveFingerprints : ∀ fingerprints, files.Spares (services.fingerprints.save fingerprints)
  loadOwnership : files.Spares services.ownership.load
  saveOwnership : ∀ ownership, files.Spares (services.ownership.save ownership)

def LoadsBelow (services : Services (StateM σ)) (world : σ) : Prop :=
  ∀ ⦃register world'⦄,
    runIn services.ownership.load world = (.ok (some register), world') → register.LeadsBelow

variable {files : ClassFiles services.host project.destination}
  {progress progress' : Progress} {world world' : σ}

theorem mem_classes {outcome : Outcome} {name : ClassName} :
    name ∈ outcome.classes ↔ ∃ entry ∈ outcome.produced.toList, name ∈ entry.2 := by
  simp [Outcome.classes, Std.ExtTreeSet.mem_toList]

theorem not_mem_of_unlisted {outcome : Outcome} {name : ClassName}
    (h : name ∉ outcome.classes) : ∀ entry ∈ outcome.produced.toList, name ∉ entry.2 := by
  intro entry hentry hname
  exact h (mem_classes.mpr ⟨entry, hentry, hname⟩)

theorem Accounts.below_of_mem {outcome : Outcome} (h : Accounts files world outcome world') :
    ∀ entry ∈ outcome.produced.toList, ∀ name ∈ entry.2, name.LeadsBelow :=
  fun entry hentry name hname => h.below name (mem_classes.mpr ⟨entry, hentry, hname⟩)

theorem accounts_nothing (world : σ) : Accounts files world .nothing world := by
  have hnone : Outcome.nothing.classes = [] := by
    simp [Outcome.classes, Outcome.nothing]
  constructor
  · intro name hname
    rw [hnone] at hname
    cases hname
  · exact fun _ _ => rfl
  · intro name hname
    rw [hnone] at hname
    cases hname

theorem runFrom_compile (services : Services (StateM σ)) (project : Project)
    (sources : List String) (progress : Progress) (world : σ) :
    (compile services project sources).runFrom progress world =
      if sources = [] then (.ok .nothing, progress, world)
      else ((runIn (services.compile (project.batch sources)) world).1, progress,
        (runIn (services.compile (project.batch sources)) world).2) := by
  unfold compile
  split <;> rfl

theorem called_of_compile {sources : List String} {result : Except Failure Outcome}
    (hrun : (compile services project sources).runFrom progress world =
      (result, progress', world')) :
    progress' = progress ∧ (sources = [] ∧ result = .ok .nothing ∧ world' = world ∨
      sources ≠ [] ∧
        runIn (services.compile (project.batch sources)) world = (result, world')) := by
  rw [runFrom_compile] at hrun
  by_cases hsources : sources = []
  · rw [if_pos hsources] at hrun
    cases hrun
    exact ⟨rfl, Or.inl ⟨hsources, rfl, rfl⟩⟩
  · rw [if_neg hsources] at hrun
    rcases hcall : runIn (services.compile (project.batch sources)) world with ⟨found, left⟩
    rw [hcall] at hrun
    cases hrun
    exact ⟨rfl, Or.inr ⟨hsources, rfl⟩⟩

theorem WritesListed.compile_ok (h : WritesListed files) {sources : List String}
    {outcome : Outcome}
    (hrun : (compile services project sources).runFrom progress world =
      (.ok outcome, progress', world')) :
    progress' = progress ∧ Accounts files world outcome world' := by
  rcases called_of_compile hrun with ⟨hprogress, ⟨_, hnothing, rfl⟩ | ⟨_, hcall⟩⟩
  · cases hnothing
    exact ⟨hprogress, accounts_nothing _⟩
  · exact ⟨hprogress, h.accounts hcall⟩

theorem WritesListed.compile_error (h : WritesListed files) {sources : List String}
    {error : Failure}
    (hrun : (compile services project sources).runFrom progress world =
      (.error error, progress', world')) :
    progress' = progress ∧ files.held world' = files.held world := by
  rcases called_of_compile hrun with ⟨hprogress, ⟨_, hnothing, _⟩ | ⟨_, hcall⟩⟩
  · cases hnothing
  · exact ⟨hprogress, h.error_keeps hcall⟩

theorem parts_of_compileBatch {before : Snapshot} {register : Ownership}
    {sources : List String} {outcome : Outcome}
    (hrun : (compileBatch services project before register sources).runFrom progress world =
      (.ok outcome, progress', world')) :
    ∃ middle between later,
      (backUpOwned services project register sources).runFrom progress world =
        (.ok (), middle, between) ∧
      (compile services project sources).runFrom middle between = (.ok outcome, later, world') := by
  unfold compileBatch at hrun
  rcases Step.ok_of_runFrom_bind hrun with ⟨_, middle, between, hbacked, hcall⟩
  rcases Step.ok_of_runFrom_bind hcall with ⟨found, later, left, hcompiled, hnote⟩
  simp only [Step.runFrom_bind, Step.runFrom_modifyBackup, Step.runFrom_pure] at hnote
  cases hnote
  exact ⟨middle, between, later, hbacked, hcompiled⟩

theorem called_of_compileBatch {before : Snapshot} {register : Ownership}
    {sources : List String} {outcome : Outcome}
    (hrun : (compileBatch services project before register sources).runFrom progress world =
      (.ok outcome, progress', world')) :
    outcome = .nothing ∨
      ∃ start, runIn (services.compile (project.batch sources)) start = (.ok outcome, world') := by
  rcases parts_of_compileBatch hrun with ⟨_, between, _, _, hcompiled⟩
  rcases called_of_compile hcompiled with ⟨_, ⟨_, hnothing, _⟩ | ⟨_, hcalled⟩⟩
  · exact Or.inl (Except.ok.inj hnothing)
  · exact Or.inr ⟨between, hcalled⟩

theorem WritesNamed.requested_of_compileBatch (h : WritesNamed files) {before : Snapshot}
    {register : Ownership} {sources : List String} {outcome : Outcome}
    (hrun : (compileBatch services project before register sources).runFrom progress world =
      (.ok outcome, progress', world')) :
    ∀ entry ∈ outcome.produced.toList, entry.1 ∈ sources := by
  intro entry hentry
  have hmem : entry.1 ∈ outcome.produced := by
    rw [← Std.ExtTreeMap.mem_keys, ← Std.ExtTreeMap.map_fst_toList_eq_keys]
    exact List.mem_map_of_mem hentry
  rcases called_of_compileBatch hrun with rfl | ⟨start, hcall⟩
  · exact absurd hmem Std.ExtTreeMap.not_mem_empty
  · exact h.requested hcall entry.1 hmem

theorem NamesFiles.of_compile (h : NamesFiles files) {sources : List String} {outcome : Outcome}
    (hrun : (compile services project sources).runFrom progress world =
      (.ok outcome, progress', world')) : Named files outcome world' := by
  intro name hname
  rcases (called_of_compile hrun).2 with ⟨_, hnothing, _⟩ | ⟨_, hcall⟩
  · cases hnothing
    simp [Outcome.classes, Outcome.nothing] at hname
  · exact h hcall name hname

theorem NamesFiles.of_compileBatch (h : NamesFiles files) {before : Snapshot}
    {register : Ownership} {sources : List String} {outcome : Outcome}
    (hrun : (compileBatch services project before register sources).runFrom progress world =
      (.ok outcome, progress', world')) : Named files outcome world' := by
  intro name hname
  rcases called_of_compileBatch hrun with rfl | ⟨start, hcall⟩
  · simp [Outcome.classes, Outcome.nothing] at hname
  · exact h hcall name hname

theorem WritesNamed.named_of_compileBatch (h : WritesNamed files) {before : Snapshot}
    {register : Ownership} {sources : List String} {outcome : Outcome}
    (hrun : (compileBatch services project before register sources).runFrom progress world =
      (.ok outcome, progress', world')) : Named files outcome world' :=
  NamesFiles.of_compileBatch h.named hrun

theorem listsPlainly_nothing : ListsPlainly .nothing := by
  constructor
  · intro a b name ha
    cases (show a ∈ [] from ha)
  · intro name hname
    simp [Outcome.classes, Outcome.nothing] at hname

theorem CompilesPlainly.compileBatch (h : CompilesPlainly services project) {before : Snapshot}
    {register : Ownership} {sources : List String} {outcome : Outcome}
    (hrun : (compileBatch services project before register sources).runFrom progress world =
      (.ok outcome, progress', world')) : ListsPlainly outcome := by
  rcases called_of_compileBatch hrun with rfl | ⟨start, hcall⟩
  · exact listsPlainly_nothing
  · exact h sources start outcome world' hcall

end Build
end Recompile
