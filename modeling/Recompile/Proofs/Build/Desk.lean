import Recompile.Proofs.Build.Commit

/-!
# A shelf with sources that change

Beside the shelf lie sources, which are read, written and removed like other
files. The version of a source is its length, and it compiles to what the
editions say of that version, unless it is broken. Between builds the sources
may be edited.
-/

namespace Recompile

structure Desk where
  shelf : Shelf
  /-- The bytes of each source. -/
  tree : List (String × Bytes)

structure Edition where
  version : Nat
  product : Product

namespace Desk

/-- The source that a path is for. Everything else lies on the shelf. -/
def sourceAt? (path : Path) : Option String :=
  if path.extension? = some sourceExtension then sourceKey? Shelf.sourceRoot path else none

def sources (desk : Desk) : List String :=
  desk.tree.map Prod.fst

def bytes? (desk : Desk) (source : String) : Option Bytes :=
  (desk.tree.find? fun entry => entry.1 = source).map Prod.snd

def others (desk : Desk) (source : String) : List (String × Bytes) :=
  desk.tree.filter fun entry => entry.1 ≠ source

def written (version : Nat) : Bytes :=
  List.replicate version 0

def versionAt (desk : Desk) (path : Path) : Nat :=
  (((sourceAt? path).bind desk.bytes?).map List.length).getD 0

def version (desk : Desk) (source : String) : Nat :=
  desk.versionAt (Shelf.sourceRoot.join ⟨source⟩)

def found (desk : Desk) : List String :=
  (Find.withExtension sourceExtension
    (desk.sources.map fun source => Shelf.sourceRoot.join ⟨source⟩)).filterMap
      (sourceKey? Shelf.sourceRoot)

def contents (desk : Desk) : Std.ExtTreeMap String Nat :=
  desk.found.foldl (fun known source => known.insert source (desk.version source)) ∅

/-!
# Sources and class files on one host
-/

def readSource (source : String) (desk : Desk) : Except IoFault Bytes × Desk :=
  match desk.bytes? source with
  | some bytes => (.ok bytes, desk)
  | none => (.error .notFound, desk)

def writeSource (source : String) (bytes : Bytes) (desk : Desk) : Except IoFault Unit × Desk :=
  (.ok (), { desk with tree := (source, bytes) :: desk.others source })

def removeSource (source : String) (desk : Desk) : Except IoFault Unit × Desk :=
  match desk.bytes? source with
  | some _ => (.ok (), { desk with tree := desk.others source })
  | none => (.error .notFound, desk)

def atShelf {α : Type} (operation : List String → StateM Shelf α) : StateM Desk α :=
  fun desk =>
    let done := (operation desk.sources).run desk.shelf
    (done.1, { desk with shelf := done.2 })

def routed {α : Type} (path : Path) (atSource : String → StateM Desk α)
    (onShelf : List String → StateM Shelf α) : StateM Desk α :=
  match sourceAt? path with
  | some source => atSource source
  | none => atShelf onShelf

/-- Sources are as old as their versions. -/
def host : Host (StateM Desk) where
  kindOf path := atShelf fun sources => (Shelf.host sources).kindOf path
  realPath path := atShelf fun sources => (Shelf.host sources).realPath path
  readFile path := routed path readSource fun sources => (Shelf.host sources).readFile path
  modified path := fun desk => (.ok (desk.versionAt path), desk)
  filesBelow path := atShelf fun sources => (Shelf.host sources).filesBelow path
  makeDirectories path := atShelf fun sources => (Shelf.host sources).makeDirectories path
  writeFile path bytes := routed path (fun source => writeSource source bytes) fun sources =>
    (Shelf.host sources).writeFile path bytes
  removeFile path := routed path removeSource fun sources => (Shelf.host sources).removeFile path
  openFile path := atShelf fun sources => (Shelf.host sources).openFile path
  readOpen file := atShelf fun sources => (Shelf.host sources).readOpen file
  writeOpen file pieces := atShelf fun sources => (Shelf.host sources).writeOpen file pieces
  workingDirectory := atShelf fun sources => (Shelf.host sources).workingDirectory
  launch program arguments := atShelf fun sources => (Shelf.host sources).launch program arguments
  milliseconds := atShelf fun sources => (Shelf.host sources).milliseconds

theorem routed_of_source {α : Type} {path : Path} {source : String}
    (hsource : sourceAt? path = some source) (atSource : String → StateM Desk α)
    (onShelf : List String → StateM Shelf α) (desk : Desk) :
    (routed path atSource onShelf).run desk = (atSource source).run desk := by
  unfold routed
  rw [hsource]

theorem routed_of_none {α : Type} {path : Path} (hshelf : sourceAt? path = none)
    (atSource : String → StateM Desk α) (onShelf : List String → StateM Shelf α) (desk : Desk) :
    (routed path atSource onShelf).run desk = (atShelf onShelf).run desk := by
  unfold routed
  rw [hshelf]

theorem left_readFile (path : Path) (desk : Desk) : ((host.readFile path).run desk).2 = desk := by
  cases hsource : sourceAt? path with
  | none => exact congrArg Prod.snd (routed_of_none hsource readSource _ desk)
  | some source =>
      have hrun : (host.readFile path).run desk = desk.readSource source :=
        routed_of_source hsource _ _ desk
      rw [hrun]
      unfold readSource
      cases desk.bytes? source <;> rfl

section OnShelf

variable {path : Path} (hshelf : sourceAt? path = none)
include hshelf

theorem run_readFile (desk : Desk) :
    (host.readFile path).run desk = (desk.shelf.read path, desk) :=
  routed_of_none hshelf _ _ desk

theorem run_writeFile (bytes : Bytes) (desk : Desk) :
    (host.writeFile path bytes).run desk =
      (.ok (), { desk with shelf := desk.shelf.put path bytes }) :=
  routed_of_none hshelf _ _ desk

theorem run_removeFile (desk : Desk) :
    (host.removeFile path).run desk =
      ((desk.shelf.remove path).1, { desk with shelf := (desk.shelf.remove path).2 }) :=
  routed_of_none hshelf _ _ desk

theorem held_of_readFile {desk : Desk} {bytes : Bytes}
    (h : ((host.readFile path).run desk).1 = .ok bytes) :
    desk.shelf.held path.components = some bytes := by
  rw [run_readFile hshelf] at h
  exact Shelf.held_of_read h

theorem held_of_readFile_error {desk : Desk} {fault : IoFault}
    (h : ((host.readFile path).run desk).1 = .error fault) :
    desk.shelf.held path.components = none := by
  rw [run_readFile hshelf] at h
  exact Shelf.held_of_read_error h

theorem held_writeFile (bytes : Bytes) (desk : Desk) :
    ((host.writeFile path bytes).run desk).2.shelf.held =
      Function.update desk.shelf.held path.components (some bytes) := by
  rw [run_writeFile hshelf]
  exact Shelf.held_put _ _ _

theorem held_removeFile_of_ok {desk : Desk} (h : ((host.removeFile path).run desk).1 = .ok ()) :
    ((host.removeFile path).run desk).2.shelf.held =
      Function.update desk.shelf.held path.components none := by
  rw [run_removeFile hshelf] at h ⊢
  exact Shelf.held_remove_of_ok h

theorem held_removeFile_of_error {desk : Desk} {fault : IoFault}
    (h : ((host.removeFile path).run desk).1 = .error fault) :
    desk.shelf.held path.components = none ∧
      ((host.removeFile path).run desk).2.shelf.held = desk.shelf.held := by
  rw [run_removeFile hshelf] at h ⊢
  exact Shelf.held_remove_of_error h

end OnShelf

theorem sourceAt?_classFileIn (name : ClassName) :
    sourceAt? (classFileIn Shelf.out name) = none := by
  have hbeside : Shelf.sourceRoot.below? (classFileIn Shelf.out name) = none := by
    rw [Option.eq_none_iff_forall_ne_some]
    intro rest hrest
    rw [Path.below?_eq_some_iff] at hrest
    unfold classFileIn at hrest
    cases habsolute : name.classFile.isAbsolute with
    | true =>
        unfold Path.join at hrest
        rw [if_pos habsolute, Path.components_of_isAbsolute habsolute] at hrest
        cases hrest
    | false =>
        rw [Path.components_join_of_ne (by decide) habsolute] at hrest
        exact absurd (List.cons.inj hrest).1 (by decide)
  unfold sourceAt? sourceKey?
  rw [hbeside]
  exact ite_self none

def hostFiles : ClassFiles host Shelf.out where
  held desk := desk.shelf.held
  kindOf_keeps _ _ := rfl
  filesBelow_keeps _ _ := rfl
  readFile_keeps path desk := congrArg (fun left => left.shelf.held) (left_readFile path desk)
  modified_keeps _ _ := rfl
  milliseconds_keeps _ := rfl
  makeDirectories_keeps _ _ := rfl
  readFile_ok _ h := held_of_readFile (sourceAt?_classFileIn _) h
  readFile_notFound _ h := held_of_readFile_error (sourceAt?_classFileIn _) h
  removeFile_ok _ h := held_removeFile_of_ok (sourceAt?_classFileIn _) h
  removeFile_notFound _ h := (held_removeFile_of_error (sourceAt?_classFileIn _) h).1
  removeFile_error _ h := (held_removeFile_of_error (sourceAt?_classFileIn _) h).2
  writeFile_ok _ _ := held_writeFile (sourceAt?_classFileIn _) _ _

def products (editions : List Edition) (desk : Desk) : List Product :=
  (editions.filter fun edition =>
    desk.contents[edition.product.source]? = some edition.version).map Edition.product

def isSound (broken : List (String × Nat)) (desk : Desk) (asked : List String) : Bool :=
  asked.all fun source =>
    match desk.contents[source]? with
    | some version => !broken.contains (source, version)
    | none => false

def compile (editions : List Edition) (broken : List (String × Nat)) (batch : Batch) :
    ExceptT Failure (StateM Desk) Outcome :=
  ExceptT.mk fun desk =>
    let done := (Shelf.compile (desk.products editions) (desk.isSound broken batch.sources)
      batch).run.run desk.shelf
    (done.1, { desk with shelf := done.2 })

/-- Services with a desk. What is kept of a register is its index by class. -/
def services (editions : List Edition) (broken : List (String × Nat)) :
    Services (StateM Desk) where
  host := host
  compile := compile editions broken
  method := .modifiedTime
  fingerprints :=
    ⟨do return (← get).shelf.fingerprints,
      fun fingerprints => modify fun desk =>
        { desk with shelf := { desk.shelf with fingerprints := some fingerprints } }⟩
  ownership :=
    ⟨do return (← get).shelf.register.map fun register => .ofClasses register.byClass,
      fun register => modify fun desk =>
        { desk with shelf := { desk.shelf with register := some register } }⟩

variable {editions : List Edition} {broken : List (String × Nat)}

def classFiles (editions : List Edition) (broken : List (String × Nat)) :
    ClassFiles (services editions broken).host (Shelf.project Shelf.out).destination :=
  hostFiles

open Build

theorem storesSpare (editions : List Edition) (broken : List (String × Nat)) :
    StoresSpare (classFiles editions broken) where
  loadFingerprints _ := rfl
  saveFingerprints _ _ := rfl
  loadOwnership _ := rfl
  saveOwnership _ _ := rfl

theorem readsListed (editions : List Edition) (broken : List (String × Nat)) :
    (classFiles editions broken).ReadsListed := by
  intro paths path desk _ _ hextension later bytes _ hread
  have hshelf : sourceAt? path = none := by
    unfold sourceAt?
    rw [hextension]
    exact if_neg (by decide)
  exact held_of_readFile hshelf hread

section Calls

variable {asked : List String} {desk left : Desk} {outcome : Outcome}
  (hcall : runIn ((services editions broken).compile ((Shelf.project Shelf.out).batch asked)) desk =
    (.ok outcome, left))
include hcall

theorem runIn_compile_shelf :
    runIn ((Shelf.services [] (desk.products editions) (desk.isSound broken asked)).compile
      ((Shelf.project Shelf.out).batch asked)) desk.shelf = (.ok outcome, left.shelf) := by
  cases hcall
  rfl

theorem outcome_eq :
    outcome = ⟨desk.isSound broken asked, Shelf.produced (desk.products editions) asked, ∅⟩ := by
  cases hcall
  rfl

end Calls

theorem exists_edition {desk : Desk} {product : Product} (h : product ∈ desk.products editions) :
    ∃ edition ∈ editions, edition.product = product := by
  rcases List.mem_map.mp h with ⟨edition, hedition, hsame⟩
  exact ⟨edition, (List.mem_filter.mp hedition).1, hsame⟩

theorem binary_of_mem_products (h : ∀ edition ∈ editions, edition.product.name.IsBinary)
    (desk : Desk) : ∀ product ∈ desk.products editions, product.name.IsBinary := by
  intro product hproduct
  rcases exists_edition hproduct with ⟨edition, hedition, rfl⟩
  exact h edition hedition

theorem writesListed (broken : List (String × Nat))
    (hbinary : ∀ edition ∈ editions, edition.product.name.IsBinary) :
    WritesListed (classFiles editions broken) := by
  constructor
  · intro asked desk outcome left hcall
    have haccounts := (Shelf.writesListed [] (desk.isSound broken asked) Shelf.out
      (binary_of_mem_products hbinary desk)).accounts (runIn_compile_shelf hcall)
    exact ⟨haccounts.present, haccounts.unlisted, haccounts.below⟩
  · intro asked desk error left hcall
    cases hcall

theorem namesFiles (broken : List (String × Nat))
    (hbinary : ∀ edition ∈ editions, edition.product.name.IsBinary)
    (hnamed : ∀ edition ∈ editions, edition.product.IsNamed) :
    NamesFiles (classFiles editions broken) := by
  intro asked desk outcome left hcall
  refine (Shelf.writesNamed [] (desk.isSound broken asked) Shelf.out
    (binary_of_mem_products hbinary desk) ?_).named (runIn_compile_shelf hcall)
  intro product hproduct
  rcases exists_edition hproduct with ⟨edition, hedition, rfl⟩
  exact hnamed edition hedition

def stored (desk : Desk) : Option Fingerprints × Option (Std.ExtTreeMap ClassName String) :=
  (desk.shelf.fingerprints, desk.shelf.register.map Ownership.byClass)

theorem stored_readFile (path : Path) (desk : Desk) :
    stored (((services editions broken).host.readFile path).run desk).2 = desk.stored :=
  congrArg stored (left_readFile path desk)

theorem stored_writeFile (path : Path) (bytes : Bytes) (desk : Desk) :
    stored (((services editions broken).host.writeFile path bytes).run desk).2 = desk.stored := by
  show stored ((host.writeFile path bytes).run desk).2 = _
  cases hsource : sourceAt? path with
  | none =>
      rw [run_writeFile hsource]
      rfl
  | some source =>
      have hrun : (host.writeFile path bytes).run desk = desk.writeSource source bytes :=
        routed_of_source hsource _ _ desk
      rw [hrun]
      rfl

theorem stored_removeFile (path : Path) (desk : Desk) :
    stored (((services editions broken).host.removeFile path).run desk).2 = desk.stored := by
  show stored ((host.removeFile path).run desk).2 = _
  cases hsource : sourceAt? path with
  | none =>
      rcases Shelf.stored_remove path desk.shelf with ⟨hseen, howners⟩
      rw [run_removeFile hsource]
      unfold stored
      rw [hseen, howners]
  | some source =>
      have hrun : (host.removeFile path).run desk = desk.removeSource source :=
        routed_of_source hsource _ _ desk
      rw [hrun]
      unfold removeSource
      cases desk.bytes? source <;> rfl

def stores (editions : List Edition) (broken : List (String × Nat)) :
    Stores (services editions broken) where
  fingerprints desk := desk.shelf.fingerprints
  owners desk := desk.shelf.register.map Ownership.byClass
  serves destination was := {
    kindOf := fun _ _ h => h
    filesBelow := fun _ _ h => h
    readFile := fun path desk h => (stored_readFile path desk).trans h
    modified := fun _ _ h => h
    disk := fun _ _ => trivial
    malformedClass := fun _ _ => trivial
    milliseconds := fun _ h => h
    makeDirectories := fun _ _ _ _ h => h
    writeFile := fun name bytes desk h =>
      (stored_writeFile (classFileIn destination name) bytes desk).trans h
    removeFile := fun name desk h =>
      (stored_removeFile (classFileIn destination name) desk).trans h
    compile := fun batch desk h =>
      ((Shelf.stores [] (desk.products editions) (desk.isSound broken batch.sources)).serves
        destination was).compile batch desk.shelf h
    loadFingerprints := fun _ h => ⟨h, fun _ _ => trivial⟩
    loadOwnership := fun _ h => ⟨h, fun _ _ => trivial⟩ }
  loadFingerprints h := (Except.ok.inj h).symm
  loadOwnership := by
    intro desk stored h
    rw [← Except.ok.inj h, Option.map_map]
    rfl
  saveFingerprints_keeps _ _ := rfl
  saveFingerprints_ok _ := rfl
  saveOwnership_keeps _ _ := rfl
  saveOwnership_ok _ := rfl
  saveOwnership_error := nofun

theorem consistent_of_load {desk left : Desk} {register : Ownership}
    (hload : runIn (services editions broken).ownership.load desk = (.ok (some register), left)) :
    register.Consistent := by
  have hregister : desk.shelf.register.map (fun kept => Ownership.ofClasses kept.byClass) =
      some register := Except.ok.inj (congrArg Prod.fst hload)
  rcases Option.map_eq_some_iff.mp hregister with ⟨kept, _, hsame⟩
  rw [← hsame]
  exact Ownership.consistent_ofClasses _

end Desk

namespace Build

def reported {σ : Type} (services : Services (StateM σ)) (project : Project) (start : σ) :
    Option (Mode × Bool) :=
  (runIn (run services project) start).1.toOption.map fun report => (report.mode, report.success)

def bareDesk (version : Nat) : Desk :=
  ⟨⟨[], none, none⟩, [("A.java", Desk.written version), ("B.java", Desk.written version)]⟩

end Build
end Recompile
