import Recompile.Proofs.Build.Course
import Recompile.Proofs.Build.Inventory
import Recompile.Proofs.Compilation

/-!
# A shelf of class files

The smallest surroundings that a build can do with: class files, each at the
components of its path, and what is kept between builds. The sources and what
they compile to are given. All that a build relies on holds here, so nothing of
it is too much to ask.
-/

namespace Recompile

theorem exists_of_toBool {ε α : Type} {result : Except ε α} (h : result.toBool = true) :
    ∃ value, result = .ok value := by
  cases result with
  | error error => cases h
  | ok value => exact ⟨value, rfl⟩

theorem eq_ok_of_toOption {ε α : Type} {result : Except ε α} {value : α}
    (h : result.toOption = some value) : result = .ok value := by
  cases result with
  | error error => cases h
  | ok found => exact congrArg Except.ok (Option.some.inj h)

structure Shelf where
  files : List (Path × Bytes)
  fingerprints : Option Fingerprints
  register : Option Ownership

structure Product where
  source : String
  name : ClassName
  bytes : Bytes

def Product.IsNamed (product : Product) : Prop :=
  (ClassFile.surfaceOf product.bytes).toOption.map ClassSurface.name = some product.name

instance (product : Product) : Decidable product.IsNamed :=
  inferInstanceAs (Decidable (_ = _))

theorem Product.IsNamed.name_eq {product : Product} (h : product.IsNamed)
    {surface : ClassSurface} (hsurface : ClassFile.surfaceOf product.bytes = .ok surface) :
    surface.name = product.name := by
  unfold IsNamed at h
  rw [hsurface] at h
  exact Option.some.inj h

namespace Shelf

def held (shelf : Shelf) (key : FileKey) : Option Bytes :=
  (shelf.files.find? fun file => file.1.components = key).map Prod.snd

def drop (path : Path) (shelf : Shelf) : Shelf :=
  { shelf with files := shelf.files.filter fun file => file.1.components ≠ path.components }

def put (path : Path) (bytes : Bytes) (shelf : Shelf) : Shelf :=
  { shelf.drop path with files := (path, bytes) :: (shelf.drop path).files }

def read (path : Path) (shelf : Shelf) : Except IoFault Bytes :=
  match shelf.held path.components with
  | some bytes => .ok bytes
  | none => .error .notFound

def remove (path : Path) (shelf : Shelf) : Except IoFault Unit × Shelf :=
  match shelf.held path.components with
  | some _ => (.ok (), shelf.drop path)
  | none => (.error .notFound, shelf)

def sourceRoot : Path := ⟨"src"⟩

def below (sources : List String) (path : Path) (shelf : Shelf) : List Path :=
  if path.text = sourceRoot.text then sources.map fun source => sourceRoot.join ⟨source⟩
  else shelf.files.map Prod.fst

/-- A shelf beside a directory with these sources. Every path that is asked for is a directory. -/
def host (sources : List String) : Host (StateM Shelf) where
  kindOf _ := return .ok .directory
  realPath path := return .ok path
  readFile path := return (← get).read path
  modified _ := return .ok 0
  filesBelow path := return .ok ((← get).below sources path)
  makeDirectories _ := return .ok ()
  writeFile path bytes := modifyGet fun shelf => (.ok (), shelf.put path bytes)
  removeFile path := modifyGet fun shelf => shelf.remove path
  openFile _ := return .error .notFound
  readOpen _ := return .error .notFound
  writeOpen _ _ := return .error .notFound
  workingDirectory := return ⟨"/"⟩
  launch _ _ := return .error .notFound
  milliseconds := return 0

theorem held_drop (shelf : Shelf) (path : Path) :
    (shelf.drop path).held = Function.update shelf.held path.components none := by
  funext key
  unfold held drop
  rw [List.find?_filter, Function.update_apply]
  by_cases hsame : key = path.components
  · rw [if_pos hsame, hsame, Option.map_eq_none_iff, List.find?_eq_none]
    simp
  · rw [if_neg hsame]
    congr 2
    funext file
    by_cases hfile : file.1.components = key
    · simp [hfile, hsame]
    · simp [hfile]

theorem held_put (shelf : Shelf) (path : Path) (bytes : Bytes) :
    (shelf.put path bytes).held = Function.update shelf.held path.components (some bytes) := by
  funext key
  rw [Function.update_apply]
  by_cases hsame : key = path.components
  · rw [if_pos hsame]
    simp [held, put, hsame]
  · have hdropped := congrFun (held_drop shelf path) key
    rw [Function.update_of_ne hsame] at hdropped
    rw [if_neg hsame, ← hdropped]
    simp [held, put, Ne.symm hsame]

theorem held_of_read {shelf : Shelf} {path : Path} {bytes : Bytes}
    (h : shelf.read path = .ok bytes) : shelf.held path.components = some bytes := by
  unfold read at h
  cases hheld : shelf.held path.components with
  | none =>
      rw [hheld] at h
      cases h
  | some found =>
      rw [hheld] at h
      cases h
      rfl

theorem held_of_read_error {shelf : Shelf} {path : Path} {fault : IoFault}
    (h : shelf.read path = .error fault) : shelf.held path.components = none := by
  unfold read at h
  cases hheld : shelf.held path.components with
  | none => rfl
  | some found =>
      rw [hheld] at h
      cases h

theorem held_remove_of_ok {shelf : Shelf} {path : Path} (h : (shelf.remove path).1 = .ok ()) :
    (shelf.remove path).2.held = Function.update shelf.held path.components none := by
  unfold remove at h ⊢
  cases hheld : shelf.held path.components with
  | none =>
      rw [hheld] at h
      cases h
  | some found => exact held_drop shelf path

theorem held_remove_of_error {shelf : Shelf} {path : Path} {fault : IoFault}
    (h : (shelf.remove path).1 = .error fault) :
    shelf.held path.components = none ∧ (shelf.remove path).2.held = shelf.held := by
  unfold remove at h ⊢
  cases hheld : shelf.held path.components with
  | none => exact ⟨rfl, rfl⟩
  | some found =>
      rw [hheld] at h
      cases h

/-!
# A compiler for a list of products
-/

def classesOf (products : List Product) (source : String) : ClassSet :=
  .ofList ((products.filter fun product => product.source = source).map Product.name)

def produced (products : List Product) (sources : List String) :
    Std.ExtTreeMap String ClassSet :=
  sources.foldl (fun known source => known.insert source (classesOf products source)) ∅

def putAll (destination : Path) (made : List Product) (shelf : Shelf) : Shelf :=
  made.foldl (fun shelf product => shelf.put (classFileIn destination product.name) product.bytes)
    shelf

def compile (products : List Product) (succeeds : Bool) (batch : Batch) :
    ExceptT Failure (StateM Shelf) Outcome := do
  let made := products.filter fun product => product.source ∈ batch.sources
  modify (putAll batch.destination made)
  return ⟨succeeds, produced products batch.sources, ∅⟩

/-- Services with a shelf that keeps all that is saved. -/
def services (sources : List String) (products : List Product) (succeeds : Bool) :
    Services (StateM Shelf) where
  host := host sources
  compile := compile products succeeds
  method := .modifiedTime
  fingerprints :=
    ⟨do return (← get).fingerprints,
      fun fingerprints => modify fun shelf => { shelf with fingerprints := some fingerprints }⟩
  ownership :=
    ⟨do return (← get).register,
      fun register => modify fun shelf => { shelf with register := some register }⟩

def project (destination : Path) : Project :=
  ⟨sourceRoot, destination, ""⟩

def classFiles (sources : List String) (products : List Product) (succeeds : Bool)
    (destination : Path) :
    ClassFiles (services sources products succeeds).host (project destination).destination where
  held := held
  kindOf_keeps _ _ := rfl
  filesBelow_keeps _ _ := rfl
  readFile_keeps _ _ := rfl
  modified_keeps _ _ := rfl
  milliseconds_keeps _ := rfl
  makeDirectories_keeps _ _ := rfl
  readFile_ok _ h := held_of_read h
  readFile_notFound _ h := held_of_read_error h
  removeFile_ok _ h := held_remove_of_ok h
  removeFile_notFound _ h := (held_remove_of_error h).1
  removeFile_error _ h := (held_remove_of_error h).2
  writeFile_ok _ _ := held_put _ _ _

variable {destination : Path} {sources : List String} {products : List Product}
  {succeeds : Bool}

theorem mem_produced_iff {entry : String × ClassSet} {sources : List String} :
    entry ∈ (produced products sources).toList ↔
      entry.1 ∈ sources ∧ classesOf products entry.1 = entry.2 := by
  rw [Std.ExtTreeMap.mem_toList_iff_getElem?_eq_some]
  unfold produced
  rw [getElem?_foldl_insert]
  by_cases hsource : entry.1 ∈ sources
  · rw [if_pos hsource, Option.some.injEq]
    simp [hsource]
  · rw [if_neg hsource]
    simp [hsource]

theorem mem_classesOf {source : String} {name : ClassName} :
    name ∈ classesOf products source ↔
      ∃ product ∈ products, product.source = source ∧ product.name = name := by
  unfold classesOf
  rw [Std.ExtTreeSet.mem_ofList, List.contains_iff_mem]
  simp [and_assoc]

theorem mem_classes_iff {succeeds : Bool} {sources : List String} {name : ClassName} :
    name ∈ Outcome.classes ⟨succeeds, produced products sources, ∅⟩ ↔
      ∃ product ∈ products, product.source ∈ sources ∧ product.name = name := by
  rw [Build.mem_classes]
  constructor
  · rintro ⟨entry, hentry, hname⟩
    obtain ⟨hsource, hclasses⟩ := mem_produced_iff.mp hentry
    rw [← hclasses, mem_classesOf] at hname
    obtain ⟨product, hproduct, hsame, rfl⟩ := hname
    rw [← hsame] at hsource
    exact ⟨product, hproduct, hsource, rfl⟩
  · rintro ⟨product, hproduct, hsource, rfl⟩
    refine ⟨(product.source, classesOf products product.source),
      mem_produced_iff.mpr ⟨hsource, rfl⟩, ?_⟩
    exact mem_classesOf.mpr ⟨product, hproduct, rfl, rfl⟩

theorem held_putAll (destination : Path) (made : List Product) (shelf : Shelf) (key : FileKey) :
    (∃ product ∈ made, fileKey destination product.name = key ∧
      (shelf.putAll destination made).held key = some product.bytes) ∨
    (∀ product ∈ made, fileKey destination product.name ≠ key) ∧
      (shelf.putAll destination made).held key = shelf.held key := by
  induction made generalizing shelf with
  | nil => exact Or.inr ⟨nofun, rfl⟩
  | cons first rest ih =>
      rcases ih (shelf.put (classFileIn destination first.name) first.bytes) with
        ⟨product, hproduct, hkey, hheld⟩ | ⟨hnone, hheld⟩
      · exact Or.inl ⟨product, List.mem_cons_of_mem _ hproduct, hkey, hheld⟩
      · rw [held_put] at hheld
        by_cases hfirst : fileKey destination first.name = key
        · refine Or.inl ⟨first, List.mem_cons_self, hfirst, hheld.trans ?_⟩
          rw [← hfirst]
          exact Function.update_self _ _ _
        · refine Or.inr ⟨List.forall_mem_cons.mpr ⟨hfirst, hnone⟩, hheld.trans ?_⟩
          exact Function.update_of_ne (Ne.symm hfirst) _ _

/-!
# Nothing is too much to ask
-/

open Build

theorem placed_putAll {shelf : Shelf} {made : List Product}
    (hnamed : ∀ product ∈ made, product.IsNamed)
    (hplaced : (classFiles sources products succeeds destination).Placed shelf) :
    (classFiles sources products succeeds destination).Placed (shelf.putAll destination made) := by
  intro key bytes surface hbytes hsurface
  have hheld : (shelf.putAll destination made).held key = some bytes := hbytes
  rcases held_putAll destination made shelf key with
    ⟨product, hproduct, hkey, hput⟩ | ⟨_, hkept⟩
  · rw [hput] at hheld
    cases hheld
    rw [(hnamed product hproduct).name_eq hsurface]
    exact hkey.symm
  · rw [hkept] at hheld
    exact hplaced hheld hsurface

theorem storesSpare (sources : List String) (products : List Product) (succeeds : Bool)
    (destination : Path) : StoresSpare (classFiles sources products succeeds destination) where
  loadFingerprints _ := rfl
  saveFingerprints _ _ := rfl
  loadOwnership _ := rfl
  saveOwnership _ _ := rfl

theorem readsListed (sources : List String) (products : List Product) (succeeds : Bool)
    (destination : Path) : (classFiles sources products succeeds destination).ReadsListed := by
  intro paths path world _ _ _ later bytes _ hread
  exact held_of_read hread

theorem runIn_classFiles (hfiles : Find.isStandardInput destination = false)
    (hbeside : destination.text ≠ sourceRoot.text) (shelf : Shelf) :
    runIn (Find.classFiles (host sources) destination) shelf =
      (.ok (Find.sortPaths (Find.withExtension classExtension (shelf.files.map Prod.fst))),
        shelf) := by
  have hbelow : shelf.below sources destination = shelf.files.map Prod.fst :=
    if_neg hbeside
  rw [← hbelow]
  unfold Find.classFiles Find.files
  rw [hfiles]
  rfl

theorem sees (hfiles : Find.isStandardInput destination = false)
    (hbeside : destination.text ≠ sourceRoot.text) {shelf : Shelf}
    (hkeys : ∀ key, shelf.held key ≠ none →
      ∃ path : Path, path.components = key ∧ path.extension? = some classExtension) :
    (classFiles sources products succeeds destination).Sees shelf := by
  intro paths left hwalk key hkey
  have hlisted : (Except.ok paths, left) = _ :=
    hwalk.symm.trans (runIn_classFiles hfiles hbeside shelf)
  cases hlisted
  obtain ⟨like, hlike, hextension⟩ := hkeys key hkey
  have hheld : (shelf.files.find? fun file => file.1.components = key).isSome := by
    refine Option.isSome_iff_ne_none.mpr fun hnone => hkey ?_
    show (shelf.files.find? fun file => file.1.components = key).map Prod.snd = none
    rw [hnone]
    rfl
  obtain ⟨file, hfile⟩ := Option.isSome_iff_exists.mp hheld
  have hplace : file.1.components = key := by simpa using List.find?_some hfile
  refine ⟨file.1, ?_, hplace⟩
  rw [Find.mem_sortPaths, Find.withExtension, List.mem_filter, decide_eq_true_eq]
  refine ⟨List.mem_map_of_mem (List.mem_of_find?_eq_some hfile), ?_⟩
  rw [Path.extension?_congr (hplace.trans hlike.symm)]
  exact hextension

theorem mem_made_iff {asked : List String} {product : Product} :
    product ∈ products.filter (fun product => product.source ∈ asked) ↔
      product ∈ products ∧ product.source ∈ asked := by
  rw [List.mem_filter, decide_eq_true_eq]

theorem writesListed (sources : List String) (succeeds : Bool) (destination : Path)
    (hbinary : ∀ product ∈ products, product.name.IsBinary) :
    WritesListed (classFiles sources products succeeds destination) := by
  constructor
  · intro asked shelf outcome left hcall
    cases hcall
    constructor
    · intro name hname
      obtain ⟨product, hproduct, hsource, rfl⟩ := mem_classes_iff.mp hname
      rcases held_putAll destination (products.filter fun product => product.source ∈ asked)
        shelf (fileKey destination product.name) with ⟨_, _, _, hheld⟩ | ⟨hnone, _⟩
      · exact fun habsent => Option.some_ne_none _ (hheld.symm.trans habsent)
      · exact absurd rfl (hnone product (mem_made_iff.mpr ⟨hproduct, hsource⟩))
    · intro key hkey
      rcases held_putAll destination (products.filter fun product => product.source ∈ asked)
        shelf key with ⟨product, hmade, hsame, _⟩ | ⟨_, hheld⟩
      · obtain ⟨hproduct, hsource⟩ := mem_made_iff.mp hmade
        exact absurd hsame
          (hkey product.name (mem_classes_iff.mpr ⟨product, hproduct, hsource, rfl⟩))
      · exact hheld
    · intro name hname
      obtain ⟨product, hproduct, _, rfl⟩ := mem_classes_iff.mp hname
      exact (hbinary product hproduct).leadsBelow
  · intro asked shelf error left hcall
    cases hcall

theorem compilesPlainly (sources : List String) (succeeds : Bool) (destination : Path)
    (hbinary : ∀ product ∈ products, product.name.IsBinary)
    (honce : ∀ a ∈ products, ∀ b ∈ products, a.name = b.name → a.source = b.source) :
    CompilesPlainly (services sources products succeeds) (project destination) := by
  intro asked shelf outcome left hcall
  cases hcall
  constructor
  · intro a b name ha hb hname hname'
    obtain ⟨_, hclasses⟩ := mem_produced_iff.mp ha
    obtain ⟨_, hclasses'⟩ := mem_produced_iff.mp hb
    rw [← hclasses, mem_classesOf] at hname
    rw [← hclasses', mem_classesOf] at hname'
    obtain ⟨first, hfirst, hsource, hsame⟩ := hname
    obtain ⟨second, hsecond, hsource', hsame'⟩ := hname'
    have howner : a.1 = b.1 := by
      rw [← hsource, ← hsource']
      exact honce first hfirst second hsecond (hsame.trans hsame'.symm)
    refine Prod.ext howner ?_
    rw [← hclasses, ← hclasses', howner]
  · intro name hname
    obtain ⟨product, hproduct, _, rfl⟩ := mem_classes_iff.mp hname
    exact hbinary product hproduct

theorem writesNamed (sources : List String) (succeeds : Bool) (destination : Path)
    (hbinary : ∀ product ∈ products, product.name.IsBinary)
    (hnamed : ∀ product ∈ products, product.IsNamed) :
    WritesNamed (classFiles sources products succeeds destination) := by
  constructor
  · intro asked shelf outcome left hcall source hsource
    cases hcall
    rw [← Std.ExtTreeMap.mem_keys, ← Std.ExtTreeMap.map_fst_toList_eq_keys] at hsource
    obtain ⟨entry, hentry, rfl⟩ := List.mem_map.mp hsource
    exact (mem_produced_iff.mp hentry).1
  · intro asked shelf outcome left hcall
    cases hcall
    intro name hname bytes surface hheld hsurface
    obtain ⟨listed, hlisted, hsource, rfl⟩ := mem_classes_iff.mp hname
    rcases held_putAll destination (products.filter fun product => product.source ∈ asked)
      shelf (fileKey destination listed.name) with ⟨product, hmade, hkey, hput⟩ | ⟨hnone, _⟩
    · obtain ⟨hproduct, _⟩ := mem_made_iff.mp hmade
      have hsame := fileKey_injective destination (hbinary product hproduct)
        (hbinary listed hlisted) hkey
      rw [hput.symm.trans hheld |> Option.some.inj |>.symm] at hsurface
      rw [← hsame]
      exact (hnamed product hproduct).name_eq hsurface
    · exact absurd rfl (hnone listed (mem_made_iff.mpr ⟨hlisted, hsource⟩))

theorem exists_product_of_compileBatch {before : Snapshot} {register : Ownership}
    {asked : List String} {outcome : Outcome} {progress progress' : Progress}
    {shelf shelf' : Shelf}
    (hrun : (compileBatch (services sources products succeeds) (project destination) before
      register asked).runFrom progress shelf = (.ok outcome, progress', shelf'))
    {name : ClassName} (hname : name ∈ outcome.classes) :
    ∃ product ∈ products, product.name = name := by
  rcases called_of_compileBatch hrun with rfl | ⟨start, hcall⟩
  · simp [Outcome.classes, Outcome.nothing] at hname
  · cases hcall
    obtain ⟨product, hproduct, _, hsame⟩ := mem_classes_iff.mp hname
    exact ⟨product, hproduct, hsame⟩

/-!
# Small class files
-/

def classBytes (flags name : UInt8) : Bytes :=
  [0xCA, 0xFE, 0xBA, 0xBE, 0, 0, 0, 52, 0, 3, 7, 0, 2, 1, 0, 1, name, 0, flags, 0, 1,
    0, 0, 0, 0, 0, 0, 0, 0, 0, 0]

def subclassBytes (name super : UInt8) : Bytes :=
  [0xCA, 0xFE, 0xBA, 0xBE, 0, 0, 0, 52, 0, 5, 7, 0, 2, 1, 0, 1, name, 7, 0, 4, 1, 0, 1, super,
    0, 0x21, 0, 1, 0, 3, 0, 0, 0, 0, 0, 0, 0, 0]

/-!
# A shelf with one class

The class may be registered for a source, and some source may compile to another
version of it.
-/

def out : Path := ⟨"out"⟩

def solo : ClassName := ⟨"X"⟩

def soloRegister (owner : String) : Ownership :=
  .ofClasses (Std.ExtTreeMap.insert ∅ solo owner)

def soloShelf (fingerprints : Option Fingerprints) (owner : Option String) : Shelf :=
  put (classFileIn out solo) (classBytes 0x21 88) ⟨[], fingerprints, owner.map soloRegister⟩

def soloProducts (source : String) : List Product :=
  [⟨source, solo, classBytes 0x20 88⟩]

theorem sourceOf?_soloRegister {owner source : String} {name : ClassName}
    (h : (soloRegister owner).sourceOf? name = some source) : name = solo := by
  have hfound : (Std.ExtTreeMap.insert (∅ : Std.ExtTreeMap ClassName String) solo owner)[name]? =
      some source := h
  rw [Std.ExtTreeMap.getElem?_insert] at hfound
  by_cases hsame : compare solo name = .eq
  · exact (Std.LawfulEqCmp.eq_of_compare hsame).symm
  · rw [if_neg hsame] at hfound
    simp at hfound

theorem leadsBelow_soloRegister (owner : String) : (soloRegister owner).LeadsBelow := by
  refine (Ownership.consistent_ofClasses _).holdsOnly_iff.mpr fun name hname => ?_
  have hsolo : name ∈ [solo] := hname
  rw [List.mem_singleton.mp hsolo]
  decide

theorem held_soloShelf (fingerprints : Option Fingerprints) (owner : Option String) :
    (soloShelf fingerprints owner).held =
      Function.update (fun _ => none) (fileKey out solo) (some (classBytes 0x21 88)) :=
  held_put _ _ _

theorem held_soloShelf_solo (fingerprints : Option Fingerprints) (owner : Option String) :
    (soloShelf fingerprints owner).held (fileKey out solo) = some (classBytes 0x21 88) := by
  rw [held_soloShelf]
  exact Function.update_self _ _ _

theorem present_soloShelf (fingerprints : Option Fingerprints) (owner : Option String) :
    (soloShelf fingerprints owner).held (fileKey out solo) ≠ none := by
  rw [held_soloShelf_solo]
  exact Option.some_ne_none _

theorem eq_of_held_soloShelf {fingerprints : Option Fingerprints} {owner : Option String}
    {key : FileKey} (h : (soloShelf fingerprints owner).held key ≠ none) :
    key = fileKey out solo := by
  rw [held_soloShelf] at h
  exact Classical.byContradiction fun hother => h (Function.update_of_ne hother _ _)

theorem soloProducts_binary (source : String) :
    ∀ product ∈ soloProducts source, product.name.IsBinary := by
  intro product hproduct
  rw [List.mem_singleton.mp hproduct]
  exact (by decide : solo.IsBinary)

theorem soloProducts_once (source : String) :
    ∀ a ∈ soloProducts source, ∀ b ∈ soloProducts source,
      a.name = b.name → a.source = b.source := by
  intro a ha b hb _
  rw [List.mem_singleton.mp ha, List.mem_singleton.mp hb]

/-!
# Builds beside a shelf

All sources are as old as each other, so a source has changed if no fingerprint
of it is kept.
-/

def current (sources : List String) : Fingerprints :=
  sources.foldl (fun taken source => taken.insert source (timeFingerprint 0)) ∅

def changes (sources : List String) (shelf : Shelf) : SourceChanges :=
  .between (shelf.fingerprints.getD ∅) (current sources)

def survey (sources : List String) (shelf : Shelf) : Survey :=
  ⟨.modifiedTime, sourceRoot, shelf.fingerprints.getD ∅,
    some ⟨current sources, shelf.changes sources⟩⟩

/-- Whether a look at the sources finds them by these names and in this order. -/
def Listed (sources : List String) : Prop :=
  Find.sortKeys ((Find.withExtension sourceExtension
    (sources.map fun source => sourceRoot.join ⟨source⟩)).filterMap (sourceKey? sourceRoot)) =
      sources

theorem listed_alone : Listed ["A.java"] := by
  unfold Listed
  decide +kernel

theorem listed_pair : Listed ["A.java", "B.java"] := by
  have hfound : (Find.withExtension sourceExtension
      (["A.java", "B.java"].map fun source => sourceRoot.join ⟨source⟩)).filterMap
        (sourceKey? sourceRoot) = ["A.java", "B.java"] := by
    decide +kernel
  unfold Listed Find.sortKeys
  rw [hfound]
  exact List.mergeSort_of_pairwise (by decide)

theorem listed_singleton {names : List String} {last : String}
    (h : ∀ name ∈ names ++ [last], Path.IsName name)
    (hlast : (Path.splitName? last).map Prod.snd = some sourceExtension) :
    Listed [String.intercalate "/" (names ++ [last])] := by
  have hcomponents : (sourceRoot.join (Path.ofPieces (names ++ [last]))).components =
      .normal "src" :: (names ++ [last]).map .normal :=
    Path.components_join sourceRoot h
  have hextension : (sourceRoot.join (Path.ofPieces (names ++ [last]))).extension? =
      some sourceExtension := by
    unfold Path.extension? Path.fileName?
    rw [hcomponents, List.map_append, ← List.cons_append, List.map_singleton, List.getLast?_concat]
    exact hlast
  have hkey : sourceKey? sourceRoot (sourceRoot.join (Path.ofPieces (names ++ [last]))) =
      some (String.intercalate "/" (names ++ [last])) := by
    have hbelow : sourceRoot.below? (sourceRoot.join (Path.ofPieces (names ++ [last]))) =
        some ((names ++ [last]).map .normal) := by
      unfold Path.below?
      rw [hcomponents]
      rfl
    unfold sourceKey?
    rw [hbelow]
    cases names with
    | nil => rfl
    | cons first rest => simp [Path.Component.text, Function.comp_def]
  have hfound : (Find.withExtension sourceExtension
      [sourceRoot.join (Path.ofPieces (names ++ [last]))]).filterMap (sourceKey? sourceRoot) =
        [String.intercalate "/" (names ++ [last])] := by
    unfold Find.withExtension
    simp [hextension, hkey]
  have hsorted := congrArg Find.sortKeys hfound
  unfold Find.sortKeys at hsorted
  rw [List.mergeSort_singleton] at hsorted
  exact hsorted

theorem runIn_fingerprintsOnto (asked : List String) (taken : Fingerprints) (shelf : Shelf) :
    runIn (Survey.fingerprintsOnto (host sources) .modifiedTime sourceRoot taken asked) shelf =
      (.ok (asked.foldl (fun taken source => taken.insert source (timeFingerprint 0)) taken),
        shelf) := by
  induction asked generalizing taken with
  | nil => rfl
  | cons first rest ih => exact ih _

theorem runIn_sources (hkeys : Listed sources) (shelf : Shelf) :
    runIn (Find.sources (host sources) sourceRoot) shelf = (.ok sources, shelf) := by
  have hrun : runIn (Find.sources (host sources) sourceRoot) shelf =
      (.ok (Find.sortKeys ((Find.withExtension sourceExtension
        (sources.map fun source => sourceRoot.join ⟨source⟩)).filterMap (sourceKey? sourceRoot))),
        shelf) := rfl
  rw [hrun]
  exact congrArg (fun keys => (Except.ok keys, shelf)) hkeys

theorem runIn_lookForChanges (hkeys : Listed sources) (shelf : Shelf) :
    runIn (lookForChanges (services sources products succeeds) (project destination)) shelf =
      (.ok (shelf.changes sources, shelf.survey sources), shelf) := by
  have hlook : runIn (Survey.look (host sources)
      ⟨.modifiedTime, sourceRoot, shelf.fingerprints.getD ∅, none⟩) shelf =
        (.ok ⟨current sources, shelf.changes sources⟩, shelf) := by
    unfold Survey.look
    rw [runIn_bind, runIn_sources hkeys]
    simp only
    rw [runIn_bind, runIn_fingerprintsOnto]
    rfl
  have hstart : runIn (Survey.start (services sources products succeeds).fingerprints
      (services sources products succeeds).method (project destination).sourceRoot) shelf =
        (.ok ⟨.modifiedTime, sourceRoot, shelf.fingerprints.getD ∅, none⟩, shelf) := rfl
  unfold lookForChanges
  rw [runIn_bind, hstart]
  simp only
  unfold Survey.changes Survey.observe
  rw [runIn_bind, runIn_bind]
  have hhost : (services sources products succeeds).host = host sources := rfl
  rw [hhost, hlook]
  rfl

def course (destination : Path) (products : List Product) (succeeds : Bool)
    (hkeys : Listed sources) (shelf : Shelf) (hchanged : (shelf.changes sources).isEmpty = false) :
    Course (services sources products succeeds) (project destination) shelf :=
  ⟨shelf.survey sources, shelf.changes sources, shelf, runIn_lookForChanges hkeys shelf,
    hchanged⟩

section Ends

variable {shelf : Shelf} (course : Course (services sources products succeeds)
  (project destination) shelf)

theorem run_eq_concluded :
    (runIn (run (services sources products succeeds) (project destination)) shelf).2 =
      course.concluded.2 := by
  rw [course.runIn_run]
  rcases course.concluded with ⟨answer, left⟩
  cases answer <;> rfl

theorem exists_report {mode : Mode} {success : Bool}
    (hconcluded : (course.concluded.1.toOption.map fun draft => (draft.mode, draft.success)) =
      some (mode, success)) :
    ∃ report,
      (runIn (run (services sources products succeeds) (project destination)) shelf).1 =
        .ok report ∧ report.mode = mode ∧ report.success = success := by
  rw [course.runIn_run]
  rcases hend : course.concluded with ⟨answer, left⟩
  rw [hend] at hconcluded
  cases answer with
  | error error => cases hconcluded
  | ok draft =>
      cases hconcluded
      exact ⟨_, rfl, rfl, rfl⟩

end Ends

end Shelf
end Recompile
