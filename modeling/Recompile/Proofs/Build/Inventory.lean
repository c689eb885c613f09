import Recompile.Proofs.Looking
import Recompile.Proofs.Sources.Sorting
import Recompile.Proofs.Surface.Lookup

/-!
# What a snapshot shows

A snapshot is taken by reading the files that a walk lists. It shows a class
only where there is a file for it. It shows all of them when the walk comes to
every file, which it does not for a destination that it takes for something
else, and not behind links.
-/

namespace Recompile
namespace ClassFiles

variable {σ α β : Type} {host : Host (StateM σ)} {destination : Path}
  {files : ClassFiles host destination} {world world' left : σ} {snapshot : Snapshot}
  {name : ClassName} {surface : ClassSurface}

/-- Whether reading a class file that a walk lists gives what is held at its components. -/
def ReadsListed (files : ClassFiles host destination) : Prop :=
  ∀ ⦃paths path world⦄, ((host.filesBelow destination).run world).1 = .ok paths → path ∈ paths →
    path.extension? = some classExtension →
      ∀ ⦃later bytes⦄, files.held later = files.held world →
        ((host.readFile path).run later).1 = .ok bytes →
          files.held later path.components = some bytes

/-- Whether a walk through the destination comes to every class file that is there. -/
def Sees (files : ClassFiles host destination) (world : σ) : Prop :=
  ∀ paths left, runIn (Find.classFiles host destination) world = (.ok paths, left) →
    ∀ key, files.held world key ≠ none → ∃ path ∈ paths, path.components = key

/-- Whether every class file is where the class in it belongs. -/
def Placed (files : ClassFiles host destination) (world : σ) : Prop :=
  ∀ ⦃key bytes surface⦄, files.held world key = some bytes →
    ClassFile.surfaceOf bytes = .ok surface → key = fileKey destination surface.name

def Depicts (files : ClassFiles host destination) (snapshot : Snapshot) (world : σ) : Prop :=
  ∀ name surface, snapshot.get? name = some surface ↔
    ∃ bytes, files.held world (fileKey destination name) = some bytes ∧
      ClassFile.surfaceOf bytes = .ok surface ∧ surface.name = name

theorem Placed.of_held_eq (h : files.Placed world) (hheld : files.held world' = files.held world) :
    files.Placed world' := by
  intro key bytes surface hbytes
  rw [hheld] at hbytes
  exact h hbytes

theorem Depicts.of_held_eq (h : files.Depicts snapshot world)
    (hheld : files.held world' = files.held world) : files.Depicts snapshot world' := by
  intro name surface
  rw [hheld]
  exact h name surface

/-!
# The steps of a snapshot
-/

theorem members_of_runIn_mapM {act : α → ExceptT Failure (StateM σ) β} {items : List α}
    {values : List β} (hspares : ∀ item, files.Spares (act item))
    (h : runIn (items.mapM act) world = (.ok values, left)) :
    (∀ value ∈ values, ∃ item ∈ items, ∃ between after,
      files.held between = files.held world ∧ runIn (act item) between = (.ok value, after)) ∧
    ∀ item ∈ items, ∃ value ∈ values, ∃ between after,
      files.held between = files.held world ∧ runIn (act item) between = (.ok value, after) := by
  induction items generalizing values world with
  | nil =>
      cases h
      exact ⟨nofun, nofun⟩
  | cons item rest ih =>
      rw [List.mapM_cons] at h
      rcases ok_of_runIn_bind h with ⟨value, between, hfirst, hrest⟩
      rcases ok_of_runIn_bind hrest with ⟨others, _, hothers, hdone⟩
      rw [runIn_pure] at hdone
      cases hdone
      have hkept := hspares item world
      rw [hfirst] at hkept
      obtain ⟨hvalues, hitems⟩ := ih hothers
      rw [hkept] at hvalues hitems
      constructor
      · intro found hfound
        rcases List.mem_cons.mp hfound with rfl | hlater
        · exact ⟨item, List.mem_cons_self, world, between, rfl, hfirst⟩
        · obtain ⟨other, hother, hrun⟩ := hvalues found hlater
          exact ⟨other, List.mem_cons_of_mem _ hother, hrun⟩
      · intro other hother
        rcases List.mem_cons.mp hother with rfl | hlater
        · exact ⟨value, List.mem_cons_self, world, between, rfl, hfirst⟩
        · obtain ⟨found, hfound, hrun⟩ := hitems other hlater
          exact ⟨found, List.mem_cons_of_mem _ hfound, hrun⟩

theorem ok_of_runIn_diskAt {path : Path} {operation : StateM σ (Except IoFault α)} {value : α}
    (h : runIn (diskAt path operation) world = (.ok value, left)) :
    (operation.run world).1 = .ok value := by
  unfold diskAt at h
  rw [runIn_bind, runIn_lift] at h
  rcases hresult : (operation.run world).1 with fault | found
  · rw [hresult] at h
    cases h
  · rw [hresult] at h
    cases h
    rfl

theorem of_runIn_classFiles (files : ClassFiles host destination) {paths : List Path}
    {path : Path} (h : runIn (Find.classFiles host destination) world = (.ok paths, left))
    (hpath : path ∈ paths) :
    path.extension? = some classExtension ∧
      ∃ listed between, files.held between = files.held world ∧
        ((host.filesBelow destination).run between).1 = .ok listed ∧ path ∈ listed := by
  unfold Find.classFiles at h
  rcases ok_of_runIn_bind h with ⟨isDirectory, between, hlooked, hrest⟩
  have hkept := files.spares_isDirectory destination world
  rw [hlooked] at hkept
  cases isDirectory with
  | false =>
      cases hrest
      cases hpath
  | true =>
      rcases ok_of_runIn_bind hrest with ⟨listed, after, hlisted, hdone⟩
      cases hdone
      rw [Find.mem_sortPaths, Find.withExtension, List.mem_filter, decide_eq_true_eq] at hpath
      refine ⟨hpath.2, listed, between, hkept, ?_, hpath.1⟩
      unfold Find.files at hlisted
      by_cases hinput : Find.isStandardInput destination = true
      · rw [if_pos hinput] at hlisted
        cases hlisted
        cases hpath.1
      · rw [if_neg hinput] at hlisted
        exact ok_of_runIn_diskAt hlisted

theorem of_runIn_readClass {path : Path}
    (h : runIn (Inventory.readClass host path) world = (.ok surface, left)) :
    ∃ bytes, ((host.readFile path).run world).1 = .ok bytes ∧
      ClassFile.surfaceOf bytes = .ok surface := by
  unfold Inventory.readClass at h
  rcases ok_of_runIn_bind h with ⟨bytes, between, hread, hrest⟩
  refine ⟨bytes, ok_of_runIn_diskAt hread, ?_⟩
  cases hfound : ClassFile.surfaceOf bytes with
  | error reason =>
      rw [hfound] at hrest
      cases hrest
  | ok found =>
      rw [hfound] at hrest
      cases hrest
      rfl

/-!
# From the files to the snapshot
-/

theorem exists_of_runIn_take (files : ClassFiles host destination) (hreads : files.ReadsListed)
    (htake : runIn (Inventory.take host destination) world = (.ok snapshot, left)) :
    ∃ paths after classes,
      runIn (Find.classFiles host destination) world = (.ok paths, after) ∧
      snapshot = Snapshot.ofList classes ∧
      (∀ surface ∈ classes, ∃ path ∈ paths, ∃ bytes,
        files.held world path.components = some bytes ∧
          ClassFile.surfaceOf bytes = .ok surface) ∧
      ∀ path ∈ paths, ∃ surface ∈ classes, ∃ bytes,
        files.held world path.components = some bytes ∧
          ClassFile.surfaceOf bytes = .ok surface := by
  unfold Inventory.take at htake
  rcases ok_of_runIn_bind htake with ⟨paths, after, hlisted, hrest⟩
  rcases ok_of_runIn_bind hrest with ⟨classes, _, hread, hdone⟩
  cases hdone
  have hkept := files.spares_classFiles destination world
  rw [hlisted] at hkept
  obtain ⟨hclasses, hpaths⟩ := members_of_runIn_mapM files.spares_readClass hread
  have hone : ∀ path ∈ paths, ∀ surface between later,
      files.held between = files.held after →
        runIn (Inventory.readClass host path) between = (.ok surface, later) →
          ∃ bytes, files.held world path.components = some bytes ∧
            ClassFile.surfaceOf bytes = .ok surface := by
    intro path hpath surface between later hbetween hrun
    obtain ⟨bytes, hbytes, hsurface⟩ := of_runIn_readClass hrun
    obtain ⟨hextension, listed, start, hstart, hbelow, hmem⟩ :=
      of_runIn_classFiles files hlisted hpath
    have hsame : files.held between = files.held start := by
      rw [hbetween, hkept, hstart]
    have hheld := hreads hbelow hmem hextension hsame hbytes
    rw [hsame, hstart] at hheld
    exact ⟨bytes, hheld, hsurface⟩
  refine ⟨paths, after, classes, hlisted, rfl, ?_, ?_⟩
  · intro surface hsurface
    obtain ⟨path, hpath, between, later, hbetween, hrun⟩ := hclasses surface hsurface
    exact ⟨path, hpath, hone path hpath surface between later hbetween hrun⟩
  · intro path hpath
    obtain ⟨surface, hsurface, between, later, hbetween, hrun⟩ := hpaths path hpath
    exact ⟨surface, hsurface, hone path hpath surface between later hbetween hrun⟩

theorem classFiles_eq_nil_of_isStandardInput {paths : List Path}
    (hinput : Find.isStandardInput destination = true)
    (h : runIn (Find.classFiles host destination) world = (.ok paths, left)) : paths = [] := by
  unfold Find.classFiles at h
  rcases ok_of_runIn_bind h with ⟨isDirectory, _, _, hrest⟩
  cases isDirectory with
  | false =>
      cases hrest
      rfl
  | true =>
      unfold Find.files at hrest
      rw [if_pos hinput] at hrest
      cases hrest
      exact List.eq_nil_iff_forall_not_mem.mpr fun path hpath =>
        nomatch Find.mem_sortPaths.mp hpath

/-- A destination that is taken for standard input shows no class, whatever is there. -/
theorem get?_of_isStandardInput (hinput : Find.isStandardInput destination = true)
    (htake : runIn (Inventory.take host destination) world = (.ok snapshot, left))
    (name : ClassName) : snapshot.get? name = none := by
  unfold Inventory.take at htake
  rcases ok_of_runIn_bind htake with ⟨paths, _, hlisted, hrest⟩
  rw [classFiles_eq_nil_of_isStandardInput hinput hlisted] at hrest
  cases hrest
  simp [Snapshot.ofList, Snapshot.get?]

theorem exists_file_of_get? (hreads : files.ReadsListed) (hplaced : files.Placed world)
    (htake : runIn (Inventory.take host destination) world = (.ok snapshot, left))
    (hfound : snapshot.get? name = some surface) :
    ∃ bytes, files.held world (fileKey destination name) = some bytes ∧
      ClassFile.surfaceOf bytes = .ok surface ∧ surface.name = name := by
  obtain ⟨_, _, classes, _, rfl, hclasses, _⟩ := exists_of_runIn_take files hreads htake
  have hlast := Snapshot.get?_ofList_eq_some_iff.mp hfound
  obtain ⟨path, _, bytes, hbytes, hsurface⟩ := hclasses surface hlast.mem
  rw [hplaced hbytes hsurface, hlast.holds] at hbytes
  exact ⟨bytes, hbytes, hsurface, hlast.holds⟩

theorem depicts_of_take (hreads : files.ReadsListed) (hplaced : files.Placed world)
    (hsees : files.Sees world)
    (htake : runIn (Inventory.take host destination) world = (.ok snapshot, left)) :
    files.Depicts snapshot world := by
  intro name surface
  constructor
  · exact exists_file_of_get? hreads hplaced htake
  · rintro ⟨bytes, hbytes, hsurface, hname⟩
    obtain ⟨paths, after, classes, hlisted, hsnapshot, _, hpaths⟩ :=
      exists_of_runIn_take files hreads htake
    have hthere : files.held world (fileKey destination name) ≠ none := by
      rw [hbytes]
      exact Option.some_ne_none _
    obtain ⟨path, hpath, hkey⟩ := hsees paths after hlisted _ hthere
    obtain ⟨read, hmem, others, hothers, hread⟩ := hpaths path hpath
    rw [hkey, hbytes] at hothers
    cases hothers
    rw [hsurface] at hread
    cases hread
    have hsome : snapshot.get? name ≠ none := by
      rw [hsnapshot, Ne, Snapshot.get?_ofList_eq_none_iff]
      exact fun hnone => hnone surface hmem hname
    obtain ⟨found, hfound⟩ := Option.ne_none_iff_exists'.mp hsome
    -- another class of that name would have been read from the same file
    obtain ⟨again, hagain, hparsed, _⟩ := exists_file_of_get? hreads hplaced htake hfound
    rw [hbytes] at hagain
    cases hagain
    rw [hsurface] at hparsed
    cases hparsed
    exact hfound

end ClassFiles
end Recompile
