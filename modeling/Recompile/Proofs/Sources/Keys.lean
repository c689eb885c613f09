import Recompile.Proofs.Path
import Recompile.Proofs.Sources.Stretches

/-!
# Keys of sources

A source goes by its key, which is made of what is left of its path below the
root. Joined to the root again, the key leads to the file that was found, so
sources that lie apart have keys of their own, and a look at the sources takes
the fingerprint of every file that was found, under the key of that file.
-/

namespace Recompile

variable {root path : Path} {key : String}

theorem sourceKey?_eq_some_iff :
    sourceKey? root path = some key ↔
      ∃ rest, rest ≠ [] ∧ root.below? path = some rest ∧ Path.ofComponents rest = ⟨key⟩ := by
  unfold sourceKey?
  cases root.below? path with
  | none => exact iff_of_false nofun nofun
  | some rest =>
      cases rest with
      | nil =>
          refine iff_of_false nofun ?_
          rintro ⟨_, hne, hrest, _⟩
          cases hrest
          exact hne rfl
      | cons first rest =>
          constructor
          · intro h
            cases h
            exact ⟨_, List.cons_ne_nil _ _, rfl, rfl⟩
          · rintro ⟨_, _, hrest, hkey⟩
            cases hrest
            exact congrArg (fun path => some path.text) hkey

theorem components_join_sourceKey? (h : sourceKey? root path = some key) :
    (root.join ⟨key⟩).components = path.components := by
  obtain ⟨rest, _, hbelow, hkey⟩ := sourceKey?_eq_some_iff.mp h
  rw [← hkey]
  exact Path.components_join_below hbelow

theorem components_eq_of_sourceKey? {other : Path} (h : sourceKey? root path = some key)
    (hother : sourceKey? root other = some key) : path.components = other.components := by
  rw [← components_join_sourceKey? h, components_join_sourceKey? hother]

/-!
# Looks at the sources
-/

variable {σ : Type} {host : Host (StateM σ)} {world left : σ}

theorem exists_files_of_runIn_sources (hreads : ReadsOnly host) {keys : List String}
    (h : runIn (Find.sources host root) world = (.ok keys, left)) :
    ∃ files, runIn (Find.files host root) world = (.ok files, world) ∧
      keys = Find.sortKeys
        ((Find.withExtension sourceExtension files).filterMap (sourceKey? root)) := by
  unfold Find.sources at h
  rcases ok_of_runIn_bind h with ⟨isDirectory, between, hkind, h⟩
  cases ReadsOnly.left_eq (fun was => (hreads was).isDirectory root) hkind
  cases isDirectory with
  | false =>
      rcases ok_of_runIn_bind h with ⟨_, _, hthrow, _⟩
      cases hthrow
  | true =>
      rcases ok_of_runIn_bind h with ⟨files, between, hfiles, h⟩
      cases ReadsOnly.left_eq (fun was => (hreads was).files root) hfiles
      cases h
      exact ⟨files, hfiles, rfl⟩

/--
What a look sees has an entry for each source file that was found, under its
key, and nothing else.
-/
theorem exists_files_of_runIn_look (hreads : ReadsOnly host) {survey : Survey}
    {observation : Observation}
    (h : runIn (Survey.look host survey) world = (.ok observation, left)) :
    ∃ files, runIn (Find.files host survey.root) world = (.ok files, world) ∧
      (∀ source, source ∈ observation.fingerprints ↔
        ∃ file ∈ Find.withExtension sourceExtension files,
          sourceKey? survey.root file = some source) ∧
      ∀ source ∈ observation.fingerprints, ∃ text,
        runIn (Survey.fingerprint host survey.method (survey.root.join ⟨source⟩)) world =
          (.ok text, world) ∧ observation.fingerprints[source]? = some text := by
  obtain ⟨⟨sources, hsources, hseen, htexts⟩, _⟩ := Survey.of_runIn_look hreads h
  obtain ⟨files, hfiles, rfl⟩ := exists_files_of_runIn_sources hreads hsources
  refine ⟨files, hfiles, ?_, fun source hsource => htexts source ((hseen source).mp hsource)⟩
  intro source
  rw [hseen, Find.mem_sortKeys, List.mem_filterMap]

/--
Below every root a key leads back to the components of the path that it was
made for, so paths with other components have other keys. A look takes the
fingerprint of every source file that it found where the key of the file leads
to, and source files with other components are seen beside it.
-/
theorem keys_lead_back (root : Path) :
    (∀ path key, sourceKey? root path = some key →
      (root.join ⟨key⟩).components = path.components) ∧
    (∀ path other key, path.components ≠ other.components →
      sourceKey? root path = some key → sourceKey? root other ≠ some key) ∧
    ∀ {σ : Type} (host : Host (StateM σ)) (method : FingerprintMethod) (committed : Fingerprints)
      (world left : σ) (observation : Observation), ReadsOnly host →
      runIn (Survey.look host ⟨method, root, committed, none⟩) world = (.ok observation, left) →
      ∃ files, runIn (Find.files host root) world = (.ok files, world) ∧
        (∀ source ∈ observation.fingerprints, ∃ file ∈ Find.withExtension sourceExtension files,
          sourceKey? root file = some source) ∧
        ∀ file ∈ Find.withExtension sourceExtension files, ∀ key, sourceKey? root file = some key →
          (root.join ⟨key⟩).components = file.components ∧
          ∃ text, runIn (Survey.fingerprint host method (root.join ⟨key⟩)) world =
            (.ok text, world) ∧ observation.fingerprints[key]? = some text := by
  refine ⟨fun path key => components_join_sourceKey?, ?_, ?_⟩
  · intro path other key hne hpath hother
    exact hne (components_eq_of_sourceKey? hpath hother)
  · intro σ host method committed world left observation hreads h
    obtain ⟨files, hfiles, hseen, htexts⟩ := exists_files_of_runIn_look hreads h
    refine ⟨files, hfiles, fun source hsource => (hseen source).mp hsource, ?_⟩
    intro file hfile key hkey
    exact ⟨components_join_sourceKey? hkey, htexts key ((hseen key).mpr ⟨file, hfile, hkey⟩)⟩

theorem keys_lead_back_of_dotted_root :
    sourceKey? ⟨"./src/"⟩ ⟨"./src//p/./A.java"⟩ = some "p/A.java" ∧
      ((⟨"./src/"⟩ : Path).join ⟨"p/A.java"⟩).components =
        (⟨"./src//p/./A.java"⟩ : Path).components ∧
      sourceKey? ⟨"./src/"⟩ ⟨"./src/p/../A.java"⟩ ≠ some "p/A.java" ∧
      ∃ text, runIn (Survey.fingerprint Desk.host .modifiedTime (Shelf.sourceRoot.join ⟨"A.java"⟩))
          (Build.bareDesk 1) = (.ok text, Build.bareDesk 1) ∧
        (Build.bareDesk 1).current["A.java"]? = some text := by
  have hkey : sourceKey? ⟨"./src/"⟩ ⟨"./src//p/./A.java"⟩ = some "p/A.java" := by decide +kernel
  have hne : (⟨"./src//p/./A.java"⟩ : Path).components ≠
      (⟨"./src/p/../A.java"⟩ : Path).components := by
    decide +kernel
  have hfound : Shelf.sourceRoot.join ⟨"A.java"⟩ ∈ Find.withExtension sourceExtension
      [Shelf.sourceRoot.join ⟨"A.java"⟩, Shelf.sourceRoot.join ⟨"B.java"⟩] := by
    decide +kernel
  have hfoundKey : sourceKey? Shelf.sourceRoot (Shelf.sourceRoot.join ⟨"A.java"⟩) =
      some "A.java" := by
    decide +kernel
  have hlisted : runIn (Find.files Desk.host Shelf.sourceRoot) (Build.bareDesk 1) =
      (.ok [Shelf.sourceRoot.join ⟨"A.java"⟩, Shelf.sourceRoot.join ⟨"B.java"⟩],
        Build.bareDesk 1) :=
    rfl
  obtain ⟨hback, hapart, _⟩ := keys_lead_back ⟨"./src/"⟩
  obtain ⟨_, _, hlooks⟩ := keys_lead_back Shelf.sourceRoot
  obtain ⟨files, hfiles, _, hseen⟩ := hlooks Desk.host .modifiedTime ∅ _ _ _ Desk.keeping.reads
    (Desk.runIn_look ∅ (Build.bareDesk 1))
  cases hlisted.symm.trans hfiles
  exact ⟨hkey, hback _ _ hkey, hapart _ _ _ hne hkey, (hseen _ hfound _ hfoundKey).2⟩

end Recompile
