import Std.Data.String.ToNat
import Recompile.Proofs.Build.Desk
import Recompile.Proofs.Build.Retention

/-!
# Compiling a part comes to the same as compiling everything

When what a source compiles to follows from the source alone, a register tells
which source produces which class, whatever was built before. A full build makes
such a register. An attempt that starts from one makes another one: sources that
are not compiled again are as they were, and the others are entered anew.
-/

namespace Recompile

namespace Build

variable {σ κ : Type} {services : Services (StateM σ)} {project : Project}

/--
The sources with their contents. A look sees them all, and sees different
fingerprints where the contents are different. They are none of the class files
that a build writes and removes.
-/
structure Trees (services : Services (StateM σ)) (project : Project) (κ : Type) where
  tree : σ → Std.ExtTreeMap String κ
  serves : ∀ was,
    Serves services project.destination (fun world => tree world = was) fun _ => True
  seen : ∀ {start} (look : FirstLook services project start) (source : String),
    source ∈ look.observation.fingerprints ↔ source ∈ tree start
  told : ∀ {start start'} (look : FirstLook services project start)
    (look' : FirstLook services project start') (source : String),
    look.observation.fingerprints[source]? = look'.observation.fingerprints[source]? →
      (tree start)[source]? = (tree start')[source]?

/-- Whether what a source compiles to follows from its content, and is listed when all is well. -/
structure CompilesEach (trees : Trees services project κ) (classesOf : String → κ → ClassSet) :
    Prop where
  listed : ∀ {sources world outcome world'},
    runIn (services.compile (project.batch sources)) world = (.ok outcome, world') →
      outcome.success = true → ∀ source ∈ sources, source ∈ outcome.produced
  classes : ∀ {sources world outcome world'},
    runIn (services.compile (project.batch sources)) world = (.ok outcome, world') →
      outcome.success = true → ∀ {source classes}, outcome.produced[source]? = some classes →
        ∃ content, (trees.tree world)[source]? = some content ∧
          classes = classesOf source content

namespace Trees

variable (trees : Trees services project κ) (classesOf : String → κ → ClassSet)

def Produces (world : σ) (source : String) (name : ClassName) : Prop :=
  ∃ content, (trees.tree world)[source]? = some content ∧ name ∈ classesOf source content

/-- Whether no two sources compile to the same class. -/
def ProducesOnce (world : σ) : Prop :=
  ∀ {source other name}, trees.Produces classesOf world source name →
    trees.Produces classesOf world other name → source = other

def Tells (owners : Std.ExtTreeMap ClassName String) (world : σ) : Prop :=
  ∀ name source, owners[name]? = some source ↔ trees.Produces classesOf world source name

variable {trees classesOf}

theorem Tells.unique {owners owners' : Std.ExtTreeMap ClassName String} {world : σ}
    (h : trees.Tells classesOf owners world) (h' : trees.Tells classesOf owners' world) :
    owners = owners' := by
  apply Std.ExtTreeMap.ext_getElem?
  intro name
  apply Option.ext
  intro source
  rw [h name source, h' name source]

theorem produces_congr {world world' : σ} (htree : trees.tree world = trees.tree world')
    (source : String) (name : ClassName) :
    trees.Produces classesOf world source name ↔ trees.Produces classesOf world' source name := by
  unfold Produces
  rw [htree]

theorem ProducesOnce.of_tree_eq {world world' : σ} (h : trees.ProducesOnce classesOf world)
    (htree : trees.tree world' = trees.tree world) : trees.ProducesOnce classesOf world' := by
  intro source other name hproduces hproduces'
  rw [produces_congr htree] at hproduces hproduces'
  exact h hproduces hproduces'

theorem Tells.of_tree_eq {owners : Std.ExtTreeMap ClassName String} {world world' : σ}
    (h : trees.Tells classesOf owners world) (htree : trees.tree world' = trees.tree world) :
    trees.Tells classesOf owners world' := by
  intro name source
  rw [produces_congr htree]
  exact h name source

end Trees

/-!
# Batches
-/

variable {trees : Trees services project κ} {classesOf : String → κ → ClassSet}
  {start world world' : σ} {progress progress' : Progress}

structure Lists (trees : Trees services project κ) (classesOf : String → κ → ClassSet) (start : σ)
    (sources : List String) (outcome : Outcome) : Prop where
  all : ∀ source ∈ sources, ∃ entry ∈ outcome.produced.toList, entry.1 = source
  each : ∀ entry ∈ outcome.produced.toList, ∀ name,
    name ∈ entry.2 ↔ trees.Produces classesOf start entry.1 name

theorem lists_of_compile (hcompiles : CompilesEach trees classesOf) {sources : List String}
    {outcome : Outcome} (htree : trees.tree world = trees.tree start)
    (hrun : (compile services project sources).runFrom progress world =
      (.ok outcome, progress', world')) (hsuccess : outcome.success = true) :
    Lists trees classesOf start sources outcome := by
  rcases (called_of_compile hrun).2 with ⟨hnone, hnothing, _⟩ | ⟨_, hcall⟩
  · cases hnothing
    rw [hnone]
    exact ⟨nofun, nofun⟩
  · constructor
    · intro source hsource
      have hlisted := hcompiles.listed hcall hsuccess source hsource
      rw [Std.ExtTreeMap.mem_iff_isSome_getElem?, Option.isSome_iff_exists] at hlisted
      rcases hlisted with ⟨classes, hclasses⟩
      exact ⟨(source, classes), Std.ExtTreeMap.mem_toList_iff_getElem?_eq_some.mpr hclasses, rfl⟩
    · intro entry hentry name
      rw [Std.ExtTreeMap.mem_toList_iff_getElem?_eq_some] at hentry
      rcases hcompiles.classes hcall hsuccess hentry with ⟨content, hcontent, hclasses⟩
      rw [htree] at hcontent
      unfold Trees.Produces
      rw [hclasses, hcontent]
      simp

theorem lists_of_compileBatch (hcompiles : CompilesEach trees classesOf) {before : Snapshot}
    {register : Ownership} {sources : List String} {outcome : Outcome}
    (htree : trees.tree world = trees.tree start)
    (hrun : (compileBatch services project before register sources).runFrom progress world =
      (.ok outcome, progress', world')) (hsuccess : outcome.success = true) :
    Lists trees classesOf start sources outcome := by
  have hworks := (trees.serves (trees.tree start)).works progress.survey before
  rcases parts_of_compileBatch hrun with ⟨_, _, _, hbacked, hcompiled⟩
  have hbetween :=
    (hworks.backUpOwned register.holdsOnly_true sources).of_runFrom ⟨rfl, htree⟩ hbacked
  exact lists_of_compile hcompiles hbetween.1.2 hcompiled hsuccess

/-- Entering what a batch lists makes a register tell of all sources if it told of the others. -/
theorem Lists.tells {sources : List String} {outcome : Outcome} {register : Ownership}
    (h : Lists trees classesOf start sources outcome)
    (honce : trees.ProducesOnce classesOf start) (hconsistent : register.Consistent)
    (hothers : ∀ source, source ∉ sources → ∀ name,
      register.sourceOf? name = some source ↔ trees.Produces classesOf start source name) :
    trees.Tells classesOf (register.registerAll outcome.produced.toList).byClass start := by
  intro name source
  apply hconsistent.sourceOf?_registerAll_iff Std.ExtTreeMap.ordered_keys_toList
    (trees.Produces classesOf start) honce h.each
  intro other hother name
  apply hothers
  intro hsource
  rcases h.all other hsource with ⟨entry, hentry, hsame⟩
  exact hother entry hentry hsame

/-!
# Full builds
-/

theorem tells_of_compileAll (hcompiles : CompilesEach trees classesOf)
    (honce : trees.ProducesOnce classesOf start) {look : FirstLook services project start}
    {draft : Draft} (hsurvey : progress.survey = look.survey)
    (htree : trees.tree world = trees.tree start)
    (hrun : (compileAll services project).runFrom progress world =
      (.ok draft, progress', world')) (hsuccess : draft.success = true) :
    trees.Tells classesOf draft.ownership.byClass start := by
  have hseen : progress.survey.observation = some look.observation := by
    rw [hsurvey]
    rfl
  rw [runFrom_compileAll hseen] at hrun
  rcases hcompiled : (compile services project look.observation.fingerprints.keys).runFrom progress
    world with ⟨compiled, middle, left⟩
  rw [hcompiled] at hrun
  cases compiled with
  | error error => cases hrun
  | ok outcome =>
      cases hrun
      have hlists := lists_of_compile hcompiles htree hcompiled hsuccess
      rw [freshOwnership_eq]
      apply hlists.tells honce Ownership.consistent_empty
      intro source hunseen name
      rw [Std.ExtTreeMap.mem_keys, trees.seen look, Std.ExtTreeMap.mem_iff_isSome_getElem?,
        Option.not_isSome_iff_eq_none] at hunseen
      unfold Trees.Produces
      rw [hunseen]
      simp [Ownership.sourceOf?, Ownership.empty]

theorem Course.tells_of_full (course : Course services project start)
    (hcompiles : CompilesEach trees classesOf) (honce : trees.ProducesOnce classesOf start)
    {draft : Draft} (hresult : course.result = .ok draft) (hmode : draft.mode = .cold)
    (hsuccess : draft.success = true) : trees.Tells classesOf draft.ownership.byClass start := by
  rcases course.of_result hresult with
    ⟨register, loaded, _, _, hattempt⟩ | ⟨abandoned, progress, world, hfull, hrun⟩
  · rcases Completion.exists_of_runFrom hattempt with ⟨_, hfinishes⟩
    rw [hfinishes.mode_eq] at hmode
    cases hmode
  · rcases (trees.serves (trees.tree start)).turned course rfl hfull with ⟨hsurvey, htree⟩
    rcases course.exists_look with ⟨look, _, hlook, _⟩
    exact tells_of_compileAll hcompiles honce (hsurvey.trans hlook) htree hrun hsuccess

/-!
# Attempts
-/

namespace Completion

variable {changes : SourceChanges} {register : Ownership} {draft : Draft}
  (stages : Completion services project changes register progress world)

theorem tree_eq (htree : trees.tree world = trees.tree start) :
    trees.tree stages.openedWorld = trees.tree start ∧
      trees.tree stages.reviewedWorld = trees.tree start := by
  have hworks := (trees.serves (trees.tree start)).works progress.survey stages.before
  have hopened := (hworks.openLedger changes register.holdsOnly_true).of_runFrom
    ⟨rfl, htree⟩ stages.opens
  have hcompiled := (hworks.compileBatch (Ownership.holdsOnly_true _) changes.stale).of_runFrom
    hopened.1 stages.compiles
  have hreviewed := (hworks.reviewProduced (Ownership.holdsOnly_true _)
    fun _ _ _ _ => trivial).of_runFrom hcompiled.1 stages.reviews
  exact ⟨hopened.1.2, hreviewed.1.2⟩

theorem tells_of_finishes (hcompiles : CompilesEach trees classesOf)
    (honce : trees.ProducesOnce classesOf start) (hconsistent : register.Consistent)
    (htree : trees.tree world = trees.tree start)
    (hfresh : ∀ source, source ∉ changes.stale → ∀ name,
      (source ∉ changes.removed.toList ∧ register.sourceOf? name = some source ↔
        trees.Produces classesOf start source name))
    (hfinishes : stages.Finishes draft progress' world') (hsuccess : draft.success = true) :
    trees.Tells classesOf draft.ownership.byClass start := by
  rcases stages.tree_eq htree with ⟨hopened, hreviewed⟩
  rcases hfinishes.succeeded hsuccess with ⟨hfirst, hsecond⟩
  have hcleared := (removed_of_openLedger stages.opens).ownership_eq
  have hentered := (entered_of_reviewProduced stages.reviews).ownership_eq
  have hleft := stages.consistent_opened hconsistent
  have htells : trees.Tells classesOf stages.reviewed.ownership.byClass start := by
    rw [hentered]
    apply (lists_of_compileBatch hcompiles hopened stages.compiles hfirst).tells honce hleft
    intro source hstale name
    rw [hcleared, hconsistent.sourceOf?_removeAll]
    exact hfresh source hstale name
  rcases hfinishes.cases with ⟨_, hownership, _, _⟩ | ⟨hsome, _⟩
  · rw [hownership]
    exact htells
  · rcases hsecond hsome with ⟨second, hsucceeded⟩
    rw [second.ownership_eq, (entered_of_runFrom second.registers).ownership_eq]
    apply (lists_of_compileBatch hcompiles hreviewed second.compiles hsucceeded).tells honce
    · exact stages.consistent_reviewed hconsistent
    · exact fun source _ name => htells name source

end Completion

theorem Course.tells_of_attempt (course : Course services project start)
    (hcompiles : CompilesEach trees classesOf) (honce : trees.ProducesOnce classesOf start)
    (attempt : course.Attempt) (hconsistent : attempt.register.Consistent)
    {seen : σ} (look : FirstLook services project seen)
    (hcommitted : ∀ now : FirstLook services project start,
      now.committed = some look.observation.fingerprints)
    (htells : trees.Tells classesOf attempt.register.byClass seen)
    (hsuccess : attempt.draft.success = true) :
    trees.Tells classesOf attempt.draft.ownership.byClass start := by
  have hserves := trees.serves (trees.tree start)
  have htree : trees.tree attempt.loaded = trees.tree start :=
    (hserves.loadOwnership.of_runIn (hserves.begun course rfl) attempt.loads).1
  rcases course.exists_look with ⟨now, hchanges, _, _⟩
  rw [now.changes_eq, hcommitted now, Option.getD_some] at hchanges
  refine attempt.stages.tells_of_finishes hcompiles honce hconsistent htree ?_ attempt.finishes
    hsuccess
  intro source hstale name
  rw [hchanges, Std.ExtTreeSet.mem_toList, SourceChanges.mem_removed_between]
  rw [hchanges, SourceChanges.mem_stale_between] at hstale
  have howner : attempt.register.sourceOf? name = some source ↔
      trees.Produces classesOf seen source name := htells name source
  rw [howner]
  -- what was seen of a source that is still there has not changed
  have hsame : source ∈ now.observation.fingerprints →
      (trees.Produces classesOf seen source name ↔ trees.Produces classesOf start source name) := by
    intro hthere
    have hequal : look.observation.fingerprints[source]? =
        now.observation.fingerprints[source]? :=
      Classical.byContradiction fun hdiffer => hstale ⟨hthere, hdiffer⟩
    unfold Trees.Produces
    rw [trees.told look now source hequal]
  have hof : ∀ {world} (seen : FirstLook services project world),
      trees.Produces classesOf world source name → source ∈ seen.observation.fingerprints := by
    intro world seen hproduces
    rcases hproduces with ⟨content, hcontent, _⟩
    rw [trees.seen seen, Std.ExtTreeMap.mem_iff_isSome_getElem?, hcontent]
    rfl
  constructor
  · intro hkept
    have hthere : source ∈ now.observation.fingerprints :=
      Classical.byContradiction fun hgone => hkept.1 ⟨hof look hkept.2, hgone⟩
    exact (hsame hthere).mp hkept.2
  · intro hproduces
    have hthere := hof now hproduces
    exact ⟨fun hremoved => hremoved.2 hthere, (hsame hthere).mpr hproduces⟩

def Succeeds (services : Services (StateM σ)) (project : Project) (mode : Mode) (start : σ) :
    Prop :=
  ∃ report, (runIn (run services project) start).1 = .ok report ∧ report.mode = mode ∧
    report.success = true

theorem tells_of_full_build (stores : Stores services) (hcompiles : CompilesEach trees classesOf)
    (honce : trees.ProducesOnce classesOf start) (hfull : Succeeds services project .cold start) :
    ∃ owners, stores.owners (runIn (run services project) start).2 = some owners ∧
      trees.Tells classesOf owners start := by
  rcases hfull with ⟨report, hreport, hmode, hsuccess⟩
  rcases stores.owners_of_report hreport (by rw [hmode]; exact Mode.noConfusion) hsuccess with
    ⟨course, draft, hresult, hdraft, hdraftMode, howners⟩
  rw [hmode] at hdraftMode
  exact ⟨_, howners, course.tells_of_full hcompiles honce hresult hdraftMode hdraft⟩

/--
An incremental build after a full one stores the same owners that a full build
of the new sources would store: for each class the source that produces it.
-/
theorem owners_of_incremental_eq_full (stores : Stores services)
    (trees : Trees services project κ) (classesOf : String → κ → ClassSet)
    (hcompiles : CompilesEach trees classesOf)
    (hregisters : ∀ world register loaded,
      runIn services.ownership.load world = (.ok (some register), loaded) → register.Consistent)
    {older seen start other : σ} (holder : trees.ProducesOnce classesOf older)
    (hnewer : trees.ProducesOnce classesOf start)
    (hfirst : Succeeds services project .cold older)
    (howners : stores.owners start = stores.owners (runIn (run services project) older).2)
    (look : FirstLook services project seen) (hseen : trees.tree seen = trees.tree older)
    (hcommitted : stores.fingerprints start = some look.observation.fingerprints)
    (hincremental : Succeeds services project .incremental start)
    (hfull : Succeeds services project .cold other)
    (hother : trees.tree other = trees.tree start) :
    stores.owners (runIn (run services project) start).2 =
        stores.owners (runIn (run services project) other).2 ∧
      ∃ owners, stores.owners (runIn (run services project) start).2 = some owners ∧
        trees.Tells classesOf owners start := by
  rcases tells_of_full_build stores hcompiles holder hfirst with ⟨old, hold, htold⟩
  rcases tells_of_full_build stores hcompiles (hnewer.of_tree_eq hother) hfull with
    ⟨all, hall, hallTell⟩
  rcases hincremental with ⟨report, hreport, hmode, hsuccess⟩
  rcases stores.owners_of_report hreport (by rw [hmode]; exact Mode.noConfusion) hsuccess with
    ⟨course, draft, hresult, hdraft, hdraftMode, hkept⟩
  rw [hmode] at hdraftMode
  rcases course.exists_attempt hresult hdraftMode with ⟨attempt, heq⟩
  rw [← heq] at hdraft hkept
  have hstored : attempt.register.byClass = old := by
    have hloaded := stores.owners_of_load course attempt.loads
    rw [howners, hold] at hloaded
    exact (Option.some.inj hloaded).symm
  have htells : trees.Tells classesOf attempt.register.byClass seen := by
    rw [hstored]
    exact htold.of_tree_eq hseen
  have hnew := course.tells_of_attempt hcompiles hnewer attempt
    (hregisters _ _ _ attempt.loads) look
    (fun now => (stores.committed_eq now).trans hcommitted) htells hdraft
  refine ⟨?_, _, hkept, hnew⟩
  rw [hkept, hall, hnew.unique (hallTell.of_tree_eq hother.symm)]

/-!
# A class that moves

The sources of a desk are trees of this kind. One source hands its class over to
another one.
-/

end Build

namespace Desk

open Build

variable {editions : List Edition} {broken : List (String × Nat)} {desk : Desk}

theorem runIn_fingerprintsOnto (asked : List String) (taken : Fingerprints) (desk : Desk) :
    runIn (Survey.fingerprintsOnto host .modifiedTime Shelf.sourceRoot taken asked) desk =
      (.ok (asked.foldl (fun taken source =>
        taken.insert source (timeFingerprint (desk.version source))) taken), desk) := by
  induction asked generalizing taken with
  | nil => rfl
  | cons first rest ih => exact ih _

theorem getElem?_contents (desk : Desk) (source : String) :
    desk.contents[source]? = if source ∈ desk.found then some (desk.version source) else none := by
  unfold contents
  rw [getElem?_foldl_insert]
  simp

def current (desk : Desk) : Fingerprints :=
  (Find.sortKeys desk.found).foldl
    (fun taken source => taken.insert source (timeFingerprint (desk.version source))) ∅

theorem runIn_look (committed : Fingerprints) (desk : Desk) :
    runIn (Survey.look host ⟨.modifiedTime, Shelf.sourceRoot, committed, none⟩) desk =
      (.ok ⟨desk.current, .between committed desk.current⟩, desk) := by
  have hsources : runIn (Find.sources host Shelf.sourceRoot) desk =
      (.ok (Find.sortKeys desk.found), desk) := rfl
  unfold Survey.look
  dsimp only
  rw [runIn_bind, hsources]
  simp only
  rw [runIn_bind, runIn_fingerprintsOnto]
  rfl

theorem getElem?_current (desk : Desk) (source : String) :
    desk.current[source]? =
      if source ∈ desk.found then some (timeFingerprint (desk.version source)) else none := by
  unfold current
  simp only [getElem?_foldl_insert, Find.mem_sortKeys]
  by_cases hfound : source ∈ desk.found
  · simp [hfound]
  · simp [hfound]

theorem contents_congr {desk other : Desk} (h : desk.tree = other.tree) :
    desk.contents = other.contents := by
  unfold contents found sources version versionAt bytes?
  rw [h]

theorem contents_writeFile (name : ClassName) (bytes : Bytes) (desk : Desk) :
    contents (((services editions broken).host.writeFile (classFileIn Shelf.out name) bytes).run
      desk).2 = desk.contents := by
  show contents ((host.writeFile (classFileIn Shelf.out name) bytes).run desk).2 = _
  rw [run_writeFile (sourceAt?_classFileIn name)]
  exact contents_congr rfl

theorem contents_removeFile (name : ClassName) (desk : Desk) :
    contents (((services editions broken).host.removeFile (classFileIn Shelf.out name)).run
      desk).2 = desk.contents := by
  show contents ((host.removeFile (classFileIn Shelf.out name)).run desk).2 = _
  rw [run_removeFile (sourceAt?_classFileIn name)]
  exact contents_congr rfl

theorem fingerprints_of_look
    (look : FirstLook (services editions broken) (Shelf.project Shelf.out) desk)
    (source : String) :
    look.observation.fingerprints[source]? =
      desk.contents[source]?.map fun version : Nat => timeFingerprint version := by
  have hloaded : look.loaded = desk := (congrArg Prod.snd look.loads).symm
  have hlooks : runIn (Survey.look host
      ⟨.modifiedTime, Shelf.sourceRoot, look.committed.getD ∅, none⟩) look.loaded =
        (.ok look.observation, look.left) := look.looks
  rw [hloaded, runIn_look] at hlooks
  rw [← Except.ok.inj (congrArg Prod.fst hlooks), getElem?_contents, getElem?_current]
  split
  · rfl
  · rfl

theorem timeFingerprint_injective {a b : Nat} (h : timeFingerprint a = timeFingerprint b) :
    a = b :=
  Nat.repr_inj.mp h

def trees (editions : List Edition) (broken : List (String × Nat)) :
    Trees (services editions broken) (Shelf.project Shelf.out) Nat where
  tree := contents
  serves was := {
    kindOf := fun _ _ h => h
    filesBelow := fun _ _ h => h
    readFile := fun path desk h => (congrArg contents (left_readFile path desk)).trans h
    modified := fun _ _ h => h
    disk := fun _ _ => trivial
    malformedClass := fun _ _ => trivial
    milliseconds := fun _ h => h
    makeDirectories := fun _ _ _ _ h => h
    writeFile := fun name bytes desk h => (contents_writeFile name bytes desk).trans h
    removeFile := fun name desk h => (contents_removeFile name desk).trans h
    compile := fun _ _ h => ⟨h, fun _ _ => trivial⟩
    loadFingerprints := fun _ h => ⟨h, fun _ _ => trivial⟩
    loadOwnership := fun _ h => ⟨h, fun _ _ => trivial⟩ }
  seen := by
    intro desk look source
    rw [Std.ExtTreeMap.mem_iff_isSome_getElem?, Std.ExtTreeMap.mem_iff_isSome_getElem?,
      fingerprints_of_look look, Option.isSome_map]
  told := by
    intro desk desk' look look' source hsame
    rw [fingerprints_of_look look, fingerprints_of_look look'] at hsame
    refine Option.map_injective ?_ hsame
    exact fun a b => timeFingerprint_injective

def classesOf (editions : List Edition) (source : String) (version : Nat) : ClassSet :=
  .ofList ((editions.filter fun edition =>
    edition.version = version ∧ edition.product.source = source).map fun edition =>
      edition.product.name)

theorem compilesEach (editions : List Edition) (broken : List (String × Nat)) :
    CompilesEach (trees editions broken) (classesOf editions) := by
  constructor
  · intro asked desk outcome left hcall _ source hsource
    rw [outcome_eq hcall, Std.ExtTreeMap.mem_iff_isSome_getElem?]
    unfold Shelf.produced
    rw [getElem?_foldl_insert, if_pos hsource]
    rfl
  · intro asked desk outcome left hcall hsuccess source classes hclasses
    rw [outcome_eq hcall] at hclasses hsuccess
    unfold Shelf.produced at hclasses
    rw [getElem?_foldl_insert] at hclasses
    by_cases hsource : source ∈ asked
    · rw [if_pos hsource] at hclasses
      have hsound := List.all_eq_true.mp hsuccess source hsource
      cases hcontent : desk.contents[source]? with
      | none => simp [hcontent] at hsound
      | some version =>
          refine ⟨version, hcontent, ?_⟩
          rw [← Option.some.inj hclasses]
          unfold Shelf.classesOf products classesOf
          rw [List.filter_map, List.map_map, List.filter_filter]
          congr 2
          apply List.filter_congr
          intro edition _
          by_cases hsame : edition.product.source = source
          · simp [hsame, hcontent, eq_comm]
          · simp [hsame]
    · simp [hsource] at hclasses

theorem producesOnce
    (honce : ∀ a ∈ desk.products editions, ∀ b ∈ desk.products editions,
      a.name = b.name → a.source = b.source) :
    (trees editions broken).ProducesOnce (classesOf editions) desk := by
  have hproduct : ∀ {source name},
      (trees editions broken).Produces (classesOf editions) desk source name →
        ∃ product ∈ desk.products editions, product.source = source ∧ product.name = name := by
    intro source name hproduces
    rcases hproduces with ⟨version, hcontent, hname⟩
    unfold classesOf at hname
    rw [Std.ExtTreeSet.mem_ofList, List.contains_iff_mem, List.mem_map] at hname
    rcases hname with ⟨edition, hedition, hname⟩
    simp only [List.mem_filter, decide_eq_true_eq] at hedition
    have hsource := hedition.2.2
    refine ⟨edition.product, List.mem_map.mpr ⟨edition, List.mem_filter.mpr ⟨hedition.1, ?_⟩, rfl⟩,
      hsource, hname⟩
    rw [decide_eq_true_eq, hsource, hedition.2.1]
    exact hcontent
  intro source other name hproduces hproduces'
  rcases hproduct hproduces with ⟨a, ha, hsource, hname⟩
  rcases hproduct hproduces' with ⟨b, hb, hsource', hname'⟩
  rw [← hsource, ← hsource']
  exact honce a ha b hb (hname.trans hname'.symm)

def firstLook (editions : List Edition) (broken : List (String × Nat)) (desk : Desk) :
    FirstLook (services editions broken) (Shelf.project Shelf.out) desk :=
  ⟨desk.shelf.fingerprints, desk, rfl, ⟨desk.current, _⟩, desk, runIn_look _ desk⟩

end Desk

namespace Build

theorem succeeds_of_reported {mode : Mode}
    (h : reported services project start = some (mode, true)) :
    Succeeds services project mode start := by
  unfold reported at h
  unfold Succeeds
  cases hrun : (runIn (run services project) start).1 with
  | error error =>
      rw [hrun] at h
      cases h
  | ok report =>
      rw [hrun] at h
      have hreport := Prod.mk.inj (Option.some.inj h)
      exact ⟨report, rfl, hreport⟩

def movingEditions : List Edition :=
  [⟨1, ⟨"B.java", Shelf.solo, Shelf.classBytes 0x21 88⟩⟩,
    ⟨2, ⟨"A.java", Shelf.solo, Shelf.classBytes 0x20 88⟩⟩]

def movedDesk : Desk :=
  { (runIn (run (Desk.services movingEditions []) (Shelf.project Shelf.out)) (bareDesk 1)).2 with
    tree := (bareDesk 2).tree }

theorem owners_of_incremental_eq_full_of_moved_class :
    let services := Desk.services movingEditions []
    let project := Shelf.project Shelf.out
    let stores := Desk.stores movingEditions []
    Succeeds services project .cold (bareDesk 1) ∧
      Succeeds services project .incremental movedDesk ∧
      Succeeds services project .cold (bareDesk 2) ∧
      stores.owners (runIn (run services project) movedDesk).2 =
        stores.owners (runIn (run services project) (bareDesk 2)).2 := by
  intro services project stores
  have hreported : reported services project (bareDesk 1) = some (.cold, true) ∧
      reported services project movedDesk = some (.incremental, true) ∧
        reported services project (bareDesk 2) = some (.cold, true) := by
    simp only [movedDesk, reported, run, lookForChanges, Survey.changes, Survey.observe,
      Survey.look, Find.sources, Find.sortKeys_eq_insertionSort]
    decide +kernel
  have hfirst : Succeeds services project .cold (bareDesk 1) := succeeds_of_reported hreported.1
  have hincremental : Succeeds services project .incremental movedDesk :=
    succeeds_of_reported hreported.2.1
  have hfull : Succeeds services project .cold (bareDesk 2) := succeeds_of_reported hreported.2.2
  have holder : (Desk.trees movingEditions []).ProducesOnce
      (Desk.classesOf movingEditions) (bareDesk 1) :=
    Desk.producesOnce (by decide +kernel)
  have hbare : (Desk.trees movingEditions []).ProducesOnce
      (Desk.classesOf movingEditions) (bareDesk 2) :=
    Desk.producesOnce (by decide +kernel)
  have hnewer : (Desk.trees movingEditions []).ProducesOnce
      (Desk.classesOf movingEditions) movedDesk :=
    hbare.of_tree_eq rfl
  let look := Desk.firstLook movingEditions [] (bareDesk 1)
  have hcommitted : stores.fingerprints movedDesk = some look.observation.fingerprints := by
    rcases hfirst with ⟨report, hreport, hmode, hsuccess⟩
    have hother : report.mode ≠ .noOp := by
      rw [hmode]
      exact Mode.noConfusion
    exact stores.fingerprints_of_report look hreport hother hsuccess
  refine ⟨hfirst, hincremental, hfull, ?_⟩
  exact (owners_of_incremental_eq_full stores (Desk.trees movingEditions [])
    (Desk.classesOf movingEditions) (Desk.compilesEach _ _)
    (fun _ _ _ => Desk.consistent_of_load) holder hnewer hfirst rfl look rfl hcommitted
    hincremental hfull rfl).1

end Build
end Recompile
