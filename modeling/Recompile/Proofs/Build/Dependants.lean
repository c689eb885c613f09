import Recompile.Proofs.Build.Completion
import Recompile.Proofs.Build.Review
import Recompile.Proofs.Build.Shelf

/-!
# Dependants are compiled

A class that refers to one that changed incompatibly has to be compiled, or it
may no longer fit. Either it is affected itself, and then the first batch wrote
its file, or the review comes upon it and names its source. The review knows
only the classes that it sees: none of them in a destination that is taken for
standard input.
-/

namespace Recompile
namespace Build

variable {σ : Type} {services : Services (StateM σ)} {project : Project}
  {files : ClassFiles services.host project.destination}
  {world world' compiled : σ} {outcome : Outcome} {ledger ledger' : Ledger}
  {key : FileKey} {bytes : Bytes} {surface : ClassSurface} {name : ClassName} {source : String}

/-!
# Files keep to their places
-/

theorem Deletion.held_of_some {removed : Set FileKey}
    (h : Deletion files removed world world') (hbytes : files.held world' key = some bytes) :
    key ∉ removed ∧ files.held world key = some bytes := by
  have hleft : key ∉ removed := by
    intro hgone
    rw [h.gone key hgone] at hbytes
    cases hbytes
  rw [h.left key hleft] at hbytes
  exact ⟨hleft, hbytes⟩

theorem Deletion.placed {removed : Set FileKey} (h : Deletion files removed world world')
    (hplaced : files.Placed world) : files.Placed world' := by
  intro key bytes surface hbytes hsurface
  exact hplaced (h.held_of_some hbytes).2 hsurface

theorem Accounts.placed (haccounts : Accounts files world outcome world')
    (hnamed : Named files outcome world') (hplaced : files.Placed world) :
    files.Placed world' := by
  intro key bytes surface hbytes hsurface
  by_cases hlisted : ∃ name ∈ outcome.classes, fileKey project.destination name = key
  · obtain ⟨name, hname, rfl⟩ := hlisted
    rw [hnamed name hname hbytes hsurface]
  · rw [haccounts.unlisted key fun name hname heq => hlisted ⟨name, hname, heq⟩] at hbytes
    exact hplaced hbytes hsurface

theorem Accounts.held_of_unlisted (haccounts : Accounts files world outcome world')
    (hnamed : Named files outcome world')
    (hbytes : files.held world' (fileKey project.destination surface.name) = some bytes)
    (hsurface : ClassFile.surfaceOf bytes = .ok surface)
    (hunlisted : surface.name ∉ outcome.classes) :
    files.held world (fileKey project.destination surface.name) = some bytes := by
  rw [← haccounts.unlisted]
  · exact hbytes
  · intro name hname heq
    rw [← heq] at hbytes
    have hsame := hnamed name hname hbytes hsurface
    rw [hsame] at hunlisted
    exact hunlisted hname

/-!
# Owners of classes that have files
-/

namespace Batched

theorem placed (hbatched : Batched files ledger world outcome compiled ledger' world')
    (hnamed : Named files outcome compiled) (hplaced : files.Placed world) :
    files.Placed world' :=
  hbatched.deletion.placed (hbatched.accounts.placed hnamed hplaced)

theorem held_of_unlisted (hbatched : Batched files ledger world outcome compiled ledger' world')
    (hnamed : Named files outcome compiled)
    (hbytes : files.held world' (fileKey project.destination surface.name) = some bytes)
    (hsurface : ClassFile.surfaceOf bytes = .ok surface)
    (hunlisted : surface.name ∉ outcome.classes) :
    files.held world (fileKey project.destination surface.name) = some bytes :=
  hbatched.accounts.held_of_unlisted hnamed (hbatched.deletion.held_of_some hbytes).2 hsurface
    hunlisted

theorem not_orphaned (hbatched : Batched files ledger world outcome compiled ledger' world')
    (hbytes : files.held world' (fileKey project.destination name) = some bytes) :
    ¬ledger.ownership.Orphaned name outcome.produced.toList := by
  intro horphaned
  exact (hbatched.deletion.held_of_some hbytes).1 ⟨name, horphaned, rfl⟩

theorem sourceOf?_of_listed
    (hbatched : Batched files ledger world outcome compiled ledger' world')
    (hconsistent : ledger.ownership.Consistent) (hlisted : name ∈ outcome.classes) :
    ∃ entry ∈ outcome.produced.toList, ledger'.ownership.sourceOf? name = some entry.1 := by
  rw [hbatched.entered.ownership_eq]
  obtain ⟨entry, hentry, _, hsource⟩ := hconsistent.sourceOf?_registerAll_of_listed
    Std.ExtTreeMap.ordered_keys_toList (mem_classes.mp hlisted)
  exact ⟨entry, hentry, hsource⟩

theorem sourceOf?_of_unlisted
    (hbatched : Batched files ledger world outcome compiled ledger' world')
    (hconsistent : ledger.ownership.Consistent)
    (hbytes : files.held world' (fileKey project.destination name) = some bytes)
    (hunlisted : name ∉ outcome.classes)
    (hsource : ledger.ownership.sourceOf? name = some source) :
    ledger'.ownership.sourceOf? name = some source := by
  have hnone := not_mem_of_unlisted hunlisted
  rw [hbatched.entered.ownership_eq, hconsistent.sourceOf?_registerAll_of_unlisted hnone]
  refine ⟨hsource, ?_⟩
  rintro entry hentry rfl
  apply hbatched.not_orphaned hbytes
  rw [hconsistent.orphaned_iff Std.ExtTreeMap.ordered_keys_toList]
  exact ⟨entry, hentry, hsource, fun other hother hname => absurd hname (hnone other hother)⟩

end Batched

/-!
# Attempts that come to a draft
-/

namespace Completion

variable {changes : SourceChanges} {register : Ownership} {progress progress' : Progress}
  {draft : Draft} (stages : Completion services project changes register progress world)

/-- Whether a class was lost by or produced from a source that was removed, added or changed. -/
def Touched (name : ClassName) : Prop :=
  (∃ source ∈ changes.removed.toList, register.Owns source name) ∨
    stages.opened.ownership.Orphaned name stages.outcome.produced.toList ∨
    name ∈ stages.outcome.classes

def Broken (name : ClassName) : Prop :=
  Breaks stages.before stages.after stages.Touched name

/-- Whether a class that was not touched refers to one that is broken, after the first batch. -/
def Depends (name : ClassName) : Prop :=
  Follows stages.before stages.after stages.Touched name

variable {stages}

theorem touched_iff : stages.Touched name ↔ name ∈ stages.reviewed.affected := by
  have hremoved := removed_of_openLedger stages.opens
  have hentered := entered_of_reviewProduced stages.reviews
  unfold Touched Ledger.affected
  rw [Std.ExtTreeSet.mem_union_iff, hentered.mem_lost, hentered.mem_produced, hremoved.mem_lost,
    hremoved.produced_eq, mem_classes]
  simp [or_assoc]

theorem owners_of_dependants :
    (∀ name, stages.Depends name →
      ∃ source ∈ stages.dependants, stages.reviewed.ownership.sourceOf? name = some source) ∧
    ∀ source ∈ stages.dependants, ∃ name, stages.Depends name ∧
      stages.reviewed.ownership.sourceOf? name = some source := by
  have htouched : stages.Touched = (· ∈ stages.reviewed.affected) :=
    funext fun name => propext stages.touched_iff
  unfold Depends
  rw [htouched]
  exact owners_of_dependantSources stages.depends

theorem mem_dependants_iff :
    source ∈ stages.dependants ↔
      ∃ name, stages.Depends name ∧
        stages.reviewed.ownership.sourceOf? name = some source := by
  obtain ⟨howners, hsources⟩ := stages.owners_of_dependants
  constructor
  · exact hsources source
  · rintro ⟨name, hdepends, hsource⟩
    obtain ⟨owner, howner, hsame⟩ := howners name hdepends
    rw [hsource] at hsame
    rwa [Option.some.inj hsame]

theorem not_mem_dependants_of_isStandardInput
    (hinput : Find.isStandardInput project.destination = true) (source : String) :
    source ∉ stages.dependants := by
  intro hsource
  obtain ⟨name, ⟨_, surface, _, hfound, _⟩, _⟩ := stages.owners_of_dependants.2 source hsource
  rw [ClassFiles.get?_of_isStandardInput hinput stages.takes_after] at hfound
  cases hfound

theorem consistent_opened (hconsistent : register.Consistent) :
    stages.opened.ownership.Consistent := by
  rw [(removed_of_openLedger stages.opens).ownership_eq]
  exact hconsistent.removeAll _

theorem consistent_reviewed (hconsistent : register.Consistent) :
    stages.reviewed.ownership.Consistent := by
  rw [(entered_of_reviewProduced stages.reviews).ownership_eq]
  exact (stages.consistent_opened hconsistent).registerAll _

theorem placed_reviewed (hwrites : WritesListed files) (hnames : WritesNamed files)
    (hbelow : register.LeadsBelow) (hplaced : files.Placed world) :
    files.Placed stages.reviewedWorld :=
  (stages.reviewedBatch hwrites hbelow).placed (hnames.named_of_compileBatch stages.compiles)
    ((stages.cleared files hbelow).deletion.placed hplaced)

theorem placed_of_finishes (hwrites : WritesListed files) (hnames : WritesNamed files)
    (hbelow : register.LeadsBelow) (hplaced : files.Placed world)
    (hfinishes : stages.Finishes draft progress' world') : files.Placed world' := by
  have hreviewed := stages.placed_reviewed hwrites hnames hbelow hplaced
  rcases hfinishes.cases with ⟨_, _, _, rfl⟩ | ⟨_, ⟨second⟩⟩
  · exact hreviewed
  · exact (second.batch hwrites hbelow).placed (hnames.named_of_compileBatch second.compiles)
      hreviewed

theorem held_registeredWorld (files : ClassFiles services.host project.destination)
    (stages : Completion services project changes register progress world) :
    files.held stages.registeredWorld = files.held stages.reviewedWorld := by
  have hkept := files.spares_take project.destination stages.registeredWorld
  rw [stages.takes_after] at hkept
  exact hkept.symm

theorem depicts_before (hreads : files.ReadsListed) (hplaced : files.Placed world)
    (hsees : files.Sees world) : files.Depicts stages.before world := by
  obtain ⟨_, htaken, _⟩ := taken_of_openLedger stages.opens
  exact ClassFiles.depicts_of_take hreads hplaced hsees htaken

theorem depicts_after (hwrites : WritesListed files) (hnames : WritesNamed files)
    (hbelow : register.LeadsBelow) (hreads : files.ReadsListed) (hplaced : files.Placed world)
    (hsees : files.Sees stages.registeredWorld) :
    files.Depicts stages.after stages.registeredWorld := by
  have hreviewed := stages.placed_reviewed hwrites hnames hbelow hplaced
  have hregistered := hreviewed.of_held_eq (stages.held_registeredWorld files)
  exact ClassFiles.depicts_of_take hreads hregistered hsees stages.takes_after

theorem held_or_listed (hwrites : WritesListed files) (hbelow : register.LeadsBelow)
    (hthere : files.held stages.reviewedWorld key ≠ none) :
    files.held world key ≠ none ∨
      ∃ name ∈ stages.outcome.classes, fileKey project.destination name = key := by
  obtain ⟨bytes, hbytes⟩ := Option.ne_none_iff_exists'.mp hthere
  have hbatched := stages.reviewedBatch hwrites hbelow
  have hcompiled := (hbatched.deletion.held_of_some hbytes).2
  by_cases hlisted : ∃ name ∈ stages.outcome.classes, fileKey project.destination name = key
  · exact Or.inr hlisted
  · have hunlisted : ∀ name ∈ stages.outcome.classes, fileKey project.destination name ≠ key :=
      fun name hname hsame => hlisted ⟨name, hname, hsame⟩
    rw [hbatched.accounts.unlisted key hunlisted] at hcompiled
    rw [((stages.cleared files hbelow).deletion.held_of_some hcompiled).2]
    exact Or.inl (Option.some_ne_none _)

theorem listed_of_touched (hwrites : WritesListed files) (hnames : WritesNamed files)
    (hbelow : register.LeadsBelow) (htouched : stages.Touched surface.name)
    (hbytes : files.held stages.reviewedWorld (fileKey project.destination surface.name) =
      some bytes)
    (hsurface : ClassFile.surfaceOf bytes = .ok surface) :
    surface.name ∈ stages.outcome.classes := by
  have hbatched := stages.reviewedBatch hwrites hbelow
  refine Classical.byContradiction fun hunlisted => ?_
  rcases htouched with ⟨source, hsource, howns⟩ | horphaned | hlisted
  · -- what removed sources owned was deleted, and the batch did not write it again
    have hbefore := hbatched.held_of_unlisted (hnames.named_of_compileBatch stages.compiles)
      hbytes hsurface hunlisted
    apply ((stages.cleared files hbelow).deletion.held_of_some hbefore).1
    exact mem_ownedKeys.mpr ⟨surface.name, ⟨source, hsource, howns⟩, rfl⟩
  · exact hbatched.not_orphaned hbytes horphaned
  · exact hunlisted hlisted

/-- After the first batch, the owner of a class that refers to a broken one is to be compiled. -/
theorem owner_of_refers (hwrites : WritesListed files) (hnames : WritesNamed files)
    (hconsistent : register.Consistent) (hbelow : register.LeadsBelow)
    (hdepicts : files.Depicts stages.after stages.reviewedWorld)
    (hbytes : files.held stages.reviewedWorld (fileKey project.destination surface.name) =
      some bytes)
    (hsurface : ClassFile.surfaceOf bytes = .ok surface) {target : ClassName}
    (hrefers : surface.references.contains target = true) (hbroken : stages.Broken target) :
    ∃ source, stages.reviewed.ownership.sourceOf? surface.name = some source ∧
      (source ∈ changes.stale ∨ source ∈ stages.dependants) := by
  by_cases htouched : stages.Touched surface.name
  · have hlisted := stages.listed_of_touched hwrites hnames hbelow htouched hbytes hsurface
    obtain ⟨entry, hentry, howner⟩ := (stages.reviewedBatch hwrites hbelow).sourceOf?_of_listed
      (stages.consistent_opened hconsistent) hlisted
    exact ⟨entry.1, howner,
      Or.inl (hnames.requested_of_compileBatch stages.compiles entry hentry)⟩
  · have hfound := (hdepicts surface.name surface).mpr ⟨bytes, hbytes, hsurface, rfl⟩
    obtain ⟨source, hsource, howner⟩ := stages.owners_of_dependants.1 surface.name
      ⟨htouched, surface, target, hfound, hrefers, hbroken⟩
    exact ⟨source, howner, Or.inr hsource⟩

theorem mem_statuses_iff (hfinishes : stages.Finishes draft progress' world') :
    source ∈ draft.statuses ↔ source ∈ changes.stale ∨ source ∈ stages.dependants := by
  rcases hfinishes.cases with ⟨hnone, _, hstatuses, _⟩ | ⟨_, ⟨second⟩⟩
  · have hempty : source ∉ stages.dependants := by
      rw [Std.ExtTreeSet.isEmpty_iff] at hnone
      rw [hnone]
      exact Std.ExtTreeSet.not_mem_empty
    rw [hstatuses, mem_statuses]
    simp [hempty]
  · rw [second.statuses_eq, mem_mergeStatuses, mem_statuses, mem_statuses,
      Std.ExtTreeSet.mem_toList]

theorem compiled_owner_of_refers (hwrites : WritesListed files) (hnames : WritesNamed files)
    (hconsistent : register.Consistent) (hbelow : register.LeadsBelow)
    (hdepicts : files.Depicts stages.after stages.reviewedWorld)
    (hfinishes : stages.Finishes draft progress' world')
    (hbytes : files.held world' (fileKey project.destination surface.name) = some bytes)
    (hsurface : ClassFile.surfaceOf bytes = .ok surface) {target : ClassName}
    (hrefers : surface.references.contains target = true) (hbroken : stages.Broken target) :
    ∃ source ∈ draft.statuses, draft.ownership.sourceOf? surface.name = some source := by
  rcases hfinishes.cases with ⟨_, hownership, _, rfl⟩ | ⟨_, ⟨second⟩⟩
  · obtain ⟨source, howner, hcompiled⟩ := stages.owner_of_refers hwrites hnames hconsistent
      hbelow hdepicts hbytes hsurface hrefers hbroken
    rw [hownership]
    exact ⟨source, (mem_statuses_iff hfinishes).mpr hcompiled, howner⟩
  · have hbatched := second.batch hwrites hbelow
    have hreviewed := stages.consistent_reviewed hconsistent
    rw [second.ownership_eq]
    by_cases hlisted : surface.name ∈ second.outcome.classes
    · obtain ⟨entry, hentry, howner⟩ := hbatched.sourceOf?_of_listed hreviewed hlisted
      have hasked := hnames.requested_of_compileBatch second.compiles entry hentry
      refine ⟨entry.1, (mem_statuses_iff hfinishes).mpr (Or.inr ?_), howner⟩
      exact Std.ExtTreeSet.mem_toList.mp hasked
    · have hbefore := hbatched.held_of_unlisted (hnames.named_of_compileBatch second.compiles)
        hbytes hsurface hlisted
      obtain ⟨source, howner, hcompiled⟩ := stages.owner_of_refers hwrites hnames hconsistent
        hbelow hdepicts hbefore hsurface hrefers hbroken
      exact ⟨source, (mem_statuses_iff hfinishes).mpr hcompiled,
        hbatched.sourceOf?_of_unlisted hreviewed hbytes hlisted howner⟩

end Completion

/-!
# Incremental builds
-/

namespace Course

variable {start : σ}

structure Attempt (course : Course services project start) where
  register : Ownership
  loaded : σ
  loads : runIn services.ownership.load course.begun = (.ok (some register), loaded)
  stages : Completion services project course.changes register course.first loaded
  draft : Draft
  result_eq : course.result = .ok draft
  finishes : stages.Finishes draft course.progress course.ended

theorem mode_of_compileAll {progress progress' : Progress} {draft : Draft}
    (hrun : (compileAll services project).runFrom progress world =
      (.ok draft, progress', world')) : draft.mode = .cold := by
  unfold compileAll at hrun
  rcases Step.ok_of_runFrom_bind hrun with ⟨_, _, _, _, hdone⟩
  rw [Step.runFrom_pure] at hdone
  cases hdone
  rfl

theorem exists_attempt_of_rounds (course : Course services project start) {draft : Draft}
    (hresult : course.result = .ok draft) (hmode : draft.mode = .incremental) :
    ∃ attempt : course.Attempt, attempt.draft = draft ∧
      course.rounds = attemptRounds services project course.changes attempt.register
        course.first attempt.loaded := by
  rcases course.of_result hresult with
    ⟨register, loaded, hloaded, hrounds, hattempt⟩ | ⟨_, _, _, _, hrun⟩
  · obtain ⟨stages, hfinishes⟩ := Completion.exists_of_runFrom hattempt
    exact ⟨⟨register, loaded, hloaded, stages, draft, hresult, hfinishes⟩, rfl, hrounds⟩
  · rw [mode_of_compileAll hrun] at hmode
    cases hmode

theorem exists_attempt (course : Course services project start) {draft : Draft}
    (hresult : course.result = .ok draft) (hmode : draft.mode = .incremental) :
    ∃ attempt : course.Attempt, attempt.draft = draft := by
  rcases course.exists_attempt_of_rounds hresult hmode with ⟨attempt, hdraft, _⟩
  exact ⟨attempt, hdraft⟩

/-- Whether the owner of every class that refers to a broken one is compiled. -/
def Attempt.CompilesDependants (files : ClassFiles services.host project.destination)
    {course : Course services project start} (attempt : course.Attempt) (report : Report)
    (world : σ) : Prop :=
  ∀ key bytes surface target, files.held world key = some bytes →
    ClassFile.surfaceOf bytes = .ok surface → surface.references.contains target = true →
      attempt.stages.Broken target →
        ∃ source ∈ report.statuses,
          attempt.draft.ownership.sourceOf? surface.name = some source

end Course

/--
In an incremental build that succeeds, what did not change is compiled exactly
if it owns a class that is seen to refer to a broken one. If the walks through
the destination come to all class files, this leaves out no class that does.
-/
theorem exists_attempt_compiling_dependants
    (files : ClassFiles services.host project.destination) (hstores : StoresSpare files)
    (hwrites : WritesListed files) (hnames : WritesNamed files) (hreads : files.ReadsListed)
    {start : σ} (hplaced : files.Placed start) (course : Course services project start)
    (hregister : ∀ register loaded,
      runIn services.ownership.load course.begun = (.ok (some register), loaded) →
        register.Consistent ∧ register.LeadsBelow)
    {report : Report} (hreport : (runIn (run services project) start).1 = .ok report)
    (hsuccess : report.success = true) (hmode : report.mode = .incremental) :
    ∃ attempt : course.Attempt, (course.saved attempt.draft).1 = .ok () ∧
      (∀ source, source ∈ report.statuses ↔ source ∈ course.changes.stale ∨
        ∃ name, attempt.stages.Depends name ∧
          attempt.stages.reviewed.ownership.sourceOf? name = some source) ∧
      (files.Sees attempt.loaded → files.Sees attempt.stages.registeredWorld →
        files.Depicts attempt.stages.before start ∧
        files.Depicts attempt.stages.after attempt.stages.registeredWorld ∧
        attempt.CompilesDependants files report (runIn (run services project) start).2) := by
  obtain ⟨draft, hresult, hsettled, hsame, hstatuses, hdraft⟩ := course.of_report hreport
  rw [hmode] at hsame
  rw [hsuccess] at hdraft
  obtain ⟨attempt, rfl⟩ := course.exists_attempt hresult hsame.symm
  obtain ⟨register, loaded, hloaded, stages, draft, _, hfinishes⟩ := attempt
  obtain ⟨hconsistent, hbelow⟩ := hregister register loaded hloaded
  have hheld : files.held loaded = files.held start := by
    have hkeeps := hstores.loadOwnership course.begun
    rw [hloaded] at hkeeps
    exact hkeeps.trans (course.held_begun hstores)
  refine ⟨⟨register, loaded, hloaded, stages, draft, hresult, hfinishes⟩,
    course.saved_of_settle hdraft.symm hsettled, ?_, ?_⟩
  · intro source
    rw [hstatuses, Completion.mem_statuses_iff hfinishes, stages.mem_dependants_iff]
  · intro hseesBefore hseesAfter
    have hloaded : files.Placed loaded := hplaced.of_held_eq hheld
    have hafter := stages.depicts_after hwrites hnames hbelow hreads hloaded hseesAfter
    have hreviewed := hafter.of_held_eq (stages.held_registeredWorld files).symm
    refine ⟨(stages.depicts_before hreads hloaded hseesBefore).of_held_eq hheld.symm, hafter, ?_⟩
    intro key bytes surface target hbytes hsurface hrefers hbroken
    rw [course.held_run_of_success hstores hreport hsuccess] at hbytes
    have hkey := stages.placed_of_finishes hwrites hnames hbelow hloaded hfinishes hbytes hsurface
    rw [hkey] at hbytes
    rw [hstatuses]
    exact stages.compiled_owner_of_refers hwrites hnames hconsistent hbelow hreviewed hfinishes
      hbytes hsurface hrefers hbroken

/-!
# A class and its subclass

The class is public no longer, and the source of its subclass is as it was.
Whether that is compiled again is a matter of the destination.
-/

def family (flags : UInt8) : List Product :=
  [⟨"A.java", ⟨"A"⟩, Shelf.classBytes flags 65⟩, ⟨"B.java", ⟨"B"⟩, Shelf.subclassBytes 66 65⟩]

def familyShelf (destination : Path) : Shelf :=
  Shelf.putAll destination (family 0x21)
    ⟨[], some (Shelf.current ["B.java"]),
      some (.ofClasses ((Std.ExtTreeMap.insert ∅ ⟨"A"⟩ "A.java").insert ⟨"B"⟩ "B.java"))⟩

theorem name_of_mem_family {flags : UInt8} {product : Product} (h : product ∈ family flags) :
    product.name = ⟨"A"⟩ ∨ product.name = ⟨"B"⟩ := by
  simp only [family, List.mem_cons, List.not_mem_nil, or_false] at h
  rcases h with rfl | rfl
  · exact Or.inl rfl
  · exact Or.inr rfl

theorem binary_of_mem_family {flags : UInt8} : ∀ product ∈ family flags, product.name.IsBinary := by
  intro product hproduct
  rcases name_of_mem_family hproduct with hname | hname
  · rw [hname]
    exact (by decide : ClassName.IsBinary ⟨"A"⟩)
  · rw [hname]
    exact (by decide : ClassName.IsBinary ⟨"B"⟩)

theorem placed_familyShelf (destination : Path) :
    (Shelf.classFiles ["A.java", "B.java"] (family 0x20) true destination).Placed
      (familyShelf destination) := by
  refine Shelf.placed_putAll ?_ nofun
  decide +kernel

theorem changed_familyShelf (destination : Path) :
    ((familyShelf destination).changes ["A.java", "B.java"]).isEmpty = false := by
  show (SourceChanges.between (Shelf.current ["B.java"])
    (Shelf.current ["A.java", "B.java"])).isEmpty = false
  decide +kernel

def narrowing (destination : Path) :
    Course (Shelf.services ["A.java", "B.java"] (family 0x20) true) (Shelf.project destination)
      (familyShelf destination) :=
  Shelf.course destination (family 0x20) true Shelf.listed_pair _ (changed_familyShelf destination)

theorem not_stale_narrowing (destination : Path) :
    "B.java" ∉ (narrowing destination).changes.stale := by
  show "B.java" ∉ (SourceChanges.between (Shelf.current ["B.java"])
    (Shelf.current ["A.java", "B.java"])).stale
  decide +kernel

theorem fileKey_of_mem_family {flags : UInt8} {product : Product} (h : product ∈ family flags) :
    fileKey Shelf.out product.name = fileKey Shelf.out ⟨"A"⟩ ∨
      fileKey Shelf.out product.name = fileKey Shelf.out ⟨"B"⟩ :=
  (name_of_mem_family h).imp (congrArg (fileKey Shelf.out)) (congrArg (fileKey Shelf.out))

theorem sees_family {shelf : Shelf} (h : ∀ key, shelf.held key ≠ none →
      key = fileKey Shelf.out ⟨"A"⟩ ∨ key = fileKey Shelf.out ⟨"B"⟩) :
    (Shelf.classFiles ["A.java", "B.java"] (family 0x20) true Shelf.out).Sees shelf := by
  refine Shelf.sees (by decide) (by decide) ?_
  intro key hkey
  rcases h key hkey with rfl | rfl
  · exact ⟨classFileIn Shelf.out ⟨"A"⟩, rfl, by decide⟩
  · exact ⟨classFileIn Shelf.out ⟨"B"⟩, rfl, by decide⟩

theorem eq_of_held_familyShelf {key : FileKey}
    (h : (familyShelf Shelf.out).held key ≠ none) :
    key = fileKey Shelf.out ⟨"A"⟩ ∨ key = fileKey Shelf.out ⟨"B"⟩ := by
  rcases Shelf.held_putAll Shelf.out (family 0x21) _ key with
    ⟨product, hproduct, hkey, _⟩ | ⟨_, hempty⟩
  · rw [← hkey]
    exact fileKey_of_mem_family hproduct
  · exact absurd hempty h

theorem exists_attempt_compiling_dependants_of_subclass :
    let files := Shelf.classFiles ["A.java", "B.java"] (family 0x20) true Shelf.out
    let services := Shelf.services ["A.java", "B.java"] (family 0x20) true
    let start := familyShelf Shelf.out
    let course := narrowing Shelf.out
    let ended := runIn (run services (Shelf.project Shelf.out)) start
    ∃ report, ended.1 = .ok report ∧
      "B.java" ∉ course.changes.stale ∧ "B.java" ∈ report.statuses ∧
      ∃ attempt : course.Attempt, (course.saved attempt.draft).1 = .ok () ∧
        (∀ source, source ∈ report.statuses ↔ source ∈ course.changes.stale ∨
          ∃ name, attempt.stages.Depends name ∧
            attempt.stages.reviewed.ownership.sourceOf? name = some source) ∧
        files.Depicts attempt.stages.before start ∧
        files.Depicts attempt.stages.after attempt.stages.registeredWorld ∧
        attempt.CompilesDependants files report ended.2 := by
  intro files services start course ended
  have hconcluded : (course.concluded.1.toOption.map fun draft =>
      (draft.mode, draft.success)) = some (.incremental, true) := by
    simp only [course, Course.concluded, conclude, Course.result, Course.progress, Course.ended,
      compileNeeded, compileChanges, openLedger, followUp, reviewProduced, Inventory.take,
      Find.classFiles, Find.sortPaths_eq_insertionSort]
    decide +kernel
  have hcompiled : (course.result.toOption.map fun draft =>
      draft.statuses.contains "B.java") = some true := by
    simp only [course, Course.result, compileNeeded, compileChanges, openLedger, followUp,
      reviewProduced, Inventory.take, Find.classFiles, Find.sortPaths_eq_insertionSort]
    decide +kernel
  have hwrites : WritesListed files := Shelf.writesListed _ _ _ binary_of_mem_family
  have hregister : ∀ register loaded,
      runIn services.ownership.load course.begun = (.ok (some register), loaded) →
        register.Consistent ∧ register.LeadsBelow := by
    intro register loaded hloaded
    cases hloaded
    have hconsistent := Ownership.consistent_ofClasses
      ((Std.ExtTreeMap.insert ∅ ⟨"A"⟩ "A.java").insert ⟨"B"⟩ "B.java")
    exact ⟨hconsistent, hconsistent.holdsOnly_iff.mpr (by decide +kernel)⟩
  obtain ⟨report, hreport, hmode, hsuccess⟩ := Shelf.exists_report course hconcluded
  obtain ⟨attempt, hsaved, hstatuses, hsound⟩ := exists_attempt_compiling_dependants files
    (Shelf.storesSpare _ _ _ _) hwrites
    (Shelf.writesNamed _ _ _ binary_of_mem_family (by decide +kernel))
    (Shelf.readsListed _ _ _ _) (placed_familyShelf Shelf.out) course hregister hreport hsuccess
    hmode
  refine ⟨report, hreport, not_stale_narrowing Shelf.out, ?_, attempt, hsaved, hstatuses, ?_⟩
  · obtain ⟨draft, hresult, _, _, hsame, _⟩ := course.of_report hreport
    rw [hresult] at hcompiled
    rw [hsame, ← Std.ExtTreeMap.contains_iff_mem]
    exact Option.some.inj hcompiled
  have hloaded : attempt.loaded = start := (congrArg Prod.snd attempt.loads).symm
  refine hsound ?_ ?_
  · rw [hloaded]
    exact sees_family fun key hkey => eq_of_held_familyShelf hkey
  · refine sees_family fun key hkey => ?_
    have hthere : files.held attempt.stages.reviewedWorld key ≠ none := by
      rw [← attempt.stages.held_registeredWorld files]
      exact hkey
    have hbelow := (hregister _ _ attempt.loads).2
    rcases attempt.stages.held_or_listed hwrites hbelow hthere with hbefore | ⟨name, hname, rfl⟩
    · rw [hloaded] at hbefore
      exact eq_of_held_familyShelf hbefore
    · obtain ⟨product, hproduct, rfl⟩ :=
        Shelf.exists_product_of_compileBatch attempt.stages.compiles hname
      exact fileKey_of_mem_family hproduct

/-- A destination in which the walks do not come to anything. -/
def dash : Path :=
  ⟨"-"⟩

theorem not_compiled_dependant_of_standardInput :
    let services := Shelf.services ["A.java", "B.java"] (family 0x20) true
    let files := Shelf.classFiles ["A.java", "B.java"] (family 0x20) true dash
    let ended := runIn (run services (Shelf.project dash)) (familyShelf dash)
    WritesListed files ∧ WritesNamed files ∧ files.Placed (familyShelf dash) ∧
      (∃ report, ended.1 = .ok report ∧ report.mode = .incremental ∧ report.success = true ∧
        "B.java" ∉ report.statuses) ∧
      (ended.2.register.bind fun register => register.sourceOf? ⟨"B"⟩) = some "B.java" ∧
      files.held (familyShelf dash) (fileKey dash ⟨"A"⟩) = some (Shelf.classBytes 0x21 65) ∧
      files.held ended.2 (fileKey dash ⟨"A"⟩) = some (Shelf.classBytes 0x20 65) ∧
      files.held ended.2 (fileKey dash ⟨"B"⟩) = some (Shelf.subclassBytes 66 65) ∧
      ∃ old new user, ClassFile.surfaceOf (Shelf.classBytes 0x21 65) = .ok old ∧
        ClassFile.surfaceOf (Shelf.classBytes 0x20 65) = .ok new ∧
        ClassFile.surfaceOf (Shelf.subclassBytes 66 65) = .ok user ∧
        Compatibility.between (.ofList [old, user]) (some old) (some new) = .incompatible ∧
        user.references.contains ⟨"A"⟩ = true := by
  intro services files ended
  have hconcluded : ((narrowing dash).concluded.1.toOption.map fun draft =>
      (draft.mode, draft.success)) = some (.incremental, true) := by
    decide +kernel
  have hsaved : ((narrowing dash).concluded.2.register.bind fun register =>
      register.sourceOf? ⟨"B"⟩) = some "B.java" := by
    decide +kernel
  have hfirst : (familyShelf dash).held (fileKey dash ⟨"A"⟩) = some (Shelf.classBytes 0x21 65) := by
    decide +kernel
  have hchanged : (narrowing dash).concluded.2.held (fileKey dash ⟨"A"⟩) =
      some (Shelf.classBytes 0x20 65) := by
    decide +kernel
  have hkept : (narrowing dash).concluded.2.held (fileKey dash ⟨"B"⟩) =
      some (Shelf.subclassBytes 66 65) := by
    decide +kernel
  have hlevel : (do
      let old ← ClassFile.surfaceOf (Shelf.classBytes 0x21 65)
      let new ← ClassFile.surfaceOf (Shelf.classBytes 0x20 65)
      let user ← ClassFile.surfaceOf (Shelf.subclassBytes 66 65)
      return (Compatibility.between (.ofList [old, user]) (some old) (some new),
        user.references.contains ⟨"A"⟩)).toOption = some (.incompatible, true) := by
    decide +kernel
  have hended : ended.2 = (narrowing dash).concluded.2 := Shelf.run_eq_concluded (narrowing dash)
  rw [hended]
  refine ⟨Shelf.writesListed _ _ _ binary_of_mem_family,
    Shelf.writesNamed _ _ _ binary_of_mem_family (by decide +kernel), placed_familyShelf dash, ?_,
    hsaved, hfirst, hchanged, hkept, ?_⟩
  · obtain ⟨report, hreport, hmode, hsuccess⟩ := Shelf.exists_report (narrowing dash) hconcluded
    obtain ⟨draft, hresult, _, hsame, hstatuses, _⟩ := (narrowing dash).of_report hreport
    rw [hmode] at hsame
    obtain ⟨attempt, rfl⟩ := (narrowing dash).exists_attempt hresult hsame.symm
    refine ⟨report, hreport, hmode, hsuccess, ?_⟩
    rw [hstatuses, Completion.mem_statuses_iff attempt.finishes, not_or]
    exact ⟨not_stale_narrowing dash,
      attempt.stages.not_mem_dependants_of_isStandardInput (by decide) "B.java"⟩
  · obtain ⟨old, hold⟩ : ∃ old, ClassFile.surfaceOf (Shelf.classBytes 0x21 65) = .ok old :=
      exists_of_toBool (by decide +kernel)
    obtain ⟨new, hnew⟩ : ∃ new, ClassFile.surfaceOf (Shelf.classBytes 0x20 65) = .ok new :=
      exists_of_toBool (by decide +kernel)
    obtain ⟨user, huser⟩ : ∃ user, ClassFile.surfaceOf (Shelf.subclassBytes 66 65) = .ok user :=
      exists_of_toBool (by decide +kernel)
    rw [hold, hnew, huser] at hlevel
    obtain ⟨hincompatible, hrefers⟩ := Prod.mk.inj (Option.some.inj hlevel)
    exact ⟨old, new, user, hold, hnew, huser, hincompatible, hrefers⟩

end Build
end Recompile
