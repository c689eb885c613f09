import Recompile.Proofs.Build.Dependants
import Recompile.Proofs.Build.Serving

/-!
# No class file without an owner

A register covers a destination when every class file there is that of a class
which it knows. From where this holds, a review always finds the sources that it
looks for, and an incremental build that succeeds leaves a destination covered
by the register that it saves.
-/

namespace Recompile
namespace Build

variable {σ : Type} {services : Services (StateM σ)} {project : Project}
  {files : ClassFiles services.host project.destination}
  {register : Ownership} {sources : List String} {world world' compiled : σ}
  {outcome : Outcome} {ledger ledger' : Ledger}
  {key : FileKey} {name : ClassName} {source : String}

/-- Whether every class file is that of a registered class and lies where this class belongs. -/
def Covers (files : ClassFiles services.host project.destination) (register : Ownership)
    (world : σ) : Prop :=
  ∀ ⦃key bytes⦄, files.held world key = some bytes →
    ∃ name source, register.sourceOf? name = some source ∧
      fileKey project.destination name = key ∧
        ∀ surface, ClassFile.surfaceOf bytes = .ok surface → surface.name = name

namespace Covers

theorem of_held_eq (h : Covers files register world)
    (hheld : files.held world' = files.held world) : Covers files register world' := by
  intro key bytes hbytes
  rw [hheld] at hbytes
  exact h hbytes

theorem placed (h : Covers files register world) : files.Placed world := by
  intro key bytes surface hbytes hsurface
  rcases h hbytes with ⟨name, _, _, hkey, hnamed⟩
  rw [hnamed surface hsurface, hkey]

theorem exists_sourceOf? (h : Covers files register world) {bytes : Bytes}
    {surface : ClassSurface}
    (hbytes : files.held world (fileKey project.destination name) = some bytes)
    (hsurface : ClassFile.surfaceOf bytes = .ok surface) (hname : surface.name = name) :
    ∃ source, register.sourceOf? name = some source := by
  rcases h hbytes with ⟨registered, source, hsource, _, hnamed⟩
  rw [← hnamed surface hsurface, hname] at hsource
  exact ⟨source, hsource⟩

end Covers

/-!
# From stage to stage
-/

theorem Cleared.sourceOf?_of_held (h : Cleared files register sources world ledger world')
    (hconsistent : register.Consistent) {bytes : Bytes}
    (hbytes : files.held world' (fileKey project.destination name) = some bytes)
    (hsource : register.sourceOf? name = some source) :
    ledger.ownership.sourceOf? name = some source := by
  rw [h.removed.ownership_eq, hconsistent.sourceOf?_removeAll]
  refine ⟨?_, hsource⟩
  intro hremoved
  apply (h.deletion.held_of_some hbytes).1
  exact mem_ownedKeys.mpr ⟨name, ⟨source, hremoved, (hconsistent name source).mp hsource⟩, rfl⟩

theorem Cleared.covers (h : Cleared files register sources world ledger world')
    (hconsistent : register.Consistent) (hcovers : Covers files register world) :
    Covers files ledger.ownership world' := by
  intro key bytes hbytes
  rcases hcovers (h.deletion.held_of_some hbytes).2 with ⟨name, source, hsource, hkey, hnamed⟩
  rw [← hkey] at hbytes
  exact ⟨name, source, h.sourceOf?_of_held hconsistent hbytes hsource, hkey, hnamed⟩

namespace Batched

variable (h : Batched files ledger world outcome compiled ledger' world')
include h

theorem covers (hconsistent : ledger.ownership.Consistent)
    (hnamed : Named files outcome compiled) (hcovers : Covers files ledger.ownership world) :
    Covers files ledger'.ownership world' := by
  intro key bytes hbytes
  have hcompiled := (h.deletion.held_of_some hbytes).2
  by_cases hlisted : ∃ name ∈ outcome.classes, fileKey project.destination name = key
  · rcases hlisted with ⟨name, hname, hkey⟩
    rcases h.sourceOf?_of_listed hconsistent hname with ⟨entry, _, hsource⟩
    rw [← hkey] at hcompiled
    exact ⟨name, entry.1, hsource, hkey, fun surface => hnamed name hname hcompiled⟩
  · have hunlisted : ∀ name ∈ outcome.classes, fileKey project.destination name ≠ key :=
      fun name hname hkey => hlisted ⟨name, hname, hkey⟩
    rw [h.accounts.unlisted key hunlisted] at hcompiled
    rcases hcovers hcompiled with ⟨name, source, hsource, hkey, hnamed⟩
    refine ⟨name, source, ?_, hkey, hnamed⟩
    rw [← hkey] at hbytes
    exact h.sourceOf?_of_unlisted hconsistent hbytes (fun hname => hunlisted name hname hkey)
      hsource

theorem gone_of_gone (hunlisted : ∀ other ∈ outcome.classes,
    fileKey project.destination other ≠ key) (hgone : files.held world key = none) :
    files.held world' key = none := by
  rw [Option.eq_none_iff_forall_ne_some]
  intro bytes hbytes
  have hcompiled := (h.deletion.held_of_some hbytes).2
  rw [h.accounts.unlisted key hunlisted, hgone] at hcompiled
  cases hcompiled

theorem gone_of_dropped (hconsistent : ledger.ownership.Consistent)
    (hsource : ledger.ownership.sourceOf? name = some source) {classes : ClassSet}
    (hproduced : outcome.produced[source]? = some classes)
    (hunlisted : ∀ other ∈ outcome.classes,
      fileKey project.destination other ≠ fileKey project.destination name) :
    files.held world' (fileKey project.destination name) = none := by
  apply h.deletion.gone
  refine ⟨name, ?_, rfl⟩
  rw [hconsistent.orphaned_iff Std.ExtTreeMap.ordered_keys_toList]
  refine ⟨(source, classes), Std.ExtTreeMap.mem_toList_iff_getElem?_eq_some.mpr hproduced,
    hsource, ?_⟩
  intro entry hentry hname
  exact absurd rfl (hunlisted name (mem_classes.mpr ⟨entry, hentry, hname⟩))

theorem sourceOf?_of_unproduced (hconsistent : ledger.ownership.Consistent)
    (hsource : ledger.ownership.sourceOf? name = some source)
    (hproduced : outcome.produced[source]? = none) (hunlisted : name ∉ outcome.classes) :
    ledger'.ownership.sourceOf? name = some source := by
  have hnone := not_mem_of_unlisted hunlisted
  rw [h.entered.ownership_eq, hconsistent.sourceOf?_registerAll_of_unlisted hnone]
  refine ⟨hsource, ?_⟩
  intro entry hentry hsame
  rw [Std.ExtTreeMap.mem_toList_iff_getElem?_eq_some, hsame, hproduced] at hentry
  cases hentry

end Batched

/-!
# Reviews
-/

/-- What the stages before a review do to the register and to the class files. -/
structure Reviews (files : ClassFiles services.host project.destination) (changes : SourceChanges)
    (register : Ownership) (world : σ) (reviewed : Reviewed) (world' : σ) where
  opened : Ledger
  openedWorld : σ
  compiledWorld : σ
  registeredWorld : σ
  cleared : Cleared files register changes.removed.toList world opened openedWorld
  batched : Batched files opened openedWorld reviewed.outcome compiledWorld reviewed.ledger world'
  named : Named files reviewed.outcome compiledWorld
  held_eq : files.held world' = files.held registeredWorld
  takes : runIn (Inventory.take services.host project.destination) registeredWorld =
    (.ok reviewed.after, world')

section Reviewing

variable {changes : SourceChanges} {progress progress' : Progress} {reviewed : Reviewed}

theorem nonempty_reviews (hwrites : WritesListed files) (hnames : NamesFiles files)
    (hbelow : register.LeadsBelow) {middle later : Progress} {between left : σ}
    (hopens : (openLedger services project changes register).runFrom progress world =
      (.ok (reviewed.before, ledger), middle, between))
    (hcompiles : (compileBatch services project reviewed.before ledger.ownership
      changes.stale).runFrom middle between = (.ok reviewed.outcome, later, left))
    (hreviews : (reviewProduced services project ledger reviewed.outcome).runFrom later left =
      (.ok (reviewed.ledger, reviewed.after), progress', world')) :
    Nonempty (Reviews files changes register world reviewed world') := by
  have hcleared : Cleared files register changes.removed.toList world ledger between :=
    cleared_of_openLedger hbelow hopens
  have hbatched := batched_of_reviewProduced hwrites (hcleared.leadsBelow hbelow) hcompiles hreviews
  rcases registered_of_reviewProduced hreviews with ⟨registered, _, htaken⟩
  have hkept := files.spares_take project.destination registered
  rw [htaken] at hkept
  exact ⟨⟨ledger, _, _, registered, hcleared, hbatched, hnames.of_compileBatch hcompiles, hkept,
    htaken⟩⟩

theorem reviews_of_runFrom (hwrites : WritesListed files) (hnames : NamesFiles files)
    (hbelow : register.LeadsBelow)
    (hrun : (review services project changes register).runFrom progress world =
      (.ok reviewed, progress', world')) :
    Nonempty (Reviews files changes register world reviewed world') := by
  rcases stages_of_review hrun with ⟨_, _, _, _, _, hopens, hcompiles, hreviews⟩
  exact nonempty_reviews hwrites hnames hbelow hopens hcompiles hreviews

namespace Reviews

variable (reviews : Reviews files changes register world reviewed world')
include reviews

theorem covers (hconsistent : register.Consistent) (hcovers : Covers files register world) :
    Covers files reviewed.ledger.ownership world' := by
  have hopened : reviews.opened.ownership.Consistent := by
    rw [reviews.cleared.removed.ownership_eq]
    exact hconsistent.removeAll _
  exact reviews.batched.covers hopened reviews.named
    (reviews.cleared.covers hconsistent hcovers)

theorem exists_file (hreads : files.ReadsListed) (hplaced : files.Placed world')
    {surface : ClassSurface} (hfound : reviewed.after.get? name = some surface) :
    ∃ bytes, files.held world' (fileKey project.destination name) = some bytes ∧
      ClassFile.surfaceOf bytes = .ok surface ∧ surface.name = name := by
  have hregistered := hplaced.of_held_eq reviews.held_eq.symm
  rw [reviews.held_eq]
  exact ClassFiles.exists_file_of_get? hreads hregistered reviews.takes hfound

end Reviews

theorem maintains_of_ne_unowned {α : Type} {operation : ExceptT Failure (StateM σ) α}
    (h : ∀ world name, (runIn operation world).1 ≠ .error (.unownedClass name)) :
    Maintains (fun _ => True) (fun error => ∀ name, error ≠ .unownedClass name) operation := by
  refine fun world _ => ⟨trivial, ?_⟩
  intro error herror name hunowned
  rw [hunowned] at herror
  exact h world name herror

theorem supports_of_compiler (destination : Path)
    (hcompiler : ∀ batch world name,
      (runIn (services.compile batch) world).1 ≠ .error (.unownedClass name)) :
    Supports services destination (fun _ => True) fun error =>
      ∀ name, error ≠ .unownedClass name where
  kindOf _ _ _ := trivial
  filesBelow _ _ _ := trivial
  readFile _ _ _ := trivial
  modified _ _ _ := trivial
  disk _ _ := nofun
  malformedClass _ _ := nofun
  milliseconds _ _ := trivial
  makeDirectories _ _ _ _ _ := trivial
  writeFile _ _ _ _ := trivial
  removeFile _ _ _ := trivial
  compile batch := maintains_of_ne_unowned (hcompiler batch)

/-- Where the register covers the destination, a review finds every source that it looks for. -/
theorem ne_unownedClass_of_covers (hwrites : WritesListed files) (hnames : NamesFiles files)
    (hreads : files.ReadsListed)
    (hcompiler : ∀ batch world name,
      (runIn (services.compile batch) world).1 ≠ .error (.unownedClass name))
    (hconsistent : register.Consistent) (hbelow : register.LeadsBelow)
    (hcovers : Covers files register world) (name : ClassName) :
    ((compileChanges services project changes register).runFrom progress world).1 ≠
      .error (.unownedClass name) := by
  rcases hrun : (compileChanges services project changes register).runFrom progress world with
    ⟨result, progress', world'⟩
  intro hfailed
  cases hfailed
  have hsupports := supports_of_compiler project.destination hcompiler
  rcases reviewed_of_failed (hsupports.works progress.survey) register.holdsOnly_true
    ⟨rfl, trivial⟩ hrun (fun hother => hother name rfl) with ⟨reviewed, hreview, hdepends⟩
  rcases reviews_of_runFrom hwrites hnames hbelow hreview with ⟨reviews⟩
  rcases unowned_of_dependantSources hdepends with
    ⟨_, follower, ⟨_, surface, _, hfound, _⟩, hnone, _⟩
  have hreviewed := reviews.covers hconsistent hcovers
  rcases reviews.exists_file hreads hreviewed.placed hfound with ⟨bytes, hbytes, hsurface, hname⟩
  rcases hreviewed.exists_sourceOf? hbytes hsurface hname with ⟨source, hsource⟩
  rw [hsource] at hnone
  cases hnone

end Reviewing

/-!
# Attempts that come to a draft
-/

namespace Completion

variable {changes : SourceChanges} {progress progress' : Progress} {draft : Draft}
  {stages : Completion services project changes register progress world}

theorem covers_reviewed (hwrites : WritesListed files) (hnames : NamesFiles files)
    (hconsistent : register.Consistent) (hbelow : register.LeadsBelow)
    (hcovers : Covers files register world) :
    Covers files stages.reviewed.ownership stages.reviewedWorld := by
  have hreviewed : Nonempty (Reviews files changes register world
      ⟨stages.before, stages.outcome, stages.reviewed, stages.after⟩ stages.reviewedWorld) :=
    nonempty_reviews hwrites hnames hbelow stages.opens stages.compiles stages.reviews
  rcases hreviewed with ⟨reviews⟩
  exact reviews.covers hconsistent hcovers

theorem covers_of_finishes (hwrites : WritesListed files) (hnames : NamesFiles files)
    (hconsistent : register.Consistent) (hbelow : register.LeadsBelow)
    (hcovers : Covers files register world)
    (hfinishes : stages.Finishes draft progress' world') :
    Covers files draft.ownership world' := by
  have hreviewed := stages.covers_reviewed hwrites hnames hconsistent hbelow hcovers
  rcases hfinishes.cases with ⟨_, hownership, _, hworld⟩ | ⟨_, ⟨second⟩⟩
  · rw [hownership, hworld]
    exact hreviewed
  · rw [second.ownership_eq]
    exact (second.batch hwrites hbelow).covers (stages.consistent_reviewed hconsistent)
      (hnames.of_compileBatch second.compiles) hreviewed

theorem outcomes_of_finishes (hfinishes : stages.Finishes draft progress' world') :
    (attemptRounds services project changes register progress world).map Round.outcome =
        [.nothing, stages.outcome] ∧ world' = stages.reviewedWorld ∨
      ∃ second : Second stages draft progress' world',
        (attemptRounds services project changes register progress world).map Round.outcome =
          [.nothing, stages.outcome, second.outcome] := by
  rw [stages.attemptRounds_eq]
  rcases hfinishes.cases with ⟨hnone, _, _, hworld⟩ | ⟨hsome, ⟨second⟩⟩
  · rw [stages.finishRounds_of_none hnone]
    exact Or.inl ⟨rfl, hworld⟩
  · rw [second.finishRounds_eq hsome]
    exact Or.inr ⟨second, rfl⟩

theorem gone_or_kept (hwrites : WritesListed files) (hconsistent : register.Consistent)
    (hbelow : register.LeadsBelow) (hsource : register.sourceOf? name = some source)
    (hunwritten : ∀ other ∈ stages.outcome.classes,
      fileKey project.destination other ≠ fileKey project.destination name) :
    files.held stages.reviewedWorld (fileKey project.destination name) = none ∨
      source ∉ changes.removed ∧ stages.outcome.produced[source]? = none ∧
        stages.reviewed.ownership.sourceOf? name = some source := by
  have hbatched := stages.reviewedBatch hwrites hbelow
  have hcleared := stages.cleared files hbelow
  have hopened := stages.consistent_opened hconsistent
  by_cases hremoved : source ∈ changes.removed
  · left
    apply hbatched.gone_of_gone hunwritten
    apply hcleared.deletion.gone
    exact mem_ownedKeys.mpr ⟨name, ⟨source, Std.ExtTreeSet.mem_toList.mpr hremoved,
      (hconsistent name source).mp hsource⟩, rfl⟩
  · have hkept : stages.opened.ownership.sourceOf? name = some source := by
      rw [hcleared.removed.ownership_eq, hconsistent.sourceOf?_removeAll]
      exact ⟨fun hmem => hremoved (Std.ExtTreeSet.mem_toList.mp hmem), hsource⟩
    cases hproduced : stages.outcome.produced[source]? with
    | some classes => exact Or.inl (hbatched.gone_of_dropped hopened hkept hproduced hunwritten)
    | none =>
        right
        refine ⟨hremoved, rfl, ?_⟩
        exact hbatched.sourceOf?_of_unproduced hopened hkept hproduced
          fun hlisted => hunwritten name hlisted rfl

theorem gone_of_finishes (hwrites : WritesListed files) (hconsistent : register.Consistent)
    (hbelow : register.LeadsBelow) (hfinishes : stages.Finishes draft progress' world')
    (hsource : register.sourceOf? name = some source)
    (hdropped : source ∈ changes.removed ∨
      ∃ outcome ∈
          (attemptRounds services project changes register progress world).map Round.outcome,
        ∃ classes, outcome.produced[source]? = some classes ∧ name ∉ classes)
    (hunwritten : ∀ outcome ∈
      (attemptRounds services project changes register progress world).map Round.outcome,
        ∀ other ∈ outcome.classes,
          fileKey project.destination other ≠ fileKey project.destination name) :
    files.held world' (fileKey project.destination name) = none := by
  have hnothing : Outcome.nothing.produced[source]? = none := by
    simp [Outcome.nothing]
  rcases outcomes_of_finishes hfinishes with ⟨houtcomes, hworld⟩ | ⟨second, houtcomes⟩
  · rw [houtcomes] at hdropped hunwritten
    simp only [List.forall_mem_cons] at hunwritten
    rcases stages.gone_or_kept hwrites hconsistent hbelow hsource hunwritten.2.1 with hgone | hkept
    · rw [hworld]
      exact hgone
    · simp [hkept.1, hkept.2.1, hnothing] at hdropped
  · rw [houtcomes] at hdropped hunwritten
    simp only [List.forall_mem_cons] at hunwritten
    have hbatched := second.batch hwrites hbelow
    have hlast := hunwritten.2.2.1
    rcases stages.gone_or_kept hwrites hconsistent hbelow hsource hunwritten.2.1 with hgone | hkept
    · exact hbatched.gone_of_gone hlast hgone
    · have hproduced : ∃ classes,
          second.outcome.produced[source]? = some classes ∧ name ∉ classes := by
        simpa [hkept.1, hkept.2.1, hnothing] using hdropped
      rcases hproduced with ⟨classes, hproduced, _⟩
      exact hbatched.gone_of_dropped (stages.consistent_reviewed hconsistent) hkept.2.2
        hproduced hlast

end Completion

/--
From a destination that the register covers, no attempt fails for want of a
source, and a build that succeeds with one leaves a destination that the saved
register covers. Where removed sources had classes, and sources that compile to
less than before, a file is left only if some round lists a class for it. The
names that are registered lead below the destination.
-/
theorem covers_of_incremental (files : ClassFiles services.host project.destination)
    (hstores : StoresSpare files) (hwrites : WritesListed files) (hnames : NamesFiles files)
    (hreads : files.ReadsListed)
    (hcompiler : ∀ batch world name,
      (runIn (services.compile batch) world).1 ≠ .error (.unownedClass name)) :
    (∀ changes register progress world name, register.Consistent → register.LeadsBelow →
      Covers files register world →
      ((compileChanges services project changes register).runFrom progress world).1 ≠
        .error (.unownedClass name)) ∧
    ∀ start (course : Course services project start) report,
      (∀ register loaded,
        runIn services.ownership.load course.begun = (.ok (some register), loaded) →
          register.Consistent ∧ register.LeadsBelow ∧ Covers files register start) →
      (runIn (run services project) start).1 = .ok report →
      report.success = true → report.mode = .incremental →
        ∃ attempt : course.Attempt, (course.saved attempt.draft).1 = .ok () ∧
          Covers files attempt.draft.ownership (runIn (run services project) start).2 ∧
          ∀ name source, attempt.register.sourceOf? name = some source →
            (source ∈ course.changes.removed ∨ ∃ round ∈ course.rounds, ∃ classes,
              round.outcome.produced[source]? = some classes ∧ name ∉ classes) →
            (∀ round ∈ course.rounds, ∀ other ∈ round.outcome.classes,
              fileKey project.destination other ≠ fileKey project.destination name) →
            files.held (runIn (run services project) start).2
              (fileKey project.destination name) = none := by
  constructor
  · intro changes register progress world name hconsistent hbelow hcovers
    exact ne_unownedClass_of_covers hwrites hnames hreads hcompiler hconsistent hbelow hcovers name
  · intro start course report hregister hreport hsuccess hmode
    rcases course.of_report hreport with ⟨draft, hresult, hsettled, hsame, _, hdraft⟩
    rw [hmode] at hsame
    rw [hsuccess] at hdraft
    rcases course.exists_attempt_of_rounds hresult hsame.symm with ⟨attempt, heq, hrounds⟩
    rw [← heq] at hdraft hsettled
    rcases hregister attempt.register attempt.loaded attempt.loads with
      ⟨hconsistent, hbelow, hstart⟩
    have hloaded : files.held attempt.loaded = files.held start :=
      course.held_loaded hstores attempt.loads
    have hended := course.held_run_of_success hstores hreport hsuccess
    refine ⟨attempt, course.saved_of_settle hdraft.symm hsettled, ?_, ?_⟩
    · have hcovers := attempt.stages.covers_of_finishes hwrites hnames hconsistent hbelow
        (hstart.of_held_eq hloaded) attempt.finishes
      exact hcovers.of_held_eq hended
    · intro name source hsource hdropped hunwritten
      rw [hended]
      apply Completion.gone_of_finishes hwrites hconsistent hbelow attempt.finishes hsource
      · rw [← hrounds]
        simpa using hdropped
      · rw [← hrounds, List.forall_mem_map]
        exact hunwritten

/-!
One source is removed and another one added, each with one class.
-/

def replacements : List Product :=
  [⟨"A.java", ⟨"Y"⟩, Shelf.classBytes 0x21 89⟩]

def outdated : Shelf :=
  Shelf.soloShelf (some (Shelf.current ["B.java"])) (some "B.java")

def replacing :
    Course (Shelf.services ["A.java"] replacements true) (Shelf.project Shelf.out) outdated :=
  Shelf.course Shelf.out replacements true Shelf.listed_alone _ (by decide +kernel)

theorem covers_outdated :
    Covers (Shelf.classFiles ["A.java"] replacements true Shelf.out)
      (Shelf.soloRegister "B.java") outdated := by
  intro key bytes hbytes
  have hheld : outdated.held key = some bytes := hbytes
  have hthere : outdated.held key ≠ none := by
    rw [hheld]
    exact Option.some_ne_none _
  have hkey : key = fileKey Shelf.out Shelf.solo := Shelf.eq_of_held_soloShelf hthere
  have hsource : (Shelf.soloRegister "B.java").sourceOf? Shelf.solo = some "B.java" := by
    decide +kernel
  refine ⟨Shelf.solo, "B.java", hsource, hkey.symm, ?_⟩
  have hproduct : Product.IsNamed ⟨"B.java", Shelf.solo, Shelf.classBytes 0x21 88⟩ := by
    decide +kernel
  rw [hkey, show outdated.held _ = _ from Shelf.held_soloShelf_solo _ _] at hheld
  cases hheld
  exact fun surface hsurface => hproduct.name_eq hsurface

theorem covers_of_incremental_of_replaced :
    let files := Shelf.classFiles ["A.java"] replacements true Shelf.out
    let services := Shelf.services ["A.java"] replacements true
    let ended := runIn (run services (Shelf.project Shelf.out)) outdated
    (∀ name, ((compileChanges services (Shelf.project Shelf.out) replacing.changes
      (Shelf.soloRegister "B.java")).runFrom replacing.first outdated).1 ≠
        .error (.unownedClass name)) ∧
      ∃ report, ended.1 = .ok report ∧ report.success = true ∧ report.mode = .incremental ∧
        ∃ attempt : replacing.Attempt, (replacing.saved attempt.draft).1 = .ok () ∧
          Covers files attempt.draft.ownership ended.2 ∧
          files.held ended.2 (fileKey Shelf.out Shelf.solo) = none := by
  intro files services ended
  have hnamed : ∀ product ∈ replacements, product.IsNamed := by
    decide +kernel
  have hbinary : ∀ product ∈ replacements, product.name.IsBinary := by
    decide
  have hconcluded : (replacing.concluded.1.toOption.map fun draft =>
      (draft.mode, draft.success)) = some (.incremental, true) := by
    decide +kernel
  have hremoved : "B.java" ∈ replacing.changes.removed := by
    decide +kernel
  have hunwritten : ∀ round ∈ replacing.rounds, ∀ other ∈ round.outcome.classes,
      fileKey Shelf.out other ≠ fileKey Shelf.out Shelf.solo := by
    have hall : (replacing.rounds.all fun round => round.outcome.classes.all fun other =>
        fileKey Shelf.out other ≠ fileKey Shelf.out Shelf.solo) = true := by
      decide +kernel
    simpa using hall
  have hsource : (Shelf.soloRegister "B.java").sourceOf? Shelf.solo = some "B.java" := by
    decide +kernel
  have hconsistent : (Shelf.soloRegister "B.java").Consistent := Ownership.consistent_ofClasses _
  rcases covers_of_incremental files (Shelf.storesSpare _ _ _ _)
    (Shelf.writesListed _ _ _ hbinary) (Shelf.writesNamed _ _ _ hbinary hnamed).named
    (Shelf.readsListed _ _ _ _) (fun _ _ _ => nofun) with ⟨hattempt, hbuild⟩
  rcases Shelf.exists_report replacing hconcluded with ⟨report, hreport, hmode, hsuccess⟩
  have hregister : ∀ register loaded,
      runIn services.ownership.load replacing.begun = (.ok (some register), loaded) →
        register = Shelf.soloRegister "B.java" := by
    intro register loaded hloaded
    cases hloaded
    rfl
  rcases hbuild outdated replacing report
    (by
      intro register loaded hloaded
      rw [hregister register loaded hloaded]
      exact ⟨hconsistent, Shelf.leadsBelow_soloRegister _, covers_outdated⟩)
    hreport hsuccess hmode with ⟨attempt, hsaved, hcovers, hgone⟩
  have howner : attempt.register.sourceOf? Shelf.solo = some "B.java" := by
    rw [hregister _ _ attempt.loads]
    exact hsource
  exact ⟨fun name => hattempt _ _ _ _ name hconsistent (Shelf.leadsBelow_soloRegister _)
    covers_outdated, report, hreport, hsuccess,
    hmode, attempt, hsaved, hcovers, hgone Shelf.solo "B.java" howner (Or.inl hremoved) hunwritten⟩

end Build
end Recompile
