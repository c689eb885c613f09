import Recompile.Proofs.Build.Commit
import Recompile.Proofs.Surface.Constants

/-!
# When a build turns to all sources

An attempt is given up in its review, and for one reason only: some class that
may have changed had a constant that is not there any more. Which classes may
have changed is told by what was removed and by what the first batch came to.
-/

namespace Recompile
namespace Build

variable {σ : Type} {services : Services (StateM σ)} {project : Project} {start : σ}
  {changes : SourceChanges} {register : Ownership} {progress progress' : Progress}
  {world world' : σ} {name : ClassName}

def Handled (changes : SourceChanges) (register : Ownership) (outcome : Outcome)
    (name : ClassName) : Prop :=
  (register.removeAll changes.removed.toList).Orphaned name outcome.produced.toList ∨
    name ∈ outcome.classes

def Touched (changes : SourceChanges) (register : Ownership) (outcome : Outcome)
    (name : ClassName) : Prop :=
  (∃ source ∈ changes.removed, register.Owns source name) ∨
    Handled changes register outcome name

/-- Whether a class had a constant that is gone, or the last one of its name is another one. -/
def LosesConstant (before after : Snapshot) (name : ClassName) : Prop :=
  ∃ old, before.get? name = some old ∧ ∃ constant ∈ old.constants,
    ∀ new, after.get? name = some new → ∀ kept,
      IsLast (fun other => other.name = constant.name) new.constants kept →
        kept.fingerprint ≠ constant.fingerprint

/-!
# The review
-/

theorem mem_affected_of_review {reviewed : Reviewed}
    (hreview : (review services project changes register).runFrom progress world =
      (.ok reviewed, progress', world')) :
    name ∈ reviewed.ledger.affected ↔ Touched changes register reviewed.outcome name := by
  rcases stages_of_review hreview with ⟨opened, _, _, _, _, hopens, _, hreviews⟩
  have hremoved := removed_of_openLedger hopens
  have hentered := entered_of_reviewProduced hreviews
  unfold Ledger.affected Touched Handled
  rw [Std.ExtTreeSet.mem_union_iff, hentered.mem_lost, hentered.mem_produced, hremoved.mem_lost,
    hremoved.ownership_eq, hremoved.produced_eq, mem_classes]
  simp [or_assoc]

theorem outcome_of_review_of_nothing_stale {reviewed : Reviewed} (hstale : changes.stale = [])
    (hreview : (review services project changes register).runFrom progress world =
      (.ok reviewed, progress', world')) : reviewed.outcome = .nothing := by
  rcases stages_of_review hreview with ⟨_, _, _, _, _, _, hcompiles, _⟩
  rw [hstale] at hcompiles
  rcases parts_of_compileBatch hcompiles with ⟨_, _, _, _, hcompiled⟩
  rcases (called_of_compile hcompiled).2 with ⟨_, hnothing, _⟩ | ⟨hsome, _⟩
  · exact Except.ok.inj hnothing
  · exact absurd rfl hsome

theorem eq_none_iff_of_dependantSources {before after : Snapshot} {ledger : Ledger}
    {found : Option SourceSet} (h : dependantSources before after ledger = .ok found) :
    found = none ↔ Alarms before after (· ∈ ledger.affected) := by
  rw [← any_changeLevels_iff]
  unfold dependantSources at h
  simp only at h
  split at h
  · next halarms =>
      cases h
      exact iff_of_true rfl halarms
  · next hquiet =>
      refine iff_of_false ?_ hquiet
      rintro rfl
      generalize (dependantClasses _ _ _).mapM ledger.ownership.sourceOf = sources at h
      cases sources with
      | error error => cases h
      | ok sources => cases h

theorem alarms_iff {before after : Snapshot} {affected : ClassName → Prop} :
    Alarms before after affected ↔ ∃ name, affected name ∧ LosesConstant before after name := by
  unfold Alarms LosesConstant
  simp only [Compatibility.between_eq_globallyIncompatible_iff]

theorem exists_review_of_attempt {attempt : Option Draft}
    (hrun : (compileChanges services project changes register).runFrom progress world =
      (.ok attempt, progress', world')) :
    ∃ reviewed middle between,
      (review services project changes register).runFrom progress world =
        (.ok reviewed, middle, between) ∧
      (attempt = none ↔ ∃ name, Touched changes register reviewed.outcome name ∧
        LosesConstant reviewed.before reviewed.after name) := by
  rcases reviewed_of_ok hrun with
    ⟨reviewed, middle, between, dependants, hreview, hdepends, hnone, _⟩
  refine ⟨reviewed, middle, between, hreview, ?_⟩
  simp only [← mem_affected_of_review hreview]
  rw [← alarms_iff, ← eq_none_iff_of_dependantSources hdepends]
  exact hnone

/-!
# The mode of a report
-/

theorem not_handled_nothing : ¬Handled changes register .nothing name := by
  have hproduced : Outcome.nothing.produced.toList = [] := rfl
  unfold Handled
  rw [hproduced, mem_classes, hproduced]
  simp [Ownership.Orphaned]

theorem Course.exists_review (course : Course services project start) {loaded : σ}
    (hload : runIn services.ownership.load course.begun = (.ok (some register), loaded))
    {draft : Draft} (hresult : course.result = .ok draft) :
    ∃ reviewed middle between,
      (review services project course.changes register).runFrom course.first loaded =
        (.ok reviewed, middle, between) ∧
      (draft.mode = .cold ↔ ∃ name, Touched course.changes register reviewed.outcome name ∧
        LosesConstant reviewed.before reviewed.after name) := by
  rcases course.of_result hresult with
    ⟨_, _, hsame, _, hattempt⟩ | ⟨_, _, _, hfull, hall⟩
  · rw [hload] at hsame
    cases hsame
    rcases exists_review_of_attempt hattempt with ⟨reviewed, middle, between, hreview, hnone⟩
    rcases Completion.exists_of_runFrom hattempt with ⟨_, hfinishes⟩
    refine ⟨reviewed, middle, between, hreview, ?_⟩
    rw [hfinishes.mode_eq, ← hnone]
    exact iff_of_false Mode.noConfusion nofun
  · -- All sources are compiled without a register too, but there is one here.
    have hcold := Course.mode_of_compileAll hall
    rcases course.of_full hfull with ⟨hsame, _⟩ | ⟨_, _, hsame, hattempt, _⟩
    · rw [hload] at hsame
      cases hsame
    · rw [hload] at hsame
      cases hsame
      rcases exists_review_of_attempt hattempt with ⟨reviewed, middle, between, hreview, hnone⟩
      refine ⟨reviewed, middle, between, hreview, ?_⟩
      rw [hcold, ← hnone]
      exact iff_of_true rfl rfl

/--
A build that finds a register and some changes, and comes to a report, has
compiled everything if and only if some class that it touched had a constant
that is lost. So sources without constants are no reason for it when they are
removed, and a class with a constant that goes with its source always is.
-/
theorem mode_eq_cold_iff (course : Course services project start) {loaded : σ}
    (hload : runIn services.ownership.load course.begun = (.ok (some register), loaded))
    {report : Report} (hreport : (runIn (run services project) start).1 = .ok report) :
    ∃ reviewed middle between,
      (review services project course.changes register).runFrom course.first loaded =
        (.ok reviewed, middle, between) ∧
      (report.mode = .cold ↔ ∃ name, Touched course.changes register reviewed.outcome name ∧
        LosesConstant reviewed.before reviewed.after name) ∧
      ((∀ source ∈ course.changes.removed, ∀ name, register.Owns source name →
          ∀ old, reviewed.before.get? name = some old → old.constants = []) →
        report.mode = .cold → course.changes.stale ≠ [] ∧ ∃ name,
          Handled course.changes register reviewed.outcome name ∧
            LosesConstant reviewed.before reviewed.after name) ∧
      ∀ source ∈ course.changes.removed, ∀ name, register.Owns source name →
        ∀ old, reviewed.before.get? name = some old → old.constants ≠ [] →
          reviewed.after.get? name = none → report.mode = .cold := by
  rcases course.of_report hreport with ⟨draft, hresult, _, hmode, _⟩
  rcases course.exists_review hload hresult with ⟨reviewed, middle, between, hreview, hcold⟩
  rw [← hmode] at hcold
  refine ⟨reviewed, middle, between, hreview, hcold, ?_, ?_⟩
  · intro hnone hmode
    rcases hcold.mp hmode with ⟨name, ⟨source, hsource, howns⟩ | hhandled, hlost⟩
    · rcases hlost with ⟨old, hold, constant, hconstant, _⟩
      rw [hnone source hsource name howns old hold] at hconstant
      cases hconstant
    · refine ⟨?_, name, hhandled, hlost⟩
      intro hstale
      rw [outcome_of_review_of_nothing_stale hstale hreview] at hhandled
      exact not_handled_nothing hhandled
  · intro source hsource name howns old hold hconstants hgone
    rcases List.exists_mem_of_ne_nil _ hconstants with ⟨constant, hconstant⟩
    apply hcold.mpr
    refine ⟨name, Or.inl ⟨source, hsource, howns⟩, old, hold, constant, hconstant, ?_⟩
    intro new hnew
    rw [hgone] at hnew
    cases hnew

/-!
A source goes with its class, which has a constant.
-/

def constantShelf : Shelf :=
  Shelf.put (classFileIn Shelf.out Shelf.solo) (ClassFile.intConstantBytes 1)
    ⟨[], some (Shelf.current ["A.java", "B.java"]), some (Shelf.soloRegister "B.java")⟩

def removal : Course (Shelf.services ["A.java"] [] true) (Shelf.project Shelf.out) constantShelf :=
  Shelf.course Shelf.out [] true Shelf.listed_alone _ (by decide +kernel)

theorem cold_of_removed_constant :
    runIn (Shelf.services ["A.java"] [] true).ownership.load removal.begun =
        (.ok (some (Shelf.soloRegister "B.java")), constantShelf) ∧
      ∃ report, (runIn (run (Shelf.services ["A.java"] [] true) (Shelf.project Shelf.out))
        constantShelf).1 = .ok report ∧ report.mode = .cold := by
  have hconcluded : (removal.concluded.1.toOption.map fun draft => (draft.mode, draft.success)) =
      some (.cold, true) := by
    decide +kernel
  have hremoved : "B.java" ∈ removal.changes.removed := by
    decide +kernel
  have howns : (Shelf.soloRegister "B.java").sourceOf? Shelf.solo = some "B.java" := by
    decide +kernel
  have hreviewed : ((review (Shelf.services ["A.java"] [] true) (Shelf.project Shelf.out)
      removal.changes (Shelf.soloRegister "B.java")).runFrom
        removal.first constantShelf).1.toOption.map
        (fun reviewed => ((reviewed.before.get? Shelf.solo).map fun old => old.constants.isEmpty,
          (reviewed.after.get? Shelf.solo).isNone)) = some (some false, true) := by
    decide +kernel
  have hload : runIn (Shelf.services ["A.java"] [] true).ownership.load removal.begun =
      (.ok (some (Shelf.soloRegister "B.java")), constantShelf) := rfl
  rcases Shelf.exists_report removal hconcluded with ⟨report, hreport, _⟩
  refine ⟨hload, report, hreport, ?_⟩
  rcases mode_eq_cold_iff removal hload hreport with
    ⟨reviewed, middle, between, hreview, _, _, hlost⟩
  rw [hreview] at hreviewed
  rcases Prod.mk.inj (Option.some.inj hreviewed) with ⟨hbefore, hafter⟩
  rcases Option.map_eq_some_iff.mp hbefore with ⟨old, hold, hconstants⟩
  apply hlost "B.java" hremoved Shelf.solo _ old hold
  · rintro hnone
    rw [hnone] at hconstants
    cases hconstants
  · exact Option.isNone_iff_eq_none.mp hafter
  · exact (Ownership.consistent_ofClasses _ _ _).mp howns

/-!
A class has two constants of one name, and is compiled to the same bytes again.
-/

def twinBytes : Bytes :=
  [0xCA, 0xFE, 0xBA, 0xBE, 0, 0, 0, 52, 0, 10, 7, 0, 2, 1, 0, 1, 88, 1, 0, 1, 75,
    1, 0, 1, 73, 1, 0, 13] ++ Bytes.ofText "ConstantValue" ++
  [3, 0, 0, 0, 1, 1, 0, 1, 74, 5, 0, 0, 0, 0, 0, 0, 0, 2,
    0, 0x21, 0, 1, 0, 0, 0, 0, 0, 2, 0, 0x19, 0, 3, 0, 4, 0, 1, 0, 5, 0, 0, 0, 2, 0, 6,
    0, 0x19, 0, 3, 0, 7, 0, 1, 0, 5, 0, 0, 0, 2, 0, 8, 0, 0, 0, 0]

def twinServices : Services (StateM Shelf) :=
  Shelf.services ["A.java"] [⟨"A.java", Shelf.solo, twinBytes⟩] true

def twinShelf : Shelf :=
  Shelf.put (classFileIn Shelf.out Shelf.solo) twinBytes
    ⟨[], none, some (Shelf.soloRegister "A.java")⟩

def twinCourse : Course twinServices (Shelf.project Shelf.out) twinShelf :=
  Shelf.course Shelf.out _ true Shelf.listed_alone _ (by decide +kernel)

/-- A class that did not change at all makes a build turn to all sources. -/
theorem cold_of_twin_constants :
    runIn twinServices.ownership.load twinCourse.begun =
      (.ok (some (Shelf.soloRegister "A.java")), twinShelf) ∧
    (∃ report, (runIn (run twinServices (Shelf.project Shelf.out)) twinShelf).1 = .ok report ∧
      report.mode = .cold) ∧
    ∃ reviewed middle between,
      (review twinServices (Shelf.project Shelf.out) twinCourse.changes
        (Shelf.soloRegister "A.java")).runFrom twinCourse.first twinShelf =
          (.ok reviewed, middle, between) ∧
      ¬∃ name, Touched twinCourse.changes (Shelf.soloRegister "A.java") reviewed.outcome name ∧
        ∃ old, reviewed.before.get? name = some old ∧ ∃ constant ∈ old.constants,
          ∀ new, reviewed.after.get? name = some new → ∀ kept ∈ new.constants,
            kept.name = constant.name → kept.fingerprint ≠ constant.fingerprint := by
  have hconcluded : (twinCourse.concluded.1.toOption.map fun draft =>
      (draft.mode, draft.success)) = some (.cold, true) := by
    decide +kernel
  have hreviewed : ((review twinServices (Shelf.project Shelf.out) twinCourse.changes
      (Shelf.soloRegister "A.java")).runFrom twinCourse.first twinShelf).1.toOption.map
        (fun reviewed => decide (reviewed.before.classes.toList = reviewed.after.classes.toList)) =
          some true := by
    decide +kernel
  refine ⟨rfl, ?_, ?_⟩
  · rcases Shelf.exists_report twinCourse hconcluded with ⟨report, hreport, hmode, _⟩
    exact ⟨report, hreport, hmode⟩
  · rcases hreview : (review twinServices (Shelf.project Shelf.out) twinCourse.changes
      (Shelf.soloRegister "A.java")).runFrom twinCourse.first twinShelf with
      ⟨answer, middle, between⟩
    rw [hreview] at hreviewed
    cases answer with
    | error error => cases hreviewed
    | ok reviewed =>
        refine ⟨reviewed, middle, between, rfl, ?_⟩
        rintro ⟨name, _, old, hold, constant, hconstant, hlost⟩
        have hsame : reviewed.before.classes = reviewed.after.classes :=
          Std.ExtTreeMap.toList_inj.mp (of_decide_eq_true (Option.some.inj hreviewed))
        unfold Snapshot.get? at hold
        rw [hsame] at hold
        exact hlost old hold constant hconstant rfl rfl

end Build
end Recompile
