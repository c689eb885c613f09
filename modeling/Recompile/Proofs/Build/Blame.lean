import Recompile.Proofs.Build.Completion
import Recompile.Proofs.Build.FirstLook
import Recompile.Proofs.Build.Review
import Recompile.Proofs.Build.Shelf
import Recompile.Proofs.Compilation.Invocation

/-!
# Failures are put down to sources

A compiler that fails marks one of its sources as failed. The statuses of a build
are those of its batches, and where two batches tell of one source a failure is
kept, so a build that fails marks a source as failed as well.
-/

namespace Recompile
namespace Build

variable {σ : Type} {services : Services (StateM σ)} {project : Project} {start : σ}
  {progress progress' : Progress} {world world' : σ} {source : String} {draft : Draft}

/-- Whether each call that fails marks a source of its batch as failed. -/
def Blames (services : Services (StateM σ)) (project : Project) : Prop :=
  ∀ {sources world outcome world'},
    runIn (services.compile (project.batch sources)) world = (.ok outcome, world') →
      outcome.success = false → ∃ source, MarksFailed (outcome.statuses sources) source

/-!
# Two batches
-/

def mergeStatus (known : Std.ExtTreeMap String SourceStatus) (entry : String × SourceStatus) :
    Std.ExtTreeMap String SourceStatus :=
  known.insert entry.1
    (match known[entry.1]? with
    | some previous => previous.merge entry.2
    | none => entry.2)

theorem marksFailed_mergeStatus_iff {known : Std.ExtTreeMap String SourceStatus}
    {entry : String × SourceStatus} :
    MarksFailed (mergeStatus known entry) source ↔
      MarksFailed known source ∨ ∃ messages, entry = (source, .failed messages) := by
  unfold MarksFailed mergeStatus
  rw [Std.ExtTreeMap.getElem?_insert]
  rcases entry with ⟨key, status⟩
  by_cases hsame : key = source
  · subst hsame
    rw [if_pos (Std.LawfulEqCmp.compare_eq_iff_eq.mpr rfl)]
    cases known[key]? with
    | none => simp
    | some previous =>
        simp only [Option.some.injEq, SourceStatus.merge_eq_failed_iff, Prod.mk.injEq, true_and]
  · rw [if_neg (mt Std.LawfulEqCmp.compare_eq_iff_eq.mp hsame)]
    simp [hsame]

theorem marksFailed_foldl_mergeStatus_iff {entries : List (String × SourceStatus)}
    {known : Std.ExtTreeMap String SourceStatus} :
    MarksFailed (entries.foldl mergeStatus known) source ↔
      MarksFailed known source ∨ ∃ messages, (source, .failed messages) ∈ entries := by
  induction entries generalizing known with
  | nil => simp
  | cons entry rest ih =>
      rw [List.foldl_cons, ih, marksFailed_mergeStatus_iff, or_assoc, ← exists_or]
      simp [@eq_comm _ entry]

theorem marksFailed_mergeStatuses_iff {earlier later : Std.ExtTreeMap String SourceStatus} :
    MarksFailed (mergeStatuses earlier later) source ↔
      MarksFailed earlier source ∨ MarksFailed later source := by
  have hfold : mergeStatuses earlier later = later.toList.foldl mergeStatus earlier := rfl
  rw [hfold, marksFailed_foldl_mergeStatus_iff]
  simp only [Std.ExtTreeMap.mem_toList_iff_getElem?_eq_some, MarksFailed]

/-!
# A whole build
-/

theorem Blames.of_compile (h : Blames services project) {sources : List String}
    {outcome : Outcome}
    (hrun : (compile services project sources).runFrom progress world =
      (.ok outcome, progress', world')) (hfailed : outcome.success = false) :
    ∃ source, MarksFailed (outcome.statuses sources) source := by
  rcases (called_of_compile hrun).2 with ⟨_, hnothing, _⟩ | ⟨_, hcall⟩
  · cases hnothing
    cases hfailed
  · exact h hcall hfailed

theorem Blames.of_compileBatch (h : Blames services project) {before : Snapshot}
    {register : Ownership} {sources : List String} {outcome : Outcome}
    (hrun : (compileBatch services project before register sources).runFrom progress world =
      (.ok outcome, progress', world')) (hfailed : outcome.success = false) :
    ∃ source, MarksFailed (outcome.statuses sources) source := by
  rcases called_of_compileBatch hrun with rfl | ⟨_, hcall⟩
  · cases hfailed
  · exact h hcall hfailed

theorem Blames.of_compileChanges (h : Blames services project) {changes : SourceChanges}
    {register : Ownership}
    (hrun : (compileChanges services project changes register).runFrom progress world =
      (.ok (some draft), progress', world')) (hfailed : draft.success = false) :
    ∃ source, MarksFailed draft.statuses source := by
  rcases Completion.exists_of_runFrom hrun with ⟨stages, hfinishes⟩
  rcases hfinishes.cases with ⟨hnone, _, hstatuses, _⟩ | ⟨_, ⟨second⟩⟩
  · rw [hfinishes.success_eq_of_none hnone] at hfailed
    rw [hstatuses]
    exact h.of_compileBatch stages.compiles hfailed
  · rw [second.success_eq, Bool.and_eq_false_iff] at hfailed
    simp only [second.statuses_eq, marksFailed_mergeStatuses_iff]
    rcases hfailed with hfirst | hsecond
    · rcases h.of_compileBatch stages.compiles hfirst with ⟨source, hmarked⟩
      exact ⟨source, .inl hmarked⟩
    · rcases h.of_compileBatch second.compiles hsecond with ⟨source, hmarked⟩
      exact ⟨source, .inr hmarked⟩

theorem Blames.of_compileAll (h : Blames services project)
    (hrun : (compileAll services project).runFrom progress world =
      (.ok draft, progress', world')) (hfailed : draft.success = false) :
    ∃ source, MarksFailed draft.statuses source := by
  unfold compileAll at hrun
  rcases Step.ok_of_runFrom_bind hrun with ⟨⟨sources, outcome⟩, _, _, hsurveyed, hdone⟩
  cases hdone
  unfold compileSurveyed at hsurveyed
  simp only [Step.runFrom_bind, Step.runFrom_get, Step.runFrom_perform] at hsurveyed
  split at hsurveyed
  · simp only [Step.runFrom_modify] at hsurveyed
    split at hsurveyed
    · next hcompiled =>
        cases hsurveyed
        exact h.of_compile hcompiled hfailed
    · cases hsurveyed
  · cases hsurveyed

theorem Blames.of_report (h : Blames services project) {report : Report}
    (hreport : (runIn (run services project) start).1 = .ok report)
    (hfailed : report.success = false) : ∃ source, MarksFailed report.statuses source := by
  rcases run_cases services project start with
    ⟨error, left, _, hrun⟩ | ⟨look, hunchanged⟩ | ⟨⟨course⟩⟩
  · rw [hrun] at hreport
    cases hreport
  · rw [look.runIn_run_of_unchanged hunchanged] at hreport
    cases hreport
    cases hfailed
  · rcases course.of_report hreport with ⟨draft, hresult, _, _, hstatuses, hsuccess⟩
    rw [hstatuses]
    rw [hsuccess] at hfailed
    rcases course.of_result hresult with ⟨_, _, _, _, hattempt⟩ | ⟨_, _, _, _, hall⟩
    · exact h.of_compileChanges hattempt hfailed
    · exact h.of_compileAll hall hfailed

theorem blames_of_compile {host : Host (StateM σ)} {program : Path}
    (hcompile : services.compile = Invocation.compile host program) :
    Blames services project := by
  intro sources world outcome world' hcall hfailed
  rw [hcompile] at hcall
  rcases Invocation.exists_keepsContract hcall with ⟨_, hkeeps, _⟩
  rcases hkeeps.marks hfailed with ⟨source, _, hmarked⟩
  exact ⟨source, hmarked⟩

/--
Whatever a compiler prints and however it ends, an outcome is read off it as long as the class
files that it reports can be read, and the outcome keeps the contract. So a build that fails
with this compiler marks a source as failed.
-/
theorem failures_are_put_down_to_sources (host : Host (StateM σ)) (program : Path) :
    (∀ (batch : Batch) (world : σ), batch.sources = [] →
      ∃ outcome, runIn (Invocation.compile host program batch) world = (.ok outcome, world) ∧
        outcome.success = true ∧ Invocation.KeepsContract batch [] outcome) ∧
    (∀ (batch : Batch) (world : σ), batch.sources ≠ [] →
      ∀ ended : Invocation.Ended host program batch world,
        ∃ outcome, runIn (Invocation.compile host program batch) world =
            (.ok outcome, ended.left) ∧
          (outcome.success = true ↔ ended.result.exitCode = 0) ∧
            Invocation.KeepsContract batch ended.origins outcome) ∧
    ∀ (services : Services (StateM σ)) (project : Project) (start : σ) (report : Report),
      services.compile = Invocation.compile host program →
        (runIn (run services project) start).1 = .ok report → report.success = false →
          ∃ source, MarksFailed report.statuses source := by
  refine ⟨?_, ?_, ?_⟩
  · intro batch world hsources
    exact ⟨_, Invocation.runIn_compile_of_nil hsources world, rfl,
      Invocation.keepsContract_nothing hsources⟩
  · intro batch world hsources ended
    refine ⟨_, Invocation.runIn_compile_of_ended hsources ended, ?_,
      Invocation.keepsContract_outcomeOf hsources⟩
    exact beq_iff_eq
  · intro services project start report hcompile hreport hfailed
    exact Blames.of_report (blames_of_compile hcompile) hreport hfailed

/-!
# A source that is refused

The compiler writes the class of the one source there is and still ends with an
error about it.
-/

end Build

namespace Shelf

def brokenLog : String :=
  "[wrote out/X.class]\nsrc/X.java:7: error: missing\n1 error\n"

def brokenResult : ProgramResult :=
  ⟨1, [], brokenLog.toList.map fun c => UInt8.ofNat c.toNat⟩

def brokenHost : Host (StateM Shelf) :=
  { host ["X.java"] with launch := fun _ _ => return .ok brokenResult }

def brokenServices : Services (StateM Shelf) :=
  { services ["X.java"] [] true with
    host := brokenHost
    compile := Invocation.compile brokenHost ⟨"javac"⟩ }

def brokenShelf : Shelf :=
  ⟨[(⟨"/out/X.class"⟩, classBytes 0x20 88)], none, none⟩

def brokenRun : Invocation.Ended brokenHost ⟨"javac"⟩ ((project out).batch ["X.java"])
    brokenShelf where
  result := brokenResult
  launched := brokenShelf
  launches := rfl
  origins := [(solo, none)]
  left := (runIn ((CompilerLog.writtenPaths (Invocation.logText brokenResult)).mapM
    (Invocation.readWritten brokenHost)) brokenShelf).2
  reads := Prod.ext (eq_ok_of_toOption (by decide +kernel)) rfl

end Shelf

namespace Build

theorem failures_are_put_down_to_sources_of_broken_source :
    (∃ outcome, (runIn (Shelf.brokenServices.compile ((Shelf.project Shelf.out).batch ["X.java"]))
        Shelf.brokenShelf).1 = .ok outcome ∧
      Shelf.solo ∈ outcome.produced["X.java"]?.getD ∅ ∧ outcome.diagnostics ≠ ∅) ∧
    ∃ report, (runIn (run Shelf.brokenServices (Shelf.project Shelf.out)) Shelf.brokenShelf).1 =
      .ok report ∧ report.success = false ∧ ∃ source, MarksFailed report.statuses source := by
  rcases failures_are_put_down_to_sources Shelf.brokenHost ⟨"javac"⟩ with ⟨_, hcalls, hreports⟩
  constructor
  · rcases hcalls _ _ (by decide) Shelf.brokenRun with ⟨outcome, houtcome, hsuccess, hkeeps⟩
    have hcode : Shelf.brokenRun.result.exitCode = 1 := rfl
    have hfailed : outcome.success = false := by
      rw [← Bool.not_eq_true, hsuccess, hcode]
      decide
    refine ⟨outcome, congrArg Prod.fst houtcome, ?_, hkeeps.blames hfailed⟩
    rw [hkeeps.classes]
    exact ⟨none, List.mem_singleton_self (Shelf.solo, none), by decide +kernel⟩
  · have hended : ((runIn (run Shelf.brokenServices (Shelf.project Shelf.out))
        Shelf.brokenShelf).1.toOption.map Report.success) = some false := by
      decide +kernel
    rcases Option.map_eq_some_iff.mp hended with ⟨report, hreport, hfailed⟩
    have hrun := eq_ok_of_toOption hreport
    exact ⟨report, hrun, hfailed, hreports Shelf.brokenServices _ _ report rfl hrun hfailed⟩

end Build
end Recompile
