import Recompile.Compilation.Invocation
import Recompile.Proofs.Answers
import Recompile.Proofs.ClassName.Internal
import Recompile.Proofs.Compilation
import Recompile.Proofs.Compilation.Attribution
import Recompile.Proofs.Compilation.Log
import Recompile.Proofs.Ownership
import Recompile.Proofs.Step

/-!
# What a run of the compiler comes to

An outcome is made from three things: the exit code, the log, and the origins of
the class files that the log reports. Whatever they are, the sources that the
outcome tells of are those of the batch, and a failure is put down to one of them.
-/

namespace Recompile
namespace Invocation

abbrev Origin := ClassName × Option String

variable {batch : Batch} {source : String} {name : ClassName}

/-!
# Classes and their sources
-/

theorem mem_of_sourceOf? {sources : List String} {sourceFile : Option String}
    (h : Attribution.sourceOf? sources name sourceFile = some source) : source ∈ sources :=
  (Attribution.mem_candidates.mp (Attribution.mem_candidates_of_sourceOf? h)).1

def assign (sources : List String) (produced : Std.ExtTreeMap String ClassSet) (origin : Origin) :
    Std.ExtTreeMap String ClassSet :=
  match Attribution.sourceOf? sources origin.1 origin.2 with
  | some source => Ownership.addClass produced origin.1 source
  | none => produced

theorem mem_getD_assign {sources : List String} {produced : Std.ExtTreeMap String ClassSet}
    {origin : Origin} :
    name ∈ (assign sources produced origin)[source]?.getD ∅ ↔
      name ∈ produced[source]?.getD ∅ ∨ name = origin.1 ∧
        Attribution.sourceOf? sources origin.1 origin.2 = some source := by
  unfold assign
  cases Attribution.sourceOf? sources origin.1 origin.2 with
  | none => simp
  | some owner =>
      simp only
      rw [Ownership.mem_getD_addClass, Option.some.injEq, @eq_comm _ owner]

theorem mem_assign {sources : List String} {produced : Std.ExtTreeMap String ClassSet}
    {origin : Origin} :
    source ∈ assign sources produced origin ↔
      source ∈ produced ∨ Attribution.sourceOf? sources origin.1 origin.2 = some source := by
  unfold assign
  cases Attribution.sourceOf? sources origin.1 origin.2 with
  | none => simp
  | some owner =>
      unfold Ownership.addClass
      rw [Std.ExtTreeMap.mem_insert, Std.LawfulEqCmp.compare_eq_iff_eq, Option.some.injEq, or_comm]

theorem mem_getD_foldl_assign {sources : List String} (origins : List Origin)
    (produced : Std.ExtTreeMap String ClassSet) :
    name ∈ (origins.foldl (assign sources) produced)[source]?.getD ∅ ↔
      name ∈ produced[source]?.getD ∅ ∨ ∃ sourceFile, (name, sourceFile) ∈ origins ∧
        Attribution.sourceOf? sources name sourceFile = some source := by
  induction origins generalizing produced with
  | nil => simp
  | cons origin rest ih =>
      rw [List.foldl_cons, ih, mem_getD_assign, or_assoc]
      refine or_congr_right ?_
      constructor
      · rintro (⟨rfl, howner⟩ | ⟨sourceFile, hmem, howner⟩)
        · exact ⟨origin.2, List.mem_cons_self, howner⟩
        · exact ⟨sourceFile, List.mem_cons_of_mem _ hmem, howner⟩
      · rintro ⟨sourceFile, hmem, howner⟩
        rcases List.mem_cons.mp hmem with rfl | hmem
        · exact .inl ⟨rfl, howner⟩
        · exact .inr ⟨sourceFile, hmem, howner⟩

theorem mem_foldl_assign {sources : List String} {origins : List Origin}
    {produced : Std.ExtTreeMap String ClassSet}
    (h : source ∈ origins.foldl (assign sources) produced) :
    source ∈ produced ∨ source ∈ sources := by
  induction origins generalizing produced with
  | nil => exact .inl h
  | cons origin rest ih =>
      rcases ih h with hproduced | hsource
      · rcases mem_assign.mp hproduced with hbefore | howner
        · exact .inl hbefore
        · exact .inr (mem_of_sourceOf? howner)
      · exact .inr hsource

theorem mem_listSources (produced : Std.ExtTreeMap String ClassSet) (sources : List String) :
    source ∈ listSources produced sources ↔ source ∈ produced ∨ source ∈ sources := by
  unfold listSources
  rw [mem_foldl_of_adds id, List.map_id]
  intro known listed source
  rw [Std.ExtTreeMap.mem_insertIfNew, Std.LawfulEqCmp.compare_eq_iff_eq, @eq_comm _ listed,
    or_comm]
  rfl

theorem getD_listSources (produced : Std.ExtTreeMap String ClassSet) (sources : List String) :
    (listSources produced sources)[source]?.getD ∅ = produced[source]?.getD ∅ := by
  unfold listSources
  induction sources generalizing produced with
  | nil => rfl
  | cons first rest ih =>
      rw [List.foldl_cons, ih, Std.ExtTreeMap.getElem?_insertIfNew]
      split
      · next hnew =>
          rw [Std.LawfulEqCmp.compare_eq_iff_eq] at hnew
          rw [← hnew.1, Std.ExtTreeMap.getElem?_eq_none hnew.2]
          rfl
      · rfl

/-!
# Messages
-/

theorem requested_of_mem_diagnostics {success : Bool} {log : List Char}
    (h : source ∈ diagnostics batch success log) : source ∈ batch.sources := by
  unfold diagnostics at h
  simp only at h
  split at h
  · exact CompilerLog.requested_of_mem_errorsBySource h
  · rw [mem_foldl_insert] at h
    rcases h with hgrouped | hsource
    · exact CompilerLog.requested_of_mem_errorsBySource hgrouped
    · exact hsource

theorem exists_mem_diagnostics {log : List Char} (hsources : batch.sources ≠ []) :
    ∃ source, source ∈ diagnostics batch false log := by
  unfold diagnostics
  simp only [Bool.false_or]
  by_cases hnone : CompilerLog.errorsBySource batch log = ∅
  · rw [hnone, Std.ExtTreeMap.isEmpty_empty, if_neg (by decide)]
    rcases List.exists_mem_of_ne_nil _ hsources with ⟨source, hsource⟩
    exact ⟨source, (mem_foldl_insert _ _ _).mpr (.inr hsource)⟩
  · rw [if_pos (by simpa [Std.ExtTreeMap.isEmpty_iff] using hnone)]
    rw [Std.ExtTreeMap.eq_empty_iff_forall_not_mem] at hnone
    simpa using hnone

/-!
# The contract
-/

/-- What the callers of a compiler rely on, once the origins of the class files are known. -/
structure KeepsContract (batch : Batch) (origins : List Origin) (outcome : Outcome) : Prop where
  produced_requested : ∀ source ∈ outcome.produced, source ∈ batch.sources
  blamed_requested : ∀ source ∈ outcome.diagnostics, source ∈ batch.sources
  listed : outcome.success = true → ∀ source ∈ batch.sources, source ∈ outcome.produced
  classes : ∀ name source, name ∈ outcome.produced[source]?.getD ∅ ↔
    ∃ sourceFile, (name, sourceFile) ∈ origins ∧
      Attribution.sourceOf? batch.sources name sourceFile = some source
  blames : outcome.success = false → outcome.diagnostics ≠ ∅
  marks : outcome.success = false →
    ∃ source ∈ batch.sources, MarksFailed (outcome.statuses batch.sources) source

def outcomeOf (batch : Batch) (result : ProgramResult) (origins : List Origin) : Outcome :=
  let success := result.exitCode == 0
  let produced := origins.foldl (assign batch.sources) ∅
  { success := success
    produced := if success then listSources produced batch.sources else produced
    diagnostics := diagnostics batch success (logText result) }

theorem keepsContract_nothing (hsources : batch.sources = []) :
    KeepsContract batch [] .nothing where
  produced_requested source h := absurd h Std.ExtTreeMap.not_mem_empty
  blamed_requested source h := absurd h Std.ExtTreeMap.not_mem_empty
  listed _ source h := by
    rw [hsources] at h
    cases h
  classes name source := by simp [Outcome.nothing]
  blames hfailed := nomatch hfailed
  marks hfailed := nomatch hfailed

section

variable {result : ProgramResult} {origins : List Origin}

theorem requested_of_mem_produced (h : source ∈ (outcomeOf batch result origins).produced) :
    source ∈ batch.sources := by
  have hassigned (hmem : source ∈ origins.foldl (assign batch.sources) ∅) :
      source ∈ batch.sources := by
    rcases mem_foldl_assign hmem with hempty | hsource
    · exact absurd hempty Std.ExtTreeMap.not_mem_empty
    · exact hsource
  unfold outcomeOf at h
  simp only at h
  split at h
  · rcases (mem_listSources _ _).mp h with hmem | hlisted
    · exact hassigned hmem
    · exact hlisted
  · exact hassigned h

theorem mem_produced_of_succeeded (hsuccess : (outcomeOf batch result origins).success = true)
    (hsource : source ∈ batch.sources) : source ∈ (outcomeOf batch result origins).produced := by
  unfold outcomeOf at hsuccess ⊢
  simp only at hsuccess ⊢
  rw [if_pos hsuccess, mem_listSources]
  exact .inr hsource

theorem mem_getD_produced_iff :
    name ∈ (outcomeOf batch result origins).produced[source]?.getD ∅ ↔
      ∃ sourceFile, (name, sourceFile) ∈ origins ∧
        Attribution.sourceOf? batch.sources name sourceFile = some source := by
  have hsame : (outcomeOf batch result origins).produced[source]?.getD ∅ =
      (origins.foldl (assign batch.sources) ∅)[source]?.getD ∅ := by
    unfold outcomeOf
    simp only
    split
    · exact getD_listSources _ _
    · rfl
  rw [hsame, mem_getD_foldl_assign]
  simp

theorem exists_blamed_of_failed (hsources : batch.sources ≠ [])
    (hfailed : (outcomeOf batch result origins).success = false) :
    ∃ source, source ∈ (outcomeOf batch result origins).diagnostics := by
  unfold outcomeOf at hfailed ⊢
  simp only at hfailed ⊢
  rw [hfailed]
  exact exists_mem_diagnostics hsources

theorem keepsContract_outcomeOf (hsources : batch.sources ≠ []) :
    KeepsContract batch origins (outcomeOf batch result origins) where
  produced_requested _ := requested_of_mem_produced
  blamed_requested _ := requested_of_mem_diagnostics
  listed hsuccess _ := mem_produced_of_succeeded hsuccess
  classes _ _ := mem_getD_produced_iff
  blames hfailed hnone := by
    rcases exists_blamed_of_failed hsources hfailed with ⟨source, hsource⟩
    rw [hnone] at hsource
    exact absurd hsource Std.ExtTreeMap.not_mem_empty
  marks hfailed := by
    rcases exists_blamed_of_failed hsources hfailed with ⟨source, hsource⟩
    have hrequested : source ∈ batch.sources := requested_of_mem_diagnostics hsource
    exact ⟨source, hrequested, marksFailed_statuses_iff.mpr ⟨hrequested, .inl hsource⟩⟩

end

/-!
# Running it
-/

variable {σ : Type} {host : Host (StateM σ)} {program : Path}

/-- A compiler that has ended, and the origins of all class files that its log reports. -/
structure Ended (host : Host (StateM σ)) (program : Path) (batch : Batch) (world : σ) where
  result : ProgramResult
  launched : σ
  launches : (host.launch program (arguments batch)).run world = (.ok result, launched)
  origins : List Origin
  left : σ
  reads : runIn ((CompilerLog.writtenPaths (logText result)).mapM (readWritten host)) launched =
    (.ok origins, left)

theorem assignAll_cons (path : Path) (rest : List Path)
    (produced : Std.ExtTreeMap String ClassSet) :
    assignAll host batch produced (path :: rest) =
      readWritten host path >>= fun origin =>
        assignAll host batch (assign batch.sources produced origin) rest := by
  rw [assignAll]
  congr
  funext ⟨name, sourceFile⟩
  unfold assign
  simp only
  cases Attribution.sourceOf? batch.sources name sourceFile <;> rfl

theorem runIn_assignAll (paths : List Path) (produced : Std.ExtTreeMap String ClassSet)
    (world : σ) :
    runIn (assignAll host batch produced paths) world =
      match runIn (paths.mapM (readWritten host)) world with
      | (.ok origins, left) => (.ok (origins.foldl (assign batch.sources) produced), left)
      | (.error error, left) => (.error error, left) := by
  induction paths generalizing produced world with
  | nil => rfl
  | cons path rest ih =>
      rw [assignAll_cons, List.mapM_cons, runIn_bind, runIn_bind]
      rcases runIn (readWritten host path) world with ⟨origin, between⟩
      cases origin with
      | error error => rfl
      | ok origin =>
          simp only
          rw [ih, runIn_bind]
          rcases runIn (rest.mapM (readWritten host)) between with ⟨others, left⟩
          cases others <;> rfl

theorem runIn_compile (hsources : batch.sources ≠ []) (world : σ) :
    runIn (compile host program batch) world =
      match (host.launch program (arguments batch)).run world with
      | (.error cause, left) => (.error (.noCompiler program.text cause), left)
      | (.ok result, launched) =>
        match runIn ((CompilerLog.writtenPaths (logText result)).mapM (readWritten host))
          launched with
        | (.ok origins, left) => (.ok (outcomeOf batch result origins), left)
        | (.error error, left) => (.error error, left) := by
  unfold compile
  rw [if_neg hsources, runIn_bind, runIn_lift]
  simp only
  rcases (host.launch program (arguments batch)).run world with ⟨answer, launched⟩
  cases answer with
  | error cause => rfl
  | ok result =>
      simp only
      rw [runIn_bind, runIn_assignAll]
      rcases runIn ((CompilerLog.writtenPaths (logText result)).mapM (readWritten host))
        launched with ⟨read, left⟩
      cases read with
      | error error => rfl
      | ok origins => rfl

theorem runIn_compile_of_ended (hsources : batch.sources ≠ []) {world : σ}
    (ended : Ended host program batch world) :
    runIn (compile host program batch) world =
      (.ok (outcomeOf batch ended.result ended.origins), ended.left) := by
  rw [runIn_compile hsources, ended.launches]
  simp only
  rw [ended.reads]

theorem runIn_compile_of_nil (hsources : batch.sources = []) (world : σ) :
    runIn (compile host program batch) world = (.ok .nothing, world) := by
  unfold compile
  rw [if_pos hsources]
  rfl

/-!
# Names

The name of a class is read off its file, where slashes stand between the packages.
-/

theorem leadsBelow_of_originOf {bytes : Bytes} {origin : Origin}
    (h : ClassFile.originOf bytes = .ok origin) : origin.1.LeadsBelow := by
  rcases bind_eq_ok.mp h with ⟨layout, _, hlayout⟩
  rcases bind_eq_ok.mp hlayout with ⟨name, hname, hsource⟩
  rcases bind_eq_ok.mp hsource with ⟨sourceFile, _, horigin⟩
  cases horigin
  unfold ClassFile.Layout.className at hname
  cases hinternal : layout.pool.className layout.thisClass with
  | error fault =>
      rw [hinternal] at hname
      cases hname
  | ok internal =>
      rw [hinternal] at hname
      cases hname
      exact ClassName.leadsBelow_ofInternal internal

theorem leadsBelow_of_readWritten {path : Path} {origin : Origin} {world left : σ}
    (h : runIn (readWritten host path) world = (.ok origin, left)) : origin.1.LeadsBelow := by
  unfold readWritten at h
  extract_lets read at h
  have hread {place : Path} {between : σ}
      (hplace : runIn (read place) between = (.ok origin, left)) : origin.1.LeadsBelow := by
    rcases ok_of_runIn_bind hplace with ⟨bytes, _, _, hbytes⟩
    cases hfound : ClassFile.originOf bytes with
    | error reason =>
        rw [hfound] at hbytes
        cases hbytes
    | ok found =>
        rw [hfound] at hbytes
        cases hbytes
        exact leadsBelow_of_originOf hfound
  by_cases habsolute : path.isAbsolute
  · rw [if_pos habsolute] at h
    exact hread h
  · rw [if_neg habsolute] at h
    rcases ok_of_runIn_bind h with ⟨directory, _, _, hplace⟩
    exact hread hplace

theorem leadsBelow_of_reads {paths : List Path} {origins : List Origin} {world left : σ}
    (h : runIn (paths.mapM (readWritten host)) world = (.ok origins, left)) :
    ∀ origin ∈ origins, origin.1.LeadsBelow := by
  induction paths generalizing origins world with
  | nil =>
      cases h
      exact nofun
  | cons path rest ih =>
      rw [List.mapM_cons] at h
      rcases ok_of_runIn_bind h with ⟨first, _, hfirst, hothers⟩
      rcases ok_of_runIn_bind hothers with ⟨others, _, hrest, hdone⟩
      cases hdone
      rw [List.forall_mem_cons]
      exact ⟨leadsBelow_of_readWritten hfirst, ih hrest⟩

theorem exists_keepsContract {world left : σ} {outcome : Outcome}
    (h : runIn (compile host program batch) world = (.ok outcome, left)) :
    ∃ origins : List Origin, KeepsContract batch origins outcome ∧
      ∀ origin ∈ origins, origin.1.LeadsBelow := by
  by_cases hsources : batch.sources = []
  · rw [runIn_compile_of_nil hsources] at h
    cases h
    exact ⟨[], keepsContract_nothing hsources, nofun⟩
  · rw [runIn_compile hsources] at h
    split at h
    · cases h
    · split at h
      · next hreads =>
          cases h
          exact ⟨_, keepsContract_outcomeOf hsources, leadsBelow_of_reads hreads⟩
      · cases h

/-- Whatever a compiler does, the files of all classes that it is taken to list lie below. -/
theorem leadsBelow_of_compile {world left : σ} {outcome : Outcome}
    (h : runIn (compile host program batch) world = (.ok outcome, left)) :
    ∀ name ∈ outcome.classes, name.LeadsBelow := by
  intro name hname
  rcases exists_keepsContract h with ⟨origins, hkeeps, hbelow⟩
  unfold Outcome.classes at hname
  rcases List.mem_flatMap.mp hname with ⟨⟨source, classes⟩, hentry, hclass⟩
  rw [Std.ExtTreeSet.mem_toList] at hclass
  have hproduced : name ∈ outcome.produced[source]?.getD ∅ := by
    rw [Std.ExtTreeMap.mem_toList_iff_getElem?_eq_some.mp hentry]
    exact hclass
  rcases (hkeeps.classes name source).mp hproduced with ⟨sourceFile, horigin, _⟩
  exact hbelow _ horigin

end Invocation
end Recompile
