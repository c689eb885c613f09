import Recompile.Proofs.Build.Blame
import Recompile.Proofs.Build.Calls
import Recompile.Proofs.Build.Mode

/-!
# What a report tells

The statuses in a report sum up the passes of the compiler by which the build
was finished. A source that is in two of them keeps the failures of both, the
earlier one's messages first. An attempt that was given up has called the
compiler too, but nothing that it came to is reported.
-/

namespace Recompile

/-!
# Messages
-/

def SourceStatus.messages : SourceStatus → List String
  | ok => []
  | failed messages => messages

theorem SourceStatus.messages_merge (earlier later : SourceStatus) :
    (earlier.merge later).messages = earlier.messages ++ later.messages := by
  cases earlier with
  | ok => cases later <;> rfl
  | failed messages =>
      cases later with
      | ok => exact (List.append_nil messages).symm
      | failed others => rfl

theorem Outcome.messages_status (outcome : Outcome) (source : String) :
    (outcome.status source).messages = outcome.diagnostics[source]?.getD [] := by
  unfold Outcome.status
  cases outcome.diagnostics[source]? with
  | some messages => rfl
  | none => cases outcome.isUnattributed <;> rfl

def messagesIn (statuses : Std.ExtTreeMap String SourceStatus) (source : String) : List String :=
  statuses[source]?.elim [] SourceStatus.messages

theorem messagesIn_of_some {statuses : Std.ExtTreeMap String SourceStatus} {source : String}
    {status : SourceStatus} (h : statuses[source]? = some status) :
    messagesIn statuses source = status.messages := by
  unfold messagesIn
  rw [h]
  rfl

theorem messagesIn_of_none {statuses : Std.ExtTreeMap String SourceStatus} {source : String}
    (h : statuses[source]? = none) : messagesIn statuses source = [] := by
  unfold messagesIn
  rw [h]
  rfl

theorem getElem?_eq_failed_iff {statuses : Std.ExtTreeMap String SourceStatus} {source : String}
    {messages : List String} :
    statuses[source]? = some (SourceStatus.failed messages) ↔
      MarksFailed statuses source ∧ messages = messagesIn statuses source := by
  constructor
  · intro h
    exact ⟨⟨messages, h⟩, (messagesIn_of_some h).symm⟩
  · rintro ⟨⟨others, h⟩, hmessages⟩
    rw [messagesIn_of_some h] at hmessages
    rw [h, hmessages]
    rfl

namespace Build

section Merging

variable {source : String} {known earlier later : Std.ExtTreeMap String SourceStatus}

theorem messagesIn_mergeStatus (known : Std.ExtTreeMap String SourceStatus)
    (entry : String × SourceStatus) (source : String) :
    messagesIn (mergeStatus known entry) source =
      messagesIn known source ++ if entry.1 = source then entry.2.messages else [] := by
  unfold messagesIn mergeStatus
  rw [Std.ExtTreeMap.getElem?_insert]
  by_cases hsame : entry.1 = source
  · rw [if_pos (Std.LawfulEqCmp.compare_eq_iff_eq.mpr hsame), if_pos hsame, hsame]
    cases known[source]? with
    | none => rfl
    | some previous => exact previous.messages_merge entry.2
  · rw [if_neg (mt Std.LawfulEqCmp.compare_eq_iff_eq.mp hsame), if_neg hsame, List.append_nil]

theorem messagesIn_foldl_mergeStatus_of_not_mem {entries : List (String × SourceStatus)}
    (hnone : source ∉ entries.map Prod.fst) :
    messagesIn (entries.foldl mergeStatus known) source = messagesIn known source := by
  induction entries generalizing known with
  | nil => rfl
  | cons entry rest ih =>
      rw [List.map_cons, List.mem_cons, not_or] at hnone
      rw [List.foldl_cons, ih hnone.2, messagesIn_mergeStatus, if_neg (Ne.symm hnone.1),
        List.append_nil]

theorem messagesIn_foldl_mergeStatus_of_mem {entries : List (String × SourceStatus)}
    (hdistinct : (entries.map Prod.fst).Nodup) {status : SourceStatus}
    (hentry : (source, status) ∈ entries) :
    messagesIn (entries.foldl mergeStatus known) source =
      messagesIn known source ++ status.messages := by
  induction entries generalizing known with
  | nil => cases hentry
  | cons entry rest ih =>
      rw [List.map_cons, List.nodup_cons] at hdistinct
      rw [List.foldl_cons]
      rcases List.mem_cons.mp hentry with rfl | hrest
      · rw [messagesIn_foldl_mergeStatus_of_not_mem hdistinct.1, messagesIn_mergeStatus,
          if_pos rfl]
      · have hother : entry.1 ≠ source := by
          intro hsame
          rw [hsame] at hdistinct
          exact hdistinct.1 (List.mem_map_of_mem hrest)
        rw [ih hdistinct.2 hrest, messagesIn_mergeStatus, if_neg hother, List.append_nil]

theorem messagesIn_mergeStatuses :
    messagesIn (mergeStatuses earlier later) source =
      messagesIn earlier source ++ messagesIn later source := by
  have hfold : mergeStatuses earlier later = later.toList.foldl mergeStatus earlier := rfl
  have hkeys : later.toList.map Prod.fst = later.keys := Std.ExtTreeMap.map_fst_toList_eq_keys
  rw [hfold]
  cases hlater : later[source]? with
  | none =>
      rw [messagesIn_of_none hlater, List.append_nil]
      apply messagesIn_foldl_mergeStatus_of_not_mem
      rw [hkeys, Std.ExtTreeMap.mem_keys, Std.ExtTreeMap.mem_iff_isSome_getElem?, hlater]
      exact Bool.false_ne_true
  | some status =>
      rw [messagesIn_of_some hlater]
      apply messagesIn_foldl_mergeStatus_of_mem
      · rw [hkeys]
        exact Std.ExtTreeMap.nodup_keys
      · exact Std.ExtTreeMap.mem_toList_iff_getElem?_eq_some.mpr hlater

end Merging

/-!
# Sums of passes
-/

/-- Whether a pass drew messages for one of its sources, or failed and blames no source. -/
def Pass.fails (pass : Pass) (source : String) : Bool :=
  pass.sources.contains source &&
    (pass.outcome.diagnostics.contains source || pass.outcome.isUnattributed)

def Pass.messages (pass : Pass) (source : String) : List String :=
  pass.outcome.diagnostics[source]?.getD []

theorem Pass.fails_iff {pass : Pass} {source : String} :
    pass.fails source = true ↔ MarksFailed (pass.outcome.statuses pass.sources) source := by
  rw [marksFailed_statuses_iff]
  simp [Pass.fails, Std.ExtTreeMap.contains_iff_mem]

theorem Pass.messagesIn_statuses (pass : Pass) (source : String) :
    messagesIn (pass.outcome.statuses pass.sources) source =
      if pass.fails source then pass.messages source else [] := by
  have hmessages : messagesIn (pass.outcome.statuses pass.sources) source =
      if source ∈ pass.sources then pass.messages source else [] := by
    unfold messagesIn Outcome.statuses
    rw [getElem?_foldl_insert]
    by_cases hsource : source ∈ pass.sources
    · rw [if_pos hsource, if_pos hsource]
      exact pass.outcome.messages_status source
    · rw [if_neg hsource, if_neg hsource, Std.ExtTreeMap.getElem?_empty]
      rfl
  rw [hmessages]
  by_cases hfails : pass.fails source = true
  · rw [if_pos hfails, if_pos (marksFailed_statuses_iff.mp (Pass.fails_iff.mp hfails)).1]
  · rw [if_neg hfails, ite_eq_right_iff]
    intro hsource
    rw [Pass.fails_iff, marksFailed_statuses_iff] at hfails
    have hnone : source ∉ pass.outcome.diagnostics := fun h => hfails ⟨hsource, Or.inl h⟩
    unfold Pass.messages
    rw [Std.ExtTreeMap.getElem?_eq_none hnone]
    rfl

/-- Whether statuses and success are what some passes come to, one after the other. -/
structure Sums (made : List Pass) (statuses : Std.ExtTreeMap String SourceStatus)
    (success : Bool) : Prop where
  mem_iff : ∀ source, source ∈ statuses ↔ ∃ pass ∈ made, source ∈ pass.sources
  marksFailed_iff : ∀ source,
    MarksFailed statuses source ↔ ∃ pass ∈ made, pass.fails source = true
  messages_eq : ∀ source,
    messagesIn statuses source = (made.filter (·.fails source)).flatMap (·.messages source)
  success_iff : success = true ↔ ∀ pass ∈ made, pass.outcome.success = true

namespace Sums

theorem nil : Sums [] ∅ true where
  mem_iff source := by simp
  marksFailed_iff source := by simp [MarksFailed]
  messages_eq source := by simp [messagesIn]
  success_iff := by simp

theorem singleton (pass : Pass) :
    Sums [pass] (pass.outcome.statuses pass.sources) pass.outcome.success where
  mem_iff source := by simp [mem_statuses]
  marksFailed_iff source := by simp [Pass.fails_iff]
  messages_eq source := by
    rw [pass.messagesIn_statuses]
    by_cases hfails : pass.fails source = true <;> simp [hfails]
  success_iff := by simp

theorem append {first second : List Pass} {earlier later : Std.ExtTreeMap String SourceStatus}
    {good better : Bool} (hfirst : Sums first earlier good) (hsecond : Sums second later better) :
    Sums (first ++ second) (mergeStatuses earlier later) (good && better) where
  mem_iff source := by
    rw [mem_mergeStatuses, hfirst.mem_iff, hsecond.mem_iff]
    simp only [List.mem_append, or_and_right, exists_or]
  marksFailed_iff source := by
    rw [marksFailed_mergeStatuses_iff, hfirst.marksFailed_iff, hsecond.marksFailed_iff]
    simp only [List.mem_append, or_and_right, exists_or]
  messages_eq source := by
    rw [messagesIn_mergeStatuses, hfirst.messages_eq, hsecond.messages_eq, List.filter_append,
      List.flatMap_append]
  success_iff := by
    rw [Bool.and_eq_true_iff, hfirst.success_iff, hsecond.success_iff, List.forall_mem_append]

theorem of_asks {σ : Type} {services : Services (StateM σ)} {project : Project}
    {log : CallLog services project.destination} {sources : List String} {outcome : Outcome}
    {world world' : σ}
    (h : log.Asks sources outcome world world') :
    Sums (passes sources outcome) (outcome.statuses sources) outcome.success := by
  unfold passes
  by_cases hnone : sources = []
  · rw [if_pos hnone, h.idle hnone, hnone]
    exact nil
  · rw [if_neg hnone]
    exact singleton ⟨sources, outcome⟩

end Sums

/-!
# The attempt that finishes a build
-/

variable {σ : Type} {services : Services (StateM σ)} {project : Project} {start : σ}

theorem exists_passes_of_finishes (log : CallLog services project.destination)
    {changes : SourceChanges} {register : Ownership} {progress progress' : Progress}
    {world world' : σ} {draft : Draft}
    {stages : Completion services project changes register progress world}
    (hfinishes : stages.Finishes draft progress' world') :
    ∃ made : List Pass,
      log.calls world' = log.calls world ++ made.map (Pass.call project) ∧
      made.map Pass.sources =
        [changes.stale, stages.dependants.toList].filter (· ≠ []) ∧
      Sums made draft.statuses draft.success := by
  have hfirst := log.asks_of_stages stages
  rcases hfinishes.cases with ⟨hnone, _, hstatuses, hleft⟩ | ⟨_, ⟨second⟩⟩
  · have hempty : stages.dependants.toList = [] := by
      rw [Std.ExtTreeSet.isEmpty_iff.mp hnone]
      rfl
    refine ⟨passes changes.stale stages.outcome, ?_, ?_, ?_⟩
    · rw [hleft]
      exact hfirst.calls_eq
    · rw [map_sources_passes, hempty]
      rfl
    · rw [hstatuses, hfinishes.success_eq_of_none hnone]
      exact .of_asks hfirst
  · have hsecond := log.asks_of_second second
    refine ⟨passes changes.stale stages.outcome ++
      passes stages.dependants.toList second.outcome, ?_, ?_, ?_⟩
    · rw [hsecond.calls_eq, hfirst.calls_eq, List.append_assoc, List.map_append]
    · rw [List.map_append, map_sources_passes, map_sources_passes, ← List.filter_append]
      rfl
    · rw [second.statuses_eq, second.success_eq]
      exact (Sums.of_asks hfirst).append (.of_asks hsecond)

/-- The batches by which a build in some mode is finished; empty ones are not compiled. -/
def batches (seen : Observation) (mode : Mode) (dependants : SourceSet) : List (List String) :=
  match mode with
  | .noOp => []
  | .cold => [seen.fingerprints.keys]
  | .incremental => [seen.changes.stale, dependants.toList]

structure Explains {destination : Path} (log : CallLog services destination) (project : Project)
    (seen : Observation) (world world' : σ) (report : Report) (abandoned finishing : List Pass) :
    Prop where
  calls_eq : log.calls world' =
    log.calls world ++ (abandoned ++ finishing).map (Pass.call project)
  changes_eq : report.changes = seen.changes
  given_up : abandoned = [] ∨
    report.mode = .cold ∧ abandoned.map Pass.sources = [seen.changes.stale].filter (· ≠ [])
  batches_eq : finishing.map Pass.sources =
    (batches seen report.mode report.dependants).filter (· ≠ [])
  sums : Sums finishing report.statuses report.success
  dependants_eq : report.mode ≠ .incremental → report.dependants = ∅

structure Repeats (report : Report) (draft : Draft) : Prop where
  mode_eq : report.mode = draft.mode
  statuses_eq : report.statuses = draft.statuses
  dependants_eq : report.dependants = draft.dependants
  success_eq : report.success = draft.success

namespace Course

theorem repeats_of_report (course : Course services project start) {report : Report}
    (hreport : (runIn (run services project) start).1 = .ok report) :
    ∃ draft, course.result = .ok draft ∧ Repeats report draft ∧
      report.changes = course.changes := by
  rcases course.of_report hreport with ⟨draft, hresult, hsettled, _⟩
  rw [course.runIn_run] at hreport
  unfold concluded conclude at hreport
  rw [hresult, runIn_bind, hsettled] at hreport
  cases hreport
  exact ⟨draft, hresult, ⟨rfl, rfl, rfl, rfl⟩, rfl⟩

theorem changes_eq (course : Course services project start)
    (look : FirstLook services project start) : course.changes = look.observation.changes := by
  have hlooked := course.looked.symm.trans look.runIn_lookForChanges
  exact congrArg Prod.fst (Except.ok.inj (congrArg Prod.fst hlooked))

theorem observation_of_full (course : Course services project start)
    (look : FirstLook services project start) {abandoned : List (Round σ)} {progress : Progress}
    {world : σ} (hfull : course.full? = some (abandoned, progress, world)) :
    progress.survey.observation = some look.observation := by
  have hturned := ((serves_trivially services project.destination).turned course trivial hfull).1
  rw [hturned, course.survey_eq look]
  rfl

variable {course : Course services project start} {look : FirstLook services project start}
  {report : Report} {draft : Draft} {abandoned : List (Round σ)} {progress : Progress}
  {world loaded : σ} {register : Ownership}

theorem explains_of_attempt (log : CallLog services project.destination)
    (hrepeats : Repeats report draft)
    (hchanges : report.changes = look.observation.changes)
    (hload : runIn services.ownership.load course.begun = (.ok (some register), loaded))
    {stages : Completion services project course.changes register course.first loaded}
    (hfinishes : stages.Finishes draft progress world) :
    ∃ finishing, Explains log project look.observation start world report [] finishing := by
  rcases exists_passes_of_finishes log hfinishes with ⟨made, hcalls, hsources, hsums⟩
  have hmode := hrepeats.mode_eq.trans hfinishes.mode_eq
  have hdependants := hrepeats.dependants_eq.trans hfinishes.dependants_eq
  rw [← hrepeats.statuses_eq, ← hrepeats.success_eq] at hsums
  refine ⟨made, ?_, hchanges, Or.inl rfl, ?_, hsums, fun hother => absurd hmode hother⟩
  · rw [hcalls, log.calls_loadOwnership hload, log.calls_lookForChanges course.looked]
    rfl
  · rw [hmode, hdependants, hsources, batches, ← course.changes_eq look]

theorem calls_of_full (log : CallLog services project.destination)
    (look : FirstLook services project start)
    (hfull : course.full? = some (abandoned, progress, world)) :
    ∃ given : List Pass, log.calls world = log.calls start ++ given.map (Pass.call project) ∧
      (given = [] ∨
        given.map Pass.sources = [look.observation.changes.stale].filter (· ≠ [])) := by
  have hbegun := log.calls_lookForChanges course.looked
  rcases course.of_full hfull with ⟨hload, _⟩ | ⟨register, loaded, hload, hattempt, _⟩
  · refine ⟨[], ?_, Or.inl rfl⟩
    rw [log.calls_loadOwnership hload, hbegun]
    exact (List.append_nil _).symm
  · rcases log.asks_of_abandoned hattempt with ⟨outcome, hasks⟩
    have hsources := map_sources_passes course.changes.stale outcome
    rw [course.changes_eq look] at hasks hsources
    refine ⟨_, ?_, Or.inr hsources⟩
    rw [hasks.calls_eq, log.calls_loadOwnership hload, hbegun]

theorem explains_of_full (log : CallLog services project.destination)
    (hrepeats : Repeats report draft)
    (hchanges : report.changes = look.observation.changes)
    (hfull : course.full? = some (abandoned, progress, world))
    {progress' : Progress} {world' : σ}
    (hall : (compileAll services project).runFrom progress world = (.ok draft, progress', world')) :
    ∃ given finishing,
      Explains log project look.observation start world' report given finishing := by
  have hmode := hrepeats.mode_eq.trans (mode_of_compileAll hall)
  rcases calls_of_full log look hfull with ⟨given, hgiven, hsources⟩
  rcases log.asks_of_compileAll (course.observation_of_full look hfull) hall with
    ⟨outcome, hasks, hstatuses, hsuccess, hnone⟩
  have hsums := Sums.of_asks hasks
  rw [← hstatuses, ← hsuccess, ← hrepeats.statuses_eq, ← hrepeats.success_eq] at hsums
  refine ⟨given, _, ?_, hchanges, hsources.imp_right fun h => ⟨hmode, h⟩, ?_, hsums,
    fun _ => hrepeats.dependants_eq.trans hnone⟩
  · rw [hasks.calls_eq, hgiven, List.append_assoc, List.map_append]
  · rw [map_sources_passes, hmode]
    rfl

theorem exists_explains (log : CallLog services project.destination)
    (course : Course services project start) (look : FirstLook services project start)
    (hreport : (runIn (run services project) start).1 = .ok report) :
    ∃ abandoned finishing, Explains log project look.observation start
      (runIn (run services project) start).2 report abandoned finishing := by
  rcases course.repeats_of_report hreport with ⟨draft, hresult, hrepeats, hchanges⟩
  rw [course.changes_eq look] at hchanges
  have hended := log.calls_run_of_report course hreport
  have hleft : ∀ {abandoned finishing}, Explains log project look.observation start course.ended
      report abandoned finishing → Explains log project look.observation start
        (runIn (run services project) start).2 report abandoned finishing :=
    fun h => { h with calls_eq := hended.trans h.calls_eq }
  rcases course.of_result hresult with ⟨_, _, hload, _, hattempt⟩ | ⟨_, _, _, hfull, hall⟩
  · rcases Completion.exists_of_runFrom hattempt with ⟨_, hfinishes⟩
    rcases explains_of_attempt log hrepeats hchanges hload hfinishes with ⟨finishing, h⟩
    exact ⟨[], finishing, hleft h⟩
  · rcases explains_of_full log hrepeats hchanges hfull hall with ⟨given, finishing, h⟩
    exact ⟨given, finishing, hleft h⟩

end Course

theorem exists_explains_of_report (log : CallLog services project.destination) {report : Report}
    (hreport : (runIn (run services project) start).1 = .ok report) :
    ∃ look : FirstLook services project start, ∃ abandoned finishing,
      Explains log project look.observation start (runIn (run services project) start).2 report
        abandoned finishing := by
  rcases run_cases services project start with
    ⟨error, left, _, hrun⟩ | ⟨look, hunchanged⟩ | ⟨⟨course⟩⟩
  · rw [hrun] at hreport
    cases hreport
  · have hcalls := log.calls_run_of_unchanged look hunchanged
    rw [look.runIn_run_of_unchanged hunchanged] at hreport
    cases hreport
    refine ⟨look, [], [], ?_, rfl, Or.inl rfl, rfl, .nil, fun _ => rfl⟩
    rw [hcalls]
    exact (List.append_nil _).symm
  · rcases course.exists_look with ⟨look, _⟩
    exact ⟨look, course.exists_explains log look hreport⟩

def Required (seen : Observation) (report : Report) (source : String) : Prop :=
  match report.mode with
  | .noOp => False
  | .cold => source ∈ seen.fingerprints
  | .incremental =>
    source ∈ seen.changes.added ∨ source ∈ seen.changes.changed ∨ source ∈ report.dependants

theorem exists_mem_batches_iff {seen : Observation} {report : Report} {source : String} :
    (∃ batch ∈ batches seen report.mode report.dependants, source ∈ batch) ↔
      Required seen report source := by
  unfold batches Required SourceChanges.stale
  cases report.mode with
  | noOp => simp
  | cold => simp
  | incremental => simp [or_assoc]

theorem Explains.mem_statuses_iff {log : CallLog services project.destination}
    {seen : Observation} {world world' : σ} {report : Report} {abandoned finishing : List Pass}
    (h : Explains log project seen world world' report abandoned finishing) (source : String) :
    source ∈ report.statuses ↔ Required seen report source := by
  rw [h.sums.mem_iff, ← exists_mem_batches_iff]
  have hmap : (∃ pass ∈ finishing, source ∈ pass.sources) ↔
      ∃ batch ∈ finishing.map Pass.sources, source ∈ batch := by
    simp
  rw [hmap, h.batches_eq]
  constructor
  · rintro ⟨batch, hbatch, hsource⟩
    exact ⟨batch, (List.mem_filter.mp hbatch).1, hsource⟩
  · rintro ⟨batch, hbatch, hsource⟩
    refine ⟨batch, List.mem_filter.mpr ⟨hbatch, decide_eq_true ?_⟩, hsource⟩
    exact List.ne_nil_of_mem hsource

/--
A report tells of the passes of the attempt that finished the build: its
sources are all that were seen, those that changed and the dependants, or none.
A source has failed if one of these passes drew messages for it, or failed and
blames no source, and it is told the messages of those passes in their order.
The passes of an attempt that was given up are in the log, and nowhere else.
-/
theorem report_tells_of_finishing_passes (log : CallLog services project.destination)
    {report : Report} (hreport : (runIn (run services project) start).1 = .ok report) :
    ∃ look : FirstLook services project start, ∃ abandoned finishing : List Pass,
      log.calls (runIn (run services project) start).2 =
        log.calls start ++ (abandoned ++ finishing).map (Pass.call project) ∧
      report.changes = look.observation.changes ∧
      (abandoned = [] ∨ report.mode = .cold ∧
        abandoned.map Pass.sources = [look.observation.changes.stale].filter (· ≠ [])) ∧
      finishing.map Pass.sources =
        (batches look.observation report.mode report.dependants).filter (· ≠ []) ∧
      (∀ source, source ∈ report.statuses ↔ Required look.observation report source) ∧
      (∀ source messages, report.statuses[source]? = some (.failed messages) ↔
        (∃ pass ∈ finishing, pass.fails source = true) ∧
          messages = (finishing.filter (·.fails source)).flatMap (·.messages source)) ∧
      (report.success = true ↔ ∀ pass ∈ finishing, pass.outcome.success = true) ∧
      (report.mode ≠ .incremental → report.dependants = ∅) := by
  rcases exists_explains_of_report log hreport with ⟨look, abandoned, finishing, h⟩
  refine ⟨look, abandoned, finishing, h.calls_eq, h.changes_eq, h.given_up, h.batches_eq,
    h.mem_statuses_iff, ?_, h.sums.success_iff, h.dependants_eq⟩
  intro source messages
  rw [getElem?_eq_failed_iff, h.sums.marksFailed_iff, h.sums.messages_eq]

/-!
# A failure that is not reported

The first pass fails, and the attempt is given up because of a source that is
gone. The second pass goes well.
-/

end Build

namespace Shelf

/-- A compiler that refuses its source as long as the shelf is empty. -/
def reluctantCompile (batch : Batch) : ExceptT Failure (StateM Shelf) Outcome := do
  let shelf ← get
  modify (put (classFileIn batch.destination ⟨"Y"⟩) (classBytes 0x21 89))
  return if shelf.files.isEmpty then ⟨false, ∅, Std.ExtTreeMap.insert ∅ "A.java" ["refused"]⟩
    else ⟨true, ∅, ∅⟩

def reluctantServices : Services (StateM Shelf) :=
  { services ["A.java"] [] true with compile := reluctantCompile }

def orphanShelf : Shelf :=
  { Build.constantShelf with fingerprints := some (current ["B.java"]) }

end Shelf

namespace Build

theorem length_le_one_of_sources {made : List Pass} {batch : List String}
    (h : made.map Pass.sources = [batch].filter (· ≠ [])) : made.length ≤ 1 := by
  rw [← List.length_map Pass.sources, h]
  exact List.length_filter_le _ _

theorem report_tells_of_second_pass :
    let services := logged Shelf.reluctantServices
    let project := Shelf.project Shelf.out
    let ended := runIn (run services project) (Shelf.orphanShelf, [])
    ∃ report, ended.1 = .ok report ∧ report.mode = .cold ∧ report.success = true ∧
      ∃ first second : Pass, ended.2.2 = [first.call project, second.call project] ∧
        first.fails "A.java" = true ∧ first.outcome.success = false ∧
        second.outcome.success = true ∧
        ∀ source messages, report.statuses[source]? = some (.failed messages) ↔
          second.fails source = true ∧ messages = second.messages source := by
  intro services project ended
  have hended : (ended.1.toOption.map fun report => (report.mode, report.success)) =
      some (.cold, true) := by
    decide +kernel
  have hcalls : ended.2.2.map (fun call => (call.batch.sources, call.answer.toOption.map
      fun outcome => (outcome.success, outcome.diagnostics.contains "A.java"))) =
        [(["A.java"], some (false, true)), (["A.java"], some (true, false))] := by
    decide +kernel
  rcases Option.map_eq_some_iff.mp hended with ⟨report, hreport, hshape⟩
  rcases Prod.mk.inj hshape with ⟨hmode, hsuccess⟩
  refine ⟨report, eq_ok_of_toOption hreport, hmode, hsuccess, ?_⟩
  rcases report_tells_of_finishing_passes (loggedCalls Shelf.reluctantServices project.destination)
    (eq_ok_of_toOption hreport) with
    ⟨look, abandoned, finishing, hlogged, _, hgiven, hbatches, _, hfailed, _, _⟩
  have hall : ended.2.2 = (abandoned ++ finishing).map (Pass.call project) := hlogged
  rw [hmode] at hbatches
  have hsecond : finishing.length ≤ 1 := length_le_one_of_sources hbatches
  have hfirst : abandoned.length ≤ 1 := by
    rcases hgiven with hnone | ⟨_, hstale⟩
    · rw [hnone]
      exact Nat.zero_le 1
    · exact length_le_one_of_sources hstale
  have htwo : abandoned.length + finishing.length = 2 := by
    have hlength := congrArg List.length hcalls
    rw [hall, List.length_map, List.length_map, List.length_append] at hlength
    exact hlength
  rcases List.length_eq_one_iff.mp (by omega : abandoned.length = 1) with ⟨first, rfl⟩
  rcases List.length_eq_one_iff.mp (by omega : finishing.length = 1) with ⟨second, rfl⟩
  rw [hall] at hcalls
  simp only [List.singleton_append, List.map_cons, List.map_nil, Pass.call, Except.toOption,
    Option.map_some, List.cons.injEq, Prod.mk.injEq, Option.some.injEq, and_true] at hcalls
  rcases hcalls with ⟨⟨hsources, hbad, hblamed⟩, _, hgood, _⟩
  refine ⟨first, second, hall, ?_, hbad, hgood, ?_⟩
  · have hasked : first.sources = ["A.java"] := hsources
    unfold Pass.fails
    rw [hasked, hblamed]
    rfl
  · intro source messages
    rw [hfailed]
    by_cases hfails : second.fails source = true
    · simp [hfails]
    · simp [hfails]

end Build
end Recompile
