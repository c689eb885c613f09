import Recompile.Proofs.Build.Completion
import Recompile.Proofs.Build.Contract
import Recompile.Proofs.Build.Stores

/-!
# What a compiler is asked

A log of calls tells which batches a compiler was given, one after the other,
and what it answered. Two stages of an attempt and one of a full build call it,
each at most once, and nothing else in a build adds to the log.
-/

namespace Recompile

def Services.withoutCompiler {m : Type → Type} [Monad m] (services : Services m) : Services m :=
  { services with compile := fun _ => pure .nothing }

namespace Build

variable {σ : Type}

structure Call where
  batch : Batch
  answer : Except Failure Outcome

/-- An account of all calls of a compiler, in order. -/
structure CallLog (services : Services (StateM σ)) (destination : Path) where
  calls : σ → List Call
  serves : ∀ was, Serves services.withoutCompiler destination (fun world => calls world = was)
    fun _ => True
  saveFingerprints : ∀ saved world,
    calls (runIn (services.fingerprints.save saved) world).2 = calls world
  saveOwnership : ∀ register world,
    calls (runIn (services.ownership.save register) world).2 = calls world
  compile : ∀ batch world,
    calls (runIn (services.compile batch) world).2 =
      calls world ++ [⟨batch, (runIn (services.compile batch) world).1⟩]

/-!
# Services that keep a log

Any services can be made to keep one.
-/

section Logged

def unlogged {α : Type} (operation : StateM σ α) : StateM (σ × List Call) α :=
  fun state =>
    let found := operation.run state.1
    (found.1, found.2, state.2)

def unloggedHost (host : Host (StateM σ)) : Host (StateM (σ × List Call)) where
  kindOf path := unlogged (host.kindOf path)
  realPath path := unlogged (host.realPath path)
  readFile path := unlogged (host.readFile path)
  modified path := unlogged (host.modified path)
  filesBelow path := unlogged (host.filesBelow path)
  makeDirectories path := unlogged (host.makeDirectories path)
  writeFile path bytes := unlogged (host.writeFile path bytes)
  removeFile path := unlogged (host.removeFile path)
  openFile path := unlogged (host.openFile path)
  readOpen file := unlogged (host.readOpen file)
  writeOpen file pieces := unlogged (host.writeOpen file pieces)
  workingDirectory := unlogged host.workingDirectory
  launch program arguments := unlogged (host.launch program arguments)
  milliseconds := unlogged host.milliseconds

def unloggedCell {α : Type} (cell : Cell (StateM σ) α) : Cell (StateM (σ × List Call)) α :=
  ⟨ExceptT.mk (unlogged cell.load.run), fun saved => ExceptT.mk (unlogged (cell.save saved).run)⟩

def logged (services : Services (StateM σ)) : Services (StateM (σ × List Call)) where
  host := unloggedHost services.host
  compile batch := ExceptT.mk fun state =>
    let found := runIn (services.compile batch) state.1
    (found.1, found.2, state.2 ++ [⟨batch, found.1⟩])
  method := services.method
  fingerprints := unloggedCell services.fingerprints
  ownership := unloggedCell services.ownership

def loggedCalls (services : Services (StateM σ)) (destination : Path) :
    CallLog (logged services) destination where
  calls := Prod.snd
  serves _ := {
    kindOf := fun _ _ h => h
    filesBelow := fun _ _ h => h
    readFile := fun _ _ h => h
    modified := fun _ _ h => h
    disk := fun _ _ => trivial
    malformedClass := fun _ _ => trivial
    milliseconds := fun _ h => h
    makeDirectories := fun _ _ _ _ h => h
    writeFile := fun _ _ _ h => h
    removeFile := fun _ _ h => h
    compile := fun _ => maintains_pure _
    loadFingerprints := fun _ h => ⟨h, fun _ _ => trivial⟩
    loadOwnership := fun _ h => ⟨h, fun _ _ => trivial⟩ }
  saveFingerprints _ _ := rfl
  saveOwnership _ _ := rfl
  compile _ _ := rfl

end Logged

/-!
# Steps without a compiler
-/

section Without

variable {services : Services (StateM σ)} {project : Project}

theorem removeSources_withoutCompiler (sources : List String) (ledger : Ledger) :
    removeSources services.withoutCompiler project ledger sources =
      removeSources services project ledger sources := by
  induction sources generalizing ledger with
  | nil => rfl
  | cons source rest ih =>
      rw [removeSources_cons, removeSources_cons]
      simp only [ih]
      rfl

theorem registerProduced_withoutCompiler (entries : List (String × ClassSet)) (ledger : Ledger) :
    registerProduced services.withoutCompiler project ledger entries =
      registerProduced services project ledger entries := by
  induction entries generalizing ledger with
  | nil => rfl
  | cons entry rest ih =>
      rw [registerProduced_cons, registerProduced_cons]
      simp only [ih]
      rfl

theorem openLedger_withoutCompiler (changes : SourceChanges) (register : Ownership) :
    openLedger services.withoutCompiler project changes register =
      openLedger services project changes register := by
  unfold openLedger
  simp only [removeSources_withoutCompiler]
  rfl

theorem reviewProduced_withoutCompiler (ledger : Ledger) (outcome : Outcome) :
    reviewProduced services.withoutCompiler project ledger outcome =
      reviewProduced services project ledger outcome := by
  unfold reviewProduced
  simp only [registerProduced_withoutCompiler]
  rfl

end Without

theorem serves_trivially (services : Services (StateM σ)) (destination : Path) :
    Serves services destination (fun _ => True) fun _ => True where
  kindOf _ _ _ := trivial
  filesBelow _ _ _ := trivial
  readFile _ _ _ := trivial
  modified _ _ _ := trivial
  disk _ _ := trivial
  malformedClass _ _ := trivial
  milliseconds _ _ := trivial
  makeDirectories _ _ _ _ _ := trivial
  writeFile _ _ _ _ := trivial
  removeFile _ _ _ := trivial
  compile _ _ _ := ⟨trivial, fun _ _ => trivial⟩
  loadFingerprints _ _ := ⟨trivial, fun _ _ => trivial⟩
  loadOwnership _ _ := ⟨trivial, fun _ _ => trivial⟩

/-!
# Passes

Sources that are to be compiled are one pass of the compiler, or none if there
are no sources.
-/

structure Pass where
  sources : List String
  outcome : Outcome

def Pass.call (project : Project) (pass : Pass) : Call :=
  ⟨project.batch pass.sources, .ok pass.outcome⟩

def passes (sources : List String) (outcome : Outcome) : List Pass :=
  if sources = [] then [] else [⟨sources, outcome⟩]

theorem map_sources_passes (sources : List String) (outcome : Outcome) :
    (passes sources outcome).map Pass.sources = [sources].filter (· ≠ []) := by
  unfold passes
  by_cases hnone : sources = []
  · simp [hnone]
  · simp [hnone]

namespace CallLog

variable {services : Services (StateM σ)} {project : Project}
  {log : CallLog services project.destination}
  {α : Type} {progress progress' : Progress} {world between left world' : σ}
  {sources : List String} {outcome : Outcome}

theorem calls_of_works {step : Step (StateM σ) α} {result : Except Failure α}
    (h : ∀ {survey was}, Works services.withoutCompiler project ⟨∅⟩ (fun _ => True)
        (fun progress world => progress.survey = survey ∧ log.calls world = was)
        (fun _ => True) →
      step.Maintains (fun progress world => progress.survey = survey ∧ log.calls world = was)
        fun _ => True)
    (hrun : step.runFrom progress world = (result, progress', world')) :
    log.calls world' = log.calls world :=
  ((h ((log.serves _).works progress.survey ⟨∅⟩)).of_runFrom ⟨rfl, rfl⟩ hrun).1.2

theorem calls_openLedger {changes : SourceChanges} {register : Ownership}
    {result : Except Failure (Snapshot × Ledger)}
    (hrun : (openLedger services project changes register).runFrom progress world =
      (result, progress', world')) : log.calls world' = log.calls world := by
  rw [← openLedger_withoutCompiler] at hrun
  exact calls_of_works (fun hworks => hworks.openLedger changes register.holdsOnly_true) hrun

theorem calls_registerProduced {ledger : Ledger} {entries : List (String × ClassSet)}
    {result : Except Failure Ledger}
    (hrun : (registerProduced services project ledger entries).runFrom progress world =
      (result, progress', world')) : log.calls world' = log.calls world := by
  rw [← registerProduced_withoutCompiler] at hrun
  refine calls_of_works (fun hworks => ?_) hrun
  exact hworks.registerProduced ledger.ownership.holdsOnly_true fun _ _ _ _ => trivial

theorem calls_reviewProduced {ledger : Ledger} {result : Except Failure (Ledger × Snapshot)}
    (hrun : (reviewProduced services project ledger outcome).runFrom progress world =
      (result, progress', world')) : log.calls world' = log.calls world := by
  rw [← reviewProduced_withoutCompiler] at hrun
  refine calls_of_works (fun hworks => ?_) hrun
  exact hworks.reviewProduced ledger.ownership.holdsOnly_true fun _ _ _ _ => trivial

theorem calls_backUpOwned {register : Ownership} {result : Except Failure PUnit}
    (hrun : (backUpOwned services project register sources).runFrom progress world =
      (result, progress', world')) : log.calls world' = log.calls world :=
  calls_of_works (fun hworks => hworks.backUpOwned register.holdsOnly_true sources) hrun

/-!
# Stages that compile
-/

/-- Whether the log tells of one pass over some sources more, and of nothing else. -/
structure Asks (log : CallLog services project.destination) (sources : List String)
    (outcome : Outcome) (world world' : σ) : Prop where
  calls_eq : log.calls world' =
    log.calls world ++ (passes sources outcome).map (Pass.call project)
  idle : sources = [] → outcome = .nothing

theorem Asks.of_calls_eq (h : log.Asks sources outcome world world')
    (hbefore : log.calls world = log.calls between) (hafter : log.calls left = log.calls world') :
    log.Asks sources outcome between left := by
  refine ⟨?_, h.idle⟩
  rw [hafter, h.calls_eq, hbefore]

theorem asks_of_compile
    (hrun : (Build.compile services project sources).runFrom progress world =
      (.ok outcome, progress', world')) : log.Asks sources outcome world world' := by
  rcases (called_of_compile hrun).2 with ⟨hnone, hnothing, rfl⟩ | ⟨hsome, hcall⟩
  · cases hnothing
    rw [hnone]
    exact ⟨(List.append_nil _).symm, fun _ => rfl⟩
  · have hlogged := log.compile (project.batch sources) world
    rw [hcall] at hlogged
    refine ⟨?_, fun hnone => absurd hnone hsome⟩
    rw [hlogged, passes, if_neg hsome]
    rfl

theorem asks_of_compileBatch {before : Snapshot} {register : Ownership}
    (hrun : (compileBatch services project before register sources).runFrom progress world =
      (.ok outcome, progress', world')) : log.Asks sources outcome world world' := by
  rcases parts_of_compileBatch hrun with ⟨_, _, _, hbacked, hcompiled⟩
  exact (asks_of_compile hcompiled).of_calls_eq (calls_backUpOwned hbacked) rfl

theorem asks_of_compileAll (log : CallLog services project.destination)
    {observation : Observation} {draft : Draft}
    (hseen : progress.survey.observation = some observation)
    (hrun : (compileAll services project).runFrom progress world =
      (.ok draft, progress', world')) :
    ∃ outcome, log.Asks observation.fingerprints.keys outcome world world' ∧
      draft.statuses = outcome.statuses observation.fingerprints.keys ∧
      draft.success = outcome.success ∧ draft.dependants = ∅ := by
  rw [runFrom_compileAll hseen] at hrun
  rcases hcompiled : (Build.compile services project observation.fingerprints.keys).runFrom
    progress world with ⟨compiled, middle, left⟩
  rw [hcompiled] at hrun
  cases compiled with
  | error error => cases hrun
  | ok outcome =>
      cases hrun
      exact ⟨outcome, asks_of_compile hcompiled, rfl, rfl, rfl⟩

/-!
# Attempts
-/

variable {changes : SourceChanges} {register : Ownership}

theorem asks_of_review {reviewed : Reviewed}
    (hrun : (review services project changes register).runFrom progress world =
      (.ok reviewed, progress', world')) :
    log.Asks changes.stale reviewed.outcome world world' := by
  rcases stages_of_review hrun with ⟨_, _, _, _, _, hopens, hcompiles, hreviews⟩
  exact (asks_of_compileBatch hcompiles).of_calls_eq (calls_openLedger hopens)
    (calls_reviewProduced hreviews)

/-- An attempt that is given up has come no further than its review. -/
theorem asks_of_abandoned (log : CallLog services project.destination)
    (hrun : (compileChanges services project changes register).runFrom progress world =
      (.ok none, progress', world')) :
    ∃ outcome, log.Asks changes.stale outcome world world' := by
  rcases reviewed_of_ok hrun with ⟨reviewed, _, between, _, hreview, _, _, hleft⟩
  rw [hleft rfl]
  exact ⟨reviewed.outcome, asks_of_review hreview⟩

theorem asks_of_stages (log : CallLog services project.destination)
    (stages : Completion services project changes register progress world) :
    log.Asks changes.stale stages.outcome world stages.reviewedWorld :=
  (asks_of_compileBatch stages.compiles).of_calls_eq (calls_openLedger stages.opens)
    (calls_reviewProduced stages.reviews)

theorem asks_of_second (log : CallLog services project.destination) {draft : Draft}
    {stages : Completion services project changes register progress world}
    (second : stages.Second draft progress' world') :
    log.Asks stages.dependants.toList second.outcome stages.reviewedWorld world' :=
  (asks_of_compileBatch second.compiles).of_calls_eq rfl (calls_registerProduced second.registers)

/-!
# Before and after the rounds
-/

variable {start : σ}

theorem calls_lookForChanges (log : CallLog services project.destination)
    {result : Except Failure (SourceChanges × Survey)}
    (hrun : runIn (lookForChanges services project) (services.host.milliseconds.run start).2 =
      (result, world')) : log.calls world' = log.calls start := by
  have hserves := log.serves (log.calls start)
  have hlooks : Maintains (fun world => log.calls world = log.calls start) (fun _ => True)
      (lookForChanges services project) := hserves.lookForChanges
  exact (hlooks.of_runIn (hserves.milliseconds start rfl) hrun).1

theorem calls_loadOwnership (log : CallLog services project.destination)
    {result : Except Failure (Option Ownership)}
    (hrun : runIn services.ownership.load world = (result, world')) :
    log.calls world' = log.calls world :=
  ((log.serves _).loadOwnership.of_runIn rfl hrun).1

theorem calls_settle {draft : Draft} {result : Except Failure Unit}
    (hkept : progress.backup.WellKept project.destination fun _ => True)
    (hrun : runIn (settle services progress draft) world = (result, world')) :
    log.calls world' = log.calls world := by
  have hrestores : Maintains (fun left => log.calls left = log.calls world) (fun _ => True)
      (progress.backup.restore services.host) := (log.serves _).restore hkept
  have hsettles : Maintains (fun left => log.calls left = log.calls world) (fun _ => True)
      (settle services progress draft) := by
    intro between hbetween
    refine ⟨?_, fun _ _ => trivial⟩
    cases hsuccess : draft.success with
    | false =>
        rw [Course.runIn_settle_of_failed hsuccess]
        exact (hrestores between hbetween).1
    | true =>
        have hsaved := log.saveOwnership draft.ownership between
        rw [Course.runIn_settle_of_succeeded hsuccess]
        rcases hsave : runIn (services.ownership.save draft.ownership) between with ⟨saved, left⟩
        rw [hsave] at hsaved
        cases saved with
        | error error => exact (hrestores left (hsaved.trans hbetween)).1
        | ok value =>
            simp only
            unfold Survey.commit
            cases progress.survey.observation with
            | none => exact hsaved.trans hbetween
            | some observation =>
                exact (log.saveFingerprints _ _).trans (hsaved.trans hbetween)
  exact (hsettles.of_runIn rfl hrun).1

theorem calls_run_of_report (log : CallLog services project.destination)
    (course : Course services project start) {report : Report}
    (hreport : (runIn (run services project) start).1 = .ok report) :
    log.calls (runIn (run services project) start).2 = log.calls course.ended := by
  rcases course.of_report hreport with ⟨draft, _, hsettled, _⟩
  rw [← calls_settle course.wellKept hsettled, course.runIn_run]
  rcases course.concluded with ⟨answer, left⟩
  cases answer with
  | error error => rfl
  | ok draft => exact (log.serves _).milliseconds left rfl

theorem calls_run_of_unchanged (log : CallLog services project.destination)
    (look : FirstLook services project start)
    (hunchanged : look.observation.changes.isEmpty = true) :
    log.calls (runIn (run services project) start).2 = log.calls start := by
  rw [look.runIn_run_of_unchanged hunchanged]
  exact (log.serves _).milliseconds look.left (log.calls_lookForChanges look.runIn_lookForChanges)

end CallLog
end Build
end Recompile
