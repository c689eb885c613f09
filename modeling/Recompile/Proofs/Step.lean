import Recompile.Build.Services

/-!
# Running operations and steps

In surroundings that are a plain state, an operation is a function from a
state to a value or a failure and the state that it leaves. A step takes and
leaves the progress of a build besides. A sequence goes wrong where the first
of its parts does.
-/

namespace Recompile

variable {σ α β : Type}

/-- What an operation comes to in some surroundings, and what it leaves of them. -/
def runIn (operation : ExceptT Failure (StateM σ) α) (world : σ) : Except Failure α × σ :=
  operation.run.run world

theorem runIn_pure (value : α) (world : σ) :
    runIn (pure value) world = (.ok value, world) :=
  rfl

theorem runIn_lift (operation : StateM σ α) (world : σ) :
    runIn (monadLift operation) world =
      (.ok (operation.run world).1, (operation.run world).2) :=
  rfl

theorem runIn_exceptLift (operation : StateM σ α) (world : σ) :
    runIn (ExceptT.lift operation) world =
      (.ok (operation.run world).1, (operation.run world).2) :=
  rfl

theorem runIn_bind (operation : ExceptT Failure (StateM σ) α)
    (next : α → ExceptT Failure (StateM σ) β) (world : σ) :
    runIn (operation >>= next) world =
      match runIn operation world with
      | (.ok value, world) => runIn (next value) world
      | (.error error, world) => (.error error, world) := by
  simp only [runIn, ExceptT.run_bind, StateT.run_bind]
  rcases operation.run.run world with ⟨result, world'⟩
  cases result with
  | ok value => rfl
  | error error => rfl

theorem of_runIn_bind {operation : ExceptT Failure (StateM σ) α}
    {next : α → ExceptT Failure (StateM σ) β} {world world' : σ} {result : Except Failure β}
    (h : runIn (operation >>= next) world = (result, world')) :
    (∃ value between,
      runIn operation world = (.ok value, between) ∧
        runIn (next value) between = (result, world')) ∨
    ∃ error, runIn operation world = (.error error, world') ∧ result = .error error := by
  rw [runIn_bind] at h
  rcases hfirst : runIn operation world with ⟨first, between⟩
  rw [hfirst] at h
  cases first with
  | ok value => exact Or.inl ⟨value, between, rfl, h⟩
  | error error =>
      cases h
      exact Or.inr ⟨error, rfl, rfl⟩

theorem ok_of_runIn_bind {operation : ExceptT Failure (StateM σ) α}
    {next : α → ExceptT Failure (StateM σ) β} {world world' : σ} {result : β}
    (h : runIn (operation >>= next) world = (.ok result, world')) :
    ∃ value between, runIn operation world = (.ok value, between) ∧
      runIn (next value) between = (.ok result, world') := by
  rcases of_runIn_bind h with hboth | ⟨_, _, herror⟩
  · exact hboth
  · cases herror

namespace Build

/-- What a step comes to from some progress in some surroundings, and what it leaves of both. -/
def Step.runFrom (step : Step (StateM σ) α) (progress : Progress) (world : σ) :
    Except Failure α × Progress × σ :=
  let found := (step.run.run progress).run world
  (found.1.1, found.1.2, found.2)

namespace Step

theorem runFrom_pure (value : α) (progress : Progress) (world : σ) :
    Step.runFrom (pure value) progress world = (.ok value, progress, world) :=
  rfl

theorem runFrom_get (progress : Progress) (world : σ) :
    Step.runFrom (get : Step (StateM σ) Progress) progress world =
      (.ok progress, progress, world) :=
  rfl

theorem runFrom_lift (operation : StateM σ α) (progress : Progress) (world : σ) :
    Step.runFrom (monadLift operation) progress world =
      (.ok (operation.run world).1, progress, (operation.run world).2) :=
  rfl

theorem runFrom_perform (operation : ExceptT Failure (StateM σ) α) (progress : Progress)
    (world : σ) :
    Step.runFrom (perform operation) progress world =
      ((runIn operation world).1, progress, (runIn operation world).2) :=
  rfl

theorem of_runFrom_perform {operation : ExceptT Failure (StateM σ) α}
    {progress progress' : Progress} {world world' : σ} {result : Except Failure α}
    (h : Step.runFrom (perform operation) progress world = (result, progress', world')) :
    progress' = progress ∧ runIn operation world = (result, world') := by
  rw [runFrom_perform] at h
  rcases hrun : runIn operation world with ⟨found, left⟩
  rw [hrun] at h
  cases h
  exact ⟨rfl, rfl⟩

theorem runFrom_except (result : Except Failure α) (progress : Progress) (world : σ) :
    Step.runFrom (ExceptT.mk (pure result)) progress world = (result, progress, world) :=
  rfl

theorem runFrom_modify (change : Progress → Progress) (progress : Progress) (world : σ) :
    Step.runFrom (modify change : Step (StateM σ) Unit) progress world =
      (.ok (), change progress, world) :=
  rfl

theorem runFrom_modifyBackup (change : Backup → Backup) (progress : Progress) (world : σ) :
    Step.runFrom (modifyBackup change) progress world =
      (.ok (), { progress with backup := change progress.backup }, world) :=
  rfl

theorem runFrom_bind (step : Step (StateM σ) α) (next : α → Step (StateM σ) β)
    (progress : Progress) (world : σ) :
    Step.runFrom (step >>= next) progress world =
      match step.runFrom progress world with
      | (.ok value, progress, world) => (next value).runFrom progress world
      | (.error error, progress, world) => (.error error, progress, world) := by
  simp only [runFrom, ExceptT.run_bind, StateT.run_bind]
  rcases (step.run.run progress).run world with ⟨⟨result, progress'⟩, world'⟩
  cases result with
  | ok value => rfl
  | error error => rfl

theorem of_runFrom_bind {step : Step (StateM σ) α} {next : α → Step (StateM σ) β}
    {progress progress' : Progress} {world world' : σ} {result : Except Failure β}
    (h : Step.runFrom (step >>= next) progress world = (result, progress', world')) :
    (∃ value middle between,
      step.runFrom progress world = (.ok value, middle, between) ∧
        (next value).runFrom middle between = (result, progress', world')) ∨
    ∃ error,
      step.runFrom progress world = (.error error, progress', world') ∧
        result = .error error := by
  rw [runFrom_bind] at h
  rcases hfirst : step.runFrom progress world with ⟨first, middle, between⟩
  rw [hfirst] at h
  cases first with
  | ok value => exact Or.inl ⟨value, middle, between, rfl, h⟩
  | error error =>
      cases h
      exact Or.inr ⟨error, rfl, rfl⟩

theorem ok_of_runFrom_bind {step : Step (StateM σ) α} {next : α → Step (StateM σ) β}
    {progress progress' : Progress} {world world' : σ} {result : β}
    (h : Step.runFrom (step >>= next) progress world = (.ok result, progress', world')) :
    ∃ value middle between, step.runFrom progress world = (.ok value, middle, between) ∧
      (next value).runFrom middle between = (.ok result, progress', world') := by
  rcases of_runFrom_bind h with hboth | ⟨_, _, herror⟩
  · exact hboth
  · cases herror

end Step
end Build
end Recompile
