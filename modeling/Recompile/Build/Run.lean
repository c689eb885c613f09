import Recompile.Build.Full
import Recompile.Build.Incremental

/-!
# One build

A build finds out what changed, compiles what has to be compiled and keeps
the result. One that fails puts back the class files that it overwrote or
deleted, so that the next build starts from the same state.
-/

namespace Recompile
namespace Build

variable {m : Type → Type} [Monad m]

/-- Compiles what has to be compiled, in the mode that the stored register allows. -/
def compileNeeded (services : Services m) (project : Project) (changes : SourceChanges) :
    Step m Draft := do
  match ← perform services.ownership.load with
  | none => compileAll services project
  | some ownership =>
    match ← compileChanges services project changes ownership with
    | some draft => return draft
    | none => compileAll services project

/-- Puts class files back after a failure; a failure in doing so is passed over. -/
def restoreQuietly (services : Services m) (backup : Backup) : m Unit := do
  let _ ← (backup.restore services.host).run

def settle (services : Services m) (progress : Progress) (draft : Draft) :
    ExceptT Failure m Unit := do
  if draft.success then
    match ← ExceptT.lift (services.ownership.save draft.ownership).run with
    | .error error => do
      ExceptT.lift (restoreQuietly services progress.backup)
      throw error
    | .ok () => progress.survey.commit services.fingerprints
  else progress.backup.restore services.host

def lookForChanges (services : Services m) (project : Project) :
    ExceptT Failure m (SourceChanges × Survey) := do
  let survey ← Survey.start services.fingerprints services.method project.sourceRoot
  survey.changes services.host

def conclude (services : Services m) (result : Except Failure Draft) (progress : Progress) :
    ExceptT Failure m Draft := do
  match result with
  | .error error => do
    ExceptT.lift (restoreQuietly services progress.backup)
    throw error
  | .ok draft => do
    settle services progress draft
    return draft

/--
One build. The register is saved before the fingerprints, so that sources
never count as built by a build whose register was lost.
-/
def run (services : Services m) (project : Project) : ExceptT Failure m Report := do
  let started ← (services.host.milliseconds : m _)
  let (changes, survey) ← lookForChanges services project
  if changes.isEmpty then
    let ended ← (services.host.milliseconds : m _)
    return ⟨.noOp, changes, ∅, ∅, true, ended - started⟩
  let (result, progress) ←
    ExceptT.lift ((compileNeeded services project changes).run.run ⟨survey, .empty⟩)
  let draft ← conclude services result progress
  let ended ← (services.host.milliseconds : m _)
  return {
    mode := draft.mode
    changes := changes
    statuses := draft.statuses
    dependants := draft.dependants
    success := draft.success
    milliseconds := ended - started
  }

end Build
end Recompile
