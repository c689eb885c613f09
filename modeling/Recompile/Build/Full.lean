import Recompile.Build.Services

/-!
# Compiling everything

A full build compiles every source that the survey saw, and its register of
classes starts from nothing.
-/

namespace Recompile
namespace Build

variable {m : Type → Type} [Monad m]

def freshOwnership (outcome : Outcome) : Ownership :=
  outcome.produced.toList.foldl
    (fun ownership (source, classes) => (ownership.register source classes).2) .empty

/-- Compiles every source that the survey saw, and answers which ones these are. -/
def compileSurveyed (services : Services m) (project : Project) :
    Step m (List String × Outcome) := do
  let progress ← get
  let (sources, survey) ← perform (progress.survey.sources services.host)
  modify fun progress => { progress with survey := survey }
  let outcome ← compile services project sources
  return (sources, outcome)

def compileAll (services : Services m) (project : Project) : Step m Draft := do
  let (sources, outcome) ← compileSurveyed services project
  return {
    mode := .cold
    ownership := freshOwnership outcome
    statuses := outcome.statuses sources
    dependants := ∅
    success := outcome.success
  }

end Build
end Recompile
