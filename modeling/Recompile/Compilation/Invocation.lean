import Recompile.ClassFile.Layout
import Recompile.Compilation.Attribution
import Recompile.Compilation.Log
import Recompile.Machine.Host

/-!
# Running a compiler

The compiler is a program that takes options and source paths and writes a
verbose log. The outcome is read off its exit code, its log and the class
files that the log reports.
-/

namespace Recompile
namespace Invocation

def arguments (batch : Batch) : List String :=
  let classpath :=
    if batch.classpath = "" then batch.destination.text
    else batch.classpath ++ ":" ++ batch.destination.text
  ["-d", batch.destination.text, "-classpath", classpath, "-implicit:none", "-verbose"]
    ++ batch.sources.map fun source => (batch.sourceRoot.join ⟨source⟩).text

def logText (result : ProgramResult) : List Char :=
  Utf8.decodeLossy result.standardError
    ++ '\n' :: Utf8.decodeLossy result.standardOutput

variable {m : Type → Type} [Monad m]

def readWritten (host : Host m) (path : Path) :
    ExceptT Failure m (ClassName × Option String) := do
  let place ←
    if path.isAbsolute then pure path
    else do
      let directory ← (host.workingDirectory : m _)
      pure (directory.join path)
  let bytes ← diskAt place (host.readFile place)
  match ClassFile.originOf bytes with
  | .ok found => return found
  | .error reason => throw (.malformedClass place reason)

def assignAll (host : Host m) (batch : Batch)
    (produced : Std.ExtTreeMap String ClassSet) :
    List Path → ExceptT Failure m (Std.ExtTreeMap String ClassSet)
  | [] => return produced
  | path :: rest => do
    let (name, sourceFile) ← readWritten host path
    match Attribution.sourceOf? batch.sources name sourceFile with
    | some source => assignAll host batch (Ownership.addClass produced name source) rest
    | none => assignAll host batch produced rest

def listSources (produced : Std.ExtTreeMap String ClassSet) (sources : List String) :
    Std.ExtTreeMap String ClassSet :=
  sources.foldl (fun known source => known.insertIfNew source ∅) produced

/-- The messages of a log; those of a failure that blames no source go to every source. -/
def diagnostics (batch : Batch) (success : Bool) (log : List Char) :
    Std.ExtTreeMap String (List String) :=
  let grouped := CompilerLog.errorsBySource batch log
  if success || !grouped.isEmpty then grouped
  else
    let messages := CompilerLog.unattributedLines log
    batch.sources.foldl (fun known source => known.insert source messages) grouped

/-- Compiles a batch; for one without sources no program is run. -/
def compile (host : Host m) (program : Path) (batch : Batch) :
    ExceptT Failure m Outcome := do
  if batch.sources = [] then
    return .nothing
  match ← (host.launch program (arguments batch) : m _) with
  | .error cause => throw (.noCompiler program.text cause)
  | .ok result =>
    let log := logText result
    let success := result.exitCode == 0
    let produced ← assignAll host batch ∅ (CompilerLog.writtenPaths log)
    return {
      success := success
      produced := if success then listSources produced batch.sources else produced
      diagnostics := diagnostics batch success log
    }

end Invocation
end Recompile
