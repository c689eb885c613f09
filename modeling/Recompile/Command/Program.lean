import Recompile.Build.Report.Printer
import Recompile.Build.Run
import Recompile.Command.Settings
import Recompile.Compilation.Invocation
import Recompile.State.File

/-!
# The program

The program builds what its arguments ask for and ends with a report or with
the chain of reasons for which it failed.
-/

namespace Recompile

structure Completion where
  exitCode : Nat
  output : String
  errors : String
deriving DecidableEq

namespace Program

def usage : String := "Missing arguments: [sourceDir] [targetDir] [classPath]"

def help : String :=
  "Incrementally recompile a Java source tree based on class ABI changes\n\n"
    ++ "Usage: class-rebuild [OPTIONS] [SOURCE_DIR] [TARGET_DIR] [CLASSPATH]\n\n"
    ++ "Options:\n"
    ++ "      --state <FILE>               Where the state is kept between builds\n"
    ++ "      --javac <FILE>               The compiler to run\n"
    ++ "      --fingerprint <mtime|content>\n"
    ++ "                                   How changed sources are found\n"
    ++ "  -f, --format <text|json>         How the report is written\n"
    ++ "      --clean                      Delete persisted state first, forcing a full build\n"
    ++ "      --fail-on-error              Exit with status 2 when any source fails to compile\n"
    ++ "  -h, --help                       Print help\n"

/-!
# Reasons

A failure is a list of reasons, the outermost first.
-/

def indented (blanks : Nat) (text : String) : String :=
  String.ofList
    (text.toList.flatMap fun c => if c = '\n' then '\n' :: List.replicate blanks ' ' else [c])

def column (number : Nat) : String :=
  let digits := toString number
  String.ofList (List.replicate (5 - digits.length) ' ') ++ digits

def numbered (reasons : List String) : String :=
  String.intercalate "\n"
    (reasons.mapIdx fun index reason => column index ++ ": " ++ indented 7 reason)

/-- The reasons as text; a single cause has no number. -/
def failureText : List String → String
  | [] => ""
  | [reason] => "Error: " ++ reason ++ "\n"
  | [reason, cause] =>
    "Error: " ++ reason ++ "\n\nCaused by:\n    " ++ indented 4 cause ++ "\n"
  | reason :: causes => "Error: " ++ reason ++ "\n\nCaused by:\n" ++ numbered causes ++ "\n"

def failed (reasons : List String) : Completion :=
  ⟨1, "", failureText reasons⟩

/-!
# A run
-/

variable {m : Type → Type} [Monad m]

def attempting (what : String) (operation : m (Except IoFault Unit)) :
    ExceptT (List String) m Unit := do
  match ← (operation : m _) with
  | .ok () => return ()
  | .error fault => throw [what, fault.message]

def explaining {ε α : Type} (chain : ε → List String) (operation : ExceptT ε m α) :
    ExceptT (List String) m α :=
  ExceptT.mk do
    match ← operation.run with
    | .ok value => return .ok value
    | .error error => return .error (chain error)

def services (host : Host m) (settings : Settings) : Services (StateT StateFile m) where
  host := host.lift
  compile := Invocation.compile host.lift settings.javac
  method := settings.fingerprint
  fingerprints := (StateFile.store host).fingerprints
  ownership := (StateFile.store host).ownership

def build (host : Host m) (clean : Bool) (settings : Settings) :
    ExceptT (List String) m Report := do
  let project := settings.project
  attempting ("Failed to create target directory: " ++ project.destination.text)
    (host.makeDirectories project.destination)
  if clean then
    explaining ClearFault.chain (StateFile.clear host settings.state)
  let state ← explaining Failure.chain (StateFile.openAt host settings.state)
  let built := (Build.run (services host settings) project).run.run state
  explaining
    (fun failure => ("Build of " ++ project.sourceRoot.text ++ " failed") :: failure.chain)
    (ExceptT.mk (Prod.fst <$> built))

def reportText (format : ReportFormat) (report : Report) : String :=
  match format with
  | .text => String.join (report.lines.map fun line => line ++ "\n")
  | .json => report.json.render ++ "\n"

/-- The exit code tells of sources that failed only when it is asked to. -/
def finished (options : Options) (report : Report) : Completion :=
  let code := if options.failOnError && !report.success then 2 else 0
  ⟨code, reportText (options.format.getD .text) report, ""⟩

def halted : Halt → Completion
  | .helpRequested => ⟨0, help, ""⟩
  | halt => ⟨2, "", halt.message ++ "\n\nFor more information, try '--help'.\n"⟩

def run (host : Host m) (environment : Environment) (arguments : List String) :
    m Completion := do
  match Options.ofArguments arguments with
  | .error halt => return halted halt
  | .ok options =>
    match ← Settings.choose host environment options with
    | none => return ⟨1, usage ++ "\n", ""⟩
    | some settings =>
      match ← (build host options.clean settings).run with
      | .error reasons => return failed reasons
      | .ok report => return finished options report

end Program
end Recompile
