import Recompile.Command.Program
import Recompile.Machine.Remote

/-!
# The executable

The executable holds no files and starts no programs itself. It writes each
request as a line on its standard output and reads the reply from its
standard input. Its last line is `print` with the text for standard output.
-/

namespace Recompile

def exchangeLine (line : String) : IO String := do
  let output ← IO.getStdout
  output.putStrLn line
  output.flush
  let reply ← (← IO.getStdin).getLine
  return String.ofList (reply.toList.filter fun c => c ≠ '\n')

/-- Runs the program with its surroundings behind the standard streams. -/
def serve (arguments : List String) : IO UInt32 := do
  let environment : Environment :=
    ⟨← IO.getEnv "CLASS_REBUILD_JAVAC", ← IO.getEnv "JAVA_HOME"⟩
  let completion ← Program.run (Remote.host exchangeLine) environment arguments
  IO.println ("print " ++ Remote.ofText completion.output)
  IO.eprint completion.errors
  return completion.exitCode.toUInt32

end Recompile

def main (arguments : List String) : IO UInt32 :=
  Recompile.serve arguments
