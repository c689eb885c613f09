import Recompile.Build.Services
import Recompile.Command.Arguments

/-!
# Settings

Whatever the arguments leave open is taken from the environment, or has a
fixed place.
-/

namespace Recompile

structure Environment where
  /-- `CLASS_REBUILD_JAVAC`, the compiler itself. -/
  javac : Option String
  /-- `JAVA_HOME`, a directory with a compiler in it. -/
  javaHome : Option String
deriving DecidableEq

structure Settings where
  project : Project
  state : Path
  javac : Path
  fingerprint : FingerprintMethod
deriving DecidableEq

namespace Settings

def defaultState (destination : Path) : Path :=
  (destination.join ⟨".class-rebuild"⟩).join ⟨"state.lmdb"⟩

def javacOfHome (home : String) : Path :=
  (Path.join ⟨home⟩ ⟨"bin"⟩).join ⟨"javac"⟩

def isNotEmpty (text : String) : Bool :=
  text ≠ ""

variable {m : Type → Type} [Monad m]

/--
The compiler that the arguments name, or else the environment, or else the
one of the home directory if it is there. Otherwise it is looked for by name.
-/
def chooseJavac (host : Host m) (environment : Environment) (options : Options) : m Path := do
  match options.javac, environment.javac.filter isNotEmpty,
    environment.javaHome.filter isNotEmpty with
  | some javac, _, _ => return javac
  | none, some javac, _ => return ⟨javac⟩
  | none, none, some home =>
    if ← host.isPresent (javacOfHome home) then return javacOfHome home
    else return ⟨"javac"⟩
  | none, none, none => return ⟨"javac"⟩

def choose (host : Host m) (environment : Environment) (options : Options) :
    m (Option Settings) := do
  match options.sourceRoot, options.destination with
  | some sourceRoot, some destination =>
    let javac ← chooseJavac host environment options
    return some {
      project := ⟨sourceRoot, destination, options.classpath.getD ""⟩
      state := options.state.getD (defaultState destination)
      javac := javac
      fingerprint := options.fingerprint.getD .modifiedTime
    }
  | _, _ => return none

end Settings
end Recompile
