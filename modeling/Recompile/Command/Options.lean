import Recompile.Sources.Survey

/-!
# Options

The options are what the arguments of the program say. Each place takes one
value and each flag can be raised once; a second time is refused before the
value is looked at.
-/

namespace Recompile

inductive ReportFormat where
  | text
  | json
deriving DecidableEq

/-- What the arguments say; what they leave open is `none`. -/
structure Options where
  sourceRoot : Option Path
  destination : Option Path
  classpath : Option String
  state : Option Path
  javac : Option Path
  fingerprint : Option FingerprintMethod
  format : Option ReportFormat
  clean : Bool
  failOnError : Bool
deriving DecidableEq

inductive Slot where
  | sourceRoot
  | destination
  | classpath
  | state
  | javac
  | fingerprint
  | format
deriving DecidableEq

inductive Flag where
  | clean
  | failOnError
  | help
deriving DecidableEq

inductive Halt where
  | helpRequested
  | unknownArgument (argument : String)
  | missingValue (slot : Slot)
  | badValue (slot : Slot) (value : String)
  | repeatedOption (slot : Slot)
  | repeatedFlag (flag : Flag)
  | unexpectedValue (flag : Flag)
deriving DecidableEq

def Slot.name : Slot → String
  | sourceRoot => "[SOURCE_DIR]"
  | destination => "[TARGET_DIR]"
  | classpath => "[CLASSPATH]"
  | state => "--state"
  | javac => "--javac"
  | fingerprint => "--fingerprint"
  | format => "--format"

def Flag.name : Flag → String
  | clean => "--clean"
  | failOnError => "--fail-on-error"
  | help => "--help"

def Halt.message : Halt → String
  | helpRequested => ""
  | unknownArgument argument => "error: unexpected argument '" ++ argument ++ "' found"
  | missingValue slot => "error: a value is required for '" ++ slot.name ++ "'"
  | badValue slot value => "error: invalid value '" ++ value ++ "' for '" ++ slot.name ++ "'"
  | repeatedOption slot => "error: '" ++ slot.name ++ "' cannot be used multiple times"
  | repeatedFlag flag => "error: '" ++ flag.name ++ "' cannot be used multiple times"
  | unexpectedValue flag => "error: '" ++ flag.name ++ "' takes no value"

def FingerprintMethod.ofWord? (word : String) : Option FingerprintMethod :=
  if word = "mtime" then some .modifiedTime
  else if word = "content" then some .contentHash
  else none

def FingerprintMethod.word : FingerprintMethod → String
  | modifiedTime => "mtime"
  | contentHash => "content"

def ReportFormat.ofWord? (word : String) : Option ReportFormat :=
  if word = "text" then some .text
  else if word = "json" then some .json
  else none

def ReportFormat.word : ReportFormat → String
  | text => "text"
  | json => "json"

namespace Options

def empty : Options :=
  ⟨none, none, none, none, none, none, none, false, false⟩

def isGiven (options : Options) : Slot → Bool
  | .sourceRoot => options.sourceRoot.isSome
  | .destination => options.destination.isSome
  | .classpath => options.classpath.isSome
  | .state => options.state.isSome
  | .javac => options.javac.isSome
  | .fingerprint => options.fingerprint.isSome
  | .format => options.format.isSome

def readPath? (value : String) : Option Path :=
  if value = "" then none else some ⟨value⟩

/-- The options with a value in a place; `none` for a value that does not fit there. -/
def assign? (options : Options) (slot : Slot) (value : String) : Option Options :=
  match slot with
  | .sourceRoot => (readPath? value).map fun path => { options with sourceRoot := some path }
  | .destination => (readPath? value).map fun path => { options with destination := some path }
  | .classpath => some { options with classpath := some value }
  | .state => (readPath? value).map fun path => { options with state := some path }
  | .javac => (readPath? value).map fun path => { options with javac := some path }
  | .fingerprint =>
    (FingerprintMethod.ofWord? value).map fun method =>
      { options with fingerprint := some method }
  | .format =>
    (ReportFormat.ofWord? value).map fun format => { options with format := some format }

def set (options : Options) (slot : Slot) (value : String) : Except Halt Options :=
  if options.isGiven slot then .error (.repeatedOption slot)
  else
    match options.assign? slot value with
    | some options => .ok options
    | none => .error (.badValue slot value)

def raise (options : Options) : Flag → Except Halt Options
  | .help => .error .helpRequested
  | .clean =>
    if options.clean then .error (.repeatedFlag .clean) else .ok { options with clean := true }
  | .failOnError =>
    if options.failOnError then .error (.repeatedFlag .failOnError)
    else .ok { options with failOnError := true }

end Options

end Recompile
