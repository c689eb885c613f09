import Recompile.Command.Options

/-!
# Arguments

The arguments name the source directory, the target directory and the
classpath, with options before, between and after them. An option takes its
value from the next argument, or after an equals sign from its own. Two
hyphens alone end the options.

A value that stands on its own is checked when the next argument has been
recognized. So the first fault from the left is the one reported, but an
argument that nothing is known about is reported before a bad value that
stands just before it.
-/

namespace Recompile

inductive Argument where
  | option (slot : Slot) (value : Option String)
  | flag (flag : Flag) (value : Option String)
  | plain (text : String)
  | unknown (text : String)
deriving DecidableEq

namespace Argument

def ofLong (argument name : String) (value : Option String) : Argument :=
  if name = "state" then .option .state value
  else if name = "javac" then .option .javac value
  else if name = "fingerprint" then .option .fingerprint value
  else if name = "format" then .option .format value
  else if name = "clean" then .flag .clean value
  else if name = "fail-on-error" then .flag .failOnError value
  else if name = "help" then .flag .help value
  else .unknown argument

def attached : List Char → Option String
  | [] => none
  | '=' :: value => some (String.ofList value)
  | value => some (String.ofList value)

def ofText (argument : String) : Argument :=
  match argument.toList with
  | '-' :: '-' :: long =>
    match Text.splitFirst? '=' long with
    | some (name, value) => ofLong argument (String.ofList name) (some (String.ofList value))
    | none => ofLong argument (String.ofList long) none
  | '-' :: 'f' :: value => .option .format (attached value)
  | '-' :: 'h' :: _ => .flag .help none
  | '-' :: _ :: _ => .unknown argument
  | _ => .plain argument

end Argument

/-!
# All arguments
-/

/-- The options so far, the value that is still to be checked, and the places still free. -/
structure Reading where
  options : Options
  /-- A place, and what goes there unless that is yet to come. -/
  pending : Option (Slot × Option String)
  free : List Slot
deriving DecidableEq

namespace Reading

def start : Reading :=
  ⟨.empty, none, [.sourceRoot, .destination, .classpath]⟩

def settle (reading : Reading) : Except Halt Reading :=
  match reading.pending with
  | none => .ok reading
  | some (slot, none) => .error (.missingValue slot)
  | some (slot, some value) => do
    let options ← reading.options.set slot value
    return { reading with options := options, pending := none }

def place (reading : Reading) (text : String) : Except Halt Reading :=
  match reading.free with
  | [] => .error (.unknownArgument text)
  | slot :: free => do
    let settled ← reading.settle
    return { settled with pending := some (slot, some text), free := free }

def add (reading : Reading) (argument : String) : Except Halt Reading :=
  match Argument.ofText argument with
  | .unknown text => .error (.unknownArgument text)
  | .flag flag (some _) => .error (.unexpectedValue flag)
  | .flag flag none => do
    let settled ← reading.settle
    let options ← settled.options.raise flag
    return { settled with options := options }
  | .option slot none => do
    let settled ← reading.settle
    return { settled with pending := some (slot, none) }
  | .option slot (some value) => do
    let settled ← reading.settle
    let options ← settled.options.set slot value
    return { settled with options := options }
  | .plain text =>
    match reading.pending with
    | some (slot, none) => .ok { reading with pending := some (slot, some text) }
    | _ => reading.place text

def addAll (reading : Reading) : List String → Except Halt Reading
  | [] => .ok reading
  | argument :: rest =>
    if argument = "--" then rest.foldlM place reading
    else do
      let next ← reading.add argument
      next.addAll rest

end Reading

def Options.ofArguments (arguments : List String) : Except Halt Options := do
  let reading ← Reading.start.addAll arguments
  let settled ← reading.settle
  return settled.options

end Recompile
