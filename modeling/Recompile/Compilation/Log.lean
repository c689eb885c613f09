import Recompile.Compilation
import Recompile.Text.Blank
import Recompile.Text.Pieces

/-!
# The log of a compiler

A verbose compiler reports in its log which class files it wrote, and puts
its messages about sources between them. Lines are told apart by how they
begin; a message goes on over the lines after its header until a line of
another kind comes.
-/

namespace Recompile
namespace CompilerLog

abbrev Line := List Char

/-!
# Class files written

Such a line has the form `[wrote path]`. Older compilers put the path into
`RegularFileObject[…]`.
-/

def between? (opening closing : String) (text : Line) : Option Line :=
  (Text.after? opening.toList text).bind (Text.before? closing.toList)

def writtenPath? (line : Line) : Option Path :=
  match between? "[wrote " "]" (Text.trim line) with
  | none => none
  | some reported =>
    let path := (between? "RegularFileObject[" "]" reported).getD reported
    if (Text.before? ".class".toList path).isSome then some ⟨String.ofList path⟩ else none

def writtenPaths (log : List Char) : List Path :=
  (Text.lines log).filterMap writtenPath?

/-!
# Messages

A header names a source, a line number and the kind of the message. Only
errors are kept; a header of another kind ends the message before it.
-/

inductive LineKind where
  /-- Blank, or one of the compiler's own reports in brackets. -/
  | divider
  | header (source : String) (isError : Bool)
  | summary
  | other
deriving DecidableEq

/-- Whether a line is a header for the source with this path, and then whether of an error. -/
def headerFor? (path line : Line) : Option Bool :=
  match (Text.after? path line).bind (Text.after? [':']) with
  | none => none
  | some rest =>
    match Text.splitFirst? ':' rest with
    | none => none
    | some (number, tail) =>
      if number = [] ∨ !number.all Text.isDigit then none
      else some (Text.after? "error:".toList (Text.trimStart tail)).isSome

def header? (sources : List (Line × String)) (line : Line) : Option (String × Bool) :=
  sources.findSome? fun (path, source) =>
    (headerFor? path line).map fun isError => (source, isError)

def isTally (line : Line) : Bool :=
  match Text.words line with
  | [number, kind] =>
    number.all Text.isDigit
      && ["error", "errors", "warning", "warnings"].contains (String.ofList kind)
  | _ => false

def lineKind (sources : List (Line × String)) (line : Line) : LineKind :=
  if line.head? = some '[' ∨ Text.trim line = [] then .divider
  else
    match header? sources line with
    | some (source, isError) => .header source isError
    | none => if isTally line then .summary else .other

/-- Messages by source, and the source whose last message is still open. -/
structure Grouping where
  messages : Std.ExtTreeMap String (List String)
  current : Option String

namespace Grouping

def empty : Grouping :=
  ⟨∅, none⟩

def continueLast (line : String) : List String → List String
  | [] => []
  | [last] => [last ++ "\n" ++ line]
  | message :: rest => message :: continueLast line rest

def add (sources : List (Line × String)) (grouping : Grouping) (line : Line) : Grouping :=
  match lineKind sources line with
  | .divider => { grouping with current := none }
  | .summary => { grouping with current := none }
  | .header source isError =>
    if isError then
      { messages :=
          grouping.messages.insert source
            ((grouping.messages[source]?.getD []) ++ [String.ofList line])
        current := some source }
    else { grouping with current := none }
  | .other =>
    match grouping.current with
    | none => grouping
    | some source =>
      match grouping.messages[source]? with
      | none => grouping
      | some messages =>
        { grouping with
          messages :=
            grouping.messages.insert source (continueLast (String.ofList line) messages) }

end Grouping

def sourcePaths (batch : Batch) : List (Line × String) :=
  batch.sources.map fun source =>
    ((batch.sourceRoot.join ⟨source⟩).text.toList, source)

def errorsBySource (batch : Batch) (log : List Char) :
    Std.ExtTreeMap String (List String) :=
  ((Text.lines log).foldl (Grouping.add (sourcePaths batch)) .empty).messages

/-- The lines that are not the compiler's own reports, for a failure that blames no source. -/
def unattributedLines (log : List Char) : List String :=
  (((Text.lines log).map Text.trimEnd).filter fun line =>
    line ≠ [] && line.head? ≠ some '[').map String.ofList

end CompilerLog
end Recompile
