import Recompile.Machine.Host
import Recompile.Text.Utf8

/-!
# A host behind lines

A host may be another program that answers lines. A request is a word and its
fields, a reply is `ok` with fields or `fault` with a name, and all parts
stand between single blanks. Texts and file contents are written as
hexadecimal bytes, so no field holds a blank or a line end.
-/

namespace Recompile
namespace Remote

/-!
# Fields
-/

def digitValue? (c : Char) : Option Nat :=
  if '0' ≤ c ∧ c ≤ '9' then some (c.toNat - 48)
  else if 'a' ≤ c ∧ c ≤ 'f' then some (c.toNat - 87)
  else none

def bytesOnto (read : Bytes) : List Char → Option Bytes
  | [] => some read.reverse
  | [_] => none
  | high :: low :: rest =>
    match digitValue? high, digitValue? low with
    | some high, some low => bytesOnto (UInt8.ofNat (16 * high + low) :: read) rest
    | _, _ => none

def bytes? (field : String) : Option Bytes :=
  bytesOnto [] field.toList

def buffer? (field : String) : Option Buffer :=
  (bytes? field).map Buffer.ofBytes

def text? (field : String) : Option String :=
  (bytes? field).bind fun bytes => (Utf8.decode? bytes).map String.ofList

def path? (field : String) : Option Path :=
  (text? field).map Path.mk

def kind? (field : String) : Option FileKind :=
  if field = "directory" then some .directory
  else if field = "file" then some .file
  else none

def openFile? (field : String) : Option OpenFile :=
  field.toNat?.map OpenFile.mk

def ofText (text : String) : String :=
  Bytes.hex (Bytes.ofText text)

def fields (line : String) : List String :=
  (Text.pieces ' ' line.toList).map String.ofList

/-- The fault of a reply; a name that is not known is reported as it is. -/
def fault (name : String) : IoFault :=
  if name = "ENOENT" then .notFound
  else if name = "EACCES" then .permissionDenied
  else if name = "EEXIST" then .alreadyExists
  else if name = "ENOTDIR" then .notADirectory
  else if name = "EISDIR" then .isADirectory
  else if name = "ENAMETOOLONG" then .nameTooLong
  else if name = "ELOOP" then .tooManyLinks
  else if name = "E2BIG" then .argumentsTooLong
  else .reported ((text? name).getD name)

def readReply {α : Type} (read : List String → Option α) (reply : String) :
    Except IoFault α :=
  match fields reply with
  | "ok" :: results =>
    match read results with
    | some value => .ok value
    | none => .error (.reported "unreadable reply")
  | ["fault", name] => .error (fault name)
  | _ => .error (.reported "unreadable reply")

def readNothing : List String → Option Unit
  | [] => some ()
  | _ => none

def readOne {α : Type} (read : String → Option α) : List String → Option α
  | [field] => read field
  | _ => none

def readResult : List String → Option ProgramResult
  | [code, output, errors] => do
    return ⟨← code.toNat?, ← bytes? output, ← bytes? errors⟩
  | _ => none

/-!
# The host
-/

variable {m : Type → Type} [Monad m]

def ask {α : Type} (exchange : String → m String) (read : List String → Option α)
    (request : List String) : m (Except IoFault α) := do
  let reply ← exchange (String.intercalate " " request)
  return readReply read reply

/-- The host that answers over `exchange`, which sends one line and waits for another. -/
def host (exchange : String → m String) : Host m where
  kindOf path := ask exchange (readOne kind?) ["kind", ofText path.text]
  realPath path := ask exchange (readOne path?) ["real", ofText path.text]
  readFile path := ask exchange (readOne bytes?) ["read", ofText path.text]
  modified path := ask exchange (readOne String.toInt?) ["modified", ofText path.text]
  filesBelow path := ask exchange (List.mapM path?) ["below", ofText path.text]
  makeDirectories path := ask exchange readNothing ["directories", ofText path.text]
  writeFile path bytes :=
    ask exchange readNothing ["write", ofText path.text, Bytes.hex bytes]
  removeFile path := ask exchange readNothing ["remove", ofText path.text]
  openFile path := ask exchange (readOne openFile?) ["open", ofText path.text]
  readOpen file := ask exchange (readOne buffer?) ["read-open", toString file.number]
  writeOpen file pieces :=
    ask exchange readNothing
      ("write-open" :: toString file.number
        :: pieces.flatMap fun (place, piece) => [toString place, Bytes.hex (Buffer.toBytes piece)])
  workingDirectory := do
    match ← ask exchange (readOne path?) ["here"] with
    | .ok path => return path
    | .error _ => return ⟨"/"⟩
  launch program arguments :=
    ask exchange readResult ("launch" :: ofText program.text :: arguments.map ofText)
  milliseconds := do
    match ← ask exchange (readOne String.toNat?) ["time"] with
    | .ok milliseconds => return milliseconds
    | .error _ => return 0

end Remote
end Recompile
