import Recompile.Bytes

/-!
# JSON

Reports for other programs are written as JSON over several lines, two blanks
for each level. Empty arrays and objects stay on one line, and characters
outside ASCII stand for themselves.
-/

namespace Recompile

/-- A JSON value; the members of an object keep their order. -/
inductive Json where
  | text (value : String)
  | number (value : Nat)
  | boolean (value : Bool)
  | array (items : List Json)
  | object (members : List (String × Json))

namespace Json

/-- Control characters without a short form are written by their number. -/
def escape (c : Char) : List Char :=
  if c = '"' then ['\\', '"']
  else if c = '\\' then ['\\', '\\']
  else if c = '\n' then ['\\', 'n']
  else if c = '\r' then ['\\', 'r']
  else if c = '\t' then ['\\', 't']
  else if c = '\x08' then ['\\', 'b']
  else if c = '\x0C' then ['\\', 'f']
  else if c.toNat < 32 then
    ['\\', 'u', '0', '0', Bytes.hexDigit (c.toNat / 16), Bytes.hexDigit (c.toNat % 16)]
  else [c]

def quote (text : String) : String :=
  "\"" ++ String.ofList (text.toList.flatMap escape) ++ "\""

def lineAt (level : Nat) : String :=
  "\n" ++ String.join (List.replicate level "  ")

def block (opening closing : String) (level : Nat) (parts : List String) : String :=
  if parts = [] then opening ++ closing
  else
    opening ++ lineAt (level + 1) ++ String.intercalate ("," ++ lineAt (level + 1)) parts
      ++ lineAt level ++ closing

mutual

def renderAt (level : Nat) : Json → String
  | text value => quote value
  | number value => toString value
  | boolean value => if value then "true" else "false"
  | array items => block "[" "]" level (renderItems (level + 1) items)
  | object members => block "\x7b" "\x7d" level (renderMembers (level + 1) members)

def renderItems (level : Nat) : List Json → List String
  | [] => []
  | item :: rest => renderAt level item :: renderItems level rest

def renderMembers (level : Nat) : List (String × Json) → List String
  | [] => []
  | (name, value) :: rest =>
    (quote name ++ ": " ++ renderAt level value) :: renderMembers level rest

end

def render (json : Json) : String :=
  json.renderAt 0

end Json
end Recompile
