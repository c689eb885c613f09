import Recompile.Bytes

/-!
# UTF-8

A byte string is read one character at a time. Where no character can be
read, the longest run of bytes that begins one is set aside as a whole, so a
damaged text loses as little as possible.
-/

namespace Recompile
namespace Utf8

def isContinuation (b : UInt8) : Bool :=
  0x80 ≤ b && b ≤ 0xBF

def isSecondOfThree (lead second : UInt8) : Bool :=
  if lead = 0xE0 then 0xA0 ≤ second && second ≤ 0xBF
  else if lead = 0xED then 0x80 ≤ second && second ≤ 0x9F
  else isContinuation second

def isSecondOfFour (lead second : UInt8) : Bool :=
  if lead = 0xF0 then 0x90 ≤ second && second ≤ 0xBF
  else if lead = 0xF4 then 0x80 ≤ second && second ≤ 0x8F
  else isContinuation second

/-- The low bits of a lead byte, followed by six bits of each continuation. -/
def scalar (lead : Nat) (continuations : List UInt8) : Char :=
  Char.ofNat (continuations.foldl (fun value b => 64 * value + b.toNat % 64) lead)

/--
One step of reading: a character, or `none` for a run that starts a character
and does not end it, with the bytes that are left.
-/
def next (lead : UInt8) (tail : Bytes) : Option Char × Bytes :=
  if lead ≤ 0x7F then (some (scalar lead.toNat []), tail)
  else if 0xC2 ≤ lead && lead ≤ 0xDF then
    match tail with
    | b :: rest =>
      if isContinuation b then (some (scalar (lead.toNat % 32) [b]), rest)
      else (none, tail)
    | [] => (none, [])
  else if 0xE0 ≤ lead && lead ≤ 0xEF then
    match tail with
    | b :: rest =>
      if isSecondOfThree lead b then
        match rest with
        | c :: rest' =>
          if isContinuation c then (some (scalar (lead.toNat % 16) [b, c]), rest')
          else (none, rest)
        | [] => (none, [])
      else (none, tail)
    | [] => (none, [])
  else if 0xF0 ≤ lead && lead ≤ 0xF4 then
    match tail with
    | b :: rest =>
      if isSecondOfFour lead b then
        match rest with
        | c :: rest' =>
          if isContinuation c then
            match rest' with
            | d :: rest'' =>
              if isContinuation d then
                (some (scalar (lead.toNat % 8) [b, c, d]), rest'')
              else (none, rest')
            | [] => (none, [])
          else (none, rest)
        | [] => (none, [])
      else (none, tail)
    | [] => (none, [])
  else (none, tail)

theorem next_length (lead : UInt8) (tail : Bytes) :
    (next lead tail).2.length ≤ tail.length := by
  unfold next
  repeat' split
  all_goals simp only [List.length_cons, List.length_nil]
  all_goals omega

def scanOnto (read : List (Option Char)) (bytes : Bytes) : List (Option Char) :=
  match bytes with
  | [] => read.reverse
  | lead :: tail => scanOnto ((next lead tail).1 :: read) (next lead tail).2
termination_by bytes.length
decreasing_by
  have := next_length lead tail
  simp only [List.length_cons]
  omega

def scan (bytes : Bytes) : List (Option Char) :=
  scanOnto [] bytes

def decode? (bytes : Bytes) : Option (List Char) :=
  (scan bytes).mapM id

/-- The text of a byte string, with U+FFFD for each run that is set aside. -/
def decodeLossy (bytes : Bytes) : List Char :=
  (scan bytes).map fun read => read.getD (Char.ofNat 0xFFFD)

/-!
# Flaws

A text that is not well formed is reported with the place of the first run
that no character can be read from.
-/

structure Flaw where
  /-- How many bytes come before it. -/
  position : Nat
  /-- Its length; none if the bytes end inside a character that they begin. -/
  length : Option Nat
deriving DecidableEq

def Flaw.message (flaw : Flaw) : String :=
  match flaw.length with
  | some length =>
    "invalid utf-8 sequence of " ++ toString length ++ " bytes from index "
      ++ toString flaw.position
  | none => "incomplete utf-8 byte sequence from index " ++ toString flaw.position

def isLeadOfMany (b : UInt8) : Bool :=
  0xC2 ≤ b && b ≤ 0xF4

def flawWithin (total : Nat) (bytes : Bytes) : Option Flaw :=
  match bytes with
  | [] => none
  | lead :: tail =>
    let rest := (next lead tail).2
    match (next lead tail).1 with
    | some _ => flawWithin total rest
    | none =>
      let left := tail.length + 1
      if rest = [] ∧ isLeadOfMany lead then some ⟨total - left, none⟩
      else some ⟨total - left, some (left - rest.length)⟩
termination_by bytes.length
decreasing_by
  have := next_length lead tail
  simp only [List.length_cons]
  omega

def read (bytes : Bytes) : Except Flaw String :=
  match flawWithin bytes.length bytes with
  | some flaw => .error flaw
  | none => .ok (String.ofList (decodeLossy bytes))

end Utf8
end Recompile
