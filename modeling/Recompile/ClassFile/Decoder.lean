import Recompile.ClassFile.Fault

/-!
# Reading bytes in order

A reader goes through a byte string from the front and keeps count of where
it is, so that a string that is too short is refused with the place where
bytes were missing.
-/

namespace Recompile
namespace ClassFile

/-- Where reading stands: how many bytes are behind, and which are ahead. -/
structure Cursor where
  offset : Nat
  rest : Bytes

abbrev Decoder := StateT Cursor (Except Fault)

namespace Decoder

def splitOnto (taken : Bytes) : Nat → Bytes → Option (Bytes × Bytes)
  | 0, bytes => some (taken.reverse, bytes)
  | _ + 1, [] => none
  | count + 1, b :: bytes => splitOnto (b :: taken) count bytes

def take (count : Nat) : Decoder Bytes := fun cursor =>
  match splitOnto [] count cursor.rest with
  | some (taken, rest) => .ok (taken, ⟨cursor.offset + count, rest⟩)
  | none => .error (.unexpectedEnd cursor.offset count)

def u1 : Decoder UInt8 := do
  return UInt8.ofNat (← take 1).toNat

def u2 : Decoder UInt16 := do
  return UInt16.ofNat (← take 2).toNat

def u4 : Decoder UInt32 := do
  return UInt32.ofNat (← take 4).toNat

def u8 : Decoder UInt64 := do
  let high ← u4
  let low ← u4
  return UInt64.ofNat (high.toNat * 2 ^ 32 + low.toNat)

def repeatOnto {α : Type} (read : Decoder α) (items : List α) : Nat → Decoder (List α)
  | 0 => return items.reverse
  | count + 1 => do
    let item ← read
    repeatOnto read (item :: items) count

/-- A two-byte count and as many items. -/
def counted {α : Type} (read : Decoder α) : Decoder (List α) := do
  let count ← u2
  repeatOnto read [] count.toNat

/-- Runs a reader from the start of a byte string; what it leaves is not looked at. -/
def runOn {α : Type} (read : Decoder α) (bytes : Bytes) : Except Fault α :=
  (read ⟨0, bytes⟩).map Prod.fst

end Decoder
end ClassFile
end Recompile
