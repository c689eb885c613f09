import Recompile.ClassFile.Decoder
import Recompile.Decimal.Shortest
import Recompile.Text.ModifiedUtf8

/-!
# The constant pool

A class file keeps its names, literals and references in a pool of numbered
entries. Slot zero is never used, and a long or double number takes up two
slots, of which the second is not used either.
-/

namespace Recompile
namespace ClassFile

/-- An entry of the pool, as far as the surface of a class needs it. -/
inductive Constant where
  | unusable
  | text (value : String)
  | integer (value : Int32)
  | float (bits : UInt32)
  | long (value : Int64)
  | double (bits : UInt64)
  | classEntry (name : UInt16)
  | string (text : UInt16)
  | memberReference
  | nameAndType (descriptor : UInt16)
  | methodHandle
  | methodType (descriptor : UInt16)
  | dynamic
  | moduleEntry
  | packageEntry
deriving DecidableEq

/-- Whether the entry takes up two slots. -/
def Constant.isWide : Constant → Bool
  | long _ => true
  | double _ => true
  | _ => false

structure Pool where
  entries : Array Constant

/-!
# Reading the pool

The entry at each index begins with a tag that tells its kind. The count in
front of the pool is one more than the number of slots.
-/

def readText (index : Nat) : Decoder Constant := do
  let length ← Decoder.u2
  let raw ← Decoder.take length.toNat
  match ModifiedUtf8.decode? raw with
  | some value => return .text (String.ofList value)
  | none => throw (.badText index)

def readConstant (index : Nat) : Decoder Constant := do
  let tag ← Decoder.u1
  match tag.toNat with
  | 1 => readText index
  | 3 => return .integer (← Decoder.u4).toInt32
  | 4 => return .float (← Decoder.u4)
  | 5 => return .long (← Decoder.u8).toInt64
  | 6 => return .double (← Decoder.u8)
  | 7 => return .classEntry (← Decoder.u2)
  | 8 => return .string (← Decoder.u2)
  | 9 | 10 | 11 => do
    let _ ← Decoder.take 4
    return .memberReference
  | 12 => do
    let _ ← Decoder.u2
    return .nameAndType (← Decoder.u2)
  | 15 => do
    let _ ← Decoder.take 3
    return .methodHandle
  | 16 => return .methodType (← Decoder.u2)
  | 17 | 18 => do
    let _ ← Decoder.take 4
    return .dynamic
  | 19 => do
    let _ ← Decoder.take 2
    return .moduleEntry
  | 20 => do
    let _ ← Decoder.take 2
    return .packageEntry
  | _ => throw (.unknownTag tag index)

def readSlots (left index : Nat) (entries : Array Constant) : Decoder (Array Constant) :=
  match left with
  | 0 => return entries
  | left + 1 => do
    let constant ← readConstant index
    if constant.isWide then
      match left with
      | 0 => throw (.wideAtEnd index)
      | left + 1 => readSlots left (index + 2) ((entries.push constant).push .unusable)
    else readSlots left (index + 1) (entries.push constant)

def readPool : Decoder Pool := do
  let count ← Decoder.u2
  return ⟨← readSlots (count.toNat - 1) 1 #[.unusable]⟩

/-!
# Looking entries up

An index that leads outside the pool, to an unused slot or to an entry of
another kind is refused with what was expected there.
-/

namespace Pool

def get (pool : Pool) (index : UInt16) (expected : Expectation) : Except Fault Constant :=
  match pool.entries[index.toNat]? with
  | none => .error (.badIndex index expected)
  | some .unusable => .error (.badIndex index expected)
  | some constant => .ok constant

def text (pool : Pool) (index : UInt16) : Except Fault String := do
  match ← pool.get index .text with
  | .text value => return value
  | _ => throw (.badIndex index .text)

def className (pool : Pool) (index : UInt16) : Except Fault String := do
  match ← pool.get index .classEntry with
  | .classEntry name => pool.text name
  | _ => throw (.badIndex index .classEntry)

/-- The text of a literal; numbers are written in decimal. -/
def literal (pool : Pool) (index : UInt16) : Except Fault String := do
  match ← pool.get index .literal with
  | .integer value => return toString value.toInt
  | .float bits => return Decimal.single.text bits.toNat
  | .long value => return toString value.toInt
  | .double bits => return Decimal.double.text bits.toNat
  | .string text => pool.text text
  | _ => throw (.badIndex index .literal)

end Pool
end ClassFile
end Recompile
