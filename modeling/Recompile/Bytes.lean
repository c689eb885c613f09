/-!
# Bytes

Files, digests and compiler output are lists of bytes. This module holds the
few readings of such a list that the rest of the library shares: its
hexadecimal form, the number it spells, and the bytes of a text.
-/

namespace Recompile

-- Powers, sums and comparisons are those of the core library, whatever else is in scope.
attribute [default_instance 20000] instPowNat
attribute [scoped instance (high)] instPowNat ByteArray.instDecidableEq Zero.ofOfNat0

abbrev Bytes := List UInt8

namespace Bytes

def ofText (text : String) : Bytes :=
  text.toUTF8.data.toList

def hexDigit (value : Nat) : Char :=
  if value < 10 then Char.ofNat (48 + value) else Char.ofNat (87 + value)

def hex (bytes : Bytes) : String :=
  String.ofList
    (bytes.flatMap fun b => [hexDigit (b.toNat / 16), hexDigit (b.toNat % 16)])

/-- The number that the bytes spell, the most significant one first. -/
def toNat (bytes : Bytes) : Nat :=
  bytes.foldl (fun number b => 256 * number + b.toNat) 0

/-- The lowest `width` bytes of a number, the most significant one first. -/
def ofNat : Nat → Nat → Bytes
  | 0, _ => []
  | width + 1, number => ofNat width (number / 256) ++ [UInt8.ofNat number]

def zeros (count : Nat) : Bytes :=
  List.replicate count 0

end Bytes

end Recompile
