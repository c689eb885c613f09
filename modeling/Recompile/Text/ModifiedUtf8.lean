import Recompile.Text.Utf8

/-!
# Modified UTF-8

Strings of a class file are written one UTF-16 code unit at a time: one to
three bytes for each unit, with NUL in the two-byte form and supplementary
characters as two surrogates. A byte string that is plain UTF-8 is read as
such.
-/

namespace Recompile
namespace ModifiedUtf8

/--
The code units of a byte string, in reverse, on top of those already read.
Only the lead byte is checked; a unit that is cut off is refused.
-/
def codeUnitsOnto (read : List UInt16) : Bytes → Option (List UInt16)
  | [] => some read.reverse
  | a :: rest =>
    if a &&& 0x80 = 0 then codeUnitsOnto (UInt16.ofNat a.toNat :: read) rest
    else if a &&& 0xE0 = 0xC0 then
      match rest with
      | b :: rest' =>
        codeUnitsOnto (UInt16.ofNat (a.toNat % 32 * 64 + b.toNat % 64) :: read) rest'
      | [] => none
    else if a &&& 0xF0 = 0xE0 then
      match rest with
      | b :: c :: rest' =>
        codeUnitsOnto
          (UInt16.ofNat (a.toNat % 16 * 4096 + b.toNat % 64 * 64 + c.toNat % 64) :: read)
          rest'
      | _ => none
    else none

def codeUnits? (bytes : Bytes) : Option (List UInt16) :=
  codeUnitsOnto [] bytes

def isHighSurrogate (unit : UInt16) : Bool :=
  0xD800 ≤ unit && unit ≤ 0xDBFF

def isLowSurrogate (unit : UInt16) : Bool :=
  0xDC00 ≤ unit && unit ≤ 0xDFFF

/--
The characters of a sequence of code units, in reverse, on top of those
already read. A surrogate without its partner is refused.
-/
def charactersOnto (read : List Char) : List UInt16 → Option (List Char)
  | [] => some read.reverse
  | unit :: rest =>
    if isHighSurrogate unit then
      match rest with
      | low :: rest' =>
        if isLowSurrogate low then
          charactersOnto
            (Char.ofNat
                (0x10000 + (unit.toNat - 0xD800) * 1024 + (low.toNat - 0xDC00)) :: read)
            rest'
        else none
      | [] => none
    else if isLowSurrogate unit then none
    else charactersOnto (Char.ofNat unit.toNat :: read) rest

def characters? (units : List UInt16) : Option (List Char) :=
  charactersOnto [] units

def decode? (bytes : Bytes) : Option (List Char) :=
  match Utf8.decode? bytes with
  | some text => some text
  | none => (codeUnits? bytes).bind characters?

end ModifiedUtf8
end Recompile
