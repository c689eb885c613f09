import Recompile.Bytes
import Recompile.JavaType.Descriptor

/-!
# Faults of a class file

Each way in which a byte string fails to be a class file is one cause with
its own text.
-/

namespace Recompile
namespace ClassFile

inductive Expectation where
  | text
  | classEntry
  | literal
deriving DecidableEq

def Expectation.word : Expectation → String
  | text => "Utf8"
  | classEntry => "Class"
  | literal => "literal"

inductive Fault where
  | unexpectedEnd (offset wanted : Nat)
  | badMagic (magic : UInt32)
  | unknownTag (tag : UInt8) (index : Nat)
  | badIndex (index : UInt16) (expected : Expectation)
  | wideAtEnd (index : Nat)
  | badText (index : Nat)
  | descriptor (error : BadDescriptor)
  | trailing (count : Nat)
deriving DecidableEq

def Fault.message : Fault → String
  | unexpectedEnd offset wanted =>
    "unexpected end of data at offset " ++ toString offset ++ " (wanted " ++ toString wanted
      ++ " bytes)"
  | badMagic magic => "bad magic number 0x" ++ Bytes.hex (Bytes.ofNat 4 magic.toNat)
  | unknownTag tag index =>
    "unknown constant pool tag " ++ toString tag.toNat ++ " at index " ++ toString index
  | badIndex index expected =>
    "constant pool index " ++ toString index.toNat ++ " is not a " ++ expected.word
  | wideAtEnd index =>
    "two-slot constant at index " ++ toString index
      ++ " runs past the end of the constant pool"
  | badText index =>
    "constant pool entry " ++ toString index ++ " is not valid modified UTF-8"
  | descriptor error => error.message
  | trailing count => toString count ++ " trailing bytes after class file"

end ClassFile
end Recompile
