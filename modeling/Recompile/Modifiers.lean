/-!
# Modifiers

Classes, fields and methods carry sixteen bits of access and property flags.
A flag may be several bits; it is present when all of them are.
-/

namespace Recompile

structure Modifiers where
  bits : UInt16
deriving DecidableEq, Inhabited

inductive Visibility where
  | privateAccess
  | packageAccess
  | protectedAccess
  | publicAccess
deriving DecidableEq

namespace Visibility

def rank : Visibility → Nat
  | privateAccess => 0
  | packageAccess => 1
  | protectedAccess => 2
  | publicAccess => 3

def keyword : Visibility → String
  | privateAccess => "private"
  | packageAccess => "package"
  | protectedAccess => "protected"
  | publicAccess => "public"

end Visibility

namespace Modifiers

def publicFlag : Modifiers := ⟨0x0001⟩

def privateFlag : Modifiers := ⟨0x0002⟩

def protectedFlag : Modifiers := ⟨0x0004⟩

def staticFlag : Modifiers := ⟨0x0008⟩

def finalFlag : Modifiers := ⟨0x0010⟩

def abstractFlag : Modifiers := ⟨0x0400⟩

def contains (flags flag : Modifiers) : Bool :=
  flags.bits &&& flag.bits = flag.bits

def isPrivate (flags : Modifiers) : Bool :=
  flags.contains privateFlag

/-- The private flag decides before the protected one, and that before the public one. -/
def level (flags : Modifiers) : Visibility :=
  if flags.contains privateFlag then .privateAccess
  else if flags.contains protectedFlag then .protectedAccess
  else if flags.contains publicFlag then .publicAccess
  else .packageAccess

def gains (old new flag : Modifiers) : Bool :=
  !old.contains flag && new.contains flag

def loses (old new flag : Modifiers) : Bool :=
  old.contains flag && !new.contains flag

def differsIn (old new flag : Modifiers) : Bool :=
  old.contains flag != new.contains flag

def narrowed (old new : Modifiers) : Bool :=
  new.level.rank < old.level.rank

end Modifiers
end Recompile
