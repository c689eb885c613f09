import Recompile.State.Record

/-!
# The order of keys

A table has its rows in the order of their keys, and its flags say how keys
are compared. Keys are compared as they lie in their buffers.
-/

namespace Recompile

namespace Slice

def compareFrom (a b : Slice) : Nat → Nat → Ordering
  | 0, _ => .eq
  | count + 1, index =>
    match compare (a.byte index) (b.byte index) with
    | .eq => compareFrom a b count (index + 1)
    | different => different

def compareBytes (a b : Slice) : Ordering :=
  (a.compareFrom b (min a.size b.size) 0).then (compare a.size b.size)

def compareBack (a b : Slice) : Nat → Nat → Nat → Ordering
  | 0, _, _ => .eq
  | count + 1, i, j =>
    match compare (a.byte (i - 1)) (b.byte (j - 1)) with
    | .eq => compareBack a b count (i - 1) (j - 1)
    | different => different

def compareBackwards (a b : Slice) : Ordering :=
  (a.compareBack b (min a.size b.size) a.size b.size).then (compare a.size b.size)

/-- Two bytes that end before an index; where a key has but one, zero comes before it. -/
def wordBefore (slice : Slice) (index : Nat) : Nat :=
  if index = 1 then 256 * (slice.byte 0).toNat else slice.number (index - 2) 2

def compareWordsBack (a b : Slice) : Nat → Nat → Ordering
  | 0, _ => .eq
  | count + 1, index =>
    match compare (a.wordBefore index) (b.wordBefore index) with
    | .eq => compareWordsBack a b count (index - 2)
    | different => different

def compareWords (a b : Slice) : Ordering :=
  a.compareWordsBack b ((a.size + 1) / 2) a.size

def compareNumbers (width : Nat) (a b : Slice) : Ordering :=
  compare (a.number 0 width) (b.number 0 width)

end Slice

namespace State

inductive KeyOrder where
  /-- Byte by byte; a key comes before those that it begins. -/
  | bytes
  /-- The same, from the last byte on. -/
  | backwards
  /-- As numbers of as many bytes as the key that is looked for has. -/
  | words
  /-- As numbers of eight bytes. -/
  | numbers
deriving DecidableEq

def KeyOrder.ofFlags (flags : Nat) : KeyOrder :=
  if TableFlag.backwards.isIn flags then .backwards
  else if TableFlag.numbers.isIn flags then .words
  else .bytes

def KeyOrder.compare : KeyOrder → Slice → Slice → Ordering
  | bytes => Slice.compareBytes
  | backwards => Slice.compareBackwards
  | words => Slice.compareWords
  | numbers => Slice.compareNumbers 8

/--
The same on a page. Where keys are words, the second node of a branch tells
how wide they are.
-/
def KeyOrder.compareOn (order : KeyOrder) (page : Page) : Slice → Slice → Ordering :=
  if order = .words && page.isA .branch then
    Slice.compareNumbers (if (page.node 1).keySize = 8 then 8 else 4)
  else order.compare

end State
end Recompile
