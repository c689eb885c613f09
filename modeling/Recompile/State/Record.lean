import Recompile.State.Page

/-!
# Table records

A table is known by its record: how its keys are ordered, how many pages and
rows it has, and the page that is its root.
-/

namespace Recompile
namespace State

structure Record where
  padding : Nat
  flags : Nat
  depth : Nat
  branches : Nat
  leaves : Nat
  /-- The pages of values that are not in nodes. -/
  valuePages : Nat
  rows : Nat
  root : Nat
deriving DecidableEq

/-- The root that stands for a table without rows. -/
def noPage : Nat := 2 ^ 64 - 1

def recordSize : Nat := 48

namespace Record

def empty : Record :=
  ⟨0, 0, 0, 0, 0, 0, 0, noPage⟩

def cleared (record : Record) : Record :=
  { empty with padding := record.padding, flags := record.flags }

def ofSlice (slice : Slice) : Record where
  padding := slice.number 0 4
  flags := slice.number 4 2
  depth := slice.number 6 2
  branches := slice.number 8 8
  leaves := slice.number 16 8
  valuePages := slice.number 24 8
  rows := slice.number 32 8
  root := slice.number 40 8

def numbers (record : Record) : List (Nat × Nat) :=
  [(4, record.padding), (2, record.flags), (2, record.depth), (8, record.branches),
    (8, record.leaves), (8, record.valuePages), (8, record.rows), (8, record.root)]

def toBuffer (record : Record) : Buffer :=
  Buffer.ofNumbers recordSize record.numbers

def withoutValuePages (record : Record) (count : Nat) : Record :=
  { record with valuePages := (record.valuePages + 2 ^ 64 - count % 2 ^ 64) % 2 ^ 64 }

end Record

/-!
# Flags
-/

inductive TableFlag where
  /-- Keys are compared from their ends. -/
  | backwards
  | several
  | numbers
deriving DecidableEq

def TableFlag.mark : TableFlag → Nat
  | backwards => 2
  | several => 4
  | numbers => 8

def TableFlag.isIn (flag : TableFlag) (flags : Nat) : Bool :=
  flags / flag.mark % 2 = 1

/-- The flags that an open table is known by. -/
def lastingFlags (flags : Nat) : Nat :=
  flags % 2 ^ 15

end State
end Recompile
