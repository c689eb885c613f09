import Std.Data.ExtTreeMap
import Recompile.State.Head
import Recompile.State.KeyOrder

/-!
# Transactions

The file is read and changed in transactions. A page that is changed is
written to another place, so what the file held before stays until the new
first page is written. A transaction keeps the pages that it wrote, the
numbers of those that it gave up, and unused ones that it may take.
-/

namespace Recompile
namespace State

inductive TreeName where
  /-- The table of unused pages: under the number of a change, the pages given up by it. -/
  | unused
  /-- The records of all other tables under their names. -/
  | catalog
  | table
deriving DecidableEq

structure KnownTable where
  name : Buffer
  flags : Nat
  order : KeyOrder

structure OpenTable where
  name : Buffer
  order : KeyOrder
  record : Record
  /-- Whether the record has still to be read from the catalog. -/
  isStale : Bool
  isChanged : Bool

structure Transaction where
  /-- The file as it was when the transaction began. -/
  file : Buffer
  layout : Layout
  change : Nat
  /-- The first number that no page has yet. -/
  next : Nat
  unused : Record
  catalog : Record
  catalogOrder : KeyOrder
  known : List KnownTable
  table : OpenTable
  /-- The pages that were written, by their numbers. -/
  written : Std.ExtTreeMap Nat Buffer
  /-- The pages that are no longer in use, the latest one first. -/
  freed : List Nat
  /-- Unused pages in rising order, if any were looked for. -/
  reusable : Option (List Nat)
  /-- The last change whose unused pages were taken. -/
  lastReused : Nat
  /-- Buffers that were used for pages before. -/
  spare : List Buffer
  /-- Whether an operation on pages failed. -/
  isSpoiled : Bool

/-- One more than the largest number of a change. -/
def changeBound : Nat := 2 ^ 64

def Transaction.before (transaction : Transaction) : Nat :=
  (transaction.change + changeBound - 1) % changeBound

abbrev Paging := ExceptT StateFault (StateM Transaction)

/-- Fails in a way after which the transaction cannot go on. -/
def spoil {α : Type} (fault : StateFault) : Paging α := do
  modify fun now => { now with isSpoiled := true }
  throw fault

/-- A later step of a transaction that cannot go on fails for that reason. -/
def requireSound : Paging Unit := do
  if (← get).isSpoiled then throw .spoiled

/-!
# Records
-/

def recordOf (tree : TreeName) : Paging Record := do
  let now ← get
  return match tree with
    | .unused => now.unused
    | .catalog => now.catalog
    | .table => now.table.record

def modifyRecord (tree : TreeName) (change : Record → Record) : Paging Unit :=
  modify fun now =>
    match tree with
    | .unused => { now with unused := change now.unused }
    | .catalog => { now with catalog := change now.catalog }
    | .table => { now with table := { now.table with record := change now.table.record } }

def orderOf (tree : TreeName) : Paging KeyOrder := do
  let now ← get
  return match tree with
    | .unused => .numbers
    | .catalog => now.catalogOrder
    | .table => now.table.order

def markChanged (tree : TreeName) : Paging Unit :=
  modify fun now =>
    match tree with
    | .table => { now with table := { now.table with isChanged := true } }
    | _ => now

/-!
# Pages
-/

inductive PageRef where
  | stored (number : Nat)
  | written (number : Nat)
deriving DecidableEq

def findPage (number : Nat) : Paging PageRef := do
  let now ← get
  if now.written.contains number then return .written number
  else if now.next ≤ number then spoil .missingPage
  else return .stored number

def pageAt (ref : PageRef) : Paging Page := do
  let now ← get
  match ref with
  | .stored number => return ⟨now.file, number * now.layout.pageSize⟩
  | .written number => return .ofBuffer (now.written.getD number .empty)

/-- Changes a page that the transaction wrote; others are never changed. -/
def changePage (ref : PageRef) (change : Buffer → Buffer) : Paging Unit :=
  match ref with
  | .stored _ => pure ()
  | .written number =>
    modify fun now => { now with written := now.written.modify number change }

end State
end Recompile
