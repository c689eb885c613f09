import Std.Data.ExtTreeMap
import Recompile.Ownership
import Recompile.Sources.Changes
import Recompile.State.Cell
import Recompile.State.Session

/-!
# Tables

Two tables survive between builds: the fingerprints of the sources at the
last successful build, and the source of every class. They are kept in a
store that reads a table, and changes one as a whole or not at all. Each
table is a cell, which is replaced as a whole and leaves the other alone.
-/

namespace Recompile
namespace State

abbrev Table := Std.ExtTreeMap String String

inductive TableName where
  | fingerprints
  | owners
deriving DecidableEq

def TableName.text : TableName → String
  | fingerprints => "source_fingerprints"
  | owners => "class_map"

structure TableStore (m : Type → Type) where
  /-- The rows of a table; `none` when it was never made. -/
  read : TableName → m (Except StateFault (Option Scan))
  /-- Takes all steps of a change of one table; after a failure nothing has changed. -/
  change : TableName → List Edit → m (Except StateFault Unit)

/-!
# Rows and texts
-/

def rowsOfTable (table : Table) : List (Bytes × Bytes) :=
  table.toList.map fun (key, value) => (Bytes.ofText key, Bytes.ofText value)

def readText (bytes : Bytes) : Except StateFault String :=
  (Utf8.read bytes).mapError .badText

def tableOnto (table : Table) : List (Bytes × Bytes) → Except StateFault Table
  | [] => .ok table
  | (key, value) :: rows => do
    let key ← readText key
    let value ← readText value
    tableOnto (table.insert key value) rows

def Scan.table (scan : Scan) : Except StateFault Table := do
  let table ← tableOnto ∅ scan.rows
  match scan.fault with
  | none => return table
  | some fault => throw fault

def replacement (table : Table) : List Edit :=
  .create :: .clear :: (rowsOfTable table).map fun (key, value) => .put key value

/-!
# Cells
-/

namespace TableStore

variable {m : Type → Type} [Monad m]

/-- The result of an operation on a store, whose failure is one of the stored state. -/
def result {α : Type} (operation : m (Except StateFault α)) : ExceptT Failure m α := do
  match ← (operation : m _) with
  | .ok value => return value
  | .error fault => throw (.state fault)

def load (store : TableStore m) (name : TableName) : ExceptT Failure m (Option Table) :=
  result do
    match ← store.read name with
    | .error fault => return .error fault
    | .ok none => return .ok none
    | .ok (some scan) => return scan.table.map some

def replace (store : TableStore m) (name : TableName) (table : Table) :
    ExceptT Failure m Unit :=
  result (store.change name (replacement table))

def fingerprints (store : TableStore m) : Cell m Fingerprints where
  load := store.load .fingerprints
  save table := store.replace .fingerprints table

def ownershipRows (register : Ownership) : Table :=
  register.byClass.toList.foldl (fun table (name, source) => table.insert name.text source) ∅

def ofOwnershipRows (table : Table) : Ownership :=
  Ownership.ofClasses
    (table.toList.foldl (fun classes (name, source) => classes.insert ⟨name⟩ source) ∅)

def ownership (store : TableStore m) : Cell m Ownership where
  load := do
    let table ← store.load .owners
    return table.map ofOwnershipRows
  save register := store.replace .owners (ownershipRows register)

end TableStore
end State
end Recompile
