import Recompile.State.Cursor

/-!
# Reading a table

The rows of a table are read from the first to the last. What cannot be read
ends the reading, and the rows before it still count. The last page of the
file may be cut off, but nothing is read beyond it.
-/

namespace Recompile
namespace State

/-- The rows that were read, and why reading ended early if it did. -/
structure Scan where
  rows : List (Bytes × Bytes)
  fault : Option StateFault

abbrev Findings := Array Slice × Option StateFault

def attempt {α : Type} (operation : Paging α) : Paging (Except StateFault α) :=
  tryCatch (.ok <$> operation) fun fault => return .error fault

/-- How many rows are read at most: each has a place in the file. -/
def scanLimit : Paging Nat := do
  return (← get).file.size

def Page.keys (page : Page) (bareSize : Nat) : List Slice :=
  let count := max 1 page.indices.length
  (List.range count).map fun index =>
    if page.isBare then page.bareKey bareSize index else (page.node index).key

def innerKeys (bareSize : Nat) : Nat → Cursor → Array Slice → Paging Findings
  | 0, _, found => return (found, none)
  | steps + 1, cursor, found => do
    let found := found ++ ((← cursor.page).keys bareSize).toArray
    match ← attempt cursor.nextPage with
    | .ok (some next) => innerKeys bareSize steps next found
    | .ok none => return (found, none)
    | .error fault => return (found, some fault)

def sameSizeFlag : Nat := 0x10

def isInFile (slice : Slice) : Bool :=
  slice.start + slice.size ≤ (slice.buffer.size + newPageSize - 1) / newPageSize * newPageSize

def valuesOf (node : Node) : Paging Findings := do
  if !node.isA .several then
    match ← attempt (valueOf node) with
    | .ok value => return if isInFile value then (#[value], none) else (#[], some .wrongPage)
    | .error fault => return (#[], some fault)
  else if node.isA .table then
    let record := Record.ofSlice node.value
    match ← attempt ((Cursor.new .table).searchFrom record.root Cursor.leaveAlone .first) with
    | .ok cursor => innerKeys record.padding (← scanLimit) cursor #[]
    | .error fault => return (#[], some fault)
  else
    let flags := (← recordOf .table).flags
    let page : Page := ⟨node.value.buffer, node.value.start⟩
    let size := if flags / sameSizeFlag % 2 = 1 then page.bareSize else 0
    return ((page.keys size).toArray, none)

def scanFrom : Nat → Cursor → Array (Bytes × Bytes) → Paging Scan
  | 0, _, rows => return ⟨rows.toList, none⟩
  | steps + 1, cursor, rows => do
    let node ← cursor.node
    let (values, fault) ← valuesOf node
    let key := Buffer.toBytes node.key.contents
    let rows := rows ++ values.map fun value => (key, Buffer.toBytes value.contents)
    match fault with
    | some fault => return ⟨rows.toList, some fault⟩
    | none =>
      match ← attempt cursor.toNext with
      | .ok (some next) => scanFrom steps next rows
      | .ok none => return ⟨rows.toList, none⟩
      | .error fault => return ⟨rows.toList, some fault⟩

def scanTable : Paging Scan := do
  openCursor
  match ← Cursor.firstRow with
  | none => return ⟨[], none⟩
  | some cursor =>
    let scan ← scanFrom (← scanLimit) (cursor.withIndex 0) #[]
    return if scan.fault = some .nothingThere then { scan with fault := none } else scan

end State
end Recompile
