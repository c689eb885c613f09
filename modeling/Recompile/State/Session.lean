import Recompile.State.Scan
import Recompile.State.Unused

/-!
# Sessions

While the file is open, some of what was learned of it is kept: how it is
laid out, how many changes it has seen, the tables that were opened, and the
order of the catalog. A session reads a table, or changes one as a whole.
-/

namespace Recompile
namespace State

structure Session where
  layout : Layout
  latest : Nat
  /-- The tables that were open in a change. -/
  known : List KnownTable
  /-- The order of the catalog, once a table was looked for in it. -/
  catalogOrder : Option KeyOrder
  /-- Buffers that were used for pages before. -/
  spare : List Buffer

abbrev Piece := Nat × Buffer

inductive Edit where
  /-- The table is made if it is missing. -/
  | create
  | clear
  | put (key value : Bytes)
deriving DecidableEq

/-!
# Opening a table
-/

def OpenTable.unknown (name : Buffer) : OpenTable where
  name := name
  order := .bytes
  record := .empty
  isStale := false
  isChanged := false

def useRecord (record : Record) (isChanged : Bool) : Paging Unit :=
  modify fun now =>
    { now with
      table := {
        now.table with
        record := record
        order := .ofFlags record.flags
        isChanged := isChanged
      } }

def useKnown (known : KnownTable) : Paging Unit :=
  modify fun now =>
    { now with
      table := {
        now.table with
        order := known.order
        record := { Record.empty with flags := known.flags }
        isStale := true
      } }

def putRecord (isTracked : Bool) (cursor : Cursor) : Paging Unit := do
  let table := (← get).table
  let record := Slice.ofBuffer table.record.toBuffer
  let _ ← cursor.put isTracked ⟨table.name, RowKind.table.mark, .value record⟩

def findRecord : Paging (Cursor × Option Record) := do
  let cursor := Cursor.new .catalog
  let name := Slice.ofBuffer (← get).table.name
  let (found, isThere) ←
    tryCatch (cursor.seekRow name) fun fault =>
      if fault = .nothingThere then return (cursor, false) else throw fault
  if isThere then
    let node ← found.node
    if !node.isTable then throw .otherTable
    return (found, some (.ofSlice (← valueOf node)))
  else return (found, none)

/-- Whether named tables can be in a catalog with these flags. -/
def canHoldTables (flags : Nat) : Bool :=
  !TableFlag.several.isIn flags && !TableFlag.numbers.isIn flags

def openTable (isRefused : Paging Bool) (isMissing : Cursor → Paging Bool) : Paging Bool := do
  let now ← get
  match now.known.find? fun known => known.name = now.table.name with
  | some known => do
    useKnown known
    return true
  | none =>
    if !canHoldTables now.catalog.flags then isRefused
    else
      match ← findRecord with
      | (_, some record) => do
        useRecord record false
        return true
      | (cursor, none) => isMissing cursor

def lookForTable : Paging Bool :=
  openTable (return false) fun _ => return false

def createTable : Paging Bool :=
  openTable (throw .otherTable) fun cursor => do
    useRecord .empty true
    putRecord true cursor
    return true

def applyEdit : Edit → Paging Unit
  | .create => do
    let _ ← createTable
  | .clear => clearTable
  | .put key value => do
    let _ ← (Cursor.new .table).put true
      ⟨Buffer.ofBytes key, 0, .value (.ofBuffer (Buffer.ofBytes value))⟩

/-- Takes all steps of a change, and brings the tables that lead to others up to date. -/
def applyAll (edits : List Edit) : Paging Unit := do
  edits.forM applyEdit
  requireSound
  if (← get).table.isChanged then
    putRecord false (Cursor.new .catalog)
  keepUnused

/-!
# Writing
-/

namespace Transaction

def placeBound : Nat := 2 ^ 64

def finish (page : Buffer) : Buffer :=
  let mark := (Page.ofBuffer page).mark
  page.setNumber 10 2 (mark / 32 * 32 + mark % 16)

def pieceOf (layout : Layout) (number : Nat) (page : Buffer) : Piece :=
  (number * layout.pageSize % placeBound, finish page)

def isSingle (page : Buffer) : Bool :=
  !(Page.ofBuffer page).isA .value || (Page.ofBuffer page).valuePages = 1

def leftOver (transaction : Transaction) (finish : Buffer → Buffer) : List Buffer :=
  transaction.written.toList.foldl
    (fun spare (_, page) => if isSingle page then finish page :: spare else spare)
    transaction.spare

def headPiece (transaction : Transaction) : Piece :=
  let layout := transaction.layout
  let other := layout.head transaction.file (transaction.change + 1)
  let head : Head := {
    sizeLimit := max other.sizeLimit layout.sizeLimit
    unused := transaction.unused
    catalog := transaction.catalog
    lastPage := transaction.next - 1
    change := transaction.change
  }
  (layout.headPlaceOf transaction.change + headPlace, head.toBuffer)

/-- All that a change writes, the first page last. -/
def pieces (transaction : Transaction) : List Piece :=
  (transaction.written.toList.map fun (number, page) => pieceOf transaction.layout number page)
    ++ [transaction.headPiece]

def nowKnown (transaction : Transaction) : List KnownTable :=
  let table := transaction.table
  if transaction.known.any fun known => known.name = table.name then transaction.known
  else transaction.known ++ [⟨table.name, lastingFlags table.record.flags, table.order⟩]

end Transaction

/-!
# Sessions
-/

namespace Session

def start (file : Buffer) : Except StateFault (Session × List Piece) := do
  let isFresh := file.size = 0
  let found := if isFresh then freshFile else file
  let layout ← if isFresh then .ok ⟨newPageSize, sizeLimit⟩ else Layout.ofFile file
  return (⟨layout, layout.latestChange found, [], none, []⟩,
    if isFresh then [(0, freshFile)] else [])

def begin (session : Session) (file : Buffer) (name : Buffer) :
    Except StateFault Transaction :=
  let head := session.layout.head file session.latest
  let next := (head.lastPage + 1) % 2 ^ 64
  if session.layout.pageLimit < next then .error .outgrown
  else
    .ok {
      file := file
      layout := session.layout
      change := (session.latest + 1) % changeBound
      next := next
      unused := head.unused
      catalog := head.catalog
      catalogOrder := session.catalogOrder.getD (.ofFlags head.catalog.flags)
      known := session.known
      table := .unknown name
      written := ∅
      freed := []
      reusable := none
      lastReused := 0
      spare := session.spare
      isSpoiled := false
    }

def read (session : Session) (file : Buffer) (name : Buffer) :
    Except StateFault (Option Scan) × Session :=
  match session.begin file name with
  | .error fault => (.error fault, session)
  | .ok transaction =>
    let (found, _) :=
      (do if ← lookForTable then some <$> scanTable else return none : Paging _).run transaction
    (found, { session with catalogOrder := some transaction.catalogOrder })

def change (session : Session) (file : Buffer) (name : Buffer) (edits : List Edit) :
    Except StateFault (List Piece) × Session :=
  match session.begin file name with
  | .error fault => (.error fault, session)
  | .ok transaction =>
    let started := { session with catalogOrder := some transaction.catalogOrder }
    match (applyAll edits).run transaction with
    | (.error fault, ended) => (.error fault, { started with spare := ended.leftOver id })
    | (.ok (), ended) =>
      (.ok ended.pieces,
        { started with
          latest := ended.change
          known := ended.nowKnown
          spare := ended.leftOver Transaction.finish })

/-- The session after a change that could not be written. -/
def undo (before after : Session) : Session :=
  { before with catalogOrder := after.catalogOrder, spare := after.spare }

end Session
end State
end Recompile
