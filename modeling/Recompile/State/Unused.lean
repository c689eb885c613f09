import Recompile.State.Removal

/-!
# Keeping unused pages

Before a transaction ends, the pages that it gave up get a row in the table
of unused pages, under the number of the change. The rows whose pages were
taken are removed, and what is left of their pages is put into rows with
lower numbers. All of this takes pages too and gives some up, so it is done
over and over until nothing changes any more.
-/

namespace Recompile
namespace State

/-!
# Removing a row
-/

/-- The first node of a branch has no key. -/
def bareFirst (buffer : Buffer) : Buffer :=
  let child := ((Page.ofBuffer buffer).node 0).child
  let removed : Buffer := buffer.removeNode 0
  removed.addNode 0 child .empty .empty nodeHeaderSize

def prune (tree : TreeName) : List Position → Paging (List Position)
  | [] => return []
  | top :: above => do
    let page ← pageAt top.page
    if page.count ≠ 0 then return top :: above
    giveUp page.number
    match above with
    | [] => do
      modifyRecord tree fun record => { record with root := noPage, depth := 0, leaves := 0 }
      return []
    | parent :: _ => do
      changePage parent.page fun buffer =>
        let removed : Buffer := buffer.removeNode parent.index
        if parent.index = 0 && (Page.ofBuffer removed).count ≠ 0 then bareFirst removed
        else removed
      modifyRecord tree fun record =>
        if page.isA .leaf then { record with leaves := record.leaves - 1 }
        else { record with branches := record.branches - 1 }
      prune tree above

namespace Cursor

def removeRow (cursor : Cursor) : Paging Cursor := do
  requireSound
  if (← cursor.page).count ≤ cursor.index then throw .nothingThere
  let ready ← cursor.touchAll
  let node ← ready.node
  if node.isA .table then spoil .otherTable
  if node.isA .elsewhere then
    tryCatch (do giveUpValue cursor.tree (← findPage node.valuePage)) spoil
  ready.changePage fun buffer => buffer.removeNode ready.index
  modifyRecord cursor.tree fun record => { record with rows := record.rows - 1 }
  let pruned ← prune cursor.tree ready.path
  return { ready with path := pruned, isPlaced := pruned.length = ready.path.length }

end Cursor

/-!
# Saving
-/

/-- A list of pages as the value of a row: their count, and the highest number first. -/
def pageList (pages : List Nat) : Buffer :=
  let count := pages.length
  let falling := pages.mergeSort fun a b => b ≤ a
  Buffer.ofNumbers (8 * (count + 1)) ((8, count) :: falling.map fun page => (8, page))

def reserve (cursor : Cursor) (change count : Nat) : Paging Cursor :=
  cursor.put false ⟨(changeKey change).contents, 0, .room (8 * (count + 1))⟩

structure Keeping where
  cursor : Cursor
  /-- The last change whose row was removed. -/
  removed : Nat
  /-- How many pages are in the row of this change. -/
  saved : Nat
  /-- The row that is filled with pages that were not taken, and the room in it. -/
  row : Nat
  room : Int
  /-- The room in all such rows. -/
  total : Int
  /-- Whether there may be another attempt at less room than was reserved. -/
  mayShrink : Bool

namespace Keeping

def removeTaken : Nat → Keeping → Paging Keeping
  | 0, keeping => return keeping
  | steps + 1, keeping => do
    if (← get).lastReused ≤ keeping.removed then return keeping
    let first ← keeping.cursor.toFirst
    let change := (← first.node).key.number 0 8
    let cursor ← first.removeRow
    removeTaken steps
      { keeping with cursor := cursor, removed := change, row := change, room := 0, total := 0 }

/-- Reserves the row of this change, until it has room for all pages that were given up. -/
def reserveFreed : Nat → Keeping → Paging Keeping
  | 0, keeping => return keeping
  | steps + 1, keeping => do
    let now ← get
    let count := now.freed.length
    let cursor ← reserve keeping.cursor now.change count
    let next := { keeping with cursor := cursor, saved := count }
    if count < (← get).freed.length then reserveFreed steps next else return next

def stepLimit : Nat := 2 ^ 16

def saveFreed (keeping : Keeping) : Paging Keeping := do
  let cursor ←
    if keeping.saved = 0 then
      tryCatch (keeping.cursor.search Cursor.touch .last) fun fault =>
        if fault = .nothingThere then return keeping.cursor else throw fault
    else pure keeping.cursor
  let reserved ← reserveFreed stepLimit { keeping with cursor := cursor }
  reserved.cursor.writeValue 0 (pageList (← get).freed)
  return reserved

def nextRoom (limit row : Nat) (needed : Int) : Int :=
  if (limit : Int) < needed && 1 < row then
    let share := needed / row
    share + limit - share % (limit + 1)
  else max 0 needed

def reserveRest (keeping : Keeping) (count : Nat) : Paging Keeping := do
  let limit := (← get).layout.listLimit
  let isOpen := keeping.total < count && (limit : Int) ≤ keeping.room && 1 < keeping.row
  let row := if isOpen then keeping.row - 1 else keeping.row
  let others := if isOpen then keeping.total else keeping.total - keeping.room
  let room := nextRoom limit row (count - others)
  let cursor ← reserve keeping.cursor row room.toNat
  let cleared := if (limit : Int) < room then room.toNat + 1 else 1
  cursor.writeValue 0 (Buffer.zeros (8 * cleared))
  return { keeping with cursor := cursor, row := row, room := room, total := others + room }

/-- Removes and reserves rows until nothing changes any more. -/
def settle : Nat → Keeping → Paging Keeping
  | 0, keeping => return keeping
  | steps + 1, keeping => do
    let removed ← removeTaken stepLimit keeping
    let now ← get
    if removed.saved < now.freed.length then
      settle steps (← removed.saveFreed)
    else
      let count := (now.reusable.getD []).length
      if removed.total = count then return removed
      else if (count : Int) < removed.total then
        if removed.mayShrink then
          settle steps (← { removed with mayShrink := false }.reserveRest count)
        else return removed
      else settle steps (← removed.reserveRest count)

end Keeping

def fillRows : Nat → Cursor → List Nat → Paging Unit
  | 0, _, _ => pure ()
  | steps + 1, cursor, pages => do
    let node ← cursor.node
    let length := min ((← valueOf node).size / 8 - 1) pages.length
    requireSound
    let ready ← cursor.touchAll
    let key := node.key.contents
    let list := pageList (pages.take length)
    let filled ← ready.replaceRow false ⟨key, 0, .value (.ofBuffer list)⟩
    let others := pages.drop length
    if others.isEmpty then return
    match ← filled.toNext with
    | some next => fillRows steps next others
    | none => throw .nothingThere

def keepUnused : Paging Unit := do
  let cursor := Cursor.new .unused
  let begun ←
    if (← get).reusable.isNone then pure cursor
    else
      tryCatch (cursor.search Cursor.touch .first) fun fault =>
        if fault = .nothingThere then return cursor else throw fault
  let settled ← Keeping.settle Keeping.stepLimit ⟨begun, 0, 0, 0, 0, 0, true⟩
  let pages := (← get).reusable.getD []
  if !pages.isEmpty then
    fillRows Keeping.stepLimit (← settled.cursor.toFirst) pages

end State
end Recompile
