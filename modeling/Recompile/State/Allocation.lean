import Recompile.State.Cursor

/-!
# New pages

A page is taken from the unused ones of changes before the last one, as far
as they were read, and otherwise from beyond the last page of the file. What
has to be changed is copied to a new page first, up to the root of the tree.
-/

namespace Recompile
namespace State

/-!
# Unused pages
-/

def takeRun (count : Nat) (before : List Nat) : List Nat → Option (Nat × List Nat)
  | [] => none
  | page :: pages =>
    if (page :: pages)[count - 1]? = some (page + count - 1) then
      some (page, before.reverse ++ (page :: pages).drop count)
    else takeRun count (page :: before) pages

def unusedPages (value : Slice) : Paging (List Nat) := do
  let count := value.number 0 8
  if value.buffer.size < 8 * count then spoil (.disk .outOfMemory)
  return (List.range count).map fun index => value.number (8 * (count - index)) 8

def ifThere {α : Type} (operation : Paging (Option α)) : Paging (Option α) :=
  tryCatch operation fun fault =>
    if fault = .nothingThere then return none else spoil fault

def changeKey (change : Nat) : Slice :=
  .ofBuffer (Buffer.ofNumbers 8 [(8, change)])

def firstUnread : Paging (Option Cursor) := do
  let last := (← get).lastReused
  if last = 0 then
    let cursor ← (Cursor.new .unused).search Cursor.leaveAlone .first
    return some (cursor.withIndex 0)
  else Cursor.toNotBefore (changeKey (last + 1)) .unused

def readUnused (change : Nat) (node : Node) : Paging Unit := do
  let pages ← unusedPages (← valueOf node)
  modify fun now =>
    { now with
      reusable := some (List.merge (now.reusable.getD []) pages fun old new => old < new)
      lastReused := change }

/--
Looks for a run of unused pages. As long as there is none, the next row is
read, but no row that is as late as the last change. There are no more rows
than the file has bytes.
-/
def findRun (count : Nat) : Nat → Nat → Option Cursor → Nat → Paging (Option Nat)
  | 0, _, _, _ => return none
  | rows + 1, retries, cursor, last => do
    let pages := (← get).reusable.getD []
    match takeRun count [] pages with
    | some (page, others) => do
      modify fun now => { now with reusable := some others }
      return some page
    | none =>
      let isLong := count ≤ pages.length
      if isLong && retries = 0 then return none
      let oldest := (← get).before
      if oldest ≤ (last + 1) % changeBound then return none
      let row ← ifThere (match cursor with
        | none => firstUnread
        | some cursor => cursor.toNext)
      match row with
      | none => return none
      | some row =>
        let node ← row.node
        let change := node.key.number 0 8
        if oldest ≤ change then return none
        let _ ← ifThere (some <$> readUnused change node)
        findRun count rows (if isLong then retries - 1 else retries) (some row) change

def takePages (count : Nat) : Paging Nat := do
  let start ← get
  match ← findRun count start.file.size (60 * count) none start.lastReused with
  | some page => return page
  | none =>
    let now ← get
    if now.layout.pageLimit ≤ now.next + count then spoil .full
    set { now with next := now.next + count }
    return now.next

/-!
# Buffers
-/

/-- A buffer for a page. One that was used before keeps what was in it. -/
def takeBuffer : Paging Buffer := do
  let now ← get
  match now.spare with
  | buffer :: others => do
    set { now with spare := others }
    return buffer
  | [] => return Buffer.zeros now.layout.pageSize

def giveBuffer (buffer : Buffer) : Paging Unit :=
  modify fun now => { now with spare := buffer :: now.spare }

def allocate (count : Nat) : Paging Nat := do
  let number ← takePages count
  let buffer ←
    if count = 1 then takeBuffer
    else do
      let now ← get
      pure (Buffer.zeros (count * now.layout.pageSize))
  modify fun now =>
    { now with written := now.written.insert number (Buffer.setPageNumber buffer number) }
  return number

def writtenMark : Nat := 0x10

def writtenPage (number : Nat) : Paging Page :=
  pageAt (.written number)

def Record.withPages (record : Record) (mark count : Nat) : Record :=
  if PageKind.branch.isIn mark then { record with branches := record.branches + 1 }
  else if PageKind.leaf.isIn mark then { record with leaves := record.leaves + 1 }
  else if PageKind.value.isIn mark then { record with valuePages := record.valuePages + count }
  else record

def newPage (tree : TreeName) (mark : Nat) : Paging Nat := do
  let number ← allocate 1
  let size := (← get).layout.pageSize
  changePage (.written number) fun buffer =>
    buffer.setHeader (mark / 32 * 32 + mark % 16 + writtenMark) headerSize size
  modifyRecord tree fun record => record.withPages mark 1
  return number

def newValue (tree : TreeName) (count : Nat) (value : Buffer) : Paging Nat := do
  let number ← allocate count
  changePage (.written number) fun buffer =>
    let marked : Buffer := Buffer.setNumber buffer 10 2 (PageKind.value.mark + writtenMark)
    let counted : Buffer := marked.setNumber 12 4 count
    counted.write headerSize value
  modifyRecord tree fun record => record.withPages PageKind.value.mark count
  return number

/-- Gives pages up, which stay as they are for as long as the last change counts. -/
def giveUp (page : Nat) : Paging Unit :=
  modify fun now => { now with freed := page :: now.freed }

def releaseLimit : Nat := 2 ^ 22

def giveUpRun (page count : Nat) : Paging Unit := do
  if releaseLimit < count then throw (.disk .outOfMemory)
  modify fun now => { now with freed := (List.range' page count).reverse ++ now.freed }

/--
Gives up the pages of a value. Those that the transaction wrote itself may be
taken again at once, if unused ones were looked for before.
-/
def giveUpValue (tree : TreeName) (ref : PageRef) : Paging Unit := do
  let page ← pageAt ref
  let first := page.number
  let count := page.valuePages
  let now ← get
  match ref, now.reusable with
  | .written number, some pages => do
    let run := List.range' first count
    let isBefore (page : Nat) : Bool := page < first
    set { now with
      written := now.written.erase number
      reusable := some (pages.takeWhile isBefore ++ run ++ pages.dropWhile isBefore)
      spare := if count = 1 then page.buffer :: now.spare else now.spare }
  | _, _ => giveUpRun first count
  modifyRecord tree fun record => record.withoutValuePages count

namespace Cursor

def touch (cursor : Cursor) : Paging Cursor :=
  match cursor.path with
  | [] => return cursor
  | top :: above =>
    match top.page with
    | .written _ => return cursor
    | .stored _ => do
      let page ← pageAt top.page
      let number ← try allocate 1 catch fault => spoil fault
      giveUp page.number
      match above with
      | parent :: _ =>
        State.changePage parent.page fun buffer => buffer.setChild parent.index number
      | [] => modifyRecord cursor.tree fun record => { record with root := number }
      let size := (← get).layout.pageSize
      let mark := page.mark
      State.changePage (.written number) fun buffer =>
        let copied : Buffer := Buffer.copyPage buffer page size
        let numbered : Buffer := copied.setPageNumber number
        numbered.setNumber 10 2 (mark / 32 * 32 + mark % 16 + writtenMark)
      return { cursor with path := { top with page := .written number } :: above }

def touchPath (tree : TreeName) : List Position → Paging (List Position)
  | [] => return []
  | top :: above => do
    let above ← touchPath tree above
    return (← (Cursor.mk tree (top :: above) true).touch).path

def touchAll (cursor : Cursor) : Paging Cursor := do
  return { cursor with path := ← touchPath cursor.tree cursor.path }

end Cursor
end State
end Recompile
