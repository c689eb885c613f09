import Recompile.State.Insertion

/-!
# Putting rows

A row is put where its key belongs. If the key is there already, its value is
replaced, in place where the new one fits there.
-/

namespace Recompile
namespace State

def keyLimit : Nat := 511

def isGoodKeySize (size : Nat) : Bool :=
  1 ≤ size && size ≤ keyLimit

namespace Cursor

def writeValue (cursor : Cursor) (offset : Nat) (bytes : Buffer) : Paging Unit := do
  let page ← cursor.page
  let node := page.node cursor.index
  if node.isA .elsewhere then
    let ref ← findPage node.valuePage
    State.changePage ref fun buffer => buffer.write (headerSize + offset) bytes
  else
    let place := page.nodePlace cursor.index + node.valuePlace + offset
    cursor.changePage fun buffer => buffer.write place bytes

def addRow (isReplacing isTracked : Bool) (cursor : Cursor) (node : NewNode) :
    Paging Cursor := do
  let page ← cursor.page
  let layout := (← get).layout
  if page.room < layout.leafRoom node.key.size node.payload.size then
    return (← split isReplacing isTracked (depthLimit + 1) cursor [] node).1
  else
    match cursor.path with
    | top :: _ => addNode cursor.tree top.page top.index node
    | [] => pure ()
    return cursor

def insertRow (isTracked : Bool) (cursor : Cursor) (node : NewNode) : Paging Cursor := do
  let added ← cursor.addRow false isTracked node
  modifyRecord cursor.tree fun record => { record with rows := record.rows + 1 }
  return { added with isPlaced := true }

def plant (cursor : Cursor) : Paging Cursor := do
  let root ← newPage cursor.tree PageKind.leaf.mark
  modifyRecord cursor.tree fun record =>
    { record with root := root, depth := (record.depth + 1) % 2 ^ 16 }
  markChanged cursor.tree
  return { cursor with path := [⟨.written root, 0⟩], isPlaced := true }

def exchangeRow (isTracked : Bool) (cursor : Cursor) (node : NewNode) : Paging Cursor := do
  let index := cursor.index
  cursor.changePage fun buffer => buffer.removeNode index
  cursor.addRow true isTracked node

def replaceRow (isTracked : Bool) (cursor : Cursor) (node : NewNode) : Paging Cursor := do
  let page ← cursor.page
  let old := page.node cursor.index
  let size := node.payload.size
  if old.isA .table ≠ RowKind.table.isIn node.mark then throw .otherTable
  if old.isA .elsewhere then
    let ref ← findPage old.valuePage
    let layout := (← get).layout
    match ref with
    | .written _ =>
      if layout.valuePageCount size ≤ (← pageAt ref).valuePages then
        let place := page.nodePlace cursor.index
        cursor.changePage fun buffer => buffer.setNumber place 4 size
        cursor.writeValue 0 node.payload.contents
        return cursor
    | .stored _ => pure ()
    giveUpValue cursor.tree ref
    cursor.exchangeRow isTracked node
  else if size = old.valueSize then
    cursor.writeValue 0 node.payload.contents
    return cursor
  else cursor.exchangeRow isTracked node

def put (isTracked : Bool) (cursor : Cursor) (node : NewNode) : Paging Cursor := do
  requireSound
  if !isGoodKeySize node.key.size then throw .badKeySize
  let record ← recordOf cursor.tree
  if TableFlag.several.isIn record.flags && keyLimit < node.payload.size then
    throw .badKeySize
  if record.root = noPage then
    let planted ← cursor.plant
    planted.insertRow isTracked node
  else
    let (found, isThere) ← cursor.seekRow (.ofBuffer node.key)
    let ready ← found.touchAll
    if isThere then ready.replaceRow isTracked node else ready.insertRow isTracked node

end Cursor
end State
end Recompile
