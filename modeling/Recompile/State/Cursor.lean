import Recompile.State.Transaction

/-!
# Cursors

A cursor is a way through a tree, from its root down to a node of a leaf. It
is what rows are looked up with, and where rows are added and removed.
-/

namespace Recompile
namespace State

structure Position where
  page : PageRef
  index : Nat

structure Cursor where
  tree : TreeName
  /-- The nodes on the way, that of the leaf first. -/
  path : List Position
  /-- Whether the way was taken to its end. -/
  isPlaced : Bool

def depthLimit : Nat := 32

namespace Cursor

def new (tree : TreeName) : Cursor :=
  ⟨tree, [], false⟩

def withIndex (cursor : Cursor) (index : Nat) : Cursor :=
  match cursor.path with
  | [] => cursor
  | top :: above => { cursor with path := { top with index := index } :: above }

def index (cursor : Cursor) : Nat :=
  (cursor.path.head?.map Position.index).getD 0

def push (cursor : Cursor) (page : PageRef) : Paging Cursor := do
  if depthLimit ≤ cursor.path.length then spoil .tooDeep
  return { cursor with path := ⟨page, 0⟩ :: cursor.path }

def page (cursor : Cursor) : Paging Page :=
  match cursor.path with
  | [] => return .ofBuffer .empty
  | top :: _ => pageAt top.page

def node (cursor : Cursor) : Paging Node := do
  return (← cursor.page).node cursor.index

def changePage (cursor : Cursor) (change : Buffer → Buffer) : Paging Unit :=
  match cursor.path with
  | [] => pure ()
  | top :: _ => State.changePage top.page change

end Cursor

/-!
# Looking for a key in a page
-/

structure Found where
  index : Nat
  isExact : Bool
  /-- Whether a node was looked at and there is one at the index. -/
  isNode : Bool

/--
Halves the run of indices from `low` up to `high` until the node is found that
compares equal, and tells which node was looked at last and how it compared.
-/
def bisect (compare : Nat → Ordering) (low high : Nat) (last : Nat × Ordering) :
    Nat × Ordering :=
  if low < high then
    let middle := (low + high - 1) / 2
    match compare middle with
    | .eq => (middle, .eq)
    | .gt => bisect compare (middle + 1) high (middle, .gt)
    | .lt => bisect compare low middle (middle, .lt)
  else last
termination_by high - low
decreasing_by all_goals omega

/-- Looks for a key; the first node of a branch is passed over. -/
def Page.find (page : Page) (order : KeyOrder) (key : Slice) : Found :=
  let low := if page.isA .leaf then 0 else 1
  let compare := order.compareOn page key
  let (middle, outcome) :=
    bisect (fun index => compare (page.node index).key) low page.count (0, .eq)
  let index := if outcome = .gt then middle + 1 else middle
  ⟨index, outcome = .eq && page.count ≠ 0, low < page.count && index < page.count⟩

def Page.childIndex (page : Page) (order : KeyOrder) (key : Slice) : Nat :=
  let found := page.find order key
  if !found.isNode then page.count - 1
  else if found.isExact then found.index
  else found.index - 1

/-!
# Going down
-/

inductive Aim where
  | first
  | last
  | key (key : Slice)

/-- What is done to the last page of a way, whenever a page was added to it. -/
abbrev Arrival := Cursor → Paging Cursor

namespace Cursor

def descend (arrive : Arrival) (aim : Aim) : Nat → Cursor → Paging Cursor
  | 0, _ => spoil .tooDeep
  | levels + 1, cursor => do
    let page ← cursor.page
    if page.isA .branch then
      let order ← orderOf cursor.tree
      let index :=
        match aim with
        | .first => 0
        | .last => page.count - 1
        | .key key => page.childIndex order key
      let child ← findPage (page.node index).child
      let below ← (cursor.withIndex index).push child
      descend arrive aim levels (← arrive below)
    else if page.isA .leaf then return { cursor with isPlaced := true }
    else spoil .wrongPage

def searchFrom (root : Nat) (arrive : Arrival) (aim : Aim) (cursor : Cursor) :
    Paging Cursor := do
  if root = noPage then throw .nothingThere
  let page ← findPage root
  let index := (cursor.path.getLast?.map Position.index).getD 0
  let begun ← arrive { cursor with path := [⟨page, index⟩] }
  begun.descend arrive aim (depthLimit + 1)

def searchTree (arrive : Arrival) (aim : Aim) (cursor : Cursor) : Paging Cursor := do
  cursor.searchFrom (← recordOf cursor.tree).root arrive aim

def leaveAlone : Arrival :=
  fun cursor => return cursor

def lookAt (aim : Aim) (tree : TreeName) : Paging Cursor :=
  (new tree).searchTree leaveAlone aim

end Cursor

def valueOf (node : Node) : Paging Slice := do
  if node.isA .elsewhere then
    let page ← pageAt (← findPage node.valuePage)
    return ⟨page.buffer, page.start + headerSize, node.valueSize⟩
  else return node.value

def Node.isTable (node : Node) : Bool :=
  node.isA .table && !node.isA .several

def refreshTable : Paging Unit := do
  let name := Slice.ofBuffer (← get).table.name
  let cursor ← Cursor.lookAt (.key name) .catalog
  let page ← cursor.page
  let found := page.find (← orderOf .catalog) name
  if !found.isExact then throw .lostTable
  let node := page.node found.index
  if !node.isTable then throw .otherTable
  let record := Record.ofSlice (← valueOf node)
  let now ← get
  if lastingFlags now.table.record.flags ≠ record.flags then throw .otherTable
  set { now with table := { now.table with record := record, isStale := false } }

namespace Cursor

def search (arrive : Arrival) (aim : Aim) (cursor : Cursor) : Paging Cursor := do
  requireSound
  if cursor.tree = .table && (← get).table.isStale then refreshTable
  cursor.searchTree arrive aim

def firstRow : Paging (Option Cursor) :=
  tryCatch (some <$> (new .table).search leaveAlone .first) fun fault =>
    if fault = .nothingThere then return none else throw fault

end Cursor

def lookForRoot : Paging Unit := do
  refreshTable
  let root := (← recordOf .table).root
  if root ≠ noPage then
    let _ ← findPage root

/--
Gets ready to go through the table. What fails now fails again later; only
that an operation on pages failed is kept.
-/
def openCursor : Paging Unit := do
  requireSound
  if (← get).table.isStale then tryCatch lookForRoot fun _ => pure ()

namespace Cursor

/-!
# Looking for a key
-/

def hasLater (path : List Position) : Paging Bool :=
  path.anyM fun position => do
    return position.index + 1 < (← pageAt position.page).count

inductive Nearby where
  /-- The key is at this index of the last page. -/
  | here (index : Nat)
  /-- The key is in the last page or nowhere. -/
  | within
  /-- The key is nowhere, and belongs at this index of the last page. -/
  | absent (index : Nat)
  | unknown

def nearby (cursor : Cursor) (key : Slice) : Paging Nearby := do
  let page ← cursor.page
  let count := page.count
  if count = 0 then return .absent 0
  let compare := (← orderOf cursor.tree).compare key
  let against (index : Nat) : Ordering := compare (page.node index).key
  match against 0 with
  | .eq => return .here 0
  | .lt => return if cursor.path.length ≤ 1 then .absent 0 else .unknown
  | .gt =>
    let afterLast := if count = 1 then .gt else against (count - 1)
    match afterLast with
    | .eq => return .here (count - 1)
    | .lt =>
      if cursor.index < count && against cursor.index = .eq then return .here cursor.index
      else return .within
    | .gt => return if ← hasLater cursor.path.tail then .unknown else .absent count

def seek (cursor : Cursor) (key : Slice) : Paging (Cursor × Bool) := do
  let near ← if cursor.isPlaced then cursor.nearby key else pure .unknown
  match near with
  | .here index => return (cursor.withIndex index, true)
  | .absent index => return (cursor.withIndex index, false)
  | near =>
    let placed ←
      match near with
      | .within => pure cursor
      | _ => cursor.search leaveAlone (.key key)
    let found := (← placed.page).find (← orderOf cursor.tree) key
    return (placed.withIndex found.index, found.isExact)

def seekRow (cursor : Cursor) (key : Slice) : Paging (Cursor × Bool) := do
  let (found, isThere) ← cursor.seek key
  if isThere then
    let _ ← valueOf (← found.node)
  return (found, isThere)

/-!
# Going on
-/

def beside (isRight : Bool) : List Position → Paging (Option (List Position))
  | [] => return none
  | [_] => return none
  | _ :: parent :: above => do
    let page ← pageAt parent.page
    let isLast := if isRight then page.count ≤ parent.index + 1 else parent.index = 0
    let moved ←
      if isLast then beside isRight (parent :: above)
      else
        let index := if isRight then parent.index + 1 else parent.index - 1
        pure (some ({ parent with index := index } :: above))
    match moved with
    | some (position :: above) =>
      let child ← findPage ((← pageAt position.page).node position.index).child
      let count := (← pageAt child).count
      let index := if isRight then 0 else count - 1
      return some (⟨child, index⟩ :: position :: above)
    | _ => return none

def nextPage (cursor : Cursor) : Paging (Option Cursor) := do
  match ← beside true cursor.path with
  | none => return none
  | some path =>
    let next := { cursor with path := path }
    if !(← next.page).isA .leaf then throw .wrongPage
    return some next

def toFirst (cursor : Cursor) : Paging Cursor := do
  let found ←
    if cursor.isPlaced && cursor.path.length ≤ 1 then pure cursor
    else cursor.search leaveAlone .first
  return found.withIndex 0

def toNext (cursor : Cursor) : Paging (Option Cursor) := do
  if cursor.index + 1 < (← cursor.page).count then
    return some (cursor.withIndex (cursor.index + 1))
  else cursor.nextPage

def toNotBefore (key : Slice) (tree : TreeName) : Paging (Option Cursor) := do
  let cursor ← (new tree).search leaveAlone (.key key)
  let found := (← cursor.page).find (← orderOf tree) key
  if found.isNode then return some (cursor.withIndex found.index)
  else cursor.nextPage

end Cursor
end State
end Recompile
