import Recompile.State.Allocation

/-!
# Adding nodes

A node is added where its key belongs. A page that has no room for it is
split: the later nodes go to a new page to the right, for which a node is
added to the branch above. A root that is split gets a branch above it.
-/

namespace Recompile
namespace State

inductive Payload where
  | child (page : Nat)
  | value (value : Slice)
  /-- A value of this many bytes, which are put in later. -/
  | room (size : Nat)

namespace Payload

def size : Payload → Nat
  | child _ => 0
  | value slice => slice.size
  | room bytes => bytes

def contents : Payload → Buffer
  | value slice => slice.contents
  | _ => .empty

def pageNumber : Payload → Buffer
  | value slice => slice.buffer.part slice.start 8
  | _ => .empty

end Payload

structure NewNode where
  key : Buffer
  mark : Nat
  payload : Payload

def Layout.valuePageCount (layout : Layout) (size : Nat) : Nat :=
  (headerSize - 1 + size) / layout.pageSize + 1

def Layout.leafRoom (layout : Layout) (keySize valueSize : Nat) : Nat :=
  let whole := nodeHeaderSize + keySize + valueSize
  even ((if layout.nodeLimit < whole then nodeHeaderSize + keySize + 8 else whole) + 2)

def branchRoom (keySize : Nat) : Nat :=
  nodeHeaderSize + keySize + 2

def addSized (page : Buffer) (index head : Nat) (key content : Buffer) (size : Nat) :
    Paging Buffer := do
  if (Page.ofBuffer page).room < even size + 2 then spoil .crowdedPage
  return page.addNode index head key content (even size)

def leafHead (size mark : Nat) : Nat :=
  size % 2 ^ 32 + 2 ^ 32 * (mark % 2 ^ 16)

/-- Adds a node to a page, and pages for its value if it is too long. -/
def addNodeTo (tree : TreeName) (page : Buffer) (index : Nat) (node : NewNode) :
    Paging Buffer := do
  let layout := (← get).layout
  let size := node.payload.size
  let keyed := nodeHeaderSize + node.key.size
  match node.payload with
  | .child child => addSized page index child node.key .empty keyed
  | payload =>
    if RowKind.elsewhere.isIn node.mark then
      addSized page index (leafHead size node.mark) node.key payload.pageNumber (keyed + 8)
    else if layout.nodeLimit < keyed + size then
      if (Page.ofBuffer page).room < even (keyed + 8) + 2 then spoil .crowdedPage
      let number ← newValue tree (layout.valuePageCount size) payload.contents
      addSized page index (leafHead size (node.mark + RowKind.elsewhere.mark)) node.key
        (Buffer.ofNumbers 8 [(8, number)]) (keyed + 8)
    else addSized page index (leafHead size node.mark) node.key payload.contents (keyed + size)

def addNode (tree : TreeName) (ref : PageRef) (index : Nat) (node : NewNode) : Paging Unit := do
  let page ← pageAt ref
  let changed ← addNodeTo tree page.buffer index node
  changePage ref fun _ => changed

/-!
# Where to split

The nodes of a page and a new one, which comes before the node at some index,
are split in the middle. When nodes are large, or the new one is the last,
their sizes are added up until a page would be full.
-/

def Page.nodeAround (page : Page) (new index : Nat) : Node :=
  page.node (if index < new then index else index - 1)

def Page.placesAround (page : Page) (new : Nat) : List Nat :=
  let places := page.indices.map page.nodePlace
  if new < page.count then places.take new ++ 0 :: places.drop new else places

def Page.sizeWith (page : Page) (size : Nat) (node : Node) : Nat :=
  even (size + 2 + if page.isA .leaf then node.leafSize else node.valuePlace)

/-- The first index at which a size is over the limit, or the last index. -/
def overflowAt (grow : Nat → Nat → Nat) (limit : Nat) : Nat → List Nat → Option Nat
  | _, [] => none
  | size, index :: indices =>
    let grown := grow size index
    if limit < grown || indices.isEmpty then some index
    else overflowAt grow limit grown indices

def Layout.splitIndex (layout : Layout) (page : Page) (new size : Nat) : Nat :=
  let count := page.indices.length
  let middle := (count + 1) / 2
  let limit := layout.pageSize - headerSize
  let grow (total index : Nat) : Nat :=
    if index = new then total + size
    else page.sizeWith total (page.nodeAround new index)
  if layout.pageSize / 128 ≤ count && size ≤ limit / 16 && new < count then middle
  else if new ≤ middle || count ≤ new then
    let stop := if count ≤ new then count else middle + 1 + if page.isA .leaf then 1 else 0
    (overflowAt grow limit 0 (List.range stop)).getD middle
  else
    let later := (List.range' middle (count + 1 - middle)).reverse
    ((overflowAt grow limit 0 later).map fun index => index + 1).getD middle

/-!
# Splitting
-/

structure Split where
  left : PageRef
  right : PageRef
  kept : Nat
  /-- Where the new node came in. -/
  new : Nat
  isReplacing : Bool
  newRoot : Option PageRef
  /-- The way to the right page, without that page. -/
  rightAbove : List Position
  /-- Where the branch above has its node for the page with the new node. -/
  parent : Option Position
  /-- How many pages are above the split one. -/
  depth : Nat
  /-- Whether the branch above was split too. -/
  isParentSplit : Bool

namespace Split

def underRoot (split : Split) (path : List Position) : Option (List Position) :=
  match split.newRoot with
  | none => some path
  | some root =>
    match path.getLast? with
    | none => none
    | some position =>
      if position.page ≠ split.left then none
      else some (path ++ [⟨root, if split.kept ≤ position.index then 1 else 0⟩])

def throughPage (split : Split) (position : Position) (above : List Position) :
    List Position :=
  let index :=
    if split.new ≤ position.index && !split.isReplacing then position.index + 1
    else position.index
  if split.kept ≤ index then ⟨split.right, index - split.kept⟩ :: split.rightAbove
  else { position with index := index } :: above

def throughParent (split : Split) (path : List Position) : List Position :=
  let below := path.length - split.depth
  match path.drop below, split.parent with
  | position :: above, some parent =>
    let isSame := position.page = parent.page && parent.index ≤ position.index
    if split.depth ≤ path.length && !split.isParentSplit && isSame then
      path.take below ++ { position with index := position.index + 1 } :: above
    else path
  | _, _ => path

def adjust (split : Split) (cursor : Cursor) : Cursor :=
  if !cursor.isPlaced then cursor
  else
    match split.underRoot cursor.path with
    | none => cursor
    | some path =>
      let below := path.length - (split.depth + 1)
      let adjusted :=
        match path.drop below with
        | position :: above =>
          if path.length < split.depth + 1 || position.page ≠ split.left then
            split.throughParent path
          else path.take below ++ split.throughPage position above
        | [] => split.throughParent path
      { cursor with path := adjusted }

end Split

/-!
# Moving nodes
-/

def NewNode.again (isLeaf : Bool) (node : Node) : NewNode where
  key := node.key.contents
  mark := if isLeaf then node.mark else 0
  payload := if isLeaf then .value node.value else .child node.child

def fillPage (tree : TreeName) (isLeaf : Bool) (page : Buffer) (nodes : List NewNode) :
    Paging Buffer := do
  let filled ← nodes.foldlM
    (fun (page, index) node => do
      let bare := if !isLeaf && index = 0 then { node with key := .empty } else node
      return (← addNodeTo tree page index bare, index + 1))
    (page, 0)
  return filled.1

def takeNodes (buffer filled : Buffer) : Buffer :=
  let page := Page.ofBuffer filled
  let listed : Buffer := buffer.setPlaces 0 (page.indices.map page.nodePlace)
  let ended : Buffer := listed.setHeader (Page.ofBuffer buffer).mark page.lower page.upper
  ended.write page.upper (filled.part page.upper (filled.size - page.upper))

structure Shares where
  page : Page
  /-- A buffer in which the left page is put together. -/
  copy : Buffer
  left : List NewNode
  right : List NewNode
  /-- The key from which on nodes are in the right page. -/
  separator : Buffer

def shareOut (page : Page) (new : Nat) (node : NewNode) : Paging Shares := do
  let layout := (← get).layout
  let isLeaf := page.isA .leaf
  let size :=
    if isLeaf then layout.leafRoom node.key.size node.payload.size
    else even (branchRoom node.key.size)
  let kept := layout.splitIndex page new size
  let nodes := (List.range (page.indices.length + 1)).map fun index =>
    if index = new then node else .again isLeaf (page.nodeAround new index)
  return {
    page := page
    copy := ← takeBuffer
    left := nodes.take kept
    right := nodes.drop kept
    separator :=
      if kept = new then node.key else (page.nodeAround new kept).key.contents
  }

def moveNodes (tree : TreeName) (shares : Shares) (new right : Nat) (left : PageRef) :
    Paging Unit := do
  let page := shares.page
  let isLeaf := page.isA .leaf
  let size := (← get).layout.pageSize
  let rightPage ← writtenPage right
  let rightFilled ← fillPage tree isLeaf rightPage.buffer shares.right
  changePage (.written right) fun _ => rightFilled
  let listed : Buffer := shares.copy.setPlaces 0 (page.placesAround new)
  let blank : Buffer := listed.setHeader page.mark headerSize size
  let leftFilled ← fillPage tree isLeaf (blank.setPageNumber page.number) shares.left
  changePage left fun buffer => takeNodes buffer leftFilled
  giveBuffer leftFilled

/-!
# Going up
-/

def newSibling (tree : TreeName) (page : Page) : Paging Nat := do
  let number ← newPage tree page.mark
  changePage (.written number) fun buffer => buffer.setNumber 8 2 page.bareSize
  return number

def raiseRoot (cursor : Cursor) (number : Nat) : Paging (Cursor × Nat) := do
  let root ← newPage cursor.tree PageKind.branch.mark
  let depth := (← recordOf cursor.tree).depth
  modifyRecord cursor.tree fun record =>
    { record with root := root, depth := (depth + 1) % 2 ^ 16 }
  addNode cursor.tree (.written root) 0 ⟨.empty, 0, .child number⟩
  return ({ cursor with path := cursor.path ++ [⟨.written root, 0⟩] }, depth)

/--
The way to the left page, once the branch above was split on the way to the
right one.
-/
def leftPath (path rightAbove : List Position) : Paging (List Position) :=
  match path, rightAbove with
  | top :: parent :: _, position :: rest => do
    if position.page = parent.page || parent.index < (← pageAt parent.page).count then
      return path
    else if position.index ≠ 0 then
      return top :: { position with index := position.index - 1 } :: rest
    else
      match ← Cursor.beside false (top :: position :: rest) with
      | some (_ :: rest) => return top :: rest
      | _ => spoil .disorder
  | _, _ => return path

def rightPath (top : Position) (above rightAbove : List Position) : Paging (List Position) :=
  match above, rightAbove with
  | parent :: others, position :: _ => do
    let next := { parent with index := parent.index + 1 }
    if position.page ≠ parent.page && (← pageAt parent.page).count ≤ next.index then
      return top :: rightAbove
    else return top :: next :: others
  | _, _ => return top :: above

def withOuter (isTracked : Bool) (cursor : Cursor) (others : List Cursor) : List Cursor :=
  if isTracked then cursor :: others else others

def withoutOuter (isTracked : Bool) (cursor : Cursor) (all : List Cursor) :
    Cursor × List Cursor :=
  match isTracked, all with
  | true, adjusted :: others => (adjusted, others)
  | _, others => (cursor, others)

/--
Splits the last page of a way so that a new node can be added to it. Other
cursors are adjusted, and the cursor is afterwards at the new node.
-/
def split (isReplacing isTracked : Bool) :
    Nat → Cursor → List Cursor → NewNode → Paging (Cursor × List Cursor)
  | 0, _, _, _ => spoil .disorder
  | levels + 1, cursor, others, node => do
    let tree := cursor.tree
    let page ← cursor.page
    let new := cursor.index
    let right ← newSibling tree page
    let (cursor, depth) ←
      if cursor.path.length ≤ 1 then raiseRoot cursor page.number else pure (cursor, 0)
    match cursor.path with
    | top :: parent :: above => do
      let shares ← shareOut page new node
      let rightParent := { parent with index := parent.index + 1 }
      let isParentSplit := (← pageAt parent.page).room < branchRoom shares.separator.size
      let link : NewNode := ⟨shares.separator, 0, .child right⟩
      let (cursor, others, rightAbove) ←
        if isParentSplit then do
          let way := { cursor with path := rightParent :: above }
          let (way, all) ← split false true levels way (withOuter isTracked cursor others) link
          let (cursor, others) := withoutOuter isTracked cursor all
          pure ({ cursor with path := ← leftPath cursor.path way.path }, others, way.path)
        else do
          addNode tree parent.page rightParent.index link
          pure (cursor, others, rightParent :: above)
      moveNodes tree shares new right top.page
      let kept := shares.left.length
      let path ←
        if new < kept then pure (⟨top.page, new⟩ :: cursor.path.tail)
        else rightPath ⟨.written right, new - kept⟩ cursor.path.tail rightAbove
      let outcome : Split := {
        left := top.page
        right := .written right
        kept := kept
        new := new
        isReplacing := isReplacing
        newRoot := if depth = 0 then none else path.getLast?.map Position.page
        rightAbove := rightAbove
        parent := path.tail.head?
        depth := path.length - 1
        isParentSplit := isParentSplit
      }
      return ({ cursor with path := path }, others.map outcome.adjust)
    | _ => spoil .disorder

end State
end Recompile
