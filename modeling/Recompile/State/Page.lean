import Recompile.Buffer

/-!
# Pages

The state file is a row of pages of one size. A page is known by its number
and starts with a header that says what it is for. A leaf holds the rows of a
table and a branch refers to further pages. Both hold nodes: after the header
comes the place of each node, and the nodes themselves fill the page from its
end. A value that is too long for a node has pages of its own.

A page is read as it is, whatever its numbers say. It may lie in a buffer
with other pages.
-/

namespace Recompile
namespace State

def headerSize : Nat := 16

inductive PageKind where
  | branch
  | leaf
  /-- A value that is too long for a node. -/
  | value
  /-- One of the first two pages, which tell where the tables are. -/
  | file
deriving DecidableEq

def PageKind.mark : PageKind → Nat
  | branch => 1
  | leaf => 2
  | value => 4
  | file => 8

/-- Whether a mark, in which further bits may be set, holds that of a kind. -/
def PageKind.isIn (kind : PageKind) (mark : Nat) : Bool :=
  mark / kind.mark % 2 = 1

/-- The mark of a page that holds keys of one size and nothing else. -/
def bareMark : Nat := 0x20

/-!
# Nodes

A node starts with a number of six bytes and the length of its key. In a
branch the number is that of a page. In a leaf it is the length of the value
with the mark of the row.
-/

structure Node where
  buffer : Buffer
  start : Nat

def nodeHeaderSize : Nat := 8

inductive RowKind where
  /-- The number of the page where the value is. -/
  | elsewhere
  | table
  | several
deriving DecidableEq

def RowKind.mark : RowKind → Nat
  | elsewhere => 1
  | table => 2
  | several => 4

def RowKind.isIn (kind : RowKind) (mark : Nat) : Bool :=
  mark / kind.mark % 2 = 1

namespace Node

def child (node : Node) : Nat :=
  Buffer.number node.buffer node.start 6

def valueSize (node : Node) : Nat :=
  Buffer.number node.buffer node.start 4

def mark (node : Node) : Nat :=
  Buffer.number node.buffer (node.start + 4) 2

def keySize (node : Node) : Nat :=
  Buffer.number node.buffer (node.start + 6) 2

def key (node : Node) : Slice :=
  ⟨node.buffer, node.start + nodeHeaderSize, node.keySize⟩

def valuePlace (node : Node) : Nat :=
  nodeHeaderSize + node.keySize

def value (node : Node) : Slice :=
  ⟨node.buffer, node.start + node.valuePlace, node.valueSize⟩

def isA (node : Node) (kind : RowKind) : Bool :=
  kind.isIn node.mark

def valuePage (node : Node) : Nat :=
  node.value.number 0 8

def leafSize (node : Node) : Nat :=
  node.valuePlace + if node.isA .elsewhere then 8 else node.valueSize

end Node

/-- Nodes take up an even number of bytes. -/
def even (size : Nat) : Nat :=
  size + size % 2

/-!
# Reading pages
-/

structure Page where
  buffer : Buffer
  start : Nat

namespace Page

def ofBuffer (buffer : Buffer) : Page :=
  ⟨buffer, 0⟩

def number (page : Page) : Nat :=
  Buffer.number page.buffer page.start 8

def mark (page : Page) : Nat :=
  Buffer.number page.buffer (page.start + 10) 2

def isA (page : Page) (kind : PageKind) : Bool :=
  kind.isIn page.mark

def isBare (page : Page) : Bool :=
  page.mark / bareMark % 2 = 1

def bareSize (page : Page) : Nat :=
  Buffer.number page.buffer (page.start + 8) 2

def lower (page : Page) : Nat :=
  Buffer.number page.buffer (page.start + 12) 2

def upper (page : Page) : Nat :=
  Buffer.number page.buffer (page.start + 14) 2

def count (page : Page) : Nat :=
  (page.lower + 2 ^ 32 - headerSize) % 2 ^ 32 / 2

def room (page : Page) : Nat :=
  (page.upper + 2 ^ 16 - page.lower) % 2 ^ 16

def valuePages (page : Page) : Nat :=
  Buffer.number page.buffer (page.start + 12) 4

def nodePlace (page : Page) (index : Nat) : Nat :=
  Buffer.number page.buffer (page.start + headerSize + 2 * index) 2

def node (page : Page) (index : Nat) : Node :=
  ⟨page.buffer, page.start + page.nodePlace index⟩

def countLimit : Nat := 2 ^ 15

def indices (page : Page) : List Nat :=
  List.range (min page.count countLimit)

def bareKey (page : Page) (size index : Nat) : Slice :=
  ⟨page.buffer, page.start + headerSize + index * size, size⟩

end Page

/-!
# Changing pages

A page that is changed has a buffer for itself.
-/

end State

namespace Buffer

open State

def setHeader (buffer : Buffer) (mark lower upper : Nat) : Buffer :=
  let marked : Buffer := buffer.setNumber 10 2 mark
  let low : Buffer := marked.setNumber 12 2 lower
  low.setNumber 14 2 upper

def setPageNumber (buffer : Buffer) (number : Nat) : Buffer :=
  buffer.setNumber 0 8 number

def setChild (buffer : Buffer) (index child : Nat) : Buffer :=
  buffer.setNumber ((Page.ofBuffer buffer).nodePlace index) 6 child

def setPlaces (buffer : Buffer) (index : Nat) : List Nat → Buffer
  | [] => buffer
  | place :: places =>
    setPlaces (buffer.setNumber (headerSize + 2 * index) 2 place) (index + 1) places

def addNode (buffer : Buffer) (index head : Nat) (key content : Buffer) (size : Nat) : Buffer :=
  let page := Page.ofBuffer buffer
  let place := page.upper - size
  let lower := page.lower
  let later : Buffer :=
    buffer.part (headerSize + 2 * index) (2 * (min page.count Page.countLimit - index))
  let moved : Buffer := buffer.write (headerSize + 2 * (index + 1)) later
  let listed : Buffer := moved.setNumber (headerSize + 2 * index) 2 place
  let ended : Buffer := listed.setHeader page.mark (lower + 2) place
  let headed : Buffer := ended.setNumber place 6 head
  let sized : Buffer := headed.setNumber (place + 6) 2 key.size
  let keyed : Buffer := sized.write (place + nodeHeaderSize) key
  keyed.write (place + nodeHeaderSize + key.size) content

def removeNode (buffer : Buffer) (index : Nat) : Buffer :=
  let page := Page.ofBuffer buffer
  let node := page.node index
  let size := even (if page.isA .leaf then node.leafSize else node.valuePlace)
  let place := page.nodePlace index
  let others := (page.indices.filter fun other => other ≠ index).map page.nodePlace
  let places := others.map fun other => if other < place then other + size else other
  let listed : Buffer := buffer.setPlaces 0 places
  let kept : Buffer := buffer.part page.upper (place - page.upper)
  let moved : Buffer := listed.write (page.upper + size) kept
  moved.setHeader page.mark (page.lower - 2) (page.upper + size)

/-- Copies the parts of a page that are in use, in steps of eight bytes. -/
def copyPage (buffer : Buffer) (page : Page) (size : Nat) : Buffer :=
  let unused := page.room / 8 * 8
  if unused ≠ 0 && !page.isBare then
    let upper := page.upper / 8 * 8
    let begun : Buffer := buffer.write 0 (page.buffer.part page.start ((page.lower + 7) / 8 * 8))
    begun.write upper (page.buffer.part (page.start + upper) (size - upper))
  else buffer.write 0 (page.buffer.part page.start (size - unused))

end Buffer
end Recompile
