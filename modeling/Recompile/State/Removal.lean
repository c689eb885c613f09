import Recompile.State.Row

/-!
# Removing rows

A table is cleared as a whole: its pages are given up, and its record stays
without a root. Leaves are looked at only as long as there are values with
pages of their own, or tables inside the rows.
-/

namespace Recompile
namespace State

def walkLimit : Nat := 2 ^ 20

def leftmost (first path : List Position) : List Position :=
  (first.drop (first.length - path.length)).map fun position => { position with index := 0 }

/--
Walks through the pages of a tree from the left to the right, level by level
upwards. `visit` gives up what a page refers to, and tells whether the other
pages of its level have to be visited.
-/
def walkPages {σ : Type} (visit : σ → Page → Paging (σ × Bool)) (first : List Position) :
    Nat → σ → List Position → Paging Unit
  | 0, _, _ => pure ()
  | _, _, [] => pure ()
  | steps + 1, state, top :: above => do
    let (state, isOpen) ← visit state (← pageAt top.page)
    let next ← if isOpen then Cursor.beside true (top :: above) else pure none
    walkPages visit first steps state (next.getD (leftmost first above))

def giveUpChildren (page : Page) : Paging Unit :=
  page.indices.forM fun index => giveUp (page.node index).child

def giveUpInner (record : Record) : Paging Unit := do
  if record.root = noPage then return
  let cursor ← (Cursor.new .table).searchFrom record.root Cursor.leaveAlone .first
  let visit (_ : Unit) (page : Page) : Paging (Unit × Bool) := do
    giveUpChildren page
    return ((), true)
  walkPages visit cursor.path.tail walkLimit () cursor.path.tail
  giveUp record.root

/--
Gives up the values of a leaf that have pages of their own. The number is that
of such pages, as far as they are not given up yet.
-/
def giveUpValues (hasInner : Bool) : Nat → List Node → Paging Nat
  | left, [] => return left
  | left, node :: nodes => do
    if node.isA .elsewhere then
      let count := (← pageAt (← findPage node.valuePage)).valuePages
      giveUpRun node.valuePage count
      let left := (left + 2 ^ 64 - count) % 2 ^ 64
      if left = 0 && !hasInner then return 0 else giveUpValues hasInner left nodes
    else
      if hasInner && node.isA .table then giveUpInner (.ofSlice node.value)
      giveUpValues hasInner left nodes

def giveUpBelow (hasInner : Bool) (left : Nat) (page : Page) : Paging (Nat × Bool) := do
  if page.isA .leaf then
    let left ← giveUpValues hasInner left (page.indices.map page.node)
    return (left, left ≠ 0 || hasInner)
  else
    giveUpChildren page
    return (left, true)

def giveUpTable (record : Record) (cursor : Cursor) : Paging Unit := do
  let hasInner := TableFlag.several.isIn record.flags
  let needsLeaves := hasInner || record.valuePages ≠ 0
  let path := if needsLeaves then cursor.path else cursor.path.tail
  walkPages (giveUpBelow hasInner) path walkLimit record.valuePages path
  giveUp record.root

def clearTable : Paging Unit := do
  openCursor
  match ← Cursor.firstRow with
  | none => pure ()
  | some cursor => tryCatch (giveUpTable (← recordOf .table) cursor) spoil
  modifyRecord .table Record.cleared
  markChanged .table

end State
end Recompile
