import Recompile.Text.Pieces

/-!
# Paths

A path is a text whose pieces stand between slashes. What it names is given
by its components: empty pieces and single dots do not count, apart from a
dot at the very start. Two paths with equal components are the same place
for every table in this library, while messages show the text as it was
written.
-/

namespace Recompile

structure Path where
  text : String
deriving DecidableEq, Inhabited

namespace Path

inductive Component where
  | root
  | current
  | parent
  | normal (name : String)
deriving DecidableEq

namespace Component

def text : Component → String
  | root => "/"
  | current => "."
  | parent => ".."
  | normal name => name

def rank : Component → List String
  | root => []
  | current => [""]
  | parent => ["", ""]
  | normal name => ["", "", name]

theorem rank_injective {a b : Component} (h : a.rank = b.rank) : a = b := by
  cases a <;> cases b <;> simp_all [rank]

instance : Ord Component where
  compare a b := compare a.rank b.rank

theorem compare_eq (a b : Component) : compare a b = compare a.rank b.rank :=
  rfl

instance : Std.OrientedOrd Component where
  eq_swap := by
    intro a b
    rw [compare_eq, compare_eq]
    exact Std.OrientedCmp.eq_swap

instance : Std.TransOrd Component where
  isLE_trans := by
    intro a b c hab hbc
    rw [compare_eq] at hab hbc ⊢
    exact Std.TransCmp.isLE_trans hab hbc

instance : Std.LawfulEqOrd Component where
  eq_of_compare := by
    intro a b h
    rw [compare_eq] at h
    exact rank_injective (Std.LawfulEqCmp.eq_of_compare h)

def ofPiece? (piece : String) : Option Component :=
  if piece = "" ∨ piece = "." then none
  else if piece = ".." then some parent
  else some (normal piece)

end Component

def pieces (path : Path) : List String :=
  (Text.pieces '/' path.text.toList).map String.ofList

def ofPieces (pieces : List String) : Path :=
  ⟨String.intercalate "/" pieces⟩

def isAbsolute (path : Path) : Bool :=
  path.text.toList.head? = some '/'

def components (path : Path) : List Component :=
  match path.pieces with
  | [] => []
  | first :: rest =>
    let inner := rest.filterMap Component.ofPiece?
    if path.isAbsolute then .root :: inner
    else if first = "." then .current :: inner
    else (Component.ofPiece? first).toList ++ inner

/-- The path that leads from `base` along `tail`; an absolute `tail` replaces the base. -/
def join (base tail : Path) : Path :=
  if tail.isAbsolute then tail
  else if base.text = "" ∨ base.text.toList.getLast? = some '/' then
    ⟨base.text ++ tail.text⟩
  else ⟨base.text ++ "/" ++ tail.text⟩

/-!
# The last component

Slashes and single dots at the end of a path do not count, so they are set
aside before the last component is taken away or given an extension.
-/

/-- The pieces up to the last one that counts; the first piece is not among them. -/
def trimmed (pieces : List String) : List String :=
  (pieces.reverse.dropWhile fun piece => (Component.ofPiece? piece).isNone).reverse

def parent? (path : Path) : Option Path :=
  match path.pieces with
  | [] => none
  | first :: rest =>
    match trimmed rest with
    | [] => if first = "" then none else some ⟨""⟩
    | inner =>
      match trimmed inner.dropLast with
      | [] => if first = "" then some ⟨"/"⟩ else some ⟨first⟩
      | kept => some (ofPieces (first :: kept))

def fileName? (path : Path) : Option String :=
  match path.components.getLast? with
  | some (.normal name) => some name
  | _ => none

/-- A name before its last dot and after it, when something stands before that. -/
def splitName? (name : String) : Option (String × String) :=
  match Text.splitLast? '.' name.toList with
  | some ([], _) => none
  | some (stem, extension) => some (String.ofList stem, String.ofList extension)
  | none => none

def extension? (path : Path) : Option String :=
  (path.fileName?.bind splitName?).map Prod.snd

/-- The path with `extension` in place of the one it has; without a name it stays as it is. -/
def withExtension (path : Path) (extension : String) : Path :=
  match path.fileName? with
  | none => path
  | some name =>
    let stem := ((splitName? name).map Prod.fst).getD name
    match path.pieces with
    | [] => path
    | first :: rest =>
      ofPieces ((first :: trimmed rest).dropLast ++ [stem ++ "." ++ extension])

def below? (root path : Path) : Option (List Component) :=
  root.components.isPrefixOf? path.components

end Path
end Recompile
