/-!
# Blank characters

Blank are the characters that the Unicode property `White_Space` names.
Trimming and cutting into words go by this class, so a no-break space or an
ideographic space counts like an ordinary one.
-/

namespace Recompile
namespace Text

/-- The ranges of code points with the property `White_Space`. -/
def blankRanges : List (Nat × Nat) :=
  [(0x09, 0x0D), (0x20, 0x20), (0x85, 0x85), (0xA0, 0xA0), (0x1680, 0x1680),
    (0x2000, 0x200A), (0x2028, 0x2029), (0x202F, 0x202F), (0x205F, 0x205F),
    (0x3000, 0x3000)]

def isBlank (c : Char) : Bool :=
  blankRanges.any fun (first, last) => first ≤ c.toNat && c.toNat ≤ last

def trimStart (text : List Char) : List Char :=
  text.dropWhile isBlank

def trimEnd (text : List Char) : List Char :=
  (trimStart text.reverse).reverse

def trim (text : List Char) : List Char :=
  trimEnd (trimStart text)

def words (text : List Char) : List (List Char) :=
  let rec go : List Char → List Char → List (List Char)
    | [], word => if word = [] then [] else [word.reverse]
    | c :: rest, word =>
      if isBlank c then
        if word = [] then go rest [] else word.reverse :: go rest []
      else go rest (c :: word)
  go text []

def isDigit (c : Char) : Bool :=
  48 ≤ c.toNat && c.toNat ≤ 57

end Text
end Recompile
