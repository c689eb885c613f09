/-!
# Pieces of a text

A text is cut at a separator, at its first or last occurrence, or at line
ends. The functions work on character lists, where each of them is a plain
recursion.
-/

namespace Recompile
namespace Text

/-- The runs between separators, in order: one more than there are separators. -/
def pieces (separator : Char) : List Char → List (List Char)
  | [] => [[]]
  | c :: rest =>
    if c = separator then [] :: pieces separator rest
    else
      match pieces separator rest with
      | [] => [[c]]
      | piece :: more => (c :: piece) :: more

def splitFirst? (separator : Char) : List Char → Option (List Char × List Char)
  | [] => none
  | c :: rest =>
    if c = separator then some ([], rest)
    else (splitFirst? separator rest).map fun (before, after) => (c :: before, after)

def splitLast? (separator : Char) : List Char → Option (List Char × List Char)
  | [] => none
  | c :: rest =>
    match splitLast? separator rest with
    | some (before, after) => some (c :: before, after)
    | none => if c = separator then some ([], rest) else none

def after? : List Char → List Char → Option (List Char)
  | [], text => some text
  | _ :: _, [] => none
  | l :: lead, c :: text => if l = c then after? lead text else none

def before? (ending text : List Char) : Option (List Char) :=
  (after? ending.reverse text.reverse).map List.reverse

/-!
# Lines

A line ends at a line feed, which may follow one carriage return. A carriage
return that no line feed follows belongs to its line, and a final line feed
starts no further line.
-/

def withoutReturn (line : List Char) : List Char :=
  (before? ['\r'] line).getD line

def lines (text : List Char) : List (List Char) :=
  let runs := pieces '\n' text
  let last := runs.getLast?.getD []
  runs.dropLast.map withoutReturn ++ (if last = [] then [] else [last])

theorem pieces_ne_nil (separator : Char) (text : List Char) :
    pieces separator text ≠ [] := by
  cases text with
  | nil => simp [pieces]
  | cons c rest =>
      unfold pieces
      split
      · simp
      · split <;> simp

theorem splitFirst?_length {separator : Char} {text before after : List Char}
    (h : splitFirst? separator text = some (before, after)) :
    after.length < text.length := by
  induction text generalizing before with
  | nil => simp [splitFirst?] at h
  | cons c rest ih =>
      unfold splitFirst? at h
      split at h
      · simp only [Option.some.injEq, Prod.mk.injEq] at h
        simp [← h.2]
      · obtain ⟨pair, hpair, heq⟩ := Option.map_eq_some_iff.1 h
        simp only [Prod.mk.injEq] at heq
        have hlt := @ih pair.1 (by rw [hpair, ← heq.2])
        simp only [List.length_cons]
        omega

end Text
end Recompile
