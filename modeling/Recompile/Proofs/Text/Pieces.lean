import Recompile.Text.Pieces

/-!
# Cutting and joining

The pieces of a text are those that the library splits a list into, so joining
them again gives the text back.
-/

namespace Recompile
namespace Text

theorem pieces_eq_splitOn (separator : Char) (text : List Char) :
    pieces separator text = text.splitOn separator := by
  induction text with
  | nil => rfl
  | cons c rest ih =>
      rw [List.splitOn_cons_eq_if_modifyHead, pieces, ih]
      by_cases hc : c = separator
      · simp [hc]
      · rw [if_neg hc, if_neg (by simpa using hc)]
        cases hpieces : rest.splitOn separator with
        | nil => exact absurd hpieces (List.splitOn_ne_nil separator rest)
        | cons piece more => rfl

theorem intercalate_pieces (separator : Char) (text : List Char) :
    [separator].intercalate (pieces separator text) = text := by
  rw [pieces_eq_splitOn, List.intercalate_splitOn]

theorem pieces_intercalate {separator : Char} {parts : List (List Char)}
    (hparts : ∀ part ∈ parts, separator ∉ part) (hne : parts ≠ []) :
    pieces separator ([separator].intercalate parts) = parts := by
  rw [pieces_eq_splitOn, List.splitOn_intercalate separator hparts hne]

theorem map_intercalate (change : Char → Char) (separator : Char) (parts : List (List Char)) :
    ([separator].intercalate parts).map change =
      [change separator].intercalate (parts.map (List.map change)) := by
  induction parts with
  | nil => rfl
  | cons first rest ih =>
      cases rest with
      | nil => simp
      | cons second rest =>
          simp only [List.map_cons] at ih ⊢
          rw [List.intercalate_cons_cons, List.intercalate_cons_cons, List.map_append,
            List.map_append, ih]
          rfl

theorem pieces_append (separator : Char) (before after : List Char) :
    pieces separator (before ++ separator :: after) =
      pieces separator before ++ pieces separator after := by
  rw [pieces_eq_splitOn, pieces_eq_splitOn, pieces_eq_splitOn,
    List.splitOn_append_cons_self]

theorem pieces_injective (separator : Char) {text other : List Char}
    (h : pieces separator text = pieces separator other) : text = other := by
  rw [← intercalate_pieces separator text, h, intercalate_pieces]

theorem not_mem_of_mem_pieces {separator : Char} {text piece : List Char}
    (h : piece ∈ pieces separator text) : separator ∉ piece := by
  induction text generalizing piece with
  | nil =>
      rw [List.mem_singleton.mp h]
      exact List.not_mem_nil
  | cons c rest ih =>
      unfold pieces at h
      by_cases hc : c = separator
      · rw [if_pos hc] at h
        rcases List.mem_cons.mp h with rfl | hrest
        · exact List.not_mem_nil
        · exact ih hrest
      · rw [if_neg hc] at h
        cases hpieces : pieces separator rest with
        | nil => exact absurd hpieces (pieces_ne_nil separator rest)
        | cons first more =>
            rw [hpieces] at h ih
            rcases List.mem_cons.mp h with rfl | hmore
            · rw [List.mem_cons, not_or]
              exact ⟨Ne.symm hc, ih List.mem_cons_self⟩
            · exact ih (List.mem_cons_of_mem _ hmore)

theorem subset_of_mem_pieces {separator : Char} {text piece : List Char}
    (h : piece ∈ pieces separator text) : piece ⊆ text := by
  induction text generalizing piece with
  | nil =>
      rw [List.mem_singleton.mp h]
      exact List.nil_subset _
  | cons c rest ih =>
      unfold pieces at h
      by_cases hc : c = separator
      · rw [if_pos hc] at h
        rcases List.mem_cons.mp h with rfl | hrest
        · exact List.nil_subset _
        · exact List.subset_cons_of_subset c (ih hrest)
      · rw [if_neg hc] at h
        cases hpieces : pieces separator rest with
        | nil => exact absurd hpieces (pieces_ne_nil separator rest)
        | cons first more =>
            rw [hpieces] at h ih
            rcases List.mem_cons.mp h with rfl | hmore
            · exact List.cons_subset_cons c (ih List.mem_cons_self)
            · exact List.subset_cons_of_subset c (ih (List.mem_cons_of_mem _ hmore))

theorem exists_mem_pieces {separator c : Char} {text : List Char} (hc : c ∈ text)
    (hother : c ≠ separator) : ∃ piece ∈ pieces separator text, c ∈ piece := by
  induction text with
  | nil => cases hc
  | cons first rest ih =>
      unfold pieces
      by_cases hfirst : first = separator
      · rw [if_pos hfirst]
        rcases List.mem_cons.mp hc with rfl | hrest
        · exact absurd hfirst hother
        · rcases ih hrest with ⟨piece, hpiece, hmem⟩
          exact ⟨piece, List.mem_cons_of_mem _ hpiece, hmem⟩
      · rw [if_neg hfirst]
        cases hpieces : pieces separator rest with
        | nil => exact absurd hpieces (pieces_ne_nil separator rest)
        | cons second more =>
            rw [hpieces] at ih
            rcases List.mem_cons.mp hc with rfl | hrest
            · exact ⟨_, List.mem_cons_self, List.mem_cons_self⟩
            · rcases ih hrest with ⟨piece, hpiece, hmem⟩
              rcases List.mem_cons.mp hpiece with rfl | hmore
              · exact ⟨_, List.mem_cons_self, List.mem_cons_of_mem _ hmem⟩
              · exact ⟨piece, List.mem_cons_of_mem _ hmore, hmem⟩

/-- A text ends in the pieces of another if it ends in that, right after a separator. -/
theorem pieces_suffix_iff {separator : Char} {ending text : List Char} :
    pieces separator ending <:+ pieces separator text ↔
      text = ending ∨ ∃ front, text = front ++ separator :: ending := by
  constructor
  · rintro ⟨parts, h⟩
    by_cases hparts : parts = []
    · left
      rw [hparts, List.nil_append] at h
      exact (pieces_injective separator h).symm
    · right
      have hclean : ∀ part ∈ parts, separator ∉ part := fun part hpart =>
        not_mem_of_mem_pieces (h ▸ List.mem_append_left _ hpart)
      refine ⟨[separator].intercalate parts, pieces_injective separator ?_⟩
      rw [pieces_append, pieces_intercalate hclean hparts, h]
  · rintro (rfl | ⟨front, rfl⟩)
    · exact List.suffix_rfl
    · rw [pieces_append]
      exact List.suffix_append _ _

theorem splitFirst?_eq_some_iff {separator : Char} {text before after : List Char} :
    splitFirst? separator text = some (before, after) ↔
      text = before ++ separator :: after ∧ separator ∉ before := by
  induction text generalizing before with
  | nil => simp [splitFirst?]
  | cons c rest ih =>
      unfold splitFirst?
      by_cases hc : c = separator
      · rw [if_pos hc, Option.some.injEq, Prod.mk.injEq]
        constructor
        · rintro ⟨rfl, rfl⟩
          exact ⟨by rw [hc]; rfl, List.not_mem_nil⟩
        · rintro ⟨htext, hbefore⟩
          cases before with
          | nil => exact ⟨rfl, (List.cons.inj htext).2⟩
          | cons b before =>
              rw [← (List.cons.inj htext).1, hc] at hbefore
              exact absurd List.mem_cons_self hbefore
      · rw [if_neg hc, Option.map_eq_some_iff]
        constructor
        · rintro ⟨⟨front, back⟩, hsplit, hpair⟩
          cases hpair
          rcases ih.mp hsplit with ⟨hrest, hfront⟩
          refine ⟨by rw [hrest]; rfl, ?_⟩
          rw [List.mem_cons, not_or]
          exact ⟨Ne.symm hc, hfront⟩
        · rintro ⟨htext, hbefore⟩
          cases before with
          | nil => exact absurd (List.cons.inj htext).1 hc
          | cons b before =>
              rcases List.cons.inj htext with ⟨rfl, hrest⟩
              rw [List.mem_cons, not_or] at hbefore
              exact ⟨(before, after), ih.mpr ⟨hrest, hbefore.2⟩, rfl⟩

theorem splitLast?_eq_none {separator : Char} {text : List Char} (h : separator ∉ text) :
    splitLast? separator text = none := by
  induction text with
  | nil => rfl
  | cons c rest ih =>
      rw [List.mem_cons, not_or] at h
      rw [splitLast?, ih h.2, if_neg (Ne.symm h.1)]

theorem after?_eq_some_iff {lead text rest : List Char} :
    after? lead text = some rest ↔ text = lead ++ rest := by
  induction lead generalizing text with
  | nil => simp [after?]
  | cons l lead ih =>
      cases text with
      | nil => simp [after?]
      | cons c text =>
          unfold after?
          by_cases h : l = c
          · rw [if_pos h, ih, h, List.cons_append, List.cons.injEq]
            simp
          · rw [if_neg h, List.cons_append, List.cons.injEq]
            simp [Ne.symm h]

theorem before?_eq_some_iff {ending text rest : List Char} :
    before? ending text = some rest ↔ text = rest ++ ending := by
  unfold before?
  rw [Option.map_eq_some_iff]
  constructor
  · rintro ⟨back, hback, rfl⟩
    rw [after?_eq_some_iff] at hback
    rw [← List.reverse_reverse text, hback, List.reverse_append, List.reverse_reverse]
  · rintro rfl
    exact ⟨rest.reverse, after?_eq_some_iff.mpr List.reverse_append, List.reverse_reverse rest⟩

end Text
end Recompile
