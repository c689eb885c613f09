import Recompile.Compilation.Log

/-!
# Which sources a log blames

The messages of a log are grouped line by line. Only the header of an error opens
an entry, and it does so for a source that was asked for; a line that goes on with
a message finds the entry there.
-/

namespace Recompile
namespace CompilerLog

variable {sources : List (Line × String)} {source : String} {line : Line}

theorem mem_of_header? {isError : Bool} (h : header? sources line = some (source, isError)) :
    source ∈ sources.map Prod.snd := by
  unfold header? at h
  rcases List.exists_of_findSome?_eq_some h with ⟨⟨path, asked⟩, hasked, hheader⟩
  rcases Option.map_eq_some_iff.mp hheader with ⟨kind, _, hpair⟩
  cases hpair
  exact List.mem_map_of_mem hasked

theorem mem_of_lineKind {isError : Bool} (h : lineKind sources line = .header source isError) :
    source ∈ sources.map Prod.snd := by
  unfold lineKind at h
  split at h
  · cases h
  · split at h
    · next hheader =>
        cases h
        exact mem_of_header? hheader
    · split at h <;> cases h

namespace Grouping

theorem mem_messages_add (grouping : Grouping) :
    source ∈ (grouping.add sources line).messages ↔
      source ∈ grouping.messages ∨ lineKind sources line = .header source true := by
  unfold add
  cases hkind : lineKind sources line with
  | divider => simp
  | summary => simp
  | header blamed isError =>
      cases isError with
      | false => simp
      | true =>
          simp [Std.ExtTreeMap.mem_insert, Std.LawfulEqCmp.compare_eq_iff_eq, or_comm]
  | other =>
      simp only
      cases grouping.current with
      | none => simp
      | some blamed =>
          simp only
          cases hblamed : grouping.messages[blamed]? with
          | none => simp
          | some messages =>
              -- The entry of the open message is there already.
              have hknown : blamed ∈ grouping.messages := by
                rw [Std.ExtTreeMap.mem_iff_isSome_getElem?, hblamed]
                rfl
              simp only [Std.ExtTreeMap.mem_insert, Std.LawfulEqCmp.compare_eq_iff_eq]
              constructor
              · rintro (rfl | hmem)
                · exact .inl hknown
                · exact .inl hmem
              · rintro (hmem | hheader)
                · exact .inr hmem
                · cases hheader

theorem mem_messages_foldl_add (lines : List Line) (grouping : Grouping) :
    source ∈ (lines.foldl (add sources) grouping).messages ↔
      source ∈ grouping.messages ∨ ∃ line ∈ lines, lineKind sources line = .header source true := by
  induction lines generalizing grouping with
  | nil => simp
  | cons line rest ih =>
      rw [List.foldl_cons, ih, mem_messages_add, or_assoc]
      simp

end Grouping

theorem mem_errorsBySource_iff {batch : Batch} {log : List Char} :
    source ∈ errorsBySource batch log ↔
      ∃ line ∈ Text.lines log, lineKind (sourcePaths batch) line = .header source true := by
  unfold errorsBySource
  rw [Grouping.mem_messages_foldl_add]
  simp [Grouping.empty]

theorem requested_of_mem_errorsBySource {batch : Batch} {log : List Char}
    (h : source ∈ errorsBySource batch log) : source ∈ batch.sources := by
  rcases mem_errorsBySource_iff.mp h with ⟨line, _, hkind⟩
  simpa [sourcePaths] using mem_of_lineKind hkind

end CompilerLog
end Recompile
