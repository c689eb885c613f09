import Recompile.Compilation

/-!
# How sources came through

Every source of a batch has a status, and it is marked as failed if it drew
messages, or if the batch failed and no source drew any. Of two statuses for one
source a failure wins.
-/

namespace Recompile

variable {source : String}

theorem getElem?_foldl_insert {β : Type} (value : String → β) (sources : List String)
    (known : Std.ExtTreeMap String β) (source : String) :
    (sources.foldl (fun known source => known.insert source (value source)) known)[source]? =
      if source ∈ sources then some (value source) else known[source]? := by
  induction sources generalizing known with
  | nil => simp
  | cons first rest ih =>
      rw [List.foldl_cons, ih, Std.ExtTreeMap.getElem?_insert]
      simp only [Std.LawfulEqCmp.compare_eq_iff_eq, List.mem_cons]
      by_cases hrest : source ∈ rest
      · simp [hrest]
      · by_cases hfirst : first = source
        · simp [hfirst]
        · simp [hrest, hfirst, Ne.symm hfirst]

theorem mem_foldl_of_adds {α β : Type} (key : α → String)
    {add : Std.ExtTreeMap String β → α → Std.ExtTreeMap String β}
    (hadd : ∀ known entry source, source ∈ add known entry ↔ source ∈ known ∨ source = key entry)
    (entries : List α) (known : Std.ExtTreeMap String β) :
    source ∈ entries.foldl add known ↔ source ∈ known ∨ source ∈ entries.map key := by
  induction entries generalizing known with
  | nil => simp
  | cons first rest ih =>
      rw [List.foldl_cons, ih, hadd, List.map_cons, List.mem_cons, or_assoc]

theorem mem_foldl_insert {β : Type} (value : String → β) (sources : List String)
    (known : Std.ExtTreeMap String β) :
    source ∈ sources.foldl (fun known source => known.insert source (value source)) known ↔
      source ∈ known ∨ source ∈ sources := by
  rw [mem_foldl_of_adds id, List.map_id]
  intro known asked source
  rw [Std.ExtTreeMap.mem_insert, Std.LawfulEqCmp.compare_eq_iff_eq, @eq_comm _ asked, or_comm]
  rfl

theorem mem_statuses (outcome : Outcome) (sources : List String) :
    source ∈ outcome.statuses sources ↔ source ∈ sources := by
  unfold Outcome.statuses
  rw [mem_foldl_insert]
  simp

/-!
# Failures
-/

def MarksFailed (statuses : Std.ExtTreeMap String SourceStatus) (source : String) : Prop :=
  ∃ messages, statuses[source]? = some (.failed messages)

theorem SourceStatus.merge_eq_failed_iff {earlier later : SourceStatus} :
    (∃ messages, earlier.merge later = .failed messages) ↔
      (∃ messages, earlier = .failed messages) ∨ ∃ messages, later = .failed messages := by
  cases earlier <;> cases later <;> simp [SourceStatus.merge]

theorem Outcome.status_eq_failed_iff {outcome : Outcome} :
    (∃ messages, outcome.status source = .failed messages) ↔
      source ∈ outcome.diagnostics ∨ outcome.isUnattributed = true := by
  unfold Outcome.status
  rw [Std.ExtTreeMap.mem_iff_isSome_getElem?]
  cases outcome.diagnostics[source]? with
  | some messages => simp
  | none => cases outcome.isUnattributed <;> simp

theorem marksFailed_statuses_iff {outcome : Outcome} {sources : List String} :
    MarksFailed (outcome.statuses sources) source ↔
      source ∈ sources ∧ (source ∈ outcome.diagnostics ∨ outcome.isUnattributed = true) := by
  unfold MarksFailed Outcome.statuses
  rw [getElem?_foldl_insert, ← Outcome.status_eq_failed_iff]
  by_cases hsource : source ∈ sources
  · simp [hsource]
  · simp [hsource]

end Recompile
