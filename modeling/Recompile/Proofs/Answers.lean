import Mathlib.Data.List.Forall2

/-!
# Answers to questions that may fail

Two questions in a row are answered if both are, and a list of questions if all
of them are.
-/

namespace Recompile

variable {ε α β : Type}

theorem bind_eq_ok {first : Except ε α} {next : α → Except ε β} {result : β} :
    first >>= next = .ok result ↔ ∃ value, first = .ok value ∧ next value = .ok result := by
  cases first with
  | error error => exact iff_of_false nofun nofun
  | ok value =>
      constructor
      · intro h
        exact ⟨value, rfl, h⟩
      · rintro ⟨_, hvalue, h⟩
        cases hvalue
        exact h

variable {answer : α → Except ε β} {items : List α} {values : List β}

theorem forall₂_of_mapM (h : items.mapM answer = .ok values) :
    List.Forall₂ (fun item value => answer item = .ok value) items values := by
  induction items generalizing values with
  | nil =>
      cases h
      exact List.Forall₂.nil
  | cons item rest ih =>
      rw [List.mapM_cons] at h
      rcases bind_eq_ok.mp h with ⟨first, hfirst, h⟩
      rcases bind_eq_ok.mp h with ⟨others, hothers, h⟩
      cases h
      exact List.Forall₂.cons hfirst (ih hothers)

theorem members_of_forall₂ {holds : α → β → Prop} (h : List.Forall₂ holds items values) :
    (∀ item ∈ items, ∃ value ∈ values, holds item value) ∧
      ∀ value ∈ values, ∃ item ∈ items, holds item value := by
  induction h with
  | nil => exact ⟨nofun, nofun⟩
  | cons hfirst _ ih =>
      simp only [List.mem_cons, exists_eq_or_imp, forall_eq_or_imp]
      constructor
      · exact ⟨Or.inl hfirst, fun item hitem => Or.inr (ih.1 item hitem)⟩
      · exact ⟨Or.inl hfirst, fun value hvalue => Or.inr (ih.2 value hvalue)⟩

theorem members_of_mapM (h : items.mapM answer = .ok values) :
    (∀ item ∈ items, ∃ value ∈ values, answer item = .ok value) ∧
      ∀ value ∈ values, ∃ item ∈ items, answer item = .ok value :=
  members_of_forall₂ (forall₂_of_mapM h)

/-- What holds of some answer is told by the questions, if each answer is. -/
theorem exists_answer_iff {holds : β → Prop} {asks : α → Prop} (h : items.mapM answer = .ok values)
    (hanswer : ∀ item value, answer item = .ok value → (holds value ↔ asks item)) :
    (∃ value ∈ values, holds value) ↔ ∃ item ∈ items, asks item := by
  rcases members_of_mapM h with ⟨hitems, hvalues⟩
  constructor
  · rintro ⟨value, hvalue, hholds⟩
    rcases hvalues value hvalue with ⟨item, hitem, hfound⟩
    exact ⟨item, hitem, (hanswer item value hfound).mp hholds⟩
  · rintro ⟨item, hitem, hasks⟩
    rcases hitems item hitem with ⟨value, hvalue, hfound⟩
    exact ⟨value, hvalue, (hanswer item value hfound).mpr hasks⟩

theorem mapM_eq_error :
    (∀ error, items.mapM answer = .error error → ∃ item ∈ items, answer item = .error error) ∧
      ((∃ item ∈ items, ∃ error, answer item = .error error) →
        ∃ error, items.mapM answer = .error error) := by
  constructor
  · induction items with
    | nil => exact nofun
    | cons item rest ih =>
        intro error h
        rw [List.mapM_cons] at h
        cases hfirst : answer item with
        | error found =>
            rw [hfirst] at h
            cases h
            exact ⟨item, List.mem_cons_self, hfirst⟩
        | ok first =>
            rw [hfirst] at h
            cases hothers : rest.mapM answer with
            | error found =>
                rw [hothers] at h
                cases h
                rcases ih error hothers with ⟨other, hother, hanswer⟩
                exact ⟨other, List.mem_cons_of_mem _ hother, hanswer⟩
            | ok others =>
                rw [hothers] at h
                cases h
  · intro hfails
    rcases hfails with ⟨item, hitem, error, herror⟩
    cases hall : items.mapM answer with
    | error found => exact ⟨found, rfl⟩
    | ok values =>
        rcases (members_of_mapM hall).1 item hitem with ⟨value, _, hvalue⟩
        rw [herror] at hvalue
        cases hvalue

end Recompile
