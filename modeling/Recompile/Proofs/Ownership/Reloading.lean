import Recompile.Proofs.Ownership.Histories

/-!
# Reading a register back

Of a register only the index by class is kept between builds. A source that is
registered without classes is in no entry of that index, so a register that is
read back does not know it. Nothing else is lost: whatever is registered and
removed afterwards, the two registers give the same answers, and a source that
they differ in is one that nothing was said of since.
-/

namespace Recompile
namespace Ownership

variable {ownership kept reloaded : Ownership} {idle : String → Prop}
  {source other owner : String} {name added : ClassName} {classes : ClassSet}

/-- Whether a source is registered and has no classes. -/
def IsIdle (ownership : Ownership) (source : String) : Prop :=
  ownership.classesOf? source = some ∅

theorem IsIdle.not_owns (h : ownership.IsIdle source) : ¬ownership.Owns source name := by
  rw [owns_iff_mem h]
  exact Std.ExtTreeSet.not_mem_empty

theorem classesOf?_eq_of_owns_iff
    (howns : ∀ name, reloaded.Owns source name ↔ kept.Owns source name)
    (hkept : ¬kept.IsIdle source) (hreloaded : ¬reloaded.IsIdle source) :
    reloaded.classesOf? source = kept.classesOf? source := by
  have hsame : reloaded.bySource[source]?.getD ∅ = kept.bySource[source]?.getD ∅ := by
    apply Std.ExtTreeSet.ext_mem
    intro name
    rw [← owns_iff_mem_getD, ← owns_iff_mem_getD, howns name]
  unfold IsIdle at hkept hreloaded
  unfold classesOf? at hkept hreloaded ⊢
  cases hleft : reloaded.bySource[source]? with
  | none =>
      cases hright : kept.bySource[source]? with
      | none => rfl
      | some owned =>
          rw [hleft, hright, Option.getD_none, Option.getD_some] at hsame
          rw [hright, ← hsame] at hkept
          exact absurd rfl hkept
  | some owned =>
      cases hright : kept.bySource[source]? with
      | none =>
          rw [hleft, hright, Option.getD_none, Option.getD_some] at hsame
          rw [hleft, hsame] at hreloaded
          exact absurd rfl hreloaded
      | some owned' =>
          rw [hleft, hright, Option.getD_some, Option.getD_some] at hsame
          rw [hsame]

theorem not_isIdle_ofClasses (byClass : Std.ExtTreeMap ClassName String) :
    ¬(ofClasses byClass).IsIdle source := by
  unfold IsIdle ofClasses classesOf?
  have hempty : (∅ : Std.ExtTreeMap String ClassSet)[source]? ≠ some ∅ := by simp
  generalize (∅ : Std.ExtTreeMap String ClassSet) = bySource at hempty ⊢
  induction byClass.toList generalizing bySource with
  | nil => exact hempty
  | cons entry rest ih =>
      apply ih
      unfold addClass
      simp only [Std.ExtTreeMap.getElem?_insert, Std.LawfulEqCmp.compare_eq_iff_eq]
      by_cases howner : entry.2 = source
      · rw [if_pos howner, ne_eq, Option.some.injEq]
        intro hnone
        have hmem : entry.1 ∈ (bySource[entry.2]?.getD ∅).insert entry.1 :=
          Std.ExtTreeSet.mem_insert_self
        rw [hnone] at hmem
        exact Std.ExtTreeSet.not_mem_empty hmem
      · rw [if_neg howner]
        exact hempty

/-!
# Registers that differ in idle sources
-/

/-- Registers that say the same, but for some idle sources that the second one does not know. -/
structure Alike (idle : String → Prop) (kept reloaded : Ownership) : Prop where
  byClass_eq : reloaded.byClass = kept.byClass
  isIdle : ∀ source, idle source → kept.IsIdle source
  unknown : ∀ source, idle source → reloaded.classesOf? source = none
  known : ∀ source, ¬idle source → reloaded.classesOf? source = kept.classesOf? source

def reload (ownership : Ownership) : Ownership :=
  ofClasses ownership.byClass

theorem Consistent.alike_reload (h : ownership.Consistent) :
    Alike ownership.IsIdle ownership ownership.reload := by
  have hreloaded : ownership.reload.Consistent := consistent_ofClasses _
  have howns : ∀ source name, ownership.reload.Owns source name ↔ ownership.Owns source name := by
    intro source name
    rw [← hreloaded name source, ← h name source]
    rfl
  constructor
  · rfl
  · exact fun _ hidle => hidle
  · intro source hidle
    cases hclasses : ownership.reload.classesOf? source with
    | none => rfl
    | some owned =>
        have hnone : owned = ∅ := by
          apply Std.ExtTreeSet.ext_mem
          intro name
          rw [← owns_iff_mem hclasses, howns source name]
          exact iff_of_false hidle.not_owns Std.ExtTreeSet.not_mem_empty
        rw [hnone] at hclasses
        exact absurd hclasses (not_isIdle_ofClasses _)
  · intro source hbusy
    exact classesOf?_eq_of_owns_iff (howns source) hbusy (not_isIdle_ofClasses _)

namespace Alike

variable (h : Alike idle kept reloaded)
include h

theorem sourceOf?_eq (name : ClassName) : reloaded.sourceOf? name = kept.sourceOf? name :=
  congrArg (·[name]?) h.byClass_eq

theorem getD_eq (source : String) :
    reloaded.bySource[source]?.getD ∅ = kept.bySource[source]?.getD ∅ := by
  by_cases hidle : idle source
  · have hunknown : reloaded.bySource[source]? = none := h.unknown source hidle
    have hkept : kept.bySource[source]? = some ∅ := h.isIdle source hidle
    rw [hunknown, hkept]
    rfl
  · have hknown : reloaded.bySource[source]? = kept.bySource[source]? := h.known source hidle
    rw [hknown]

theorem eq_iff : reloaded = kept ↔ ∀ source, ¬idle source := by
  constructor
  · intro hsame source hidle
    have hunknown := h.unknown source hidle
    rw [hsame, h.isIdle source hidle] at hunknown
    cases hunknown
  · intro hbusy
    have hsources : reloaded.bySource = kept.bySource := by
      apply Std.ExtTreeMap.ext_getElem?
      intro source
      exact h.known source (hbusy source)
    have hclasses := h.byClass_eq
    cases reloaded
    cases kept
    simp only at hsources hclasses
    rw [hsources, hclasses]

/-!
# Changes

A class is only taken from a source that has it, so no claim comes to an idle
one. Naming a source in a change does away with what was different about it.
-/

theorem release (hbusy : ¬idle owner) (added : ClassName) :
    Alike idle (kept.release owner added) (reloaded.release owner added) := by
  have hbyClass : ∀ ownership : Ownership,
      (ownership.release owner added).byClass = ownership.byClass := by
    intro ownership
    unfold Ownership.release
    split
    · rfl
    · rfl
  have hne : ∀ source, idle source → owner ≠ source := by
    rintro source hidle rfl
    exact hbusy hidle
  constructor
  · rw [hbyClass, hbyClass, h.byClass_eq]
  · intro source hidle
    unfold IsIdle
    rw [classesOf?_release, if_neg (hne source hidle)]
    exact h.isIdle source hidle
  · intro source hidle
    rw [classesOf?_release, if_neg (hne source hidle)]
    exact h.unknown source hidle
  · intro source hsource
    rw [classesOf?_release, classesOf?_release, h.known source hsource, h.known owner hbusy]

theorem claim (hconsistent : kept.ConsistentBut source) (added : ClassName) :
    Alike idle (claim source kept added) (claim source reloaded added) := by
  have hclaimed : Alike idle { kept with byClass := kept.byClass.insert added source }
      { reloaded with byClass := reloaded.byClass.insert added source } :=
    ⟨congrArg (·.insert added source) h.byClass_eq, h.isIdle, h.unknown, h.known⟩
  have howner : reloaded.byClass[added]? = kept.byClass[added]? := h.sourceOf?_eq added
  unfold Ownership.claim
  rw [howner]
  cases hfound : kept.byClass[added]? with
  | none => exact hclaimed
  | some owner =>
      simp only
      by_cases hsame : owner = source
      · rw [if_pos hsame, if_pos hsame]
        exact hclaimed
      · rw [if_neg hsame, if_neg hsame]
        have howns : kept.Owns owner added := (hconsistent added owner hsame).mp hfound
        exact hclaimed.release (fun hidle => (h.isIdle owner hidle).not_owns howns) added

theorem foldl_claim (hconsistent : kept.ConsistentBut source) (names : List ClassName) :
    Alike idle (names.foldl (Ownership.claim source) kept)
      (names.foldl (Ownership.claim source) reloaded) := by
  induction names generalizing kept reloaded with
  | nil => exact h
  | cons first rest ih => exact ih (h.claim hconsistent first) (hconsistent.claim first)

theorem settle {kept' reloaded' : Ownership} (hclasses : reloaded'.byClass = kept'.byClass)
    (hself : reloaded'.classesOf? source = kept'.classesOf? source)
    (hkept : ∀ other, source ≠ other → kept'.classesOf? other = kept.classesOf? other)
    (hreloaded : ∀ other, source ≠ other →
      reloaded'.classesOf? other = reloaded.classesOf? other) :
    Alike (fun other => idle other ∧ source ≠ other) kept' reloaded' where
  byClass_eq := hclasses
  isIdle other hother := (hkept other hother.2).trans (h.isIdle other hother.1)
  unknown other hother := (hreloaded other hother.2).trans (h.unknown other hother.1)
  known other hother := by
    by_cases hsame : source = other
    · rw [← hsame]
      exact hself
    · rw [hkept other hsame, hreloaded other hsame]
      exact h.known other fun hidle => hother ⟨hidle, hsame⟩

theorem register (hconsistent : kept.Consistent) (source : String) (classes : ClassSet) :
    (reloaded.register source classes).1 = (kept.register source classes).1 ∧
      Alike (fun other => idle other ∧ source ≠ other) (kept.register source classes).2
        (reloaded.register source classes).2 := by
  have hclaimed := h.foldl_claim (hconsistent.consistentBut source) classes.toList
  have horphans : (reloaded.register source classes).1 = (kept.register source classes).1 :=
    congrArg (· \ classes) (hclaimed.getD_eq source)
  have hothers : ∀ (ownership : Ownership) other, source ≠ other →
      (ownership.register source classes).2.classesOf? other =
        (classes.toList.foldl (Ownership.claim source) ownership).classesOf? other := by
    intro ownership other hne
    unfold Ownership.register forget classesOf?
    simp [Std.ExtTreeMap.getElem?_insert, hne]
  constructor
  · exact horphans
  · apply hclaimed.settle
    · show ((classes.toList.foldl (Ownership.claim source) reloaded).forget
          (reloaded.register source classes).1).byClass =
        ((classes.toList.foldl (Ownership.claim source) kept).forget
          (kept.register source classes).1).byClass
      unfold forget
      rw [horphans, hclaimed.byClass_eq]
    · rw [classesOf?_register_self, classesOf?_register_self]
    · exact hothers kept
    · exact hothers reloaded

theorem remove (source : String) :
    (reloaded.remove source).1 = (kept.remove source).1 ∧
      Alike (fun other => idle other ∧ source ≠ other) (kept.remove source).2
        (reloaded.remove source).2 := by
  have howned : (reloaded.remove source).1 = (kept.remove source).1 := h.getD_eq source
  constructor
  · exact howned
  · apply h.settle
    · show (reloaded.forget (reloaded.remove source).1).byClass =
        (kept.forget (kept.remove source).1).byClass
      unfold forget
      rw [howned, h.byClass_eq]
    · rw [classesOf?_remove, classesOf?_remove, if_pos rfl, if_pos rfl]
    · intro other hne
      rw [classesOf?_remove, if_neg hne]
    · intro other hne
      rw [classesOf?_remove, if_neg hne]

end Alike

def Change.about : Change → String
  | register source _ => source
  | remove source => source

def Passes (changes : List Change) (source : String) : Prop :=
  ∀ change ∈ changes, change.about ≠ source

theorem Alike.apply (h : Alike idle kept reloaded) (hconsistent : kept.Consistent)
    (change : Change) :
    (change.apply reloaded).1 = (change.apply kept).1 ∧
      Alike (fun other => idle other ∧ change.about ≠ other) (change.apply kept).2
        (change.apply reloaded).2 := by
  cases change with
  | register source classes => exact h.register hconsistent source classes
  | remove source => exact h.remove source

theorem Alike.after (h : Alike idle kept reloaded) (hconsistent : kept.Consistent)
    (changes : List Change) :
    Alike (fun source => idle source ∧ Passes changes source) (kept.after changes)
      (reloaded.after changes) := by
  induction changes generalizing idle kept reloaded with
  | nil =>
      have hall : (fun source => idle source ∧ Passes [] source) = idle := by
        funext source
        simp [Passes]
      rw [hall]
      exact h
  | cons change rest ih =>
      have hall : (fun source => idle source ∧ Passes (change :: rest) source) =
          fun source => (idle source ∧ change.about ≠ source) ∧ Passes rest source := by
        funext source
        simp [Passes, and_assoc]
      rw [hall, after_cons, after_cons]
      exact ih (h.apply hconsistent change).2 (hconsistent.apply change)

/-!
# Nothing but idle sources is lost
-/

/-- Whether a register comes from an empty one, or from one that was read back, by changes. -/
def Arises (ownership : Ownership) : Prop :=
  ∃ (start : Ownership) (changes : List Change),
    (start = empty ∨ ∃ byClass, start = ofClasses byClass) ∧ ownership = start.after changes

theorem Arises.consistent (h : ownership.Arises) : ownership.Consistent := by
  rcases h with ⟨start, changes, rfl | ⟨byClass, rfl⟩, rfl⟩
  · exact consistent_empty.after changes
  · exact (consistent_ofClasses byClass).after changes

/--
A register that is read back is the one before if and only if that had no
source without classes. In any case the two give the same answers after any
further changes, except about a source that had no classes and that no change
has named since: this is unknown to the one that was read back, and has no
classes in the other.
-/
theorem reload_answers_alike (h : ownership.Arises) :
    (ownership.reload = ownership ↔ ∀ source, ownership.classesOf? source ≠ some ∅) ∧
    ∀ later : List Change,
      (∀ change : Change, (change.apply (ownership.reload.after later)).1 =
        (change.apply (ownership.after later)).1) ∧
      (∀ name, (ownership.reload.after later).sourceOf name =
        (ownership.after later).sourceOf name) ∧
      (ownership.reload.after later).size = (ownership.after later).size ∧
      (ownership.reload.after later).isEmpty = (ownership.after later).isEmpty ∧
      (ownership.reload.after later).byClass = (ownership.after later).byClass ∧
      (∀ source, ownership.IsIdle source ∧ Passes later source →
        (ownership.after later).classesOf source = .ok ∅ ∧
          (ownership.reload.after later).classesOf source = .error (.unknownSource source)) ∧
      ∀ source, ¬(ownership.IsIdle source ∧ Passes later source) →
        (ownership.reload.after later).classesOf source =
          (ownership.after later).classesOf source := by
  have hconsistent := h.consistent
  have hreload := hconsistent.alike_reload
  constructor
  · exact hreload.eq_iff
  · intro later
    have halike := hreload.after hconsistent later
    have hclasses := halike.byClass_eq
    refine ⟨?_, ?_, ?_, ?_, hclasses, ?_, ?_⟩
    · exact fun change => (halike.apply (hconsistent.after later) change).1
    · intro name
      unfold sourceOf
      rw [halike.sourceOf?_eq name]
    · unfold size
      rw [hclasses]
    · unfold isEmpty
      rw [hclasses]
    · intro source hidle
      have hkept : (ownership.after later).classesOf? source = some ∅ := halike.isIdle source hidle
      unfold classesOf
      rw [halike.unknown source hidle, hkept]
      exact ⟨rfl, rfl⟩
    · intro source hbusy
      unfold classesOf
      rw [halike.known source hbusy]

def halfIdle : Ownership :=
  empty.after [.register "p/package-info.java" ∅, .register "A.java" {⟨"X"⟩}]

theorem reload_answers_alike_of_moved_class :
    halfIdle.Arises ∧ halfIdle.reload ≠ halfIdle ∧
      ((halfIdle.after [.register "B.java" {⟨"X"⟩}]).classesOf "p/package-info.java" = .ok ∅ ∧
        (halfIdle.reload.after [.register "B.java" {⟨"X"⟩}]).classesOf "p/package-info.java" =
          .error (.unknownSource "p/package-info.java")) ∧
      (halfIdle.reload.after [.register "B.java" {⟨"X"⟩}]).classesOf "A.java" =
        (halfIdle.after [.register "B.java" {⟨"X"⟩}]).classesOf "A.java" ∧
      (halfIdle.reload.after [.register "B.java" {⟨"X"⟩}]).sourceOf ⟨"X"⟩ = .ok "B.java" := by
  have harises : halfIdle.Arises := ⟨empty, _, Or.inl rfl, rfl⟩
  have hidle : halfIdle.IsIdle "p/package-info.java" := by
    unfold IsIdle
    decide +kernel
  rcases reload_answers_alike harises with ⟨hsame, hlater⟩
  rcases hlater [.register "B.java" {⟨"X"⟩}] with ⟨_, hsources, _, _, _, hlost, hothers⟩
  refine ⟨harises, ?_, ?_, ?_, ?_⟩
  · rw [ne_eq, hsame]
    exact fun hnone => hnone _ hidle
  · apply hlost
    simp [hidle, Passes, Change.about]
  · apply hothers
    rintro ⟨hidle, _⟩
    revert hidle
    unfold IsIdle
    decide +kernel
  · have howner : (halfIdle.after [.register "B.java" {⟨"X"⟩}]).sourceOf? ⟨"X"⟩ =
        some "B.java" := by
      decide +kernel
    rw [hsources]
    unfold sourceOf
    rw [howner]

end Ownership
end Recompile
