import Recompile.Proofs.Ownership

/-!
# Histories of a register

A register starts empty or is read back, and sources are registered and removed
in any order after that. The two indexes never come apart, and each change does
exactly what it says: it is told which classes it gives back, which sources lose
classes to it, and which of those are dropped.
-/

namespace Recompile
namespace Ownership

variable {ownership start : Ownership} {source other owner : String} {name added : ClassName}
  {classes : ClassSet}

/-!
# Dropping a source

A source is dropped when it had classes and the last of them is taken. One that
was registered without classes stays.
-/

def LosesAll (ownership : Ownership) (source : String) (taken : ClassName → Prop) : Prop :=
  (∃ name, ownership.Owns source name) ∧ ∀ name, ownership.Owns source name → taken name

theorem owns_iff_mem {owned : ClassSet} (h : ownership.classesOf? source = some owned) :
    ownership.Owns source name ↔ name ∈ owned := by
  unfold Owns
  simp [h]

theorem isEmpty_erase_iff {owned : ClassSet} :
    (owned.erase added).isEmpty = true ↔ ∀ name ∈ owned, name = added := by
  rw [Std.ExtTreeSet.isEmpty_iff]
  constructor
  · intro hnone name hname
    apply Classical.byContradiction
    intro hne
    have hleft : name ∈ owned.erase added :=
      Std.ExtTreeSet.mem_erase.mpr ⟨by simpa using Ne.symm hne, hname⟩
    rw [hnone] at hleft
    exact Std.ExtTreeSet.not_mem_empty hleft
  · intro hall
    apply Std.ExtTreeSet.ext_mem
    intro name
    rw [Std.ExtTreeSet.mem_erase]
    constructor
    · intro hname
      exact absurd (hall name hname.2).symm (by simpa using hname.1)
    · intro hname
      exact absurd hname Std.ExtTreeSet.not_mem_empty

theorem classesOf?_release_self_eq_none_iff :
    (ownership.release other added).classesOf? other = none ↔
      ownership.classesOf? other = none ∨
        ∀ name, ownership.Owns other name → name = added := by
  rw [classesOf?_release, if_pos rfl]
  cases howned : ownership.classesOf? other with
  | none => simp
  | some owned =>
      simp only [owns_iff_mem howned]
      rw [← isEmpty_erase_iff, Option.bind_some]
      by_cases hleft : (owned.erase added).isEmpty = true
      · rw [if_pos hleft]
        exact iff_of_true rfl (Or.inr hleft)
      · rw [if_neg hleft]
        exact iff_of_false nofun (not_or.mpr ⟨nofun, hleft⟩)

theorem ConsistentBut.classesOf?_claim_eq_none_iff (h : ownership.ConsistentBut source)
    (hother : other ≠ source) :
    (Ownership.claim source ownership added).classesOf? other = none ↔
      ownership.classesOf? other = none ∨
        ownership.Owns other added ∧ ∀ name, ownership.Owns other name → name = added := by
  rw [← h added other hother]
  let claimed := { ownership with byClass := ownership.byClass.insert added source }
  unfold Ownership.claim sourceOf?
  cases ownership.byClass[added]? with
  | none =>
      show ownership.classesOf? other = none ↔ _
      simp
  | some owner =>
      simp only [Option.some.injEq]
      by_cases howner : owner = source
      · rw [if_pos howner]
        show ownership.classesOf? other = none ↔ _
        have hsame : owner ≠ other := howner ▸ Ne.symm hother
        simp [hsame]
      · rw [if_neg howner]
        by_cases hsame : owner = other
        · subst hsame
          have hreleased : (claimed.release owner added).classesOf? owner = none ↔
              ownership.classesOf? owner = none ∨
                ∀ name, ownership.Owns owner name → name = added :=
            classesOf?_release_self_eq_none_iff
          simpa using hreleased
        · rw [classesOf?_release, if_neg hsame]
          show ownership.classesOf? other = none ↔ _
          simp [hsame]

theorem ConsistentBut.classesOf?_foldl_claim_eq_none_iff (h : ownership.ConsistentBut source)
    (hother : other ≠ source) (names : List ClassName) :
    (names.foldl (Ownership.claim source) ownership).classesOf? other = none ↔
      ownership.classesOf? other = none ∨ ownership.LosesAll other (· ∈ names) := by
  induction names generalizing ownership with
  | nil =>
      unfold LosesAll
      constructor
      · exact Or.inl
      · rintro (hnone | ⟨⟨name, hname⟩, hall⟩)
        · exact hnone
        · exact absurd (hall name hname) List.not_mem_nil
  | cons first rest ih =>
      rw [List.foldl_cons, ih (h.claim first), h.classesOf?_claim_eq_none_iff hother, or_assoc]
      apply or_congr Iff.rfl
      have howns : ∀ name, (Ownership.claim source ownership first).Owns other name ↔
          ownership.Owns other name ∧ first ≠ name := by
        intro name
        rw [h.owns_claim_iff]
        simp [hother]
      unfold LosesAll
      simp only [howns, List.mem_cons]
      constructor
      · rintro (⟨hfirst, hall⟩ | ⟨⟨name, hname, _⟩, hall⟩)
        · exact ⟨⟨first, hfirst⟩, fun name hname => Or.inl (hall name hname)⟩
        · constructor
          · exact ⟨name, hname⟩
          · intro another hanother
            by_cases hsame : another = first
            · exact Or.inl hsame
            · exact Or.inr (hall another ⟨hanother, Ne.symm hsame⟩)
      · rintro ⟨⟨name, hname⟩, hall⟩
        by_cases honly : ∀ another, ownership.Owns other another → another = first
        · left
          exact ⟨honly name hname ▸ hname, honly⟩
        · right
          constructor
          · rcases Classical.not_forall.mp honly with ⟨another, hanother⟩
            rcases Classical.not_imp.mp hanother with ⟨howned, hne⟩
            exact ⟨another, howned, Ne.symm hne⟩
          · rintro another ⟨hanother, hne⟩
            rcases hall another hanother with hsame | hrest
            · exact absurd hsame.symm hne
            · exact hrest

/-!
# One change
-/

structure Registers (before : Ownership) (source : String) (classes orphans : ClassSet)
    (after : Ownership) : Prop where
  orphaned : ∀ name, name ∈ orphans ↔ before.Owns source name ∧ name ∉ classes
  own : after.classesOf? source = some classes
  taken : ∀ other, other ≠ source → ∀ name,
    after.Owns other name ↔ before.Owns other name ∧ name ∉ classes
  dropped : ∀ other, other ≠ source →
    (after.classesOf? other = none ↔
      before.classesOf? other = none ∨ before.LosesAll other (· ∈ classes))

structure Removes (before : Ownership) (source : String) (owned : ClassSet)
    (after : Ownership) : Prop where
  owned : ∀ name, name ∈ owned ↔ before.Owns source name
  gone : after.classesOf? source = none
  kept : ∀ other, other ≠ source → after.classesOf? other = before.classesOf? other

theorem Consistent.registers (h : ownership.Consistent) (source : String) (classes : ClassSet) :
    ownership.Registers source classes (ownership.register source classes).1
      (ownership.register source classes).2 where
  orphaned name := by
    rw [h.mem_fst_register, h name source]
  own := classesOf?_register_self
  taken other hother name := by
    rw [h.owns_register, if_neg hother]
  dropped other hother := by
    have hfolded : (ownership.register source classes).2.classesOf? other =
        (classes.toList.foldl (claim source) ownership).classesOf? other := by
      unfold Ownership.register forget classesOf?
      simp [Std.ExtTreeMap.getElem?_insert, Ne.symm hother]
    rw [hfolded, (h.consistentBut source).classesOf?_foldl_claim_eq_none_iff hother]
    simp only [Std.ExtTreeSet.mem_toList]

theorem removes (ownership : Ownership) (source : String) :
    ownership.Removes source (ownership.remove source).1 (ownership.remove source).2 where
  owned name := mem_fst_remove
  gone := by
    rw [classesOf?_remove, if_pos rfl]
  kept other hother := by
    rw [classesOf?_remove, if_neg (Ne.symm hother)]

/-!
# One change after the other
-/

inductive Change where
  | register (source : String) (classes : ClassSet)
  | remove (source : String)

def Change.apply (ownership : Ownership) : Change → ClassSet × Ownership
  | register source classes => ownership.register source classes
  | remove source => ownership.remove source

def after (ownership : Ownership) (changes : List Change) : Ownership :=
  changes.foldl (fun ownership change => (change.apply ownership).2) ownership

theorem after_nil (ownership : Ownership) : ownership.after [] = ownership :=
  rfl

theorem after_cons (ownership : Ownership) (change : Change) (rest : List Change) :
    ownership.after (change :: rest) = (change.apply ownership).2.after rest :=
  rfl

theorem Consistent.apply (h : ownership.Consistent) (change : Change) :
    (change.apply ownership).2.Consistent := by
  cases change with
  | register source classes => exact h.register source classes
  | remove source => exact h.remove source

theorem Consistent.after (h : ownership.Consistent) (changes : List Change) :
    (ownership.after changes).Consistent := by
  induction changes generalizing ownership with
  | nil => exact h
  | cons change rest ih =>
      rw [after_cons]
      exact ih (h.apply change)

theorem Consistent.owner_unique (h : ownership.Consistent) (hsource : ownership.Owns source name)
    (hother : ownership.Owns other name) : source = other := by
  rw [← h name source] at hsource
  rw [← h name other, hsource] at hother
  exact Option.some.inj hother

/--
Whatever changes were made to a register that was empty or read back, its two
indexes agree, no class has two owners, and any next change gives back and
leaves exactly what it is to.
-/
theorem consistent_after_changes (changes : List Change)
    (hstart : start = empty ∨ ∃ byClass, start = ofClasses byClass) :
    (∀ name source, (start.after changes).sourceOf? name = some source ↔
      (start.after changes).Owns source name) ∧
    (∀ name source other, (start.after changes).Owns source name →
      (start.after changes).Owns other name → source = other) ∧
    (∀ source classes, (start.after changes).Registers source classes
      ((start.after changes).register source classes).1
      (start.after (changes ++ [.register source classes]))) ∧
    ∀ source, (start.after changes).Removes source
      ((start.after changes).remove source).1 (start.after (changes ++ [.remove source])) := by
  have hconsistent : (start.after changes).Consistent := by
    apply Consistent.after
    rcases hstart with hempty | ⟨byClass, hread⟩
    · rw [hempty]
      exact consistent_empty
    · rw [hread]
      exact consistent_ofClasses byClass
  have hnext : ∀ change, start.after (changes ++ [change]) =
      (change.apply (start.after changes)).2 := by
    intro change
    unfold Ownership.after
    rw [List.foldl_append]
    rfl
  constructor
  · exact hconsistent
  constructor
  · exact fun name source other => hconsistent.owner_unique
  constructor
  · intro source classes
    rw [hnext]
    exact hconsistent.registers source classes
  · intro source
    rw [hnext]
    exact removes (start.after changes) source

def pairOwnership : Ownership :=
  ofClasses (Std.ExtTreeMap.insert (Std.ExtTreeMap.insert ∅ ⟨"X"⟩ "A.java") ⟨"Y"⟩ "A.java")

theorem sourceOf?_pairOwnership :
    pairOwnership.sourceOf? name = some source ↔
      (name = ⟨"X"⟩ ∨ name = ⟨"Y"⟩) ∧ source = "A.java" := by
  unfold pairOwnership ofClasses sourceOf?
  simp only [Std.ExtTreeMap.getElem?_insert, Std.LawfulEqCmp.compare_eq_iff_eq]
  by_cases hy : ⟨"Y"⟩ = name
  · simp [hy, eq_comm]
  · by_cases hx : ⟨"X"⟩ = name
    · simp [hy, hx, eq_comm]
    · simp [hy, hx, Ne.symm hx, Ne.symm hy]

theorem consistent_after_moving_both :
    ((pairOwnership.after [.register "B.java" {⟨"X"⟩}]).Owns "A.java" ⟨"Y"⟩ ∧
      (pairOwnership.after [.register "B.java" {⟨"X"⟩}]).sourceOf? ⟨"X"⟩ = some "B.java") ∧
    ⟨"X"⟩ ∈ ((pairOwnership.after [.register "B.java" {⟨"X"⟩}]).register "B.java" {⟨"Y"⟩}).1 ∧
    (pairOwnership.after
      [.register "B.java" {⟨"X"⟩}, .register "B.java" {⟨"Y"⟩}]).classesOf? "A.java" = none := by
  have hstart : pairOwnership = empty ∨ ∃ byClass, pairOwnership = ofClasses byClass :=
    Or.inr ⟨_, rfl⟩
  rcases consistent_after_changes [] hstart with ⟨hagree, _, hregisters, _⟩
  have hfirst := hregisters "B.java" {⟨"X"⟩}
  rw [after_nil] at hagree hfirst
  have howns : ∀ name, (pairOwnership.after [.register "B.java" {⟨"X"⟩}]).Owns "A.java" name ↔
      name = ⟨"Y"⟩ := by
    intro name
    have htaken := hfirst.taken "A.java" (by decide) name
    rw [← hagree name "A.java", sourceOf?_pairOwnership] at htaken
    apply htaken.trans
    constructor
    · rintro ⟨⟨rfl | rfl, _⟩, hnot⟩
      · simp at hnot
      · rfl
    · rintro rfl
      simp
  have hown : (pairOwnership.after [.register "B.java" {⟨"X"⟩}]).Owns "B.java" ⟨"X"⟩ :=
    ⟨_, hfirst.own, by simp⟩
  rcases consistent_after_changes [.register "B.java" {⟨"X"⟩}] hstart with
    ⟨hagree, _, hregisters, _⟩
  have hsecond := hregisters "B.java" {⟨"Y"⟩}
  constructor
  · constructor
    · exact (howns _).mpr rfl
    · exact (hagree _ _).mpr hown
  constructor
  · apply (hsecond.orphaned _).mpr
    constructor
    · exact hown
    · simp
  · apply (hsecond.dropped "A.java" (by decide)).mpr
    right
    constructor
    · exact ⟨_, (howns _).mpr rfl⟩
    · intro name hname
      rw [(howns name).mp hname]
      simp

end Ownership
end Recompile
