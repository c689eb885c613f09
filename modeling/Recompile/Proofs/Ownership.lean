import Recompile.Ownership

/-!
# The two indexes agree

A register is consistent when its index by class names exactly the source that
has the class in the index by source. The changes keep it so, and what they do
can then be told from the index by class alone.
-/

namespace Recompile
namespace Ownership

variable {ownership : Ownership} {source other : String} {name : ClassName}

def Owns (ownership : Ownership) (source : String) (name : ClassName) : Prop :=
  ∃ classes, ownership.classesOf? source = some classes ∧ name ∈ classes

theorem owns_iff_mem_getD :
    ownership.Owns source name ↔ name ∈ ownership.bySource[source]?.getD ∅ := by
  unfold Owns classesOf?
  cases ownership.bySource[source]? with
  | none => simp
  | some classes => simp

def Consistent (ownership : Ownership) : Prop :=
  ∀ name source, ownership.sourceOf? name = some source ↔ ownership.Owns source name

theorem consistent_empty : empty.Consistent := by
  intro name source
  simp [sourceOf?, Owns, classesOf?, empty]

/-!
# The register of an index by class

Reading the index by class in any order gives each class to its source.
-/

theorem mem_getD_addClass (bySource : Std.ExtTreeMap String ClassSet) (added : ClassName)
    (owner : String) :
    name ∈ (addClass bySource added owner)[source]?.getD ∅ ↔
      name ∈ bySource[source]?.getD ∅ ∨ name = added ∧ source = owner := by
  unfold addClass
  simp only [Std.ExtTreeMap.getElem?_insert, Std.LawfulEqCmp.compare_eq_iff_eq]
  by_cases howner : owner = source
  · subst howner
    rw [if_pos rfl, Option.getD_some, Std.ExtTreeSet.mem_insert,
      Std.LawfulEqCmp.compare_eq_iff_eq]
    simp [or_comm, eq_comm]
  · simp [howner, Ne.symm howner]

theorem mem_getD_foldl_addClass (entries : List (ClassName × String))
    (bySource : Std.ExtTreeMap String ClassSet) :
    name ∈ (entries.foldl (fun bySource (name, source) => addClass bySource name source)
        bySource)[source]?.getD ∅ ↔
      name ∈ bySource[source]?.getD ∅ ∨ (name, source) ∈ entries := by
  induction entries generalizing bySource with
  | nil => simp
  | cons entry rest ih =>
      rw [List.foldl_cons, ih, mem_getD_addClass, List.mem_cons, or_assoc]
      simp [Prod.ext_iff]

/-- What is stored is the index by class, so a register that is read back is consistent. -/
theorem consistent_ofClasses (byClass : Std.ExtTreeMap ClassName String) :
    (ofClasses byClass).Consistent := by
  intro name source
  rw [owns_iff_mem_getD]
  unfold ofClasses sourceOf?
  rw [mem_getD_foldl_addClass, Std.ExtTreeMap.mem_toList_iff_getElem?_eq_some]
  simp

/-!
# Forgetting and removing
-/

theorem getElem?_foldl_erase (names : List ClassName) (known : Std.ExtTreeMap ClassName String) :
    (names.foldl (fun known name => known.erase name) known)[name]? =
      if name ∈ names then none else known[name]? := by
  induction names generalizing known with
  | nil => simp
  | cons first rest ih =>
      simp only [List.foldl_cons, ih, Std.ExtTreeMap.getElem?_erase,
        Std.LawfulEqCmp.compare_eq_iff_eq]
      by_cases hrest : name ∈ rest
      · simp [hrest]
      · simp [hrest, eq_comm]

theorem sourceOf?_forget (classes : ClassSet) :
    (ownership.forget classes).sourceOf? name =
      if name ∈ classes then none else ownership.sourceOf? name := by
  unfold forget sourceOf?
  rw [getElem?_foldl_erase]
  simp [Std.ExtTreeSet.mem_toList]

theorem mem_fst_remove : name ∈ (ownership.remove source).1 ↔ ownership.Owns source name :=
  owns_iff_mem_getD.symm

theorem classesOf?_remove :
    (ownership.remove source).2.classesOf? other =
      if source = other then none else ownership.classesOf? other := by
  unfold remove forget classesOf?
  simp only [Std.ExtTreeMap.getElem?_erase, Std.LawfulEqCmp.compare_eq_iff_eq]

theorem owns_remove :
    (ownership.remove source).2.Owns other name ↔
      source ≠ other ∧ ownership.Owns other name := by
  unfold Owns
  rw [classesOf?_remove]
  by_cases hsame : source = other
  · simp [hsame]
  · simp [hsame]

theorem Consistent.sourceOf?_remove (h : ownership.Consistent) :
    (ownership.remove source).2.sourceOf? name =
      if ownership.sourceOf? name = some source then none else ownership.sourceOf? name := by
  have hforgotten : (ownership.remove source).2.sourceOf? name =
      if name ∈ (ownership.remove source).1 then none else ownership.sourceOf? name :=
    sourceOf?_forget _
  rw [hforgotten]
  simp only [mem_fst_remove, ← h name source]

theorem Consistent.remove (h : ownership.Consistent) (source : String) :
    (ownership.remove source).2.Consistent := by
  intro name other
  rw [h.sourceOf?_remove, owns_remove, ← h name other]
  by_cases hsource : ownership.sourceOf? name = some source
  · simp [hsource]
  · rw [if_neg hsource]
    constructor
    · intro hother
      refine ⟨?_, hother⟩
      rintro rfl
      exact hsource hother
    · exact And.right

/-!
# Claiming

A claim takes a class away from its owner. The classes that the claiming source
had before stay with it until it is registered as a whole.
-/

variable {added : ClassName} {owner : String}

theorem classesOf?_release :
    (ownership.release owner added).classesOf? other =
      if owner = other then
        (ownership.classesOf? owner).bind fun owned =>
          if (owned.erase added).isEmpty then none else some (owned.erase added)
      else ownership.classesOf? other := by
  unfold release classesOf?
  cases howned : ownership.bySource[owner]? with
  | none =>
      by_cases hother : owner = other
      · subst hother
        simp [howned]
      · simp [hother]
  | some owned =>
      simp only [Option.bind_some]
      generalize owned.erase added = left
      by_cases hleft : left.isEmpty = true
      · by_cases hother : owner = other
        · simp [hleft, hother]
        · simp [hleft, hother, Std.ExtTreeMap.getElem?_erase]
      · by_cases hother : owner = other
        · simp [hleft, hother]
        · simp [hleft, hother, Std.ExtTreeMap.getElem?_insert]

theorem getD_release :
    (ownership.release owner added).bySource[other]?.getD ∅ =
      if owner = other then (ownership.bySource[owner]?.getD ∅).erase added
      else ownership.bySource[other]?.getD ∅ := by
  show ((ownership.release owner added).classesOf? other).getD ∅ =
    if owner = other then ((ownership.classesOf? owner).getD ∅).erase added
    else (ownership.classesOf? other).getD ∅
  rw [classesOf?_release]
  by_cases hother : owner = other
  · rw [if_pos hother, if_pos hother]
    cases ownership.classesOf? owner with
    | none => exact Std.ExtTreeSet.erase_empty.symm
    | some owned =>
        rw [Option.bind_some, Option.getD_some]
        split
        · next hnone => exact (Std.ExtTreeSet.isEmpty_iff.mp hnone).symm
        · rfl
  · rw [if_neg hother, if_neg hother]

theorem owns_release :
    (ownership.release owner added).Owns other name ↔
      ownership.Owns other name ∧ ¬(owner = other ∧ added = name) := by
  rw [owns_iff_mem_getD, owns_iff_mem_getD, getD_release]
  by_cases hother : owner = other
  · subst hother
    simp [Std.ExtTreeSet.mem_erase, and_comm]
  · simp [hother]

theorem sourceOf?_claim :
    (claim source ownership added).sourceOf? name =
      if added = name then some source else ownership.sourceOf? name := by
  have hclaimed :
          (claim source ownership added).byClass = ownership.byClass.insert added source := by
    unfold claim
    cases ownership.byClass[added]? with
    | none => rfl
    | some owner =>
        by_cases howner : owner = source
        · simp [howner]
        · simp only [howner, if_false, release]
          split <;> rfl
  simp only [sourceOf?, hclaimed, Std.ExtTreeMap.getElem?_insert, Std.LawfulEqCmp.compare_eq_iff_eq]

theorem owns_claim :
    (claim source ownership added).Owns other name ↔
      ownership.Owns other name ∧
        ¬(ownership.sourceOf? added = some other ∧ other ≠ source ∧ added = name) := by
  unfold claim sourceOf?
  cases ownership.byClass[added]? with
  | none => simp [Owns, classesOf?]
  | some owner =>
      by_cases howner : owner = source
      · subst howner
        simp only [if_true, Option.some.injEq]
        constructor
        · intro howns
          refine ⟨howns, ?_⟩
          rintro ⟨hother, hne, _⟩
          exact hne hother.symm
        · exact And.left
      · simp only [howner, if_false, Option.some.injEq]
        rw [owns_release]
        refine and_congr Iff.rfl (not_congr (and_congr_right ?_))
        rintro rfl
        simp [howner]

/-- Consistent as far as other sources than the claiming one are concerned. -/
def ConsistentBut (source : String) (ownership : Ownership) : Prop :=
  ∀ name other, other ≠ source →
    (ownership.sourceOf? name = some other ↔ ownership.Owns other name)

theorem ConsistentBut.claim (h : ownership.ConsistentBut source) (added : ClassName) :
    (claim source ownership added).ConsistentBut source := by
  intro name other hother
  rw [sourceOf?_claim, owns_claim, ← h name other hother]
  by_cases hsame : added = name
  · subst hsame
    simp [hother, Ne.symm hother]
  · simp [hsame]

theorem ConsistentBut.owns_claim_iff (h : ownership.ConsistentBut source) :
    (Ownership.claim source ownership added).Owns other name ↔
      ownership.Owns other name ∧ (added = name → other = source) := by
  rw [owns_claim]
  refine and_congr_right fun howns => ?_
  constructor
  · intro hkept hsame
    refine Classical.byContradiction fun hother => ?_
    subst hsame
    exact hkept ⟨(h added other hother).mpr howns, hother, rfl⟩
  · rintro hkept ⟨_, hother, hsame⟩
    exact hother (hkept hsame)

theorem sourceOf?_foldl_claim (names : List ClassName) :
    (names.foldl (claim source) ownership).sourceOf? name =
      if name ∈ names then some source else ownership.sourceOf? name := by
  induction names generalizing ownership with
  | nil => simp
  | cons first rest ih =>
      rw [List.foldl_cons, ih, sourceOf?_claim]
      by_cases hrest : name ∈ rest
      · simp [hrest]
      · simp [hrest, eq_comm]

theorem owns_of_owns_foldl_claim {names : List ClassName}
    (h : (names.foldl (claim source) ownership).Owns other name) :
    ownership.Owns other name := by
  induction names generalizing ownership with
  | nil => exact h
  | cons first rest ih => exact (owns_claim.mp (ih h)).1

theorem ConsistentBut.owns_foldl_claim (h : ownership.ConsistentBut source)
    (names : List ClassName) :
    (names.foldl (Ownership.claim source) ownership).Owns other name ↔
      ownership.Owns other name ∧ (name ∈ names → other = source) := by
  induction names generalizing ownership with
  | nil => simp
  | cons first rest ih =>
      rw [List.foldl_cons, ih (h.claim first), h.owns_claim_iff, List.mem_cons, and_assoc]
      refine and_congr_right fun _ => ?_
      constructor
      · rintro ⟨hfirst, hrest⟩ (hname | hname)
        · exact hfirst hname.symm
        · exact hrest hname
      · intro hall
        exact ⟨fun hname => hall (Or.inl hname.symm), fun hname => hall (Or.inr hname)⟩

/-!
# Registering

A source that is registered has the classes that it is registered with, and no
others. What it had besides has no source any more.
-/

variable {classes : ClassSet}

theorem mem_fst_register :
    name ∈ (ownership.register source classes).1 ↔
      (classes.toList.foldl (claim source) ownership).Owns source name ∧ name ∉ classes := by
  unfold register
  rw [Std.ExtTreeSet.mem_diff_iff, owns_iff_mem_getD]

theorem classesOf?_register_self :
    (ownership.register source classes).2.classesOf? source = some classes := by
  unfold register forget classesOf?
  exact Std.ExtTreeMap.getElem?_insert_self

theorem owns_register_other (hother : other ≠ source) :
    (ownership.register source classes).2.Owns other name ↔
      (classes.toList.foldl (claim source) ownership).Owns other name := by
  unfold register forget Owns classesOf?
  simp [Std.ExtTreeMap.getElem?_insert, Ne.symm hother]

theorem owns_of_owns_register (hother : other ≠ source)
    (h : (ownership.register source classes).2.Owns other name) : ownership.Owns other name :=
  owns_of_owns_foldl_claim ((owns_register_other hother).mp h)

theorem owns_of_mem_fst_register (h : name ∈ (ownership.register source classes).1) :
    ownership.Owns source name :=
  owns_of_owns_foldl_claim (mem_fst_register.mp h).1

theorem Consistent.consistentBut (h : ownership.Consistent) (source : String) :
    ownership.ConsistentBut source :=
  fun name other _ => h name other

theorem Consistent.mem_fst_register (h : ownership.Consistent) :
    name ∈ (ownership.register source classes).1 ↔
      ownership.sourceOf? name = some source ∧ name ∉ classes := by
  rw [Ownership.mem_fst_register, (h.consistentBut source).owns_foldl_claim, h name source]
  simp

theorem Consistent.sourceOf?_register (h : ownership.Consistent) :
    (ownership.register source classes).2.sourceOf? name =
      if name ∈ classes then some source
      else if ownership.sourceOf? name = some source then none
      else ownership.sourceOf? name := by
  have hforgotten : (ownership.register source classes).2.sourceOf? name =
      if name ∈ (ownership.register source classes).1 then none
      else (classes.toList.foldl (claim source) ownership).sourceOf? name :=
    sourceOf?_forget _
  rw [hforgotten, sourceOf?_foldl_claim]
  simp only [h.mem_fst_register, Std.ExtTreeSet.mem_toList]
  by_cases hclass : name ∈ classes
  · simp [hclass]
  · simp [hclass]

theorem Consistent.owns_register (h : ownership.Consistent) :
    (ownership.register source classes).2.Owns other name ↔
      if other = source then name ∈ classes
      else ownership.Owns other name ∧ name ∉ classes := by
  by_cases hother : other = source
  · subst hother
    unfold Owns
    simp [classesOf?_register_self]
  · rw [owns_register_other hother, (h.consistentBut source).owns_foldl_claim]
    simp [hother, Std.ExtTreeSet.mem_toList]

theorem Consistent.register (h : ownership.Consistent) (source : String) (classes : ClassSet) :
    (ownership.register source classes).2.Consistent := by
  intro name other
  rw [h.sourceOf?_register, h.owns_register]
  by_cases hclass : name ∈ classes
  · simp [hclass, eq_comm]
  · rw [if_neg hclass, ← h name other]
    by_cases hother : other = source
    · subst hother
      by_cases hsource : ownership.sourceOf? name = some other
      · simp [hclass, hsource]
      · simp [hclass, hsource]
    · by_cases hsource : ownership.sourceOf? name = some source
      · simp [hclass, hsource, hother, Ne.symm hother]
      · simp [hclass, hsource, hother]

end Ownership
end Recompile
