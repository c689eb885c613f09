import Recompile.Proofs.ClassFiles
import Recompile.Proofs.Ownership

/-!
# One source after the other

A build removes and registers many sources in a row. Which source has a class
in the end depends on the last entry that lists it, while an orphan is only
kept from being one by an earlier entry.
-/

namespace Recompile
namespace Ownership

variable {ownership : Ownership} {source : String} {name : ClassName}

theorem ne_of_compare_eq_lt {a b : String} (h : compare a b = .lt) : a ≠ b := by
  rintro rfl
  have hself : compare a a = .eq := Std.ReflCmp.compare_self
  rw [hself] at h
  cases h

def removeAll (ownership : Ownership) (sources : List String) : Ownership :=
  sources.foldl (fun ownership source => (ownership.remove source).2) ownership

theorem owns_removeAll (sources : List String) :
    (ownership.removeAll sources).Owns source name ↔
      source ∉ sources ∧ ownership.Owns source name := by
  induction sources generalizing ownership with
  | nil => simp [removeAll]
  | cons first rest ih =>
      have hrest : ((ownership.remove first).2.removeAll rest).Owns source name ↔
          source ∉ rest ∧ (ownership.remove first).2.Owns source name := ih
      rw [owns_remove] at hrest
      rw [List.mem_cons, not_or, and_assoc, and_left_comm]
      simpa [removeAll, eq_comm, ne_eq] using hrest

theorem exists_owns_cons (first : String) (rest : List String) :
    (∃ source ∈ first :: rest, ownership.Owns source name) ↔
      name ∈ (ownership.remove first).1 ∨
        ∃ source ∈ rest, (ownership.remove first).2.Owns source name := by
  simp only [mem_fst_remove, owns_remove]
  constructor
  · rintro ⟨source, hsource, howns⟩
    by_cases hsame : first = source
    · subst hsame
      exact Or.inl howns
    · rcases List.mem_cons.mp hsource with heq | hrest
      · exact absurd heq.symm hsame
      · exact Or.inr ⟨source, hrest, hsame, howns⟩
  · rintro (howns | ⟨source, hrest, _, howns⟩)
    · exact ⟨first, List.mem_cons_self, howns⟩
    · exact ⟨source, List.mem_cons_of_mem _ hrest, howns⟩

theorem Consistent.removeAll (h : ownership.Consistent) (sources : List String) :
    (ownership.removeAll sources).Consistent := by
  induction sources generalizing ownership with
  | nil => exact h
  | cons first rest ih => exact ih (h.remove first)

theorem Consistent.sourceOf?_removeAll (h : ownership.Consistent) (sources : List String) :
    (ownership.removeAll sources).sourceOf? name = some source ↔
      source ∉ sources ∧ ownership.sourceOf? name = some source := by
  rw [h.removeAll sources name source, owns_removeAll, h name source]

/-!
# Registering what a batch produced
-/

def registerAll (ownership : Ownership) (entries : List (String × ClassSet)) : Ownership :=
  entries.foldl (fun ownership (source, classes) => (ownership.register source classes).2)
    ownership

theorem registerAll_nil : ownership.registerAll [] = ownership :=
  rfl

theorem registerAll_cons (entry : String × ClassSet) (rest : List (String × ClassSet)) :
    ownership.registerAll (entry :: rest) =
      (ownership.register entry.1 entry.2).2.registerAll rest :=
  rfl

theorem Consistent.registerAll (h : ownership.Consistent) (entries : List (String × ClassSet)) :
    (ownership.registerAll entries).Consistent := by
  induction entries generalizing ownership with
  | nil => exact h
  | cons entry rest ih => exact ih (h.register entry.1 entry.2)

/-- Whether a class is an orphan of one of the entries, at the time of that entry. -/
def Orphaned (ownership : Ownership) (name : ClassName) : List (String × ClassSet) → Prop
  | [] => False
  | (source, classes) :: rest =>
    name ∈ (ownership.register source classes).1 ∨
      (ownership.register source classes).2.Orphaned name rest

variable {entries : List (String × ClassSet)}

theorem Orphaned.exists_owns (hordered : entries.Pairwise fun a b => compare a.1 b.1 = .lt)
    (h : ownership.Orphaned name entries) : ∃ entry ∈ entries, ownership.Owns entry.1 name := by
  induction entries generalizing ownership with
  | nil => exact h.elim
  | cons entry rest ih =>
      obtain ⟨hahead, hordered⟩ := List.pairwise_cons.mp hordered
      rcases h with hfirst | hrest
      · exact ⟨entry, List.mem_cons_self, owns_of_mem_fst_register hfirst⟩
      · obtain ⟨other, hmem, howns⟩ := ih hordered hrest
        exact ⟨other, List.mem_cons_of_mem _ hmem,
          owns_of_owns_register (ne_of_compare_eq_lt (hahead other hmem)).symm howns⟩

/-- A class is an orphan of its owner unless a source that comes no later lists it. -/
theorem Consistent.orphaned_iff (h : ownership.Consistent)
    (hordered : entries.Pairwise fun a b => compare a.1 b.1 = .lt) :
    ownership.Orphaned name entries ↔
      ∃ owner ∈ entries, ownership.sourceOf? name = some owner.1 ∧
        ∀ entry ∈ entries, name ∈ entry.2 → compare owner.1 entry.1 = .lt := by
  induction entries generalizing ownership with
  | nil => simp [Orphaned]
  | cons first rest ih =>
      obtain ⟨hahead, hordered⟩ := List.pairwise_cons.mp hordered
      unfold Orphaned
      rw [ih (h.register first.1 first.2) hordered, h.mem_fst_register]
      constructor
      · rintro (⟨hsource, hfirst⟩ | ⟨owner, howner, hsource, hlater⟩)
        · refine ⟨first, List.mem_cons_self, hsource, ?_⟩
          intro entry hentry hlists
          rcases List.mem_cons.mp hentry with rfl | hentry
          · exact absurd hlists hfirst
          · exact hahead entry hentry
        · have hne : first.1 ≠ owner.1 := ne_of_compare_eq_lt (hahead owner howner)
          rw [h.sourceOf?_register] at hsource
          by_cases hfirst : name ∈ first.2
          · rw [if_pos hfirst, Option.some.injEq] at hsource
            exact absurd hsource hne
          · rw [if_neg hfirst] at hsource
            by_cases howned : ownership.sourceOf? name = some first.1
            · rw [if_pos howned] at hsource
              cases hsource
            · rw [if_neg howned] at hsource
              refine ⟨owner, List.mem_cons_of_mem _ howner, hsource, ?_⟩
              intro entry hentry hlists
              rcases List.mem_cons.mp hentry with rfl | hentry
              · exact absurd hlists hfirst
              · exact hlater entry hentry hlists
      · rintro ⟨owner, howner, hsource, hlater⟩
        rcases List.mem_cons.mp howner with rfl | howner
        · refine Or.inl ⟨hsource, fun hlists => ?_⟩
          exact ne_of_compare_eq_lt (hlater owner List.mem_cons_self hlists) rfl
        · have hlt := hahead owner howner
          have hfirst : name ∉ first.2 := by
            intro hlists
            have hgt : compare owner.1 first.1 = .gt := Std.OrientedCmp.gt_of_lt hlt
            rw [hlater first List.mem_cons_self hlists] at hgt
            cases hgt
          refine Or.inr ⟨owner, howner, ?_, ?_⟩
          · rw [h.sourceOf?_register, if_neg hfirst, if_neg, hsource]
            rw [hsource, Option.some.injEq]
            exact (ne_of_compare_eq_lt hlt).symm
          · intro entry hentry hlists
            exact hlater entry (List.mem_cons_of_mem _ hentry) hlists

theorem Consistent.sourceOf?_registerAll_of_unlisted (h : ownership.Consistent)
    (hunlisted : ∀ entry ∈ entries, name ∉ entry.2) :
    (ownership.registerAll entries).sourceOf? name = some source ↔
      ownership.sourceOf? name = some source ∧ ∀ entry ∈ entries, entry.1 ≠ source := by
  induction entries generalizing ownership with
  | nil => simp [registerAll_nil]
  | cons first rest ih =>
      rw [registerAll_cons,
        ih (h.register first.1 first.2) fun entry hentry =>
          hunlisted entry (List.mem_cons_of_mem _ hentry),
        h.sourceOf?_register, if_neg (hunlisted first List.mem_cons_self), List.forall_mem_cons]
      by_cases hsource : ownership.sourceOf? name = some first.1
      · rw [if_pos hsource, hsource]
        constructor
        · rintro ⟨hnone, _⟩
          cases hnone
        · rintro ⟨hsame, hfirst, _⟩
          exact absurd (Option.some.inj hsame) hfirst
      · rw [if_neg hsource]
        constructor
        · rintro ⟨howner, hothers⟩
          refine ⟨howner, ?_, hothers⟩
          rintro rfl
          exact hsource howner
        · rintro ⟨howner, _, hothers⟩
          exact ⟨howner, hothers⟩

theorem Consistent.sourceOf?_registerAll_of_listed (h : ownership.Consistent)
    (hordered : entries.Pairwise fun a b => compare a.1 b.1 = .lt)
    (hlisted : ∃ entry ∈ entries, name ∈ entry.2) :
    ∃ entry ∈ entries, name ∈ entry.2 ∧
      (ownership.registerAll entries).sourceOf? name = some entry.1 := by
  induction entries generalizing ownership with
  | nil => simp at hlisted
  | cons first rest ih =>
      obtain ⟨hahead, hordered⟩ := List.pairwise_cons.mp hordered
      by_cases hrest : ∃ entry ∈ rest, name ∈ entry.2
      · obtain ⟨entry, hentry, hlists, hsource⟩ :=
          ih (h.register first.1 first.2) hordered hrest
        exact ⟨entry, List.mem_cons_of_mem _ hentry, hlists, hsource⟩
      · have hunlisted : ∀ entry ∈ rest, name ∉ entry.2 := by
          intro entry hentry hlists
          exact hrest ⟨entry, hentry, hlists⟩
        have hfirst : name ∈ first.2 := by
          obtain ⟨entry, hentry, hlists⟩ := hlisted
          rcases List.mem_cons.mp hentry with rfl | hentry
          · exact hlists
          · exact absurd hlists (hunlisted entry hentry)
        refine ⟨first, List.mem_cons_self, hfirst, ?_⟩
        rw [registerAll_cons,
          (h.register first.1 first.2).sourceOf?_registerAll_of_unlisted hunlisted,
          h.sourceOf?_register, if_pos hfirst]
        exact ⟨rfl, fun entry hentry => (ne_of_compare_eq_lt (hahead entry hentry)).symm⟩

theorem Consistent.sourceOf?_registerAll_iff (h : ownership.Consistent)
    (hordered : entries.Pairwise fun a b => compare a.1 b.1 = .lt)
    (produces : String → ClassName → Prop)
    (honce : ∀ {a b name}, produces a name → produces b name → a = b)
    (hentries : ∀ entry ∈ entries, ∀ name, name ∈ entry.2 ↔ produces entry.1 name)
    (hothers : ∀ source, (∀ entry ∈ entries, entry.1 ≠ source) →
      ∀ name, ownership.sourceOf? name = some source ↔ produces source name) :
    (ownership.registerAll entries).sourceOf? name = some source ↔ produces source name := by
  by_cases hlisted : ∃ entry ∈ entries, name ∈ entry.2
  · rcases h.sourceOf?_registerAll_of_listed hordered hlisted with ⟨entry, hentry, hname, howner⟩
    have hproduces := (hentries entry hentry name).mp hname
    rw [howner, Option.some.injEq]
    constructor
    · intro hsame
      rw [← hsame]
      exact hproduces
    · exact honce hproduces
  · have hunlisted : ∀ entry ∈ entries, name ∉ entry.2 :=
      fun entry hentry hname => hlisted ⟨entry, hentry, hname⟩
    rw [h.sourceOf?_registerAll_of_unlisted hunlisted]
    by_cases hsource : ∃ entry ∈ entries, entry.1 = source
    · rcases hsource with ⟨entry, hentry, hsame⟩
      constructor
      · intro howner
        exact absurd hsame (howner.2 entry hentry)
      · intro hproduces
        rw [← hsame] at hproduces
        exact absurd ((hentries entry hentry name).mpr hproduces) (hunlisted entry hentry)
    · have hnone : ∀ entry ∈ entries, entry.1 ≠ source :=
        fun entry hentry hsame => hsource ⟨entry, hentry, hsame⟩
      rw [← hothers source hnone name]
      exact and_iff_left hnone

/-!
# Names of one kind

The names in a register come from what is registered, and from nowhere else.
-/

def HoldsOnly (names : ClassName → Prop) (ownership : Ownership) : Prop :=
  ∀ ⦃source name⦄, ownership.Owns source name → names name

abbrev LeadsBelow : Ownership → Prop :=
  HoldsOnly ClassName.LeadsBelow

variable {names : ClassName → Prop}

theorem holdsOnly_true (ownership : Ownership) : ownership.HoldsOnly fun _ => True :=
  fun _ _ _ => trivial

theorem holdsOnly_empty (names : ClassName → Prop) : empty.HoldsOnly names := by
  rintro source name ⟨classes, hclasses, _⟩
  simp [empty, classesOf?] at hclasses

theorem Consistent.holdsOnly_iff (h : ownership.Consistent) :
    ownership.HoldsOnly names ↔ ∀ name ∈ ownership.byClass.keys, names name := by
  constructor
  · intro hholds name hname
    have hmem : name ∈ ownership.byClass := Std.ExtTreeMap.mem_keys.mp hname
    obtain ⟨source, hsource⟩ := Option.isSome_iff_exists.mp
      (Std.ExtTreeMap.mem_iff_isSome_getElem?.mp hmem)
    exact hholds ((h name source).mp hsource)
  · intro hnames source name howns
    have hsource : ownership.byClass[name]? = some source := (h name source).mpr howns
    obtain ⟨hname, _⟩ := Std.ExtTreeMap.getElem?_eq_some_iff.mp hsource
    exact hnames name (Std.ExtTreeMap.mem_keys.mpr hname)

theorem HoldsOnly.remove (h : ownership.HoldsOnly names) (source : String) :
    (ownership.remove source).2.HoldsOnly names :=
  fun _ _ howns => h (owns_remove.mp howns).2

theorem HoldsOnly.removeAll (h : ownership.HoldsOnly names) (sources : List String) :
    (ownership.removeAll sources).HoldsOnly names :=
  fun _ _ howns => h ((owns_removeAll sources).mp howns).2

theorem HoldsOnly.register (h : ownership.HoldsOnly names) {classes : ClassSet}
    (hclasses : ∀ name ∈ classes, names name) (source : String) :
    (ownership.register source classes).2.HoldsOnly names := by
  intro other name howns
  by_cases hother : other = source
  · rcases howns with ⟨found, hfound, hname⟩
    rw [hother, classesOf?_register_self] at hfound
    cases hfound
    exact hclasses name hname
  · exact h (owns_of_owns_register hother howns)

theorem HoldsOnly.registerAll (h : ownership.HoldsOnly names)
    (hentries : ∀ entry ∈ entries, ∀ name ∈ entry.2, names name) :
    (ownership.registerAll entries).HoldsOnly names := by
  induction entries generalizing ownership with
  | nil => exact h
  | cons entry rest ih =>
      have hregistered := h.register (hentries entry List.mem_cons_self) entry.1
      exact ih hregistered fun other hother => hentries other (List.mem_cons_of_mem _ hother)

end Ownership
end Recompile
