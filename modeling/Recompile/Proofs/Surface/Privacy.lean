import Mathlib.Data.Option.Defs
import Recompile.Proofs.Surface.Succession

/-!
# Private members

Private members are out of reach for other classes, so what becomes of them is
no reason to compile anything. A member that is private in one version only
comes or goes as seen from outside. The rules agree with that as long as no
ancestor declares what a private member is called.
-/

namespace Recompile

namespace ClassSurface

def withoutPrivate (surface : ClassSurface) : ClassSurface :=
  { surface with
    fields := surface.fields.filter fun field => !field.flags.isPrivate
    methods := surface.methods.filter fun method => !method.flags.isPrivate }

def SameButPrivate (a b : ClassSurface) : Prop :=
  ∃ references, b.withoutPrivate = { a.withoutPrivate with references := references }

end ClassSurface

def VersionOf.withoutPrivate {name : ClassName} (version : VersionOf name) : VersionOf name where
  surface? := version.surface?.map ClassSurface.withoutPrivate
  named := by
    intro surface hsurface
    rcases Option.map_eq_some_iff.mp hsurface with ⟨whole, hwhole, rfl⟩
    exact version.named whole hwhole

theorem VersionOf.surface?_withoutPrivate {name : ClassName} (version : VersionOf name) :
    version.withoutPrivate.surface? = version.surface?.map ClassSurface.withoutPrivate :=
  rfl

/-!
# Looking up what is left
-/

section Lookup

variable {α β : Type} {key : α → β} {items : List α} {item : α} {wanted : β}

theorem isLast_iff_of_nodup (h : (items.map key).Nodup) :
    IsLast (fun other => key other = wanted) items item ↔ item ∈ items ∧ key item = wanted := by
  constructor
  · intro hlast
    exact ⟨hlast.mem, hlast.holds⟩
  · rintro ⟨hitem, rfl⟩
    exact isLast_of_nodup h hitem

theorem find?_reverse_filter [DecidableEq β] (h : (items.map key).Nodup) (keeps : α → Bool) :
    ((items.filter keeps).reverse.find? fun item => decide (key item = wanted)) =
      (items.reverse.find? fun item => decide (key item = wanted)).filter keeps := by
  have hkept : ((items.filter keeps).map key).Nodup :=
    h.sublist (List.filter_sublist.map key)
  ext item
  rw [Option.filter_eq_some_iff, find?_reverse_eq_some_iff, find?_reverse_eq_some_iff,
    isLast_iff_of_nodup h, isLast_iff_of_nodup hkept, List.mem_filter, and_right_comm]

end Lookup

namespace Compatibility

variable {before : Snapshot} {old new : ClassSurface}

/-!
# Members

A member that has become private is as good as gone: both are incompatible.
-/

theorem eq_incompatible {level : Compatibility} (hbroken : level ≠ compatible)
    (hlocal : level ≠ globallyIncompatible) : level = incompatible := by
  cases level with
  | compatible => exact absurd rfl hbroken
  | incompatible => rfl
  | globallyIncompatible => exact absurd rfl hlocal

section Members

variable {μ κ : Type} {rules : List (μ → μ → Compatibility)} {isPrivate : μ → Bool}

theorem memberLevel_filter {member : μ} (counterpart : Option μ)
    (hrules : ∀ rule ∈ rules, ∀ old new, rule old new ≠ globallyIncompatible)
    (hhidden : ∀ new, isPrivate new = true →
      widest (rules.map fun rule => rule member new) ≠ compatible) :
    memberLevel rules member (counterpart.filter fun new => !isPrivate new) =
      memberLevel rules member counterpart := by
  cases counterpart with
  | none => rfl
  | some new =>
      cases hprivate : isPrivate new with
      | false => rw [Option.filter_some_pos (by rw [hprivate]; rfl)]
      | true =>
          rw [Option.filter_some_neg (by rw [hprivate]; rfl)]
          exact (eq_incompatible (hhidden new hprivate)
            (memberLevel_ne_globallyIncompatible hrules member (some new))).symm

theorem widest_members_filter [DecidableEq κ] {key : μ → κ} {isVisible : μ → Bool}
    {old new : List μ} (hunique : (new.map key).Nodup)
    (hvisible : ∀ member, isVisible member = true → isPrivate member = false)
    (hrules : ∀ rule ∈ rules, ∀ old new, rule old new ≠ globallyIncompatible)
    (hhidden : ∀ old new, isPrivate old = false → isPrivate new = true →
      widest (rules.map fun rule => rule old new) ≠ compatible) :
    widest (((old.filter fun member => !isPrivate member).filter isVisible).map fun member =>
        memberLevel rules member ((new.filter fun member => !isPrivate member).reverse.find?
          fun other => decide (key other = key member))) =
      widest ((old.filter isVisible).map fun member =>
        memberLevel rules member (new.reverse.find?
          fun other => decide (key other = key member))) := by
  have hfilter : (old.filter fun member => !isPrivate member).filter isVisible =
      old.filter isVisible := by
    rw [List.filter_filter]
    apply List.filter_congr
    intro member _
    cases hmember : isVisible member with
    | false => rfl
    | true => rw [hvisible member hmember, Bool.not_false, Bool.and_self]
  rw [hfilter]
  congr 1
  apply List.map_congr_left
  intro member hmember
  rw [find?_reverse_filter hunique]
  apply memberLevel_filter _ hrules
  intro kept hprivate
  exact hhidden member kept (hvisible member (List.mem_filter.mp hmember).2) hprivate

end Members

theorem narrowed_of_isPrivate {old new : Modifiers} (hvisible : old.isPrivate = false)
    (hprivate : new.isPrivate = true) : new.level.rank < old.level.rank := by
  rw [← Bool.not_eq_true, isPrivate_iff_rank_level] at hvisible
  rw [isPrivate_iff_rank_level] at hprivate
  omega

theorem fieldsLevel_withoutPrivate (h : (new.fields.map FieldDecl.name).Nodup) :
    fieldsLevel old.withoutPrivate new.withoutPrivate = fieldsLevel old new := by
  apply widest_members_filter h
  · intro field hseen
    simpa using hseen
  · simp [fieldRules, incompatibleIf_ne_globallyIncompatible]
  · intro field kept hvisible hprivate
    exact fieldRules_ne_compatible_iff.mpr (.narrowed (narrowed_of_isPrivate hvisible hprivate))

theorem methodsLevel_withoutPrivate (h : (new.methods.map MethodDecl.signature).Nodup) :
    methodsLevel old.withoutPrivate new.withoutPrivate = methodsLevel old new := by
  apply widest_members_filter h
  · intro method hseen
    unfold isVisibleMethod at hseen
    simpa using (Bool.and_eq_true_iff.mp hseen).1
  · simp [methodRules, incompatibleIf_ne_globallyIncompatible]
  · intro method kept hvisible hprivate
    exact methodRules_ne_compatible_iff.mpr (.narrowed (narrowed_of_isPrivate hvisible hprivate))

theorem classRules_withoutPrivate (h : new.TellsMembersApart) {rule : ClassRule}
    (hrule : rule ∈ classRules) : rule old.withoutPrivate new.withoutPrivate = rule old new := by
  revert rule
  simp only [classRules, List.forall_mem_cons, List.not_mem_nil, false_implies, implies_true,
    and_true]
  exact ⟨rfl, rfl, rfl, rfl, rfl, fieldsLevel_withoutPrivate h.fields,
    methodsLevel_withoutPrivate h.methods⟩

/-!
# Shadowing

Private members take part in shadowing, on either side: one that is added may
shadow, and one that was there keeps its name from being new. Neither matters
when no ancestor declares the name.
-/

/-- Whether no ancestor of a class declares a field or an inherited method as a private one here. -/
structure HidesNothing (before : Snapshot) (name : ClassName) (surface : ClassSurface) :
    Prop where
  fields : ∀ field ∈ surface.fields, field.flags.isPrivate = true →
    ∀ ancestor ∈ before.ancestors name, ∀ other ∈ ancestor.fields, other.name ≠ field.name
  methods : ∀ method ∈ surface.methods, method.flags.isPrivate = true →
    method.signature.name ≠ ClassSurface.constructor →
    method.signature.name ≠ ClassSurface.staticInitializer →
    ∀ ancestor ∈ before.ancestors name, ∀ other ∈ ancestor.methods,
      other.signature ≠ method.signature

theorem exists_added_filter_iff {μ κ : Type} (key : μ → κ) (isPrivate : μ → Bool)
    (declared : κ → Prop) {old new : List μ}
    (hold : ∀ member ∈ old, isPrivate member = true → ¬declared (key member))
    (hnew : ∀ member ∈ new, isPrivate member = true → ¬declared (key member)) :
    (∃ member ∈ new.filter fun member => !isPrivate member,
      (∀ other ∈ old.filter fun other => !isPrivate other, key other ≠ key member) ∧
        declared (key member)) ↔
      ∃ member ∈ new, (∀ other ∈ old, key other ≠ key member) ∧ declared (key member) := by
  simp only [List.mem_filter, Bool.not_eq_true']
  constructor
  · rintro ⟨member, ⟨hmember, _⟩, hadded, hdeclared⟩
    refine ⟨member, hmember, ?_, hdeclared⟩
    intro other hother hsame
    cases hprivate : isPrivate other with
    | false => exact hadded other ⟨hother, hprivate⟩ hsame
    | true =>
        rw [← hsame] at hdeclared
        exact hold other hother hprivate hdeclared
  · rintro ⟨member, hmember, hadded, hdeclared⟩
    refine ⟨member, ⟨hmember, ?_⟩, fun other hother => hadded other hother.1, hdeclared⟩
    rw [← Bool.not_eq_true]
    intro hprivate
    exact hnew member hmember hprivate hdeclared

theorem shadows_withoutPrivate (hold : HidesNothing before old.name old)
    (hnew : HidesNothing before old.name new) :
    shadows before old.withoutPrivate new.withoutPrivate = shadows before old new := by
  rw [Bool.eq_iff_iff, shadows_iff, shadows_iff]
  refine exists_congr fun ancestor => and_congr_right fun hancestor => or_congr ?_ ?_
  · apply exists_added_filter_iff FieldDecl.name (fun field => field.flags.isPrivate) fun name =>
      ∃ inherited ∈ ancestor.fields, inherited.name = name
    · rintro field hfield hprivate ⟨inherited, hinherited, hsame⟩
      exact hold.fields field hfield hprivate ancestor hancestor inherited hinherited hsame
    · rintro field hfield hprivate ⟨inherited, hinherited, hsame⟩
      exact hnew.fields field hfield hprivate ancestor hancestor inherited hinherited hsame
  · apply exists_added_filter_iff MethodDecl.signature (fun method => method.flags.isPrivate)
      fun signature => signature.name ≠ ClassSurface.constructor ∧
        signature.name ≠ ClassSurface.staticInitializer ∧
          ∃ inherited ∈ ancestor.methods, inherited.signature = signature
    · rintro method hmethod hprivate ⟨hconstructor, hinitializer, inherited, hinherited, hsame⟩
      exact hold.methods method hmethod hprivate hconstructor hinitializer ancestor hancestor
        inherited hinherited hsame
    · rintro method hmethod hprivate ⟨hconstructor, hinitializer, inherited, hinherited, hsame⟩
      exact hnew.methods method hmethod hprivate hconstructor hinitializer ancestor hancestor
        inherited hinherited hsame

theorem betweenVersions_withoutPrivate (happart : new.TellsMembersApart)
    (hold : HidesNothing before old.name old) (hnew : HidesNothing before old.name new) :
    betweenVersions before old.withoutPrivate new.withoutPrivate =
      betweenVersions before old new := by
  have hrules : (classRules.map fun rule => rule old.withoutPrivate new.withoutPrivate) =
      classRules.map fun rule => rule old new :=
    List.map_congr_left fun rule hrule => classRules_withoutPrivate happart hrule
  unfold betweenVersions
  rw [hrules, shadows_withoutPrivate hold hnew]

/-!
# Versions
-/

/-- Whether private members can be told from the others and are none that an ancestor declares. -/
structure KeepsPrivate (before : Snapshot) {name : ClassName} (version : VersionOf name) :
    Prop where
  apart : ∀ surface ∈ version.surface?, surface.TellsMembersApart
  hides : ∀ surface ∈ version.surface?, HidesNothing before name surface

theorem between_withoutPrivate {name : ClassName} {old new : VersionOf name}
    (hold : KeepsPrivate before old) (hnew : KeepsPrivate before new) :
    between before old.withoutPrivate.surface? new.withoutPrivate.surface? =
      between before old.surface? new.surface? := by
  rw [VersionOf.surface?_withoutPrivate, VersionOf.surface?_withoutPrivate]
  cases hsurface : old.surface? with
  | none => rfl
  | some surface =>
      cases hcurrent : new.surface? with
      | none => rfl
      | some current =>
          have hname : surface.name = name := old.named surface hsurface
          apply betweenVersions_withoutPrivate (hnew.apart current hcurrent)
          · rw [hname]
            exact hold.hides surface hsurface
          · rw [hname]
            exact hnew.hides current hcurrent

theorem between_map_withoutPrivate_congr {old new old' new' : Option ClassSurface}
    (hold : Option.Rel ClassSurface.SameButPrivate old old')
    (hnew : Option.Rel ClassSurface.SameButPrivate new new') :
    between before (old'.map ClassSurface.withoutPrivate)
        (new'.map ClassSurface.withoutPrivate) =
      between before (old.map ClassSurface.withoutPrivate)
        (new.map ClassSurface.withoutPrivate) := by
  cases hold with
  | none => rfl
  | some hsame =>
      rcases hsame with ⟨_, hsame⟩
      cases hnew with
      | none =>
          rw [Option.map_some, hsame]
          rfl
      | some hsame' =>
          rcases hsame' with ⟨_, hsame'⟩
          rw [Option.map_some, Option.map_some, hsame, hsame']
          rfl

/--
The level of a change is that of the change without private members. So two
pairs of versions that differ in private members only change alike.
-/
theorem level_independent_of_private (before : Snapshot) {name : ClassName}
    {old new : VersionOf name} (hold : KeepsPrivate before old) (hnew : KeepsPrivate before new) :
    between before old.surface? new.surface? =
        between before old.withoutPrivate.surface? new.withoutPrivate.surface? ∧
      ∀ old' new' : VersionOf name, KeepsPrivate before old' → KeepsPrivate before new' →
        Option.Rel ClassSurface.SameButPrivate old.surface? old'.surface? →
        Option.Rel ClassSurface.SameButPrivate new.surface? new'.surface? →
          between before old'.surface? new'.surface? =
            between before old.surface? new.surface? := by
  have hlevel := between_withoutPrivate hold hnew
  refine ⟨hlevel.symm, ?_⟩
  intro old' new' hold' hnew' hsame hsame'
  rw [← between_withoutPrivate hold' hnew', ← hlevel]
  exact between_map_withoutPrivate_congr hsame hsame'

/-!
A class with a private constructor loses one private field and gains another,
and a field that was seen becomes private. Beside it the same class does so
without the private fields.
-/

def closing (fields : List FieldDecl) : VersionOf ⟨"X"⟩ where
  surface? := some
    { widened "X" fields .staticFlag with
      methods :=
        [⟨.privateFlag, ⟨ClassSurface.constructor, [], ⟨.primitive .void, 0⟩⟩, ∅⟩] }
  named := by
    intro surface hsurface
    cases hsurface
    rfl

def openVersion : VersionOf ⟨"X"⟩ :=
  closing [intField .publicFlag "x", intField .privateFlag "y"]

def closedVersion : VersionOf ⟨"X"⟩ :=
  closing [intField .privateFlag "x", intField .privateFlag "w"]

theorem keepsPrivate_closing {fields : List FieldDecl}
    (hapart : (fields.map FieldDecl.name).Nodup) (hname : ∀ field ∈ fields, field.name ≠ "z") :
    KeepsPrivate baseSnapshot (closing fields) := by
  constructor
  · intro surface hsurface
    cases hsurface
    exact ⟨hapart, by simp⟩
  · intro surface hsurface
    cases hsurface
    constructor
    · intro field hfield _ ancestor hancestor other hother hsame
      have hmem := List.mem_flatMap.mpr ⟨ancestor, hancestor, hother⟩
      rw [fields_ancestors_baseSnapshot, List.mem_singleton] at hmem
      rw [hmem] at hsame
      exact hname field hfield hsame.symm
    · intro method hmethod _ hconstructor
      rw [List.mem_singleton.mp hmethod] at hconstructor
      exact absurd rfl hconstructor

theorem level_independent_of_private_of_closing :
    KeepsPrivate baseSnapshot openVersion ∧ KeepsPrivate baseSnapshot closedVersion ∧
      between baseSnapshot openVersion.surface? closedVersion.surface? = incompatible ∧
      between baseSnapshot openVersion.withoutPrivate.surface?
        closedVersion.withoutPrivate.surface? = incompatible ∧
      between baseSnapshot (closing [intField .publicFlag "x"]).surface?
        (closing []).surface? = incompatible := by
  have hopen : KeepsPrivate baseSnapshot openVersion :=
    keepsPrivate_closing (by decide) (by decide)
  have hclosed : KeepsPrivate baseSnapshot closedVersion :=
    keepsPrivate_closing (by decide) (by decide)
  have hlevel : between baseSnapshot openVersion.surface? closedVersion.surface? =
      incompatible := by
    unfold between openVersion closedVersion closing
    simp only
    unfold betweenVersions
    rw [shadows_baseSnapshot rfl (by decide) (by decide)]
    decide +kernel
  rcases level_independent_of_private baseSnapshot hopen hclosed with ⟨hwithout, hother⟩
  refine ⟨hopen, hclosed, hlevel, hwithout.symm.trans hlevel, ?_⟩
  rw [← hlevel]
  apply hother
  · exact keepsPrivate_closing (by decide) (by decide)
  · exact keepsPrivate_closing (by decide) (by decide)
  · exact .some ⟨.empty, rfl⟩
  · exact .some ⟨.empty, rfl⟩

end Compatibility
end Recompile
