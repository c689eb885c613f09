import Mathlib.Data.List.Chain
import Recompile.Proofs.Surface.Compatibility

/-!
# Versions in a row

A class goes through versions, and builds compare each one with the one before.
A build that comes later may compare with an older version, so a row of changes
of which none breaks anything must not add up to one that does. The rules are
met one by one, by what they ask of the version in between.
-/

namespace Recompile

structure VersionOf (name : ClassName) where
  surface? : Option ClassSurface
  named : ∀ surface ∈ surface?, surface.name = name

/-- Whether fields are told apart by their names and methods by their signatures. -/
structure ClassSurface.TellsMembersApart (surface : ClassSurface) : Prop where
  fields : (surface.fields.map FieldDecl.name).Nodup
  methods : (surface.methods.map MethodDecl.signature).Nodup

structure ClassSurface.Unambiguous (surface : ClassSurface) : Prop
    extends surface.TellsMembersApart where
  constants : (surface.constants.map SharedConstant.name).Nodup

namespace Compatibility

/-!
# Rules that compose

A rule composes when two changes that it lets pass are let pass as one. A rule
that reports an item does so as soon as one of its reasons is there.
-/

section Composing

variable {α : Type}

def Composes (rule : α → α → Compatibility) : Prop :=
  ∀ ⦃a b c⦄, rule a b = compatible → rule b c = compatible → rule a c = compatible

theorem widest_map_eq_compatible_iff {items : List α} {levelOf : α → Compatibility} :
    widest (items.map levelOf) = compatible ↔ ∀ item ∈ items, levelOf item = compatible := by
  have h : widest (items.map levelOf) ≠ compatible ↔ ∃ item ∈ items, levelOf item ≠ compatible :=
    widest_map_ne_compatible_iff
  rw [ne_eq, not_iff_comm] at h
  rw [← h]
  simp

theorem incompatibleIf_eq_compatible_iff {broken : Bool} :
    incompatibleIf broken = compatible ↔ broken = false := by
  cases broken <;> simp [incompatibleIf]

theorem composes_widest {rules : List (α → α → Compatibility)}
    (h : ∀ rule ∈ rules, Composes rule) :
    Composes fun old new => widest (rules.map fun rule => rule old new) := by
  intro a b c hab hbc
  rw [widest_map_eq_compatible_iff] at hab hbc ⊢
  intro rule hrule
  exact h rule hrule (hab rule hrule) (hbc rule hrule)

theorem composes_incompatibleIf {broken : α → α → Bool}
    (h : ∀ a b c, broken a b = false → broken b c = false → broken a c = false) :
    Composes fun old new => incompatibleIf (broken old new) := by
  intro a b c hab hbc
  rw [incompatibleIf_eq_compatible_iff] at hab hbc ⊢
  exact h a b c hab hbc

end Composing

/-!
# Flags
-/

section Flags

variable {a b c flag : Modifiers}

theorem gains_eq_false_iff :
    a.gains b flag = false ↔ (b.contains flag = true → a.contains flag = true) := by
  unfold Modifiers.gains
  cases a.contains flag <;> cases b.contains flag <;> simp

theorem loses_eq_false_iff :
    a.loses b flag = false ↔ (a.contains flag = true → b.contains flag = true) := by
  unfold Modifiers.loses
  cases a.contains flag <;> cases b.contains flag <;> simp

theorem differsIn_eq_false_iff :
    a.differsIn b flag = false ↔ a.contains flag = b.contains flag := by
  simp [Modifiers.differsIn]

theorem narrowed_eq_false_iff : a.narrowed b = false ↔ a.level.rank ≤ b.level.rank := by
  simp [Modifiers.narrowed]

theorem gains_trans (hab : a.gains b flag = false) (hbc : b.gains c flag = false) :
    a.gains c flag = false := by
  rw [gains_eq_false_iff] at hab hbc ⊢
  intro hc
  exact hab (hbc hc)

theorem loses_trans (hab : a.loses b flag = false) (hbc : b.loses c flag = false) :
    a.loses c flag = false := by
  rw [loses_eq_false_iff] at hab hbc ⊢
  intro ha
  exact hbc (hab ha)

theorem differsIn_trans (hab : a.differsIn b flag = false) (hbc : b.differsIn c flag = false) :
    a.differsIn c flag = false := by
  rw [differsIn_eq_false_iff] at hab hbc ⊢
  exact hab.trans hbc

theorem narrowed_trans (hab : a.narrowed b = false) (hbc : b.narrowed c = false) :
    a.narrowed c = false := by
  rw [narrowed_eq_false_iff] at hab hbc ⊢
  exact hab.trans hbc

theorem isPrivate_iff_rank_level : a.isPrivate = true ↔ a.level.rank = 0 := by
  unfold Modifiers.isPrivate Modifiers.level
  split
  · next hprivate => exact iff_of_true hprivate rfl
  · next hvisible =>
      refine iff_of_false hvisible ?_
      split
      · exact Nat.noConfusion
      · split <;> exact Nat.noConfusion

theorem isPrivate_of_not_narrowed (hvisible : a.isPrivate = false) (h : a.narrowed b = false) :
    b.isPrivate = false := by
  rw [narrowed_eq_false_iff] at h
  rw [← Bool.not_eq_true, isPrivate_iff_rank_level] at hvisible ⊢
  omega

end Flags

/-!
# Members

A member that no rule reports is found again, may still be seen and is what the
version after that is held against. A final method may be made from a static
one, so the rule for it needs the one for static methods beside it.
-/

section Members

variable {σ μ κ : Type} {rules : List (μ → μ → Compatibility)}

theorem memberLevel_eq_compatible_iff {old : μ} {counterpart : Option μ} :
    memberLevel rules old counterpart = compatible ↔
      ∃ new, counterpart = some new ∧ widest (rules.map fun rule => rule old new) = compatible := by
  cases counterpart with
  | none => simp [memberLevel]
  | some new => simp [memberLevel]

theorem composes_members {members : σ → List μ} {isVisible : μ → Bool} {key : μ → κ}
    {find? : σ → κ → Option μ}
    (hfind : ∀ version wanted member, find? version wanted = some member →
      member ∈ members version ∧ key member = wanted)
    (hvisible : ∀ old new, isVisible old = true → key new = key old →
      widest (rules.map fun rule => rule old new) = compatible → isVisible new = true)
    (hrules : Composes fun old new => widest (rules.map fun rule => rule old new)) :
    Composes fun old new : σ => widest (((members old).filter isVisible).map fun member =>
      memberLevel rules member (find? new (key member))) := by
  intro a b c hab hbc
  rw [widest_map_eq_compatible_iff] at hab hbc ⊢
  intro member hmember
  rcases memberLevel_eq_compatible_iff.mp (hab member hmember) with ⟨next, hnext, hkept⟩
  rcases hfind b _ next hnext with ⟨hmem, hkey⟩
  have hseen : isVisible next = true :=
    hvisible member next (List.mem_filter.mp hmember).2 hkey hkept
  have hlater := hbc next (List.mem_filter.mpr ⟨hmem, hseen⟩)
  rw [hkey] at hlater
  rcases memberLevel_eq_compatible_iff.mp hlater with ⟨last, hlast, hkeptLast⟩
  exact memberLevel_eq_compatible_iff.mpr ⟨last, hlast, hrules hkept hkeptLast⟩

theorem composes_fieldRules :
    Composes fun old new : FieldDecl => widest (fieldRules.map fun rule => rule old new) := by
  apply composes_widest
  simp only [fieldRules, List.forall_mem_cons, List.not_mem_nil, false_implies, implies_true,
    and_true]
  refine ⟨?_, ?_, ?_, ?_⟩
  · exact composes_incompatibleIf fun _ _ _ => narrowed_trans
  · exact composes_incompatibleIf fun _ _ _ => differsIn_trans
  · exact composes_incompatibleIf fun _ _ _ => gains_trans
  · apply composes_incompatibleIf
    intro a b c hab hbc
    rw [decide_eq_false_iff_not, not_not] at hab hbc ⊢
    exact hab.trans hbc

theorem methodRules_eq_compatible_iff {old new : MethodDecl} :
    widest (methodRules.map fun rule => rule old new) = compatible ↔
      old.flags.narrowed new.flags = false ∧ old.flags.gains new.flags .abstractFlag = false ∧
        (old.flags.gains new.flags .finalFlag && !old.flags.contains .staticFlag) = false ∧
        old.flags.differsIn new.flags .staticFlag = false := by
  rw [widest_map_eq_compatible_iff]
  simp only [methodRules, List.forall_mem_cons, List.not_mem_nil, false_implies, implies_true,
    and_true, incompatibleIf_eq_compatible_iff]

theorem composes_methodRules :
    Composes fun old new : MethodDecl => widest (methodRules.map fun rule => rule old new) := by
  intro a b c hab hbc
  rw [methodRules_eq_compatible_iff] at hab hbc ⊢
  rcases hab with ⟨hnarrowed, habstract, hfinal, hstatic⟩
  rcases hbc with ⟨hnarrowed', habstract', hfinal', hstatic'⟩
  refine ⟨narrowed_trans hnarrowed hnarrowed', gains_trans habstract habstract', ?_,
    differsIn_trans hstatic hstatic'⟩
  rw [← differsIn_eq_false_iff.mp hstatic] at hfinal'
  cases hmethod : a.flags.contains .staticFlag with
  | true => simp
  | false =>
      rw [hmethod] at hfinal hfinal'
      rw [Bool.not_false, Bool.and_true] at hfinal hfinal' ⊢
      exact gains_trans hfinal hfinal'

theorem composes_fieldsLevel : Composes fieldsLevel := by
  apply composes_members
  · intro version name field hfound
    have hlast := ClassSurface.field?_eq_some_iff.mp hfound
    exact ⟨hlast.mem, hlast.holds⟩
  · intro old new hvisible _ hkept
    have hnarrowed := (widest_map_eq_compatible_iff.mp hkept) _ List.mem_cons_self
    rw [incompatibleIf_eq_compatible_iff] at hnarrowed
    rw [Bool.not_eq_true'] at hvisible ⊢
    exact isPrivate_of_not_narrowed hvisible hnarrowed
  · exact composes_fieldRules

theorem composes_methodsLevel : Composes methodsLevel := by
  apply composes_members
  · intro version signature method hfound
    have hlast := ClassSurface.method?_eq_some_iff.mp hfound
    exact ⟨hlast.mem, hlast.holds⟩
  · intro old new hvisible hsame hkept
    unfold isVisibleMethod at hvisible ⊢
    rw [Bool.and_eq_true, Bool.not_eq_true', ← hsame] at hvisible
    rw [Bool.and_eq_true, Bool.not_eq_true']
    exact ⟨isPrivate_of_not_narrowed hvisible.1 (methodRules_eq_compatible_iff.mp hkept).1,
      hvisible.2⟩
  · exact composes_methodRules

end Members

/-!
# Classes
-/

theorem constantsLevel_eq_compatible_iff {old new : ClassSurface} :
    constantsLevel old new = compatible ↔
      ∀ constant ∈ old.constants, new.constant? constant.name = some constant.fingerprint := by
  unfold constantsLevel
  split
  · next hlost =>
      rcases List.any_eq_true.mp hlost with ⟨constant, hconstant, hgone⟩
      refine iff_of_false Compatibility.noConfusion ?_
      intro hkept
      exact of_decide_eq_true hgone (hkept constant hconstant)
  · next hkept =>
      refine iff_of_true rfl ?_
      intro constant hconstant
      by_contra hgone
      exact hkept (List.any_eq_true.mpr ⟨constant, hconstant, decide_eq_true hgone⟩)

theorem composes_constantsLevel : Composes constantsLevel := by
  intro a b c hab hbc
  rw [constantsLevel_eq_compatible_iff] at hab hbc ⊢
  intro constant hconstant
  rcases ClassSurface.constant?_eq_some_iff.mp (hab constant hconstant) with ⟨next, hnext, hsame⟩
  rw [← hsame, ← hnext.holds]
  exact hbc next hnext.mem

theorem composes_classRules {rule : ClassRule} (hrule : rule ∈ classRules) : Composes rule := by
  revert rule
  simp only [classRules, List.forall_mem_cons, List.not_mem_nil, false_implies, implies_true,
    and_true]
  refine ⟨?_, ?_, ?_, ?_, composes_constantsLevel, composes_fieldsLevel, composes_methodsLevel⟩
  · exact composes_incompatibleIf fun _ _ _ => gains_trans
  · exact composes_incompatibleIf fun _ _ _ => gains_trans
  · exact composes_incompatibleIf fun _ _ _ => loses_trans
  · apply composes_incompatibleIf
    intro a b c hab hbc
    rw [Bool.or_eq_false_iff] at hab hbc ⊢
    simp only [ne_eq, decide_not, Bool.not_eq_false', decide_eq_true_eq] at hab hbc ⊢
    exact ⟨hab.1.trans hbc.1, hab.2.trans hbc.2⟩

/-- A member that comes with the later of two changes, or with the earlier one and stays, is new. -/
theorem shadows_trans {before : Snapshot} {a b c : ClassSurface} (hname : b.name = a.name)
    (hab : shadows before a b = false) (hbc : shadows before b c = false) :
    shadows before a c = false := by
  rw [← Bool.not_eq_true, shadows_iff] at hab hbc ⊢
  rw [hname] at hbc
  rintro ⟨ancestor, hancestor, hadds⟩
  rcases hadds with ⟨field, hfield, hadded, hdeclared⟩ |
    ⟨method, hmethod, hadded, hconstructor, hinitializer, hdeclared⟩
  · cases hfound : b.field? field.name with
    | none =>
        have hlater := ClassSurface.field?_eq_none_iff.mp hfound
        exact hbc ⟨ancestor, hancestor, Or.inl ⟨field, hfield, hlater, hdeclared⟩⟩
    | some other =>
        have hother := ClassSurface.field?_eq_some_iff.mp hfound
        rw [← hother.holds] at hadded hdeclared
        exact hab ⟨ancestor, hancestor, Or.inl ⟨other, hother.mem, hadded, hdeclared⟩⟩
  · cases hfound : b.method? method.signature with
    | none =>
        have hlater := ClassSurface.method?_eq_none_iff.mp hfound
        exact hbc ⟨ancestor, hancestor,
          Or.inr ⟨method, hmethod, hlater, hconstructor, hinitializer, hdeclared⟩⟩
    | some other =>
        have hother := ClassSurface.method?_eq_some_iff.mp hfound
        rw [← hother.holds] at hadded hconstructor hinitializer hdeclared
        exact hab ⟨ancestor, hancestor,
          Or.inr ⟨other, hother.mem, hadded, hconstructor, hinitializer, hdeclared⟩⟩

theorem betweenVersions_eq_compatible_iff {before : Snapshot} {old new : ClassSurface} :
    betweenVersions before old new = compatible ↔
      (∀ rule ∈ classRules, rule old new = compatible) ∧ shadows before old new = false := by
  unfold betweenVersions
  rw [← not_iff_not, not_and_or, ← widest_map_eq_compatible_iff,
    ← incompatibleIf_eq_compatible_iff]
  exact join_ne_compatible_iff

/-!
# A version and itself
-/

theorem fieldRules_self (field : FieldDecl) :
    widest (fieldRules.map fun rule => rule field field) = compatible := by
  rw [widest_map_eq_compatible_iff]
  simp [fieldRules, incompatibleIf, Modifiers.narrowed, Modifiers.differsIn, Modifiers.gains]

theorem methodRules_self (method : MethodDecl) :
    widest (methodRules.map fun rule => rule method method) = compatible := by
  rw [widest_map_eq_compatible_iff]
  simp [methodRules, incompatibleIf, Modifiers.narrowed, Modifiers.differsIn, Modifiers.gains]

theorem shadows_self (before : Snapshot) (surface : ClassSurface) :
    shadows before surface surface = false := by
  rw [← Bool.not_eq_true, shadows_iff]
  rintro ⟨_, _, ⟨field, hfield, hadded, _⟩ | ⟨method, hmethod, hadded, _⟩⟩
  · exact hadded field hfield rfl
  · exact hadded method hmethod rfl

theorem betweenVersions_self (before : Snapshot) {surface : ClassSurface}
    (h : surface.Unambiguous) : betweenVersions before surface surface = compatible := by
  rw [betweenVersions_eq_compatible_iff]
  refine ⟨?_, shadows_self before surface⟩
  simp only [classRules, List.forall_mem_cons, List.not_mem_nil, false_implies, implies_true,
    and_true]
  refine ⟨?_, ?_, ?_, ?_, ?_, ?_, ?_⟩
  · simp [incompatibleIf, Modifiers.gains]
  · simp [incompatibleIf, Modifiers.gains]
  · simp [incompatibleIf, Modifiers.loses]
  · simp [incompatibleIf]
  · apply constantsLevel_eq_compatible_iff.mpr
    intro constant hconstant
    exact ClassSurface.constant?_eq_some_iff.mpr
      ⟨constant, isLast_of_nodup h.constants hconstant, rfl⟩
  · apply widest_map_eq_compatible_iff.mpr
    intro field hfield
    have hlast := isLast_of_nodup h.fields (List.mem_filter.mp hfield).1
    exact memberLevel_eq_compatible_iff.mpr
      ⟨field, ClassSurface.field?_eq_some_iff.mpr hlast, fieldRules_self field⟩
  · apply widest_map_eq_compatible_iff.mpr
    intro method hmethod
    have hlast := isLast_of_nodup h.methods (List.mem_filter.mp hmethod).1
    exact memberLevel_eq_compatible_iff.mpr
      ⟨method, ClassSurface.method?_eq_some_iff.mpr hlast, methodRules_self method⟩

/-!
# Versions that may be absent
-/

/-- Whether nothing that depends on a class needs to be compiled when it changes so. -/
def Harmless (before : Snapshot) {name : ClassName} (old new : VersionOf name) : Prop :=
  between before old.surface? new.surface? = compatible

theorem harmless_iff {before : Snapshot} {name : ClassName} {old new : VersionOf name} :
    Harmless before old new ↔ ∀ surface ∈ old.surface?, ∃ current ∈ new.surface?,
      betweenVersions before surface current = compatible := by
  unfold Harmless
  rcases old with ⟨old, _⟩
  rcases new with ⟨new, _⟩
  cases old with
  | none => simp [between]
  | some surface =>
      cases new with
      | none =>
          simp only [between, Option.mem_def, Option.some.injEq, forall_eq', reduceCtorEq,
            false_and, exists_false, iff_false]
          split <;> exact Compatibility.noConfusion
      | some current => simp [between]

theorem Harmless.trans {before : Snapshot} {name : ClassName} {a b c : VersionOf name}
    (hab : Harmless before a b) (hbc : Harmless before b c) : Harmless before a c := by
  rw [harmless_iff] at hab hbc ⊢
  intro first hfirst
  rcases hab first hfirst with ⟨second, hsecond, hbetween⟩
  rcases hbc second hsecond with ⟨third, hthird, hbetween'⟩
  rw [betweenVersions_eq_compatible_iff] at hbetween hbetween'
  refine ⟨third, hthird, betweenVersions_eq_compatible_iff.mpr ⟨?_, ?_⟩⟩
  · intro rule hrule
    exact composes_classRules hrule (hbetween.1 rule hrule) (hbetween'.1 rule hrule)
  · have hname : second.name = first.name :=
      (b.named second hsecond).trans (a.named first hfirst).symm
    exact shadows_trans hname hbetween.2 hbetween'.2

/--
Changes after which nothing needs to be compiled add up to such a change, in a
row of any length, whichever versions are absent. So builds that compiled no
dependants have missed nothing. A version whose names tell its members apart is
no change to itself.
-/
theorem harmless_preorder (before : Snapshot) (name : ClassName) :
    (∀ a b c : VersionOf name, Harmless before a b → Harmless before b c → Harmless before a c) ∧
    (∀ versions : List (VersionOf name),
      versions.IsChain (Harmless before) → versions.Pairwise (Harmless before)) ∧
    ∀ version : VersionOf name, (∀ surface ∈ version.surface?, surface.Unambiguous) →
      Harmless before version version := by
  constructor
  · intro a b c hab hbc
    exact hab.trans hbc
  constructor
  · intro versions hchain
    have : IsTrans (VersionOf name) (Harmless before) := ⟨fun _ _ _ => Harmless.trans⟩
    exact hchain.pairwise
  · intro version hversion
    rw [harmless_iff]
    intro surface hsurface
    exact ⟨surface, hsurface, betweenVersions_self before (hversion surface hsurface)⟩

/-!
A field is made more and more visible, one that was private comes out beside it,
and a static method becomes final. The class stands below one with a field of
its own.
-/

def widened (name : String) (fields : List FieldDecl) (method : Modifiers) : ClassSurface where
  version := ⟨52, 0⟩
  flags := .publicFlag
  name := ⟨name⟩
  superClass := some ⟨"Base"⟩
  interfaces := []
  fields := fields
  methods := [⟨method, ⟨"m", [], ⟨.primitive .void, 0⟩⟩, ∅⟩]
  constants := []
  references := .empty

def intField (flags : Modifiers) (name : String) : FieldDecl :=
  ⟨flags, name, ⟨.primitive .int, 0⟩⟩

def baseSnapshot : Snapshot :=
  .ofList [widened "X" [intField ⟨0⟩ "x"] .staticFlag,
    { widened "Base" [intField ⟨0⟩ "z"] ⟨0⟩ with superClass := none, methods := [] }]

theorem fields_ancestors_baseSnapshot :
    (baseSnapshot.ancestors ⟨"X"⟩).flatMap ClassSurface.fields = [intField ⟨0⟩ "z"] := by
  cbv

theorem shadows_baseSnapshot {old new : ClassSurface} (hname : old.name = ⟨"X"⟩)
    (hfields : ∀ field ∈ new.fields, field.name ≠ "z")
    (hmethods : ∀ method ∈ new.methods, ∃ other ∈ old.methods,
      other.signature = method.signature) : shadows baseSnapshot old new = false := by
  rw [← Bool.not_eq_true, shadows_iff, hname]
  rintro ⟨ancestor, hancestor, ⟨field, hfield, _, inherited, hinherited, hsame⟩ |
    ⟨method, hmethod, hadded, _⟩⟩
  · have hmem := List.mem_flatMap.mpr ⟨ancestor, hancestor, hinherited⟩
    rw [fields_ancestors_baseSnapshot, List.mem_singleton] at hmem
    rw [hmem] at hsame
    exact hfields field hfield hsame.symm
  · rcases hmethods method hmethod with ⟨other, hother, hsignature⟩
    exact hadded other hother hsignature

def versionOfX (fields : List FieldDecl) (method : Modifiers) : VersionOf ⟨"X"⟩ :=
  ⟨some (widened "X" fields method), by simp [widened]⟩

def packageVersion : VersionOf ⟨"X"⟩ :=
  versionOfX [intField ⟨0⟩ "x"] .staticFlag

def protectedVersion : VersionOf ⟨"X"⟩ :=
  versionOfX [intField .protectedFlag "x", intField .privateFlag "y"] ⟨0x0018⟩

def publicVersion : VersionOf ⟨"X"⟩ :=
  versionOfX [intField .publicFlag "x", intField .publicFlag "y"] ⟨0x0019⟩

def widening : List (VersionOf ⟨"X"⟩) :=
  [⟨none, nofun⟩, packageVersion, protectedVersion, publicVersion]

theorem harmless_of_widening :
    widening.IsChain (Harmless baseSnapshot) ∧ widening.Pairwise (Harmless baseSnapshot) ∧
      Harmless baseSnapshot packageVersion publicVersion ∧
      Harmless baseSnapshot publicVersion publicVersion := by
  have hfirst : Harmless baseSnapshot packageVersion protectedVersion :=
    betweenVersions_eq_compatible_iff.mpr
      ⟨by decide +kernel, shadows_baseSnapshot rfl (by decide) (by decide)⟩
  have hsecond : Harmless baseSnapshot protectedVersion publicVersion :=
    betweenVersions_eq_compatible_iff.mpr
      ⟨by decide +kernel, shadows_baseSnapshot rfl (by decide) (by decide)⟩
  have hchain : widening.IsChain (Harmless baseSnapshot) :=
    .cons_cons rfl (.cons_cons hfirst (.cons_cons hsecond (.singleton _)))
  have hunambiguous : ∀ surface ∈ publicVersion.surface?, surface.Unambiguous := by
    intro surface hsurface
    cases hsurface
    exact ⟨⟨by decide, by decide⟩, by decide⟩
  rcases harmless_preorder baseSnapshot ⟨"X"⟩ with ⟨htrans, hchains, hself⟩
  exact ⟨hchain, hchains widening hchain, htrans _ _ _ hfirst hsecond,
    hself publicVersion hunambiguous⟩

end Compatibility
end Recompile
