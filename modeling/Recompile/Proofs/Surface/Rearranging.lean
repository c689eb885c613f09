import Recompile.Proofs.Surface.Ancestors
import Recompile.Proofs.Surface.Privacy

/-!
# The order in which a class lists its parts

Members are looked up by what names them, and whether a class stands above
another does not depend on the way the walk takes. So the order of members, of
constants and of what the ancestors implement never counts. The interfaces of
the two versions themselves are compared as lists, and there it may.
-/

namespace Recompile

structure ClassSurface.Rearranges (first second : ClassSurface) : Prop where
  version : first.version = second.version
  flags : first.flags = second.flags
  name : first.name = second.name
  superClass : first.superClass = second.superClass
  interfaces : first.interfaces.Perm second.interfaces
  fields : first.fields.Perm second.fields
  methods : first.methods.Perm second.methods
  constants : first.constants.Perm second.constants
  references : first.references = second.references

/-- Whether two snapshots hold the same classes up to the order of what each of them lists. -/
def Snapshot.Rearranges (first second : Snapshot) : Prop :=
  ∀ name, Option.Rel ClassSurface.Rearranges (first.get? name) (second.get? name)

namespace ClassSurface.Rearranges

variable {first second : ClassSurface}

theorem refl (surface : ClassSurface) : surface.Rearranges surface :=
  ⟨rfl, rfl, rfl, rfl, .refl _, .refl _, .refl _, .refl _, rfl⟩

theorem symm (h : first.Rearranges second) : second.Rearranges first where
  version := h.version.symm
  flags := h.flags.symm
  name := h.name.symm
  superClass := h.superClass.symm
  interfaces := h.interfaces.symm
  fields := h.fields.symm
  methods := h.methods.symm
  constants := h.constants.symm
  references := h.references.symm

theorem unambiguous (h : first.Rearranges second) (hfirst : first.Unambiguous) :
    second.Unambiguous where
  fields := (h.fields.map FieldDecl.name).nodup_iff.mp hfirst.fields
  methods := (h.methods.map MethodDecl.signature).nodup_iff.mp hfirst.methods
  constants := (h.constants.map SharedConstant.name).nodup_iff.mp hfirst.constants

theorem mem_supertypes_iff (h : first.Rearranges second) {name : ClassName} :
    name ∈ first.supertypes ↔ name ∈ second.supertypes := by
  unfold supertypes
  rw [List.mem_append, List.mem_append, h.superClass, h.interfaces.mem_iff]

end ClassSurface.Rearranges

/-!
# Ancestors

A chain of supertypes leads through the same names in both snapshots.
-/

namespace Snapshot

variable {before before' : Snapshot} {name : ClassName}

theorem Rearranges.symm (h : before.Rearranges before') : before'.Rearranges before := by
  intro name
  have hname := h name
  revert hname
  generalize before.get? name = found, before'.get? name = found'
  rintro (hsurface | _)
  · exact .some hsurface.symm
  · exact .none

theorem Rearranges.exists_get? (h : before.Rearranges before') {surface : ClassSurface}
    (hsurface : before.get? name = some surface) :
    ∃ other, before'.get? name = some other ∧ surface.Rearranges other := by
  have hname := h name
  rw [hsurface] at hname
  cases hother : before'.get? name with
  | none =>
      rw [hother] at hname
      cases hname
  | some other =>
      rw [hother] at hname
      cases hname with
      | some hrearranges => exact ⟨other, rfl, hrearranges⟩

theorem Rearranges.climbs (h : before.Rearranges before') {length : Nat} {top : ClassName}
    (hchain : Climbs before.classes length name top) : Climbs before'.classes length name top := by
  induction hchain with
  | start hsurface =>
      rcases h.exists_get? hsurface with ⟨_, hother, _⟩
      exact .start hother
  | step hsurface hnext _ ih =>
      rcases h.exists_get? hsurface with ⟨_, hother, hrearranges⟩
      exact .step hother (hrearranges.mem_supertypes_iff.mp hnext) ih

theorem Rearranges.exists_ancestor (h : before.Rearranges before') {ancestor : ClassSurface}
    (hancestor : ancestor ∈ before.ancestors name) :
    ∃ other ∈ before'.ancestors name, ancestor.Rearranges other := by
  rcases mem_ancestors_iff.mp hancestor with ⟨top, htop, hsurface, length, hchain⟩
  rcases h.exists_get? hsurface with ⟨other, hother, hrearranges⟩
  exact ⟨other, mem_ancestors_iff.mpr ⟨top, htop, hother, length, h.climbs hchain⟩, hrearranges⟩

theorem rel_or {α : Type} {related : α → α → Prop} {first first' second second' : Option α}
    (hfirst : Option.Rel related first first') (hsecond : Option.Rel related second second') :
    Option.Rel related (first.or second) (first'.or second') := by
  cases hfirst with
  | some h => exact .some h
  | none => exact hsecond

theorem rel_find?_reverse {classes classes' : List ClassSurface}
    (h : List.Forall₂ ClassSurface.Rearranges classes classes') :
    Option.Rel ClassSurface.Rearranges (classes.reverse.find? fun other => other.name = name)
      (classes'.reverse.find? fun other => other.name = name) := by
  induction h with
  | nil => exact .none
  | cons hfirst _ ih =>
      rw [List.reverse_cons, List.reverse_cons, List.find?_append, List.find?_append]
      refine rel_or ih ?_
      rw [List.find?_singleton, List.find?_singleton, ← hfirst.name]
      split
      · exact .some hfirst
      · exact .none

theorem rearranges_ofList {classes classes' : List ClassSurface}
    (h : List.Forall₂ ClassSurface.Rearranges classes classes') :
    (ofList classes).Rearranges (ofList classes') := by
  intro name
  unfold get? ofList
  rw [getElem?_foldl_insert, getElem?_foldl_insert, Std.ExtTreeMap.getElem?_empty, Option.or_none,
    Option.or_none]
  exact rel_find?_reverse h

end Snapshot

namespace Compatibility

variable {before before' : Snapshot} {old old' new new' : ClassSurface}

/-!
# What makes a change reach how far

A reason for a level is carried over to the rearranged versions. Where members
have counterparts, their names must be unique: of several members of one name
the last one counts, and another one may be last after rearranging.
-/

theorem isLast_iff_of_perm {α β : Type} {key : α → β} {items items' : List α} {item : α}
    {wanted : β} (h : items.Perm items') (hitems : (items.map key).Nodup) :
    IsLast (fun other => key other = wanted) items item ↔
      IsLast (fun other => key other = wanted) items' item := by
  have hitems' := (h.map key).nodup_iff.mp hitems
  rw [isLast_iff_of_nodup hitems, isLast_iff_of_nodup hitems', h.mem_iff]

theorem LosesConstant.rearranged (h : LosesConstant old new) (hold : old.Rearranges old')
    (hnew : new.Rearranges new') (hunambiguous : new.Unambiguous) : LosesConstant old' new' := by
  rcases h with ⟨constant, hconstant, hlost⟩
  refine ⟨constant, hold.constants.mem_iff.mp hconstant, ?_⟩
  intro kept hkept
  exact hlost kept ((isLast_iff_of_perm hnew.constants hunambiguous.constants).mpr hkept)

theorem Break.rearranged (h : Break before old new) (hbefore : before.Rearranges before')
    (hold : old.Rearranges old') (hnew : new.Rearranges new') (hunambiguous : new.Unambiguous)
    (hinterfaces : old'.interfaces = new'.interfaces → old.interfaces = new.interfaces) :
    Break before' old' new' := by
  cases h with
  | becameAbstract h =>
      rw [hold.flags, hnew.flags] at h
      exact .becameAbstract h
  | becameFinal h =>
      rw [hold.flags, hnew.flags] at h
      exact .becameFinal h
  | lostPublic h =>
      rw [hold.flags, hnew.flags] at h
      exact .lostPublic h
  | superClass h =>
      rw [hold.superClass, hnew.superClass] at h
      exact .superClass h
  | interfaces h => exact .interfaces fun hsame => h (hinterfaces hsame)
  | fieldGone field hfield hvisible hgone =>
      refine .fieldGone field (hold.fields.mem_iff.mp hfield) hvisible ?_
      exact fun other hother => hgone other (hnew.fields.mem_iff.mpr hother)
  | fieldChanged field hfield hvisible kept hkept h =>
      have hkept' := (isLast_iff_of_perm hnew.fields hunambiguous.fields).mp hkept
      exact .fieldChanged field (hold.fields.mem_iff.mp hfield) hvisible kept hkept' h
  | methodGone method hmethod hvisible hname hgone =>
      refine .methodGone method (hold.methods.mem_iff.mp hmethod) hvisible hname ?_
      exact fun other hother => hgone other (hnew.methods.mem_iff.mpr hother)
  | methodChanged method hmethod hvisible hname kept hkept h =>
      have hkept' := (isLast_iff_of_perm hnew.methods hunambiguous.methods).mp hkept
      exact .methodChanged method (hold.methods.mem_iff.mp hmethod) hvisible hname kept hkept' h
  | fieldShadows field hfield hadded ancestor hancestor inherited hinherited hname =>
      rw [hold.name] at hancestor
      rcases hbefore.exists_ancestor hancestor with ⟨ancestor', hancestor', hrearranges⟩
      refine .fieldShadows field (hnew.fields.mem_iff.mp hfield) ?_ ancestor' hancestor' inherited
        (hrearranges.fields.mem_iff.mp hinherited) hname
      exact fun other hother => hadded other (hold.fields.mem_iff.mpr hother)
  | methodShadows method hmethod hadded hconstructor hinitializer ancestor hancestor inherited
      hinherited hsignature =>
      rw [hold.name] at hancestor
      rcases hbefore.exists_ancestor hancestor with ⟨ancestor', hancestor', hrearranges⟩
      refine .methodShadows method (hnew.methods.mem_iff.mp hmethod) ?_ hconstructor hinitializer
        ancestor' hancestor' inherited (hrearranges.methods.mem_iff.mp hinherited) hsignature
      exact fun other hother => hadded other (hold.methods.mem_iff.mpr hother)

/-!
# The level

The interfaces are taken out of the comparison first. The level of what remains
does not depend on any order, and the interfaces can only add to it where
nothing else breaks.
-/

theorem eq_of_reach {level level' : Compatibility}
    (hglobal : level = globallyIncompatible ↔ level' = globallyIncompatible)
    (hharm : level ≠ compatible ↔ level' ≠ compatible) : level = level' := by
  cases level <;> cases level' <;> simp_all

theorem betweenVersions_of_rearranges (hbefore : before.Rearranges before')
    (hold : old.Rearranges old') (hnew : new.Rearranges new') (hunambiguous : new.Unambiguous)
    (hinterfaces : old'.interfaces = new'.interfaces ↔ old.interfaces = new.interfaces) :
    betweenVersions before' old' new' = betweenVersions before old new := by
  have hunambiguous' := hnew.unambiguous hunambiguous
  have hlost : LosesConstant old' new' ↔ LosesConstant old new := by
    constructor
    · exact fun h => h.rearranged hold.symm hnew.symm hunambiguous'
    · exact fun h => h.rearranged hold hnew hunambiguous
  have hbreak : Break before' old' new' ↔ Break before old new := by
    constructor
    · exact fun h => h.rearranged hbefore.symm hold.symm hnew.symm hunambiguous' hinterfaces.mpr
    · exact fun h => h.rearranged hbefore hold hnew hunambiguous hinterfaces.mp
  apply eq_of_reach
  · rw [betweenVersions_eq_globallyIncompatible_iff, betweenVersions_eq_globallyIncompatible_iff,
      hlost]
  · rw [betweenVersions_ne_compatible_iff, betweenVersions_ne_compatible_iff, hlost, hbreak]

def implementing (surface other : ClassSurface) : ClassSurface :=
  { surface with interfaces := other.interfaces }

theorem break_iff_implementing :
    Break before old new ↔
      Break before old (implementing new old) ∨ old.interfaces ≠ new.interfaces := by
  constructor
  · intro h
    by_cases hinterfaces : old.interfaces = new.interfaces
    · left
      unfold implementing
      rw [hinterfaces]
      exact h
    · exact Or.inr hinterfaces
  · rintro (h | h)
    · cases h with
      | becameAbstract h => exact .becameAbstract h
      | becameFinal h => exact .becameFinal h
      | lostPublic h => exact .lostPublic h
      | superClass h => exact .superClass h
      | interfaces h => exact absurd rfl h
      | fieldGone field hfield hvisible hgone => exact .fieldGone field hfield hvisible hgone
      | fieldChanged field hfield hvisible kept hkept h =>
          exact .fieldChanged field hfield hvisible kept hkept h
      | methodGone method hmethod hvisible hname hgone =>
          exact .methodGone method hmethod hvisible hname hgone
      | methodChanged method hmethod hvisible hname kept hkept h =>
          exact .methodChanged method hmethod hvisible hname kept hkept h
      | fieldShadows field hfield hadded ancestor hancestor inherited hinherited hname =>
          exact .fieldShadows field hfield hadded ancestor hancestor inherited hinherited hname
      | methodShadows method hmethod hadded hconstructor hinitializer ancestor hancestor inherited
          hinherited hsignature =>
          exact .methodShadows method hmethod hadded hconstructor hinitializer ancestor hancestor
            inherited hinherited hsignature
    · exact .interfaces h

theorem betweenVersions_eq_join_interfaces (before : Snapshot) (old new : ClassSurface) :
    betweenVersions before old new =
      (betweenVersions before old (implementing new old)).join
        (incompatibleIf (old.interfaces ≠ new.interfaces)) := by
  have hlost : LosesConstant old (implementing new old) ↔ LosesConstant old new := Iff.rfl
  apply eq_of_reach
  · rw [join_eq_globallyIncompatible_iff, or_iff_left (incompatibleIf_ne_globallyIncompatible _),
      betweenVersions_eq_globallyIncompatible_iff, betweenVersions_eq_globallyIncompatible_iff,
      hlost]
  · rw [join_ne_compatible_iff, incompatibleIf_ne_compatible_iff, decide_eq_true_iff,
      betweenVersions_ne_compatible_iff, betweenVersions_ne_compatible_iff, hlost, or_assoc,
      ← break_iff_implementing]

theorem join_incompatibleIf_eq_iff {level : Compatibility} {broken broken' : Bool} :
    level.join (incompatibleIf broken') = level.join (incompatibleIf broken) ↔
      level ≠ compatible ∨ broken' = broken := by
  cases level <;> cases broken <;> cases broken' <;> decide

/--
The level of a change stays what it is when the two versions and the classes
above them list their parts in another order, exactly if something besides the
interfaces breaks, or if the interface lists of the two versions are equal both
before and after or differ both times. Only the order of the interfaces in one
version and not the other can thus count, and the level of a class that is gone
depends on no order at all.
-/
theorem level_of_rearranged_iff (hbefore : before.Rearranges before') (hold : old.Rearranges old')
    (hnew : new.Rearranges new') (hunambiguous : new.Unambiguous) :
    (between before' (some old') (some new') = between before (some old) (some new) ↔
      between before (some old) (some (implementing new old)) ≠ compatible ∨
        (old'.interfaces = new'.interfaces ↔ old.interfaces = new.interfaces)) ∧
    between before' (some old') none = between before (some old) none := by
  constructor
  · have haligned : betweenVersions before' old' (implementing new' old') =
        betweenVersions before old (implementing new old) := by
      have hnew' : (implementing new old).Rearranges (implementing new' old') :=
        { hnew with interfaces := hold.interfaces }
      have hunambiguous' : (implementing new old).Unambiguous :=
        ⟨⟨hunambiguous.fields, hunambiguous.methods⟩, hunambiguous.constants⟩
      exact betweenVersions_of_rearranges hbefore hold hnew' hunambiguous' (iff_of_true rfl rfl)
    show betweenVersions before' old' new' = betweenVersions before old new ↔
      betweenVersions before old (implementing new old) ≠ compatible ∨ _
    rw [betweenVersions_eq_join_interfaces, haligned,
      betweenVersions_eq_join_interfaces before old new, join_incompatibleIf_eq_iff,
      decide_eq_decide, not_iff_not]
  · show (if old'.constants.isEmpty then _ else _) = if old.constants.isEmpty then _ else _
    rw [hold.constants.isEmpty_eq]

theorem level_differs_of_swapped_interfaces :
    (Snapshot.placed "X" none [⟨"A"⟩, ⟨"B"⟩]).Unambiguous ∧
      (Snapshot.placed "X" none [⟨"A"⟩, ⟨"B"⟩]).interfaces.Nodup ∧
      (Snapshot.placed "X" none [⟨"A"⟩, ⟨"B"⟩]).Rearranges
        (Snapshot.placed "X" none [⟨"B"⟩, ⟨"A"⟩]) ∧
      between (.ofList []) (some (Snapshot.placed "X" none [⟨"A"⟩, ⟨"B"⟩]))
        (some (Snapshot.placed "X" none [⟨"A"⟩, ⟨"B"⟩])) = compatible ∧
      between (.ofList []) (some (Snapshot.placed "X" none [⟨"A"⟩, ⟨"B"⟩]))
        (some (Snapshot.placed "X" none [⟨"B"⟩, ⟨"A"⟩])) = incompatible := by
  refine ⟨⟨⟨.nil, .nil⟩, .nil⟩, by decide, ?_, by decide +kernel, by decide +kernel⟩
  exact { ClassSurface.Rearranges.refl (Snapshot.placed "X" none []) with
    interfaces := .swap _ _ _ }

def family (interfaces : List ClassName) : List ClassSurface :=
  [widened "X" [] ⟨0⟩, Snapshot.placed "Base" none interfaces, Snapshot.placed "I" none [],
    { Snapshot.placed "J" none [] with fields := [intField ⟨0⟩ "z"] }]

theorem rearranges_family :
    (Snapshot.ofList (family [⟨"I"⟩, ⟨"J"⟩])).Rearranges (.ofList (family [⟨"J"⟩, ⟨"I"⟩])) := by
  have hbase : (Snapshot.placed "Base" none [⟨"I"⟩, ⟨"J"⟩]).Rearranges
      (Snapshot.placed "Base" none [⟨"J"⟩, ⟨"I"⟩]) :=
    { ClassSurface.Rearranges.refl (Snapshot.placed "Base" none []) with interfaces := .swap _ _ _ }
  exact Snapshot.rearranges_ofList
    (.cons (.refl _) (.cons hbase (.cons (.refl _) (.cons (.refl _) .nil))))

theorem rearranges_widened {fields fields' : List FieldDecl} (h : fields.Perm fields') :
    (widened "X" fields ⟨0⟩).Rearranges (widened "X" fields' ⟨0⟩) :=
  { ClassSurface.Rearranges.refl (widened "X" [] ⟨0⟩) with fields := h }

theorem field_above_family :
    ∃ ancestor ∈ (Snapshot.ofList (family [⟨"I"⟩, ⟨"J"⟩])).ancestors ⟨"X"⟩,
      intField ⟨0⟩ "z" ∈ ancestor.fields := by
  have hclass : (Snapshot.ofList (family [⟨"I"⟩, ⟨"J"⟩])).classes[(⟨"X"⟩ : ClassName)]? =
      some (widened "X" [] ⟨0⟩) := by
    rfl
  have hbase : (Snapshot.ofList (family [⟨"I"⟩, ⟨"J"⟩])).classes[(⟨"Base"⟩ : ClassName)]? =
      some (Snapshot.placed "Base" none [⟨"I"⟩, ⟨"J"⟩]) := by
    rfl
  have htop : (Snapshot.ofList (family [⟨"I"⟩, ⟨"J"⟩])).classes[(⟨"J"⟩ : ClassName)]? =
      some { Snapshot.placed "J" none [] with fields := [intField ⟨0⟩ "z"] } := by
    rfl
  refine ⟨_, Snapshot.mem_ancestors_iff.mpr ⟨⟨"J"⟩, by decide, htop, 2, ?_⟩,
    List.mem_singleton_self _⟩
  exact .step hclass (by decide) (.step hbase (by decide) (.start htop))

theorem level_of_rearranged_family :
    between (.ofList (family [⟨"I"⟩, ⟨"J"⟩]))
        (some (widened "X" [intField ⟨0⟩ "x", intField ⟨0⟩ "y"] ⟨0⟩))
        (some (widened "X" [intField ⟨0⟩ "x", intField ⟨0⟩ "y", intField ⟨0⟩ "z"] ⟨0⟩)) =
      incompatible ∧
    between (.ofList (family [⟨"J"⟩, ⟨"I"⟩]))
        (some (widened "X" [intField ⟨0⟩ "y", intField ⟨0⟩ "x"] ⟨0⟩))
        (some (widened "X" [intField ⟨0⟩ "z", intField ⟨0⟩ "y", intField ⟨0⟩ "x"] ⟨0⟩)) =
      incompatible := by
  have hlevel : between (.ofList (family [⟨"I"⟩, ⟨"J"⟩]))
      (some (widened "X" [intField ⟨0⟩ "x", intField ⟨0⟩ "y"] ⟨0⟩))
      (some (widened "X" [intField ⟨0⟩ "x", intField ⟨0⟩ "y", intField ⟨0⟩ "z"] ⟨0⟩)) =
      incompatible := by
    rcases field_above_family with ⟨ancestor, hancestor, hinherited⟩
    have hshadows : Break (.ofList (family [⟨"I"⟩, ⟨"J"⟩]))
        (widened "X" [intField ⟨0⟩ "x", intField ⟨0⟩ "y"] ⟨0⟩)
        (widened "X" [intField ⟨0⟩ "x", intField ⟨0⟩ "y", intField ⟨0⟩ "z"] ⟨0⟩) :=
      .fieldShadows (intField ⟨0⟩ "z") (by decide) (by decide) ancestor hancestor _ hinherited rfl
    apply eq_incompatible
    · exact betweenVersions_ne_compatible_iff.mpr (Or.inr hshadows)
    · refine mt betweenVersions_eq_globallyIncompatible_iff.mp ?_
      rintro ⟨constant, hconstant, _⟩
      cases hconstant
  have hsame := (level_of_rearranged_iff rearranges_family
    (rearranges_widened (.swap (intField ⟨0⟩ "y") (intField ⟨0⟩ "x") []))
    (rearranges_widened (List.reverse_perm
      [intField ⟨0⟩ "x", intField ⟨0⟩ "y", intField ⟨0⟩ "z"]).symm)
    ⟨⟨by decide, by decide⟩, by decide⟩).1.mpr (Or.inr (iff_of_true rfl rfl))
  exact ⟨hlevel, hsame.trans hlevel⟩

end Compatibility
end Recompile
