import Mathlib.Order.MinMax
import Recompile.Proofs.Surface.Lookup
import Recompile.Surface.Compatibility

/-!
# The level of a change

The rules for two versions of a class are run over many members, and the widest
level that comes out is the level of the change. What makes a change reach how
far is stated here without the rules: a constant that is lost makes it reach
everywhere, and a break makes it reach the direct dependants.
-/

namespace Recompile
namespace Compatibility

/-!
# The widest level

No level hides a wider one, in whatever order they are met. A level is known by
how high it ranks, so all that is asked of a list is whether some of its levels
rank high enough.
-/

section Widest

variable {level : Compatibility} {levels : List Compatibility}

theorem rank_join (a b : Compatibility) : (a.join b).rank = max a.rank b.rank := by
  unfold join
  split
  · omega
  · omega

theorem le_rank_foldl_join {bound : Nat} (start : Compatibility) :
    bound ≤ (levels.foldl join start).rank ↔
      bound ≤ start.rank ∨ ∃ level ∈ levels, bound ≤ level.rank := by
  induction levels generalizing start with
  | nil => simp
  | cons first rest ih =>
      rw [List.foldl_cons, ih, rank_join]
      simp only [le_max_iff, or_assoc, List.mem_cons, exists_eq_or_imp]

theorem le_rank_widest_map {α : Type} {items : List α} {levelOf : α → Compatibility} {bound : Nat}
    (hbound : 0 < bound) :
    bound ≤ (widest (items.map levelOf)).rank ↔ ∃ item ∈ items, bound ≤ (levelOf item).rank := by
  have hstart : ¬bound ≤ compatible.rank := Nat.not_le.mpr hbound
  unfold widest
  rw [le_rank_foldl_join, or_iff_right hstart]
  simp only [List.mem_map, exists_exists_and_eq_and]

theorem eq_globallyIncompatible_iff : level = globallyIncompatible ↔ 2 ≤ level.rank := by
  cases level <;> simp [rank]

theorem ne_compatible_iff : level ≠ compatible ↔ 1 ≤ level.rank := by
  cases level <;> simp [rank]

theorem widest_map_eq_globallyIncompatible_iff {α : Type} {items : List α}
    {levelOf : α → Compatibility} :
    widest (items.map levelOf) = globallyIncompatible ↔
      ∃ item ∈ items, levelOf item = globallyIncompatible := by
  simp only [eq_globallyIncompatible_iff, le_rank_widest_map Nat.two_pos]

theorem widest_map_ne_compatible_iff {α : Type} {items : List α}
    {levelOf : α → Compatibility} :
    widest (items.map levelOf) ≠ compatible ↔ ∃ item ∈ items, levelOf item ≠ compatible := by
  simp only [ne_compatible_iff, le_rank_widest_map Nat.one_pos]

theorem join_eq_globallyIncompatible_iff {a b : Compatibility} :
    a.join b = globallyIncompatible ↔ a = globallyIncompatible ∨ b = globallyIncompatible := by
  simp only [eq_globallyIncompatible_iff, rank_join, le_max_iff]

theorem join_ne_compatible_iff {a b : Compatibility} :
    a.join b ≠ compatible ↔ a ≠ compatible ∨ b ≠ compatible := by
  simp only [ne_compatible_iff, rank_join, le_max_iff]

theorem incompatibleIf_ne_compatible_iff {broken : Bool} :
    incompatibleIf broken ≠ compatible ↔ broken = true := by
  cases broken <;> simp [incompatibleIf]

theorem incompatibleIf_ne_globallyIncompatible (broken : Bool) :
    incompatibleIf broken ≠ globallyIncompatible := by
  cases broken <;> simp [incompatibleIf]

end Widest

/-!
# Breaks

A break is a change after which a dependant of the old version may not do with
the new one.
-/

def Gains (old new flag : Modifiers) : Prop :=
  old.contains flag = false ∧ new.contains flag = true

def Loses (old new flag : Modifiers) : Prop :=
  old.contains flag = true ∧ new.contains flag = false

inductive FieldBreak (old new : FieldDecl) : Prop where
  | narrowed (h : new.flags.level.rank < old.flags.level.rank)
  | toggledStatic (h : old.flags.contains .staticFlag ≠ new.flags.contains .staticFlag)
  | becameFinal (h : Gains old.flags new.flags .finalFlag)
  | retyped (h : old.type ≠ new.type)

inductive MethodBreak (old new : MethodDecl) : Prop where
  | narrowed (h : new.flags.level.rank < old.flags.level.rank)
  | becameAbstract (h : Gains old.flags new.flags .abstractFlag)
  | becameFinal (h : Gains old.flags new.flags .finalFlag)
      (hinstance : old.flags.contains .staticFlag = false)
  | toggledStatic (h : old.flags.contains .staticFlag ≠ new.flags.contains .staticFlag)

/-- A class whose direct dependants have to be compiled again. -/
inductive Break (before : Snapshot) (old new : ClassSurface) : Prop where
  | becameAbstract (h : Gains old.flags new.flags .abstractFlag)
  | becameFinal (h : Gains old.flags new.flags .finalFlag)
  | lostPublic (h : Loses old.flags new.flags .publicFlag)
  | superClass (h : old.superClass ≠ new.superClass)
  | interfaces (h : old.interfaces ≠ new.interfaces)
  | fieldGone (field : FieldDecl) (hfield : field ∈ old.fields)
      (hvisible : field.flags.isPrivate = false)
      (hgone : ∀ other ∈ new.fields, other.name ≠ field.name)
  | fieldChanged (field : FieldDecl) (hfield : field ∈ old.fields)
      (hvisible : field.flags.isPrivate = false) (kept : FieldDecl)
      (hkept : IsLast (fun other => other.name = field.name) new.fields kept)
      (h : FieldBreak field kept)
  | methodGone (method : MethodDecl) (hmethod : method ∈ old.methods)
      (hvisible : method.flags.isPrivate = false)
      (hname : method.signature.name ≠ ClassSurface.staticInitializer)
      (hgone : ∀ other ∈ new.methods, other.signature ≠ method.signature)
  | methodChanged (method : MethodDecl) (hmethod : method ∈ old.methods)
      (hvisible : method.flags.isPrivate = false)
      (hname : method.signature.name ≠ ClassSurface.staticInitializer) (kept : MethodDecl)
      (hkept : IsLast (fun other => other.signature = method.signature) new.methods kept)
      (h : MethodBreak method kept)
  | fieldShadows (field : FieldDecl) (hfield : field ∈ new.fields)
      (hadded : ∀ other ∈ old.fields, other.name ≠ field.name)
      (ancestor : ClassSurface) (hancestor : ancestor ∈ before.ancestors old.name)
      (inherited : FieldDecl) (hinherited : inherited ∈ ancestor.fields)
      (hname : inherited.name = field.name)
  | methodShadows (method : MethodDecl) (hmethod : method ∈ new.methods)
      (hadded : ∀ other ∈ old.methods, other.signature ≠ method.signature)
      (hconstructor : method.signature.name ≠ ClassSurface.constructor)
      (hinitializer : method.signature.name ≠ ClassSurface.staticInitializer)
      (ancestor : ClassSurface) (hancestor : ancestor ∈ before.ancestors old.name)
      (inherited : MethodDecl) (hinherited : inherited ∈ ancestor.methods)
      (hsignature : inherited.signature = method.signature)

def LosesConstant (old new : ClassSurface) : Prop :=
  ∃ constant ∈ old.constants, ∀ kept,
    IsLast (fun other => other.name = constant.name) new.constants kept →
      kept.fingerprint ≠ constant.fingerprint

/-!
# Members
-/

variable {before : Snapshot} {old new : ClassSurface}

theorem gains_iff {old new flag : Modifiers} : old.gains new flag = true ↔ Gains old new flag := by
  simp [Modifiers.gains, Gains]

theorem loses_iff {old new flag : Modifiers} : old.loses new flag = true ↔ Loses old new flag := by
  simp [Modifiers.loses, Loses]

theorem differsIn_iff {old new flag : Modifiers} :
    old.differsIn new flag = true ↔ old.contains flag ≠ new.contains flag := by
  simp [Modifiers.differsIn]

theorem narrowed_iff {old new : Modifiers} :
    old.narrowed new = true ↔ new.level.rank < old.level.rank := by
  simp [Modifiers.narrowed]

theorem fieldRules_ne_compatible_iff {old new : FieldDecl} :
    widest (fieldRules.map fun rule => rule old new) ≠ compatible ↔ FieldBreak old new := by
  rw [widest_map_ne_compatible_iff]
  simp only [fieldRules, List.mem_cons, List.not_mem_nil, or_false, exists_eq_or_imp,
    exists_eq_left, incompatibleIf_ne_compatible_iff, narrowed_iff,
    differsIn_iff, gains_iff, decide_eq_true_eq]
  constructor
  · rintro (h | h | h | h)
    · exact .narrowed h
    · exact .toggledStatic h
    · exact .becameFinal h
    · exact .retyped h
  · intro h
    cases h with
    | narrowed h => exact Or.inl h
    | toggledStatic h => exact Or.inr (Or.inl h)
    | becameFinal h => exact Or.inr (Or.inr (Or.inl h))
    | retyped h => exact Or.inr (Or.inr (Or.inr h))

theorem methodRules_ne_compatible_iff {old new : MethodDecl} :
    widest (methodRules.map fun rule => rule old new) ≠ compatible ↔ MethodBreak old new := by
  rw [widest_map_ne_compatible_iff]
  simp only [methodRules, List.mem_cons, List.not_mem_nil, or_false, exists_eq_or_imp,
    exists_eq_left, incompatibleIf_ne_compatible_iff, narrowed_iff,
    differsIn_iff, gains_iff, Bool.and_eq_true, Bool.not_eq_true']
  constructor
  · rintro (h | h | ⟨h, hinstance⟩ | h)
    · exact .narrowed h
    · exact .becameAbstract h
    · exact .becameFinal h hinstance
    · exact .toggledStatic h
  · intro h
    cases h with
    | narrowed h => exact Or.inl h
    | becameAbstract h => exact Or.inr (Or.inl h)
    | becameFinal h hinstance => exact Or.inr (Or.inr (Or.inl ⟨h, hinstance⟩))
    | toggledStatic h => exact Or.inr (Or.inr (Or.inr h))

theorem memberLevel_ne_globallyIncompatible {μ : Type} {rules : List (μ → μ → Compatibility)}
    (hrules : ∀ rule ∈ rules, ∀ old new, rule old new ≠ globallyIncompatible) (old : μ)
    (counterpart : Option μ) : memberLevel rules old counterpart ≠ globallyIncompatible := by
  cases counterpart with
  | none => exact Compatibility.noConfusion
  | some new =>
      intro h
      rcases widest_map_eq_globallyIncompatible_iff.mp h with ⟨rule, hrule, hlevel⟩
      exact hrules rule hrule old new hlevel

theorem fieldsLevel_ne_globallyIncompatible (old new : ClassSurface) :
    fieldsLevel old new ≠ globallyIncompatible := by
  intro h
  rcases widest_map_eq_globallyIncompatible_iff.mp h with ⟨field, _, hlevel⟩
  refine memberLevel_ne_globallyIncompatible ?_ field _ hlevel
  simp [fieldRules, incompatibleIf_ne_globallyIncompatible]

theorem methodsLevel_ne_globallyIncompatible (old new : ClassSurface) :
    methodsLevel old new ≠ globallyIncompatible := by
  intro h
  rcases widest_map_eq_globallyIncompatible_iff.mp h with ⟨method, _, hlevel⟩
  refine memberLevel_ne_globallyIncompatible ?_ method _ hlevel
  simp [methodRules, incompatibleIf_ne_globallyIncompatible]

theorem fieldsLevel_ne_compatible_iff :
    fieldsLevel old new ≠ compatible ↔ ∃ field ∈ old.fields, field.flags.isPrivate = false ∧
      ((∀ other ∈ new.fields, other.name ≠ field.name) ∨
        ∃ kept, IsLast (fun other => other.name = field.name) new.fields kept ∧
          FieldBreak field kept) := by
  unfold fieldsLevel
  rw [widest_map_ne_compatible_iff]
  simp only [List.mem_filter, Bool.not_eq_true', and_assoc]
  refine exists_congr fun field => and_congr_right fun _ => and_congr_right fun _ => ?_
  rw [← ClassSurface.field?_eq_none_iff]
  simp only [← ClassSurface.field?_eq_some_iff]
  cases new.field? field.name with
  | none => simp [memberLevel]
  | some kept => simpa [memberLevel] using fieldRules_ne_compatible_iff

theorem methodsLevel_ne_compatible_iff :
    methodsLevel old new ≠ compatible ↔ ∃ method ∈ old.methods, method.flags.isPrivate = false ∧
      method.signature.name ≠ ClassSurface.staticInitializer ∧
        ((∀ other ∈ new.methods, other.signature ≠ method.signature) ∨
          ∃ kept, IsLast (fun other => other.signature = method.signature) new.methods kept ∧
            MethodBreak method kept) := by
  unfold methodsLevel
  rw [widest_map_ne_compatible_iff]
  simp only [List.mem_filter, isVisibleMethod, Bool.and_eq_true, Bool.not_eq_true',
    decide_eq_true_eq, and_assoc]
  refine exists_congr fun method => and_congr_right fun _ => and_congr_right fun _ =>
    and_congr_right fun _ => ?_
  rw [← ClassSurface.method?_eq_none_iff]
  simp only [← ClassSurface.method?_eq_some_iff]
  cases new.method? method.signature with
  | none => simp [memberLevel]
  | some kept => simpa [memberLevel] using methodRules_ne_compatible_iff

theorem constantsLevel_eq_globallyIncompatible_iff :
    constantsLevel old new = globallyIncompatible ↔ LosesConstant old new := by
  have hlost : (old.constants.any fun constant =>
      new.constant? constant.name ≠ some constant.fingerprint) = true ↔ LosesConstant old new := by
    rw [List.any_eq_true]
    refine exists_congr fun constant => and_congr_right fun _ => ?_
    rw [decide_eq_true_eq, ne_eq, ClassSurface.constant?_eq_some_iff]
    simp only [not_exists, not_and, ne_eq]
  unfold constantsLevel
  rw [← hlost]
  split
  · next h => exact iff_of_true rfl h
  · next h => exact iff_of_false Compatibility.noConfusion h

theorem constantsLevel_ne_compatible_iff :
    constantsLevel old new ≠ compatible ↔ constantsLevel old new = globallyIncompatible := by
  unfold constantsLevel
  split <;> simp

/-!
# Shadowing
-/

theorem shadows_iff :
    shadows before old new = true ↔ ∃ ancestor ∈ before.ancestors old.name,
      (∃ field ∈ new.fields, (∀ other ∈ old.fields, other.name ≠ field.name) ∧
        ∃ inherited ∈ ancestor.fields, inherited.name = field.name) ∨
      ∃ method ∈ new.methods, (∀ other ∈ old.methods, other.signature ≠ method.signature) ∧
        method.signature.name ≠ ClassSurface.constructor ∧
        method.signature.name ≠ ClassSurface.staticInitializer ∧
        ∃ inherited ∈ ancestor.methods, inherited.signature = method.signature := by
  have hany : shadows before old new = (before.ancestors old.name).any fun ancestor =>
      (addedFields old new).any (fun field => ancestor.hasField field.name) ||
        (addedMethods old new).any ancestor.hasMethod := by
    unfold shadows
    simp only
    split
    · next hnone =>
        rw [Bool.and_eq_true, List.isEmpty_iff, List.isEmpty_iff] at hnone
        simp [hnone.1, hnone.2]
    · rfl
  rw [hany, List.any_eq_true]
  refine exists_congr fun ancestor => and_congr_right fun _ => ?_
  rw [Bool.or_eq_true, List.any_eq_true, List.any_eq_true]
  simp only [addedFields, addedMethods, isInheritable, List.mem_filter, List.mem_map,
    Option.isNone_iff_eq_none, ClassSurface.field?_eq_none_iff, ClassSurface.method?_eq_none_iff,
    ClassSurface.hasField, ClassSurface.hasMethod, List.any_eq_true, decide_eq_true_eq,
    Bool.and_eq_true, exists_exists_and_eq_and, and_assoc]

/-!
# All rules together
-/

theorem betweenVersions_eq_globallyIncompatible_iff :
    betweenVersions before old new = globallyIncompatible ↔ LosesConstant old new := by
  unfold betweenVersions
  rw [join_eq_globallyIncompatible_iff, or_iff_left (incompatibleIf_ne_globallyIncompatible _),
    widest_map_eq_globallyIncompatible_iff, ← constantsLevel_eq_globallyIncompatible_iff]
  simp only [classRules, List.mem_cons, List.not_mem_nil, or_false, exists_eq_or_imp,
    exists_eq_left, incompatibleIf_ne_globallyIncompatible, fieldsLevel_ne_globallyIncompatible,
    methodsLevel_ne_globallyIncompatible, false_or]

theorem betweenVersions_ne_compatible_iff :
    betweenVersions before old new ≠ compatible ↔
      LosesConstant old new ∨ Break before old new := by
  unfold betweenVersions
  rw [join_ne_compatible_iff, incompatibleIf_ne_compatible_iff, shadows_iff,
    widest_map_ne_compatible_iff]
  simp only [classRules, List.mem_cons, List.not_mem_nil, or_false, exists_eq_or_imp,
    exists_eq_left, incompatibleIf_ne_compatible_iff, gains_iff, loses_iff,
    Bool.or_eq_true, decide_eq_true_eq, constantsLevel_ne_compatible_iff,
    constantsLevel_eq_globallyIncompatible_iff, fieldsLevel_ne_compatible_iff,
    methodsLevel_ne_compatible_iff]
  constructor
  · rintro ((h | h | h | (h | h) | h | ⟨field, hfield, hvisible, hgone | ⟨kept, hkept, h⟩⟩ |
      ⟨method, hmethod, hvisible, hname, hgone | ⟨kept, hkept, h⟩⟩) |
      ⟨ancestor, hancestor, ⟨field, hfield, hadded, inherited, hinherited, hname⟩ |
        ⟨method, hmethod, hadded, hconstructor, hinitializer, inherited, hinherited, hsame⟩⟩)
    · exact Or.inr (.becameAbstract h)
    · exact Or.inr (.becameFinal h)
    · exact Or.inr (.lostPublic h)
    · exact Or.inr (.superClass h)
    · exact Or.inr (.interfaces h)
    · exact Or.inl h
    · exact Or.inr (.fieldGone field hfield hvisible hgone)
    · exact Or.inr (.fieldChanged field hfield hvisible kept hkept h)
    · exact Or.inr (.methodGone method hmethod hvisible hname hgone)
    · exact Or.inr (.methodChanged method hmethod hvisible hname kept hkept h)
    · exact Or.inr (.fieldShadows field hfield hadded ancestor hancestor inherited hinherited hname)
    · exact Or.inr (.methodShadows method hmethod hadded hconstructor hinitializer ancestor
        hancestor inherited hinherited hsame)
  · rintro (h | h)
    · exact Or.inl (Or.inr (Or.inr (Or.inr (Or.inr (Or.inl h)))))
    · cases h with
      | becameAbstract h => exact Or.inl (Or.inl h)
      | becameFinal h => exact Or.inl (Or.inr (Or.inl h))
      | lostPublic h => exact Or.inl (Or.inr (Or.inr (Or.inl h)))
      | superClass h => exact Or.inl (Or.inr (Or.inr (Or.inr (Or.inl (Or.inl h)))))
      | interfaces h => exact Or.inl (Or.inr (Or.inr (Or.inr (Or.inl (Or.inr h)))))
      | fieldGone field hfield hvisible hgone =>
          exact Or.inl (Or.inr (Or.inr (Or.inr (Or.inr (Or.inr (Or.inl
            ⟨field, hfield, hvisible, Or.inl hgone⟩))))))
      | fieldChanged field hfield hvisible kept hkept h =>
          exact Or.inl (Or.inr (Or.inr (Or.inr (Or.inr (Or.inr (Or.inl
            ⟨field, hfield, hvisible, Or.inr ⟨kept, hkept, h⟩⟩))))))
      | methodGone method hmethod hvisible hname hgone =>
          exact Or.inl (Or.inr (Or.inr (Or.inr (Or.inr (Or.inr (Or.inr
            ⟨method, hmethod, hvisible, hname, Or.inl hgone⟩))))))
      | methodChanged method hmethod hvisible hname kept hkept h =>
          exact Or.inl (Or.inr (Or.inr (Or.inr (Or.inr (Or.inr (Or.inr
            ⟨method, hmethod, hvisible, hname, Or.inr ⟨kept, hkept, h⟩⟩))))))
      | fieldShadows field hfield hadded ancestor hancestor inherited hinherited hname =>
          exact Or.inr ⟨ancestor, hancestor,
            Or.inl ⟨field, hfield, hadded, inherited, hinherited, hname⟩⟩
      | methodShadows method hmethod hadded hconstructor hinitializer ancestor hancestor inherited
          hinherited hsame =>
          exact Or.inr ⟨ancestor, hancestor,
            Or.inr ⟨method, hmethod, hadded, hconstructor, hinitializer, inherited, hinherited,
              hsame⟩⟩

theorem between_eq_globallyIncompatible_iff {old new : Option ClassSurface} :
    between before old new = globallyIncompatible ↔
      ∃ surface, old = some surface ∧ ∃ constant ∈ surface.constants,
        ∀ current, new = some current →
          ∀ kept, IsLast (fun other => other.name = constant.name) current.constants kept →
            kept.fingerprint ≠ constant.fingerprint := by
  cases old with
  | none => exact iff_of_false Compatibility.noConfusion nofun
  | some surface =>
      simp only [Option.some.injEq, exists_eq_left']
      cases new with
      | none =>
          show (if surface.constants.isEmpty then incompatible else globallyIncompatible) = _ ↔ _
          cases hconstants : surface.constants with
          | nil => simp
          | cons constant rest => simp
      | some current =>
          simp only [Option.some.injEq, forall_eq']
          exact betweenVersions_eq_globallyIncompatible_iff

/--
The level of every change: without an old version there is nothing to break, one
that is gone breaks its dependants and all copies of its constants, and between
two versions a lost constant counts before any break.
-/
theorem levels_of_change (before : Snapshot) :
    (∀ new, between before none new = compatible) ∧
    (∀ old, between before (some old) none =
      if old.constants = [] then incompatible else globallyIncompatible) ∧
    ∀ old new,
      (between before (some old) (some new) = globallyIncompatible ↔ LosesConstant old new) ∧
      (between before (some old) (some new) = incompatible ↔
        ¬LosesConstant old new ∧ Break before old new) ∧
      (between before (some old) (some new) = compatible ↔
        ¬LosesConstant old new ∧ ¬Break before old new) := by
  refine ⟨fun _ => rfl, ?_, ?_⟩
  · intro old
    show (if old.constants.isEmpty then _ else _) = _
    simp only [List.isEmpty_iff]
  · intro old new
    show (betweenVersions before old new = _ ↔ _) ∧ (betweenVersions before old new = _ ↔ _) ∧
      (betweenVersions before old new = _ ↔ _)
    have hglobal : betweenVersions before old new = globallyIncompatible ↔ LosesConstant old new :=
      betweenVersions_eq_globallyIncompatible_iff
    have hbroken : betweenVersions before old new ≠ compatible ↔
        LosesConstant old new ∨ Break before old new :=
      betweenVersions_ne_compatible_iff
    rw [← hglobal] at hbroken ⊢
    cases hlevel : betweenVersions before old new with
    | compatible => simpa [hlevel] using hbroken
    | incompatible => simpa [hlevel] using hbroken
    | globallyIncompatible => simp

end Compatibility
end Recompile
