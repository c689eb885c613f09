import Recompile.ClassFile.Surface
import Recompile.Proofs.Text.Pieces

/-!
# Collecting references

Types are noted one by one as a class is read. Which of the classes end up on
which side is told by the types that were met, and not by the order in which
they were.
-/

namespace Recompile

def ClassName.InRuntime (name : ClassName) : Prop :=
  ∃ rest, name.text = "java." ++ rest

theorem ClassName.isRuntime_iff (name : ClassName) : name.isRuntime = true ↔ name.InRuntime := by
  unfold isRuntime InRuntime
  rw [Option.isSome_iff_exists]
  constructor
  · rintro ⟨rest, h⟩
    refine ⟨String.ofList rest, ?_⟩
    rw [← String.toList_inj, Text.after?_eq_some_iff.mp h]
    simp [runtimeLead]
  · rintro ⟨rest, h⟩
    refine ⟨rest.toList, Text.after?_eq_some_iff.mpr ?_⟩
    rw [h, String.toList_append, runtimeLead]

/-- A type that is met: in a declaration with its flags, or outside of any. -/
inductive Occurrence where
  | declared (owner : Modifiers) (type : JavaType)
  | mentioned (type : JavaType)
deriving DecidableEq

namespace Occurrence

def type : Occurrence → JavaType
  | declared _ type => type
  | mentioned type => type

def isExposed : Occurrence → Bool
  | declared owner _ => !owner.isPrivate
  | mentioned _ => false

def Names (occurrence : Occurrence) (name : ClassName) : Prop :=
  occurrence.type.element = .object name

end Occurrence

theorem JavaType.trackedClass?_eq_some_iff {type : JavaType} {name : ClassName} :
    type.trackedClass? = some name ↔ type.element = .object name ∧ ¬name.InRuntime := by
  unfold trackedClass? className?
  rw [Option.filter_eq_some_iff, ← name.isRuntime_iff]
  cases type.element <;> simp

namespace References

def note (references : References) : Occurrence → References
  | .declared owner type => references.declare owner type
  | .mentioned type => references.mention type

def ofOccurrences (own : ClassName) (met : List Occurrence) : References :=
  (met.foldl note .empty).without own

variable {references : References} {own name : ClassName} {occurrence : Occurrence}
  {met : List Occurrence}

theorem mem_note :
    (name ∈ (references.note occurrence).exposed ↔ name ∈ references.exposed ∨
      occurrence.isExposed = true ∧ occurrence.Names name ∧ ¬name.InRuntime) ∧
    (name ∈ (references.note occurrence).internal ↔ name ∈ references.internal ∨
      occurrence.isExposed = false ∧ occurrence.Names name ∧ ¬name.InRuntime) := by
  unfold Occurrence.Names
  rw [← JavaType.trackedClass?_eq_some_iff]
  cases occurrence with
  | declared owner type =>
      cases htracked : type.trackedClass? with
      | none => simp [note, declare, Occurrence.type, htracked]
      | some found =>
          cases hprivate : owner.isPrivate <;>
            simp [note, declare, Occurrence.type, Occurrence.isExposed, htracked, hprivate,
              or_comm]
  | mentioned type =>
      cases htracked : type.trackedClass? with
      | none => simp [note, mention, Occurrence.type, htracked]
      | some found =>
          simp [note, mention, Occurrence.type, Occurrence.isExposed, htracked, or_comm]

theorem mem_foldl_note :
    (name ∈ (met.foldl note references).exposed ↔ name ∈ references.exposed ∨
      ∃ occurrence ∈ met, occurrence.isExposed = true ∧ occurrence.Names name ∧
        ¬name.InRuntime) ∧
    (name ∈ (met.foldl note references).internal ↔ name ∈ references.internal ∨
      ∃ occurrence ∈ met, occurrence.isExposed = false ∧ occurrence.Names name ∧
        ¬name.InRuntime) := by
  induction met generalizing references with
  | nil => simp
  | cons occurrence met ih =>
      simp only [List.foldl_cons, List.mem_cons, exists_eq_or_imp, ih, mem_note, or_assoc, and_self]

theorem mem_erase {names : ClassSet} : name ∈ names.erase own ↔ name ≠ own ∧ name ∈ names := by
  rw [Std.ExtTreeSet.mem_erase, Ne, Std.LawfulEqCmp.compare_eq_iff_eq, @eq_comm _ own]

theorem mem_internal_without :
    name ∈ (references.without own).internal ↔
      (name ≠ own ∧ name ∈ references.internal) ∧ name ∉ (references.without own).exposed := by
  show name ∈ (references.internal.erase own).filter _ ↔
    _ ∧ name ∉ references.exposed.erase own
  simp only [Std.ExtTreeSet.mem_filter, Std.ExtTreeSet.get_eq, exists_prop, mem_erase]
  rw [Bool.not_eq_true', ← Bool.not_eq_true, Std.ExtTreeSet.contains_iff_mem, mem_erase]

theorem exists_met_iff {exposed : Bool} {names : ClassSet}
    (h : name ∈ names ↔ name ∈ (∅ : ClassSet) ∨ ∃ occurrence ∈ met,
      occurrence.isExposed = exposed ∧ occurrence.Names name ∧ ¬name.InRuntime) :
    name ≠ own ∧ name ∈ names ↔
      (∃ occurrence ∈ met, occurrence.isExposed = exposed ∧ occurrence.Names name) ∧
        name ≠ own ∧ ¬name.InRuntime := by
  rw [h]
  constructor
  · rintro ⟨hown, hnone | ⟨occurrence, hmet, hexposed, hnames, hruntime⟩⟩
    · exact absurd hnone Std.ExtTreeSet.not_mem_empty
    · exact ⟨⟨occurrence, hmet, hexposed, hnames⟩, hown, hruntime⟩
  · rintro ⟨⟨occurrence, hmet, hexposed, hnames⟩, hown, hruntime⟩
    exact ⟨hown, Or.inr ⟨occurrence, hmet, hexposed, hnames, hruntime⟩⟩

theorem mem_exposed_ofOccurrences :
    name ∈ (ofOccurrences own met).exposed ↔
      (∃ occurrence ∈ met, occurrence.isExposed = true ∧ occurrence.Names name) ∧
        name ≠ own ∧ ¬name.InRuntime := by
  show name ∈ (met.foldl note empty).exposed.erase own ↔ _
  rw [mem_erase]
  exact exists_met_iff mem_foldl_note.1

theorem mem_internal_ofOccurrences :
    name ∈ (ofOccurrences own met).internal ↔
      ((∃ occurrence ∈ met, occurrence.isExposed = false ∧ occurrence.Names name) ∧
        name ≠ own ∧ ¬name.InRuntime) ∧ name ∉ (ofOccurrences own met).exposed := by
  unfold ofOccurrences
  rw [mem_internal_without]
  exact and_congr_left' (exists_met_iff mem_foldl_note.2)

/-- The order in which types are met, and how often each is, does not matter. -/
theorem ofOccurrences_congr {other : List Occurrence}
    (h : ∀ occurrence, occurrence ∈ met ↔ occurrence ∈ other) :
    ofOccurrences own met = ofOccurrences own other := by
  have hexposed : (ofOccurrences own met).exposed = (ofOccurrences own other).exposed := by
    apply Std.ExtTreeSet.ext_mem
    intro name
    simp only [mem_exposed_ofOccurrences, h]
  have hinternal : (ofOccurrences own met).internal = (ofOccurrences own other).internal := by
    apply Std.ExtTreeSet.ext_mem
    intro name
    simp only [mem_internal_ofOccurrences, hexposed, h]
  have hparts : ∀ references : References,
      references = ⟨references.exposed, references.internal⟩ := fun _ => rfl
  rw [hparts (ofOccurrences own met), hexposed, hinternal]

end References

namespace ClassFile

def declaredOccurrences (declarations : List Declaration) : List Occurrence :=
  declarations.flatMap fun (owner, types) => types.map (.declared owner)

theorem collect_eq (own : ClassName) (declarations : List Declaration) (mentions : List JavaType) :
    collect own declarations mentions =
      References.ofOccurrences own
        (declaredOccurrences declarations ++ mentions.map .mentioned) := by
  unfold collect References.ofOccurrences declaredOccurrences
  rw [List.foldl_append, List.foldl_map, List.foldl_flatMap]
  simp only [List.foldl_map]
  rfl

end ClassFile
end Recompile
