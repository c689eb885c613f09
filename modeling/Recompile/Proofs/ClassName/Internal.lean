import Recompile.Proofs.ClassName

/-!
# The class files of internal names

An internal name comes from a class file and may be any text. Its slashes are
dots in the name of the class, so no part of that is a root or leads upwards,
and the class file lies below every destination. Where no part is empty the
path of the class file tells the name.
-/

namespace Recompile
namespace ClassName

variable {name : ClassName}

theorem leadsBelow_ofInternal (internal : String) : (ofInternal internal).LeadsBelow := by
  unfold LeadsBelow ofInternal
  rw [String.toList_map, List.mem_map]
  rintro ⟨c, _, hc⟩
  split at hc
  · cases hc
  · next hne => exact hne hc

theorem LeadsBelow.isName_of_mem_parts (h : name.LeadsBelow) :
    ∀ part ∈ name.parts, part = "" ∨ Path.IsName part := by
  intro part hpart
  obtain ⟨piece, hpiece, rfl⟩ := List.mem_map.mp hpart
  by_cases hne : piece = []
  · exact Or.inl (by rw [hne])
  · have hslash : '/' ∉ piece := fun hmem => h (Text.subset_of_mem_pieces hpiece hmem)
    exact Or.inr (isName_of_mem_pieces hpiece hne hslash)

theorem LeadsBelow.below?_classFileIn (h : name.LeadsBelow) (destination : Path) :
    destination.below? (classFileIn destination name) = some name.classFile.components :=
  Path.below?_eq_some_iff.mpr (fileKey_eq destination h.isName_of_mem_parts)

/-!
# Names without empty parts
-/

def IsFilled (name : ClassName) : Prop :=
  ∀ part ∈ name.parts, part ≠ ""

instance (name : ClassName) : Decidable name.IsFilled :=
  inferInstanceAs (Decidable (∀ part ∈ name.parts, part ≠ ""))

theorem IsFilled.isBinary (h : name.IsFilled) (hbelow : name.LeadsBelow) : name.IsBinary := by
  intro piece hpiece
  refine ⟨?_, fun hmem => hbelow (Text.subset_of_mem_pieces hpiece hmem)⟩
  rintro rfl
  exact h "" (List.mem_map_of_mem hpiece) rfl

theorem intercalate_concat_append (separator : String) (front : List String) (last more : String) :
    String.intercalate separator (front ++ [last ++ more]) =
      String.intercalate separator (front ++ [last]) ++ more := by
  by_cases hfront : front = []
  · rw [hfront, List.nil_append, List.nil_append, String.intercalate_singleton,
      String.intercalate_singleton]
  · rw [String.intercalate_append_of_ne_nil hfront (List.cons_ne_nil _ _),
      String.intercalate_append_of_ne_nil hfront (List.cons_ne_nil _ _),
      String.intercalate_singleton, String.intercalate_singleton]
    simp only [String.append_assoc]

theorem IsBinary.text_classFile (h : name.IsBinary) :
    name.classFile.text = String.intercalate "/" name.parts ++ ".class" := by
  rw [h.classFile_eq, steps, Path.ofPieces, intercalate_concat_append,
    List.dropLast_concat_getLast]

def ofClassFile? (path : Path) : Option ClassName :=
  (Text.before? ".class".toList path.text.toList).map fun internal =>
    ofInternal (String.ofList internal)

theorem IsBinary.ofInternal_intercalate (h : name.IsBinary) :
    ofInternal (String.intercalate "/" name.parts) = name := by
  have hkept : (name.parts.map String.toList).map
      (List.map fun c => if c = '/' then '.' else c) = name.parts.map String.toList := by
    refine (List.map_congr_left ?_).trans (List.map_id _)
    intro characters hcharacters
    obtain ⟨part, hpart, rfl⟩ := List.mem_map.mp hcharacters
    refine (List.map_congr_left ?_).trans (List.map_id _)
    intro c hc
    have hne : c ≠ '/' := by
      rintro rfl
      exact (h.isName part hpart).2.2.2 hc
    exact if_neg hne
  have htext : (ofInternal (String.intercalate "/" name.parts)).text = name.text := by
    rw [ofInternal, ← String.toList_inj, String.toList_map, String.toList_intercalate,
      show "/".toList = ['/'] from rfl, Text.map_intercalate, hkept, if_pos rfl,
      ← intercalate_parts name, String.toList_intercalate]
    rfl
  exact congrArg ClassName.mk htext

theorem IsBinary.ofClassFile?_classFile (h : name.IsBinary) :
    ofClassFile? name.classFile = some name := by
  have hfile : Text.before? ".class".toList name.classFile.text.toList =
      some (String.intercalate "/" name.parts).toList := by
    rw [Text.before?_eq_some_iff, h.text_classFile, String.toList_append]
  rw [ofClassFile?, hfile, Option.map_some, String.ofList_toList, h.ofInternal_intercalate]

/-!
# All internal names
-/

/--
The class file of an internal name, whatever that is, has names alone for its
components, so it lies below every destination. If no part of the class name is
empty, the path is the parts with slashes between them and the extension behind,
the name can be read off it, and no other such name has the same components.
-/
theorem classFile_of_internal_name (internal : String) :
    (ofInternal internal).classFile.isAbsolute = false ∧
    (∀ component ∈ (ofInternal internal).classFile.components,
      ∃ step, Path.IsName step ∧ component = .normal step) ∧
    (∀ destination : Path, destination.below? (classFileIn destination (ofInternal internal)) =
      some (ofInternal internal).classFile.components) ∧
    ((ofInternal internal).IsFilled →
      (ofInternal internal).classFile.text =
        String.intercalate "/" (ofInternal internal).parts ++ ".class" ∧
      ofClassFile? (ofInternal internal).classFile = some (ofInternal internal) ∧
      ∀ other, (ofInternal other).IsFilled → ofInternal other ≠ ofInternal internal →
        (ofInternal other).classFile.components ≠
          (ofInternal internal).classFile.components) := by
  have hbelow := leadsBelow_ofInternal internal
  obtain ⟨steps, hsteps, hfile⟩ := exists_steps_classFile hbelow.isName_of_mem_parts
  refine ⟨?_, ?_, hbelow.below?_classFileIn, ?_⟩
  · rw [hfile]
    exact Path.isAbsolute_ofPieces hsteps
  · rw [hfile, Path.components_ofPieces hsteps]
    intro component hcomponent
    obtain ⟨step, hstep, rfl⟩ := List.mem_map.mp hcomponent
    exact ⟨step, hsteps step hstep, rfl⟩
  · intro hfilled
    have hbinary := hfilled.isBinary hbelow
    refine ⟨hbinary.text_classFile, hbinary.ofClassFile?_classFile, ?_⟩
    intro other hother hne hsame
    have hbinary' := hother.isBinary (leadsBelow_ofInternal other)
    exact hne (eq_of_components_classFile hbinary' hbinary hsame)

theorem classFile_of_nested_class :
    (ofInternal "p/Outer$Inner").IsFilled ∧ (ofInternal "p/Outer").IsFilled ∧
      ofInternal "p/Outer" ≠ ofInternal "p/Outer$Inner" ∧
      (ofInternal "p/Outer$Inner").classFile.text = "p/Outer$Inner.class" ∧
      ofClassFile? (ofInternal "p/Outer$Inner").classFile = some ⟨"p.Outer$Inner"⟩ ∧
      (ofInternal "p/Outer").classFile.components ≠
        (ofInternal "p/Outer$Inner").classFile.components := by
  have hinner : (ofInternal "p/Outer$Inner").IsFilled := by decide +kernel
  have houter : (ofInternal "p/Outer").IsFilled := by decide +kernel
  have hne : ofInternal "p/Outer" ≠ ofInternal "p/Outer$Inner" := by decide +kernel
  have hname : ofInternal "p/Outer$Inner" = ⟨"p.Outer$Inner"⟩ := by decide +kernel
  have hspelled : String.intercalate "/" (ofInternal "p/Outer$Inner").parts ++ ".class" =
      "p/Outer$Inner.class" := by
    decide +kernel
  obtain ⟨_, _, _, hnamed⟩ := classFile_of_internal_name "p/Outer$Inner"
  obtain ⟨htext, hback, hother⟩ := hnamed hinner
  exact ⟨hinner, houter, hne, htext.trans hspelled, hback.trans (congrArg some hname),
    hother "p/Outer" houter hne⟩

example : (ofInternal "/../p//A/").classFile = ⟨"p/A.class"⟩ := by
  decide +kernel

end ClassName
end Recompile
