import Recompile.Proofs.ClassFiles
import Recompile.Proofs.Path

/-!
# Where the class file of a class lies

A binary name has a part for each package and one for the class. The class file
lies below the directories of the packages, so two classes never share one.
-/

namespace Recompile
namespace ClassName

/-- Whether a name is made of parts that can each name a file. -/
def IsBinary (name : ClassName) : Prop :=
  ∀ part ∈ Text.pieces '.' name.text.toList, part ≠ [] ∧ '/' ∉ part

instance (name : ClassName) : Decidable name.IsBinary :=
  inferInstanceAs (Decidable (∀ part ∈ Text.pieces '.' name.text.toList, _))

def parts (name : ClassName) : List String :=
  (Text.pieces '.' name.text.toList).map String.ofList

variable {name : ClassName}

theorem parts_ne_nil (name : ClassName) : name.parts ≠ [] := by
  unfold parts
  rw [ne_eq, List.map_eq_nil_iff]
  exact Text.pieces_ne_nil '.' name.text.toList

theorem isName_of_mem_pieces {text piece : List Char} (h : piece ∈ Text.pieces '.' text)
    (hne : piece ≠ []) (hslash : '/' ∉ piece) : Path.IsName (String.ofList piece) := by
  have hdot := Text.not_mem_of_mem_pieces h
  refine ⟨?_, ?_, ?_, ?_⟩
  · simpa using hne
  · intro heq
    apply hdot
    rw [← String.toList_ofList (l := piece), heq]
    simp
  · intro heq
    apply hdot
    rw [← String.toList_ofList (l := piece), heq]
    simp
  · simpa using hslash

theorem IsBinary.isName (h : name.IsBinary) : ∀ part ∈ name.parts, Path.IsName part := by
  intro part hpart
  obtain ⟨piece, hpiece, rfl⟩ := List.mem_map.mp hpart
  obtain ⟨hne, hslash⟩ := h piece hpiece
  exact isName_of_mem_pieces hpiece hne hslash

theorem IsBinary.leadsBelow (h : name.IsBinary) : name.LeadsBelow := by
  intro hslash
  rcases Text.exists_mem_pieces hslash (by decide : '/' ≠ '.') with ⟨piece, hpiece, hmem⟩
  exact (h piece hpiece).2 hmem

theorem dot_notMem_of_mem_parts {part : String} (h : part ∈ name.parts) : '.' ∉ part.toList := by
  obtain ⟨piece, hpiece, rfl⟩ := List.mem_map.mp h
  rw [String.toList_ofList]
  exact Text.not_mem_of_mem_pieces hpiece

theorem intercalate_parts (name : ClassName) :
    String.intercalate "." name.parts = name.text := by
  rw [← String.toList_inj, String.toList_intercalate, parts, List.map_map]
  have hsame : (Text.pieces '.' name.text.toList).map (String.toList ∘ String.ofList) =
      Text.pieces '.' name.text.toList := by
    simp [Function.comp_def]
  rw [hsame]
  exact Text.intercalate_pieces '.' name.text.toList

theorem parts_injective {a b : ClassName} (h : a.parts = b.parts) : a = b := by
  have htext : a.text = b.text := by
    rw [← intercalate_parts a, h, intercalate_parts b]
  cases a
  cases b
  exact congrArg ClassName.mk htext

def steps (name : ClassName) : List String :=
  name.parts.dropLast ++ [name.parts.getLast name.parts_ne_nil ++ ".class"]

theorem steps_injective {a b : ClassName} (h : a.steps = b.steps) : a = b := by
  obtain ⟨hfront, hlast⟩ := List.append_inj' h rfl
  have hclass : a.parts.getLast a.parts_ne_nil = b.parts.getLast b.parts_ne_nil :=
    String.append_left_inj ".class" |>.mp (List.singleton_inj.mp hlast)
  refine parts_injective ?_
  rw [← List.dropLast_concat_getLast a.parts_ne_nil, hfront, hclass,
    List.dropLast_concat_getLast]

theorem isName_classExtension {last : String} (h : Path.IsName last) :
    Path.IsName (last ++ ".class") := by
  apply Path.isName_of_two_lt
  · have hclass : ".class".length = 6 := rfl
    rw [String.length_append]
    omega
  · rw [String.toList_append, List.mem_append, not_or]
    exact ⟨h.2.2.2, by decide⟩

theorem IsBinary.isName_steps (h : name.IsBinary) : ∀ step ∈ name.steps, Path.IsName step := by
  intro step hstep
  rcases List.mem_append.mp hstep with hfront | hlast
  · exact h.isName step (List.dropLast_subset name.parts hfront)
  · rw [List.mem_singleton.mp hlast]
    exact isName_classExtension (h.isName _ (List.getLast_mem name.parts_ne_nil))

/-!
# Parts that are empty

Between two dots in a row there is nothing, and that leaves no step behind. So
a name without slashes has its class file where its other parts lead to.
-/

def filledParts (name : ClassName) : List String :=
  name.parts.filter fun part => part ≠ ""

theorem leadsAlong_filledParts (h : ∀ part ∈ name.parts, part = "" ∨ Path.IsName part) :
    Path.LeadsAlong name.filledParts ((name.parts.map Path.mk).foldl Path.join ⟨""⟩) := by
  have hempty : Path.LeadsAlong [] ⟨""⟩ := .plain
  exact hempty.foldl_join h (List.forall_mem_nil _)

theorem classFile_eq_foldl (name : ClassName) :
    name.classFile = ((name.parts.map Path.mk).foldl Path.join ⟨""⟩).withExtension "class" := by
  rw [parts, List.map_map]
  rfl

theorem isName_of_mem_filledParts (h : ∀ part ∈ name.parts, part = "" ∨ Path.IsName part) :
    ∀ part ∈ name.filledParts, Path.IsName part := by
  intro part hpart
  obtain ⟨hmem, hne⟩ := List.mem_filter.mp hpart
  exact (h part hmem).resolve_left (by simpa using hne)

theorem classFile_of_filledParts {front : List String} {last : String}
    (h : ∀ part ∈ name.parts, part = "" ∨ Path.IsName part)
    (hparts : name.filledParts = front ++ [last]) :
    name.classFile = Path.ofPieces (front ++ [last ++ ".class"]) := by
  have hnames := isName_of_mem_filledParts h
  have hpath := leadsAlong_filledParts h
  have hlast : last ∈ name.filledParts := by
    rw [hparts]
    exact List.mem_append_right front (List.mem_singleton_self last)
  have hdot : '.' ∉ last.toList := dot_notMem_of_mem_parts (List.mem_of_mem_filter hlast)
  rw [hparts] at hnames hpath
  rw [classFile_eq_foldl, hpath.withExtension hnames hdot, String.append_assoc]
  rfl

theorem classFile_of_filledParts_nil (h : ∀ part ∈ name.parts, part = "" ∨ Path.IsName part)
    (hparts : name.filledParts = []) : name.classFile = ⟨""⟩ := by
  have hpath := leadsAlong_filledParts h
  rw [hparts] at hpath
  rw [classFile_eq_foldl]
  generalize (name.parts.map Path.mk).foldl Path.join ⟨""⟩ = path at hpath
  cases hpath with
  | plain => rfl
  | slashed hne => exact absurd rfl hne

theorem exists_steps_classFile (h : ∀ part ∈ name.parts, part = "" ∨ Path.IsName part) :
    ∃ steps, (∀ step ∈ steps, Path.IsName step) ∧ name.classFile = Path.ofPieces steps := by
  rcases List.eq_nil_or_concat name.filledParts with hnil | ⟨front, last, hparts⟩
  · exact ⟨[], nofun, classFile_of_filledParts_nil h hnil⟩
  · rw [List.concat_eq_append] at hparts
    refine ⟨_, ?_, classFile_of_filledParts h hparts⟩
    have hnames := isName_of_mem_filledParts h
    rw [hparts, List.forall_mem_append, List.forall_mem_singleton] at hnames
    exact List.forall_mem_append.mpr
      ⟨hnames.1, List.forall_mem_singleton.mpr (isName_classExtension hnames.2)⟩

theorem IsBinary.classFile_eq (h : name.IsBinary) :
    name.classFile = Path.ofPieces name.steps := by
  refine classFile_of_filledParts (fun part hpart => Or.inr (h.isName part hpart)) ?_
  rw [filledParts, List.dropLast_concat_getLast, List.filter_eq_self]
  intro part hpart
  simpa using (h.isName part hpart).1

theorem IsBinary.components_classFile (h : name.IsBinary) :
    name.classFile.components = name.steps.map .normal := by
  rw [h.classFile_eq, Path.components_ofPieces h.isName_steps]

theorem eq_of_components_classFile {a b : ClassName} (ha : a.IsBinary) (hb : b.IsBinary)
    (h : a.classFile.components = b.classFile.components) : a = b := by
  rw [ha.components_classFile, hb.components_classFile] at h
  refine steps_injective ((List.map_inj_right ?_).mp h)
  intro x y hxy
  injection hxy

end ClassName

theorem fileKey_eq (destination : Path) {name : ClassName}
    (h : ∀ part ∈ name.parts, part = "" ∨ Path.IsName part) :
    fileKey destination name = destination.components ++ name.classFile.components := by
  obtain ⟨steps, hsteps, hfile⟩ := ClassName.exists_steps_classFile h
  unfold fileKey classFileIn
  rw [hfile, Path.components_join destination hsteps, Path.components_ofPieces hsteps]

theorem fileKey_injective (destination : Path) {a b : ClassName} (ha : a.IsBinary)
    (hb : b.IsBinary) (h : fileKey destination a = fileKey destination b) : a = b := by
  rw [fileKey_eq destination fun part hpart => Or.inr (ha.isName part hpart),
    fileKey_eq destination fun part hpart => Or.inr (hb.isName part hpart)] at h
  exact ClassName.eq_of_components_classFile ha hb (List.append_cancel_left h)

end Recompile
