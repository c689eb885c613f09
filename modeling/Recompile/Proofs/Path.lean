import Mathlib.Data.List.Infix
import Recompile.Path
import Recompile.Proofs.Text.Pieces

/-!
# Components of joined paths

Only the first component of a path can be the root or a single dot. All others
are steps, and a path that is spelled by steps has these as its components.
They come after those of a directory that it is joined to.
-/

namespace Recompile
namespace Path

/-- Whether a text is one step down from a directory. -/
def IsName (name : String) : Prop :=
  name ≠ "" ∧ name ≠ "." ∧ name ≠ ".." ∧ '/' ∉ name.toList

variable {name : String} {names : List String}

theorem isName_of_two_lt (hlength : 2 < name.length) (hslash : '/' ∉ name.toList) :
    IsName name := by
  have hother : ∀ text : String, text.length ≤ 2 → name ≠ text := by
    rintro text hshort rfl
    omega
  exact ⟨hother "" (by decide), hother "." (by decide), hother ".." (by decide), hslash⟩

theorem IsName.ofPiece? (h : IsName name) : Component.ofPiece? name = some (.normal name) := by
  rw [Component.ofPiece?, if_neg (by simp [h.1, h.2.1]), if_neg h.2.2.1]

namespace Component

def IsStep (component : Component) : Prop :=
  ofPiece? component.text = some component ∧ '/' ∉ component.text.toList

theorem isStep_normal (h : IsName name) : (normal name).IsStep :=
  ⟨h.ofPiece?, h.2.2.2⟩

theorem isStep_of_ofPiece? {piece : String} {component : Component}
    (h : ofPiece? piece = some component) (hslash : '/' ∉ piece.toList) : component.IsStep := by
  have htext : component.text = piece := by
    unfold ofPiece? at h
    split at h
    · cases h
    · split at h
      · next hparent =>
          cases h
          exact hparent.symm
      · cases h
        rfl
  exact ⟨by rw [htext, h], by rw [htext]; exact hslash⟩

variable {component : Component} {steps : List Component}

theorem IsStep.text_ne_empty (h : component.IsStep) : component.text ≠ "" := by
  intro hempty
  have hsome := h.1
  rw [hempty] at hsome
  cases hsome

theorem IsStep.text_ne_dot (h : component.IsStep) : component.text ≠ "." := by
  intro hdot
  have hsome := h.1
  rw [hdot] at hsome
  cases hsome

theorem filterMap_ofPiece?_steps (h : ∀ step ∈ steps, step.IsStep) :
    (steps.map text).filterMap ofPiece? = steps := by
  induction steps with
  | nil => rfl
  | cons first rest ih =>
      obtain ⟨hfirst, hrest⟩ := List.forall_mem_cons.mp h
      rw [List.map_cons, List.filterMap_cons_some hfirst.1, ih hrest]

end Component

theorem pieces_ne_nil (path : Path) : path.pieces ≠ [] := by
  unfold pieces
  rw [ne_eq, List.map_eq_nil_iff]
  exact Text.pieces_ne_nil '/' path.text.toList

theorem pieces_ofPieces (hslash : ∀ name ∈ names, '/' ∉ name.toList) (hne : names ≠ []) :
    (ofPieces names).pieces = names := by
  unfold pieces ofPieces
  rw [String.toList_intercalate]
  have hcut : Text.pieces '/' (['/'].intercalate (names.map String.toList)) =
      names.map String.toList := by
    refine Text.pieces_intercalate ?_ (by simpa using hne)
    intro part hpart
    obtain ⟨name, hname, rfl⟩ := List.mem_map.mp hpart
    exact hslash name hname
  rw [show "/".toList = ['/'] from rfl, hcut, List.map_map]
  simp [Function.comp_def]

/-!
# What steps spell
-/

def ofComponents (components : List Component) : Path :=
  ofPieces (components.map Component.text)

variable {component : Component} {steps : List Component}

theorem pieces_ofComponents (h : ∀ step ∈ steps, step.IsStep) (hne : steps ≠ []) :
    (ofComponents steps).pieces = steps.map Component.text := by
  apply pieces_ofPieces
  · intro text htext
    obtain ⟨step, hstep, rfl⟩ := List.mem_map.mp htext
    exact (h step hstep).2
  · rw [ne_eq, List.map_eq_nil_iff]
    exact hne

theorem filterMap_pieces_ofComponents (h : ∀ step ∈ steps, step.IsStep) :
    (ofComponents steps).pieces.filterMap Component.ofPiece? = steps := by
  by_cases hne : steps = []
  · rw [hne]
    rfl
  · rw [pieces_ofComponents h hne, Component.filterMap_ofPiece?_steps h]

theorem isAbsolute_ofComponents (h : ∀ step ∈ steps, step.IsStep) :
    (ofComponents steps).isAbsolute = false := by
  unfold isAbsolute ofComponents ofPieces
  rw [String.toList_intercalate]
  cases steps with
  | nil => rfl
  | cons first rest =>
      have hstep := h first List.mem_cons_self
      cases hfirst : first.text.toList with
      | nil => exact absurd (String.toList_eq_nil_iff.mp hfirst) hstep.text_ne_empty
      | cons c cs =>
          have hslash := hstep.2
          rw [hfirst, List.mem_cons, not_or] at hslash
          rw [List.map_cons, List.map_cons, hfirst, List.intercalate_cons_cons_left,
            List.head?_cons]
          simpa using Ne.symm hslash.1

theorem components_ofComponents_of_steps (h : ∀ step ∈ steps, step.IsStep) :
    (ofComponents steps).components = steps := by
  cases steps with
  | nil => rfl
  | cons first rest =>
      obtain ⟨hfirst, hrest⟩ := List.forall_mem_cons.mp h
      unfold components
      rw [pieces_ofComponents h (List.cons_ne_nil _ _), List.map_cons]
      simp only
      rw [isAbsolute_ofComponents h, if_neg Bool.false_ne_true, if_neg hfirst.text_ne_dot, hfirst.1,
        Component.filterMap_ofPiece?_steps hrest]
      rfl

/-!
# What follows a directory
-/

theorem components_append {text : String} (hne : text ≠ "") (tail : String) :
    (Path.mk (text ++ "/" ++ tail)).components =
      (Path.mk text).components ++ (Path.mk tail).pieces.filterMap Component.ofPiece? := by
  have hpieces : (Path.mk (text ++ "/" ++ tail)).pieces =
      (Path.mk text).pieces ++ (Path.mk tail).pieces := by
    unfold pieces
    simp only [String.toList_append]
    rw [show "/".toList = ['/'] from rfl, List.append_assoc, List.singleton_append,
      Text.pieces_append, List.map_append]
  have habsolute : (Path.mk (text ++ "/" ++ tail)).isAbsolute = (Path.mk text).isAbsolute := by
    unfold isAbsolute
    cases htext : text.toList with
    | nil => exact absurd (String.toList_eq_nil_iff.mp htext) hne
    | cons c cs => simp [String.toList_append, htext]
  unfold components
  rw [hpieces, habsolute]
  cases hfirst : (Path.mk text).pieces with
  | nil => exact absurd hfirst (pieces_ne_nil _)
  | cons first rest =>
      simp only [List.cons_append, List.filterMap_append]
      split
      · rfl
      · split
        · rfl
        · rw [List.append_assoc]

theorem components_of_isAbsolute {path : Path} (h : path.isAbsolute = true) :
    path.components = .root :: path.pieces.tail.filterMap Component.ofPiece? := by
  unfold components
  cases hpieces : path.pieces with
  | nil => exact absurd hpieces (pieces_ne_nil path)
  | cons first rest => exact if_pos h

theorem components_root (tail : String) :
    (Path.mk ("/" ++ tail)).components =
      .root :: (Path.mk tail).pieces.filterMap Component.ofPiece? := by
  have hpieces : (Path.mk ("/" ++ tail)).pieces = "" :: (Path.mk tail).pieces := by
    unfold pieces
    rw [String.toList_append, show "/".toList = ['/'] from rfl, List.singleton_append,
      Text.pieces, if_pos rfl, List.map_cons]
  have habsolute : (Path.mk ("/" ++ tail)).isAbsolute = true := by
    unfold isAbsolute
    simp [String.toList_append]
  rw [components_of_isAbsolute habsolute, hpieces]
  rfl

theorem empty_join (tail : Path) : (Path.mk "").join tail = tail := by
  unfold join
  split
  · rfl
  · rw [if_pos (Or.inl rfl), String.empty_append]

theorem components_join_of_ne {base tail : Path} (hbase : base.text ≠ "")
    (htail : tail.isAbsolute = false) :
    (base.join tail).components =
      base.components ++ tail.pieces.filterMap Component.ofPiece? := by
  obtain ⟨text⟩ := base
  unfold join
  rw [htail, if_neg Bool.false_ne_true]
  by_cases hends : text = "" ∨ text.toList.getLast? = some '/'
  · rw [if_pos hends]
    obtain ⟨front, hfront⟩ := List.getLast?_eq_some_iff.mp (hends.resolve_left hbase)
    have htext : text = String.ofList front ++ "/" := by
      rw [← String.toList_inj, hfront]
      simp
    subst htext
    by_cases hroot : String.ofList front = ""
    · rw [hroot, String.empty_append, components_root]
      rfl
    · have hslash := components_append hroot ""
      have hnothing : (Path.mk "").pieces.filterMap Component.ofPiece? = [] := rfl
      rw [String.append_empty, hnothing, List.append_nil] at hslash
      rw [components_append hroot, hslash]
  · rw [if_neg hends, components_append hbase]

theorem components_join_ofComponents (base : Path) (h : ∀ step ∈ steps, step.IsStep) :
    (base.join (ofComponents steps)).components = base.components ++ steps := by
  by_cases hbase : base.text = ""
  · rw [show base = ⟨""⟩ from congrArg Path.mk hbase, empty_join,
      components_ofComponents_of_steps h]
    rfl
  · rw [components_join_of_ne hbase (isAbsolute_ofComponents h), filterMap_pieces_ofComponents h]

/-!
# What names spell
-/

theorem ofComponents_map_normal (names : List String) :
    ofComponents (names.map .normal) = ofPieces names := by
  rw [ofComponents, List.map_map]
  exact congrArg ofPieces (List.map_id names)

theorem isStep_of_mem_map_normal (h : ∀ name ∈ names, IsName name) :
    ∀ step ∈ names.map Component.normal, step.IsStep := by
  intro step hstep
  obtain ⟨name, hname, rfl⟩ := List.mem_map.mp hstep
  exact Component.isStep_normal (h name hname)

theorem isAbsolute_ofPieces (h : ∀ name ∈ names, IsName name) :
    (ofPieces names).isAbsolute = false := by
  rw [← ofComponents_map_normal]
  exact isAbsolute_ofComponents (isStep_of_mem_map_normal h)

theorem components_ofPieces (h : ∀ name ∈ names, IsName name) :
    (ofPieces names).components = names.map .normal := by
  rw [← ofComponents_map_normal]
  exact components_ofComponents_of_steps (isStep_of_mem_map_normal h)

theorem components_join (base : Path) (h : ∀ name ∈ names, IsName name) :
    (base.join (ofPieces names)).components = base.components ++ names.map .normal := by
  rw [← ofComponents_map_normal]
  exact components_join_ofComponents base (isStep_of_mem_map_normal h)

/-!
# Building a path from names
-/

theorem text_ofPieces_ne_empty (h : ∀ name ∈ names, IsName name) (hne : names ≠ []) :
    (ofPieces names).text ≠ "" := by
  intro hempty
  have hcomponents := components_ofPieces h
  rw [show ofPieces names = ⟨""⟩ from congrArg Path.mk hempty] at hcomponents
  exact hne (List.map_eq_nil_iff.mp hcomponents.symm)

theorem getLast?_ofPieces_ne_slash (h : ∀ name ∈ names, IsName name) :
    (ofPieces names).text.toList.getLast? ≠ some '/' := by
  intro hlast
  obtain ⟨front, hfront⟩ := List.getLast?_eq_some_iff.mp hlast
  have hne : names ≠ [] := by
    rintro rfl
    cases hlast
  have hcut : Text.pieces '/' (ofPieces names).text.toList = names.map String.toList := by
    have hpieces := pieces_ofPieces (fun name hname => (h name hname).2.2.2) hne
    unfold pieces at hpieces
    have hmapped := congrArg (List.map String.toList) hpieces
    rw [List.map_map] at hmapped
    simpa [Function.comp_def] using hmapped
  rw [hfront, Text.pieces_append] at hcut
  have hempty : [] ∈ names.map String.toList := by
    rw [← hcut]
    simp [Text.pieces]
  obtain ⟨name, hname, heq⟩ := List.mem_map.mp hempty
  exact (h name hname).1 (String.toList_eq_nil_iff.mp heq)

theorem isAbsolute_name (h : IsName name) : (Path.mk name).isAbsolute = false := by
  have hsingle := isAbsolute_ofPieces (List.forall_mem_singleton.mpr h)
  rw [ofPieces, String.intercalate_singleton] at hsingle
  exact hsingle

theorem join_ofPieces (h : ∀ name ∈ names, IsName name) (hname : IsName name) :
    (ofPieces names).join ⟨name⟩ = ofPieces (names ++ [name]) := by
  by_cases hne : names = []
  · rw [hne, List.nil_append, show ofPieces [] = ⟨""⟩ from rfl, empty_join, ofPieces,
      String.intercalate_singleton]
  · unfold join
    rw [isAbsolute_name hname, if_neg Bool.false_ne_true,
      if_neg (not_or.mpr ⟨text_ofPieces_ne_empty h hne, getLast?_ofPieces_ne_slash h⟩)]
    unfold ofPieces
    rw [String.intercalate_append_of_ne_nil hne (List.cons_ne_nil _ _),
      String.intercalate_singleton]

/-- Whether a path is made of names, behind which a slash may stand. -/
inductive LeadsAlong (names : List String) : Path → Prop where
  | plain : LeadsAlong names (ofPieces names)
  | slashed (hne : names ≠ []) : LeadsAlong names ⟨(ofPieces names).text ++ "/"⟩

theorem join_slashed {text : String} (tail : Path) (h : tail.isAbsolute = false) :
    (Path.mk (text ++ "/")).join tail = ⟨text ++ "/" ++ tail.text⟩ := by
  have hends : (text ++ "/").toList.getLast? = some '/' := by
    rw [String.toList_append]
    exact List.getLast?_concat
  unfold join
  rw [h, if_neg Bool.false_ne_true, if_pos (Or.inr hends)]

variable {path : Path}

theorem LeadsAlong.join_empty (h : ∀ name ∈ names, IsName name) (hpath : LeadsAlong names path) :
    LeadsAlong names (path.join ⟨""⟩) := by
  cases hpath with
  | plain =>
      by_cases hne : names = []
      · rw [hne]
        exact .plain
      · have hjoined : (ofPieces names).join ⟨""⟩ = ⟨(ofPieces names).text ++ "/"⟩ := by
          have hrelative : (Path.mk "").isAbsolute ≠ true := Bool.false_ne_true
          unfold join
          rw [if_neg hrelative,
            if_neg (not_or.mpr ⟨text_ofPieces_ne_empty h hne, getLast?_ofPieces_ne_slash h⟩),
            String.append_empty]
        rw [hjoined]
        exact .slashed hne
  | slashed hne =>
      rw [join_slashed ⟨""⟩ rfl, String.append_empty]
      exact .slashed hne

theorem LeadsAlong.join_name (h : ∀ name ∈ names, IsName name) (hname : IsName name)
    (hpath : LeadsAlong names path) : path.join ⟨name⟩ = ofPieces (names ++ [name]) := by
  cases hpath with
  | plain => exact join_ofPieces h hname
  | slashed hne =>
      rw [join_slashed ⟨name⟩ (isAbsolute_name hname)]
      unfold ofPieces
      rw [String.intercalate_append_of_ne_nil hne (List.cons_ne_nil _ _),
        String.intercalate_singleton]

theorem LeadsAlong.foldl_join {parts : List String}
    (hparts : ∀ part ∈ parts, part = "" ∨ IsName part) (h : ∀ name ∈ names, IsName name)
    (hpath : LeadsAlong names path) :
    LeadsAlong (names ++ parts.filter fun part => part ≠ "")
      ((parts.map Path.mk).foldl join path) := by
  induction parts generalizing names path with
  | nil =>
      rw [List.filter_nil, List.append_nil]
      exact hpath
  | cons first rest ih =>
      obtain ⟨hfirst, hrest⟩ := List.forall_mem_cons.mp hparts
      rw [List.map_cons, List.foldl_cons]
      rcases hfirst with rfl | hname
      · rw [List.filter_cons_of_neg (by simp)]
        exact ih hrest h (hpath.join_empty h)
      · have hnames : ∀ name ∈ names ++ [first], IsName name :=
          List.forall_mem_append.mpr ⟨h, List.forall_mem_singleton.mpr hname⟩
        rw [List.filter_cons_of_pos (by simpa using hname.1), ← List.singleton_append,
          ← List.append_assoc, hpath.join_name h hname]
        exact ih hrest hnames .plain

theorem trimmed_of_names (h : ∀ name ∈ names, IsName name) : trimmed names = names := by
  unfold trimmed
  cases hreverse : names.reverse with
  | nil =>
      rw [List.reverse_eq_nil_iff.mp hreverse]
      rfl
  | cons last front =>
      have hlast : IsName last := h last (by
        rw [← List.mem_reverse, hreverse]
        exact List.mem_cons_self)
      rw [List.dropWhile_cons_of_neg (by simp [hlast.ofPiece?]), ← hreverse, List.reverse_reverse]

theorem fileName?_ofPieces {last : String} (h : ∀ name ∈ names ++ [last], IsName name) :
    (ofPieces (names ++ [last])).fileName? = some last := by
  unfold fileName?
  rw [components_ofPieces h, List.map_append, List.map_singleton, List.getLast?_concat]

theorem withExtension_ofPieces {last : String} (h : ∀ name ∈ names ++ [last], IsName name)
    (hdot : '.' ∉ last.toList) (extension : String) :
    (ofPieces (names ++ [last])).withExtension extension =
      ofPieces (names ++ [last ++ "." ++ extension]) := by
  have hstem : splitName? last = none := by
    unfold splitName?
    rw [Text.splitLast?_eq_none hdot]
  unfold withExtension
  rw [fileName?_ofPieces h]
  simp only [hstem]
  rw [pieces_ofPieces (fun name hname => (h name hname).2.2.2) (by simp)]
  cases names with
  | nil => rfl
  | cons first rest =>
      have hrest : ∀ name ∈ rest ++ [last], IsName name :=
        fun name hname => h name (List.mem_cons_of_mem _ hname)
      simp only [List.cons_append]
      rw [trimmed_of_names hrest, ← List.cons_append, List.dropLast_concat]
      rfl

theorem trimmed_concat_empty (pieces : List String) :
    trimmed (pieces ++ [""]) = trimmed pieces := by
  unfold trimmed
  rw [List.reverse_append, List.reverse_singleton, List.singleton_append,
    List.dropWhile_cons_of_pos rfl]

/-- A slash at the end of a path that has a name is dropped with the extension. -/
theorem withExtension_slashed (hname : path.fileName? = some name) (extension : String) :
    (Path.mk (path.text ++ "/")).withExtension extension = path.withExtension extension := by
  have hne : path.text ≠ "" := by
    intro hempty
    rw [show path = ⟨""⟩ from congrArg Path.mk hempty] at hname
    cases hname
  have hslash : path.text ++ "/" = path.text ++ "/" ++ "" := String.append_empty.symm
  have hfile : (Path.mk (path.text ++ "/")).fileName? = some name := by
    have hnothing : (Path.mk "").pieces.filterMap Component.ofPiece? = [] := rfl
    unfold fileName? at hname ⊢
    rw [hslash, components_append hne, hnothing, List.append_nil]
    exact hname
  have hpieces : (Path.mk (path.text ++ "/")).pieces = path.pieces ++ [""] := by
    unfold pieces
    rw [String.toList_append, show "/".toList = ['/'] from rfl, Text.pieces_append, List.map_append]
    rfl
  unfold withExtension
  rw [hfile, hname, hpieces]
  simp only
  cases hfirst : path.pieces with
  | nil => exact absurd hfirst path.pieces_ne_nil
  | cons first rest =>
      simp only [List.cons_append]
      rw [trimmed_concat_empty]

theorem LeadsAlong.withExtension {last : String} (h : ∀ name ∈ names ++ [last], IsName name)
    (hdot : '.' ∉ last.toList) (hpath : LeadsAlong (names ++ [last]) path) (extension : String) :
    path.withExtension extension = ofPieces (names ++ [last ++ "." ++ extension]) := by
  cases hpath with
  | plain => exact withExtension_ofPieces h hdot extension
  | slashed =>
      rw [withExtension_slashed (fileName?_ofPieces h), withExtension_ofPieces h hdot extension]

theorem extension?_congr {a b : Path} (h : a.components = b.components) :
    a.extension? = b.extension? := by
  unfold extension? fileName?
  rw [h]

/-!
# What the components of a path spell

A path that is not empty begins with a component that is a path of its own, and
goes on with steps. So its components spell a path with the same components,
and what is left of it below a base leads from the base to it again.
-/

theorem Component.IsStep.components_text (h : component.IsStep) :
    (Path.mk component.text).components = [component] := by
  have hsingle := components_ofComponents_of_steps (List.forall_mem_singleton.mpr h)
  rw [ofComponents, List.map_singleton, ofPieces, String.intercalate_singleton] at hsingle
  exact hsingle

theorem components_ofComponents_cons (hfirst : (Path.mk component.text).components = [component])
    (h : ∀ step ∈ steps, step.IsStep) :
    (ofComponents (component :: steps)).components = component :: steps := by
  by_cases hsteps : steps = []
  · rw [hsteps, ofComponents, List.map_singleton, ofPieces, String.intercalate_singleton, hfirst]
  · have hne : component.text ≠ "" := by
      intro hempty
      rw [hempty] at hfirst
      cases hfirst
    have hsplit : ofComponents (component :: steps) =
        ⟨component.text ++ "/" ++ (ofComponents steps).text⟩ := by
      unfold ofComponents ofPieces
      rw [List.map_cons, String.intercalate_cons_of_ne_nil (by simpa using hsteps)]
    have hrest : (Path.mk (ofComponents steps).text).pieces.filterMap Component.ofPiece? = steps :=
      filterMap_pieces_ofComponents h
    rw [hsplit, components_append hne, hfirst, hrest]
    rfl

theorem slash_notMem_of_mem_pieces {piece : String} (h : piece ∈ path.pieces) :
    '/' ∉ piece.toList := by
  obtain ⟨characters, hpiece, rfl⟩ := List.mem_map.mp h
  rw [String.toList_ofList]
  exact Text.not_mem_of_mem_pieces hpiece

theorem text_eq_empty_of_pieces {rest : List String} (h : path.pieces = "" :: rest)
    (hrelative : path.isAbsolute ≠ true) : path.text = "" := by
  unfold isAbsolute at hrelative
  unfold pieces at h
  cases htext : path.text.toList with
  | nil => exact String.toList_eq_nil_iff.mp htext
  | cons c cs =>
      rw [htext] at h hrelative
      have hc : c ≠ '/' := by simpa using hrelative
      rw [Text.pieces, if_neg hc] at h
      split at h
      · exact absurd (List.cons.inj h).1 (by simp)
      · exact absurd (List.cons.inj h).1 (by simp)

theorem Component.ofPiece?_eq_none_iff {piece : String} :
    ofPiece? piece = none ↔ piece = "" ∨ piece = "." := by
  unfold ofPiece?
  split
  · next h => exact iff_of_true rfl h
  · next h =>
      refine iff_of_false ?_ h
      split <;> nofun

theorem components_cases (path : Path) :
    path.text = "" ∨ ∃ first steps, path.components = first :: steps ∧
      (Path.mk first.text).components = [first] ∧ ∀ step ∈ steps, step.IsStep := by
  cases hpieces : path.pieces with
  | nil => exact absurd hpieces path.pieces_ne_nil
  | cons first rest =>
      have hslash : ∀ piece ∈ first :: rest, '/' ∉ piece.toList := fun piece hpiece =>
        slash_notMem_of_mem_pieces (hpieces ▸ hpiece)
      have hsteps : ∀ step ∈ rest.filterMap Component.ofPiece?, step.IsStep := by
        intro step hstep
        obtain ⟨piece, hpiece, hof⟩ := List.mem_filterMap.mp hstep
        exact Component.isStep_of_ofPiece? hof (hslash piece (List.mem_cons_of_mem _ hpiece))
      unfold components
      rw [hpieces]
      simp only
      by_cases habsolute : path.isAbsolute = true
      · rw [if_pos habsolute]
        exact Or.inr ⟨_, _, rfl, rfl, hsteps⟩
      · rw [if_neg habsolute]
        by_cases hdot : first = "."
        · rw [if_pos hdot]
          exact Or.inr ⟨_, _, rfl, rfl, hsteps⟩
        · rw [if_neg hdot]
          cases hfirst : Component.ofPiece? first with
          | none =>
              have hempty := (Component.ofPiece?_eq_none_iff.mp hfirst).resolve_right hdot
              exact Or.inl (text_eq_empty_of_pieces (hempty ▸ hpieces) habsolute)
          | some component =>
              have hstep := Component.isStep_of_ofPiece? hfirst (hslash first List.mem_cons_self)
              exact Or.inr ⟨component, _, rfl, hstep.components_text, hsteps⟩

theorem components_ofComponents (path : Path) :
    (ofComponents path.components).components = path.components := by
  rcases path.components_cases with hempty | ⟨first, steps, hall, hfirst, hsteps⟩
  · rw [show path = ⟨""⟩ from congrArg Path.mk hempty]
    rfl
  · rw [hall, components_ofComponents_cons hfirst hsteps]

theorem below?_eq_some_iff {root : Path} {rest : List Component} :
    root.below? path = some rest ↔ path.components = root.components ++ rest := by
  unfold below?
  rw [List.isPrefixOf?_eq_some_iff_append_eq, eq_comm]

theorem components_join_below {root : Path} {rest : List Component}
    (h : root.below? path = some rest) :
    (root.join (ofComponents rest)).components = path.components := by
  rw [below?_eq_some_iff] at h
  rcases root.components_cases with hempty | ⟨first, steps, hroot, _, _⟩
  · -- Below nothing all components are left, so the first one need not be a step.
    have hroot : root = ⟨""⟩ := congrArg Path.mk hempty
    rw [hroot] at h ⊢
    have hrest : path.components = rest := h
    rw [empty_join, ← hrest, components_ofComponents]
  · have hsteps : ∀ step ∈ rest, step.IsStep := by
      intro step hstep
      rcases path.components_cases with hempty | ⟨other, others, hall, _, hothers⟩
      · rw [show path = ⟨""⟩ from congrArg Path.mk hempty, hroot] at h
        cases h
      · rw [hall, hroot, List.cons_append] at h
        apply hothers
        rw [(List.cons.inj h).2]
        exact List.mem_append_right steps hstep
    rw [h, components_join_ofComponents root hsteps]

end Path
end Recompile
