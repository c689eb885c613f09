import Mathlib.Data.List.Pairwise
import Mathlib.Order.Lattice.Nat
import Recompile.Proofs.Surface.Lookup
import Recompile.Surface.Snapshot

/-!
# Which classes stand above a class

The walk through the supertypes goes in rows. A row is met from front to end,
and the supertypes of what was met make up the next one, so the number of a row
is the length of the shortest chain to the classes in it. Chains that come back
to a class of an earlier row are longer than they need be and lead nowhere new.
-/

namespace Recompile
namespace Snapshot

variable {classes left : Std.ExtTreeMap ClassName ClassSurface} {name first top : ClassName}
  {surface : ClassSurface} {queue later row : List ClassName} {length : Nat}
  {met entries : List (ClassName × ClassSurface)}

/-!
# Chains of supertypes
-/

/-- A chain of so many steps to supertypes; each class of it, the last one too, is there. -/
inductive Climbs (classes : Std.ExtTreeMap ClassName ClassSurface) :
    Nat → ClassName → ClassName → Prop where
  | start {name : ClassName} {surface : ClassSurface} (h : classes[name]? = some surface) :
      Climbs classes 0 name name
  | step {length : Nat} {name next top : ClassName} {surface : ClassSurface}
      (h : classes[name]? = some surface) (hnext : next ∈ surface.supertypes)
      (hchain : Climbs classes length next top) : Climbs classes (length + 1) name top

def Reaches (classes : Std.ExtTreeMap ClassName ClassSurface) (row : List ClassName)
    (length : Nat) (top : ClassName) : Prop :=
  ∃ first ∈ row, Climbs classes length first top

theorem Climbs.exists_first (h : Climbs classes length first top) :
    ∃ surface, classes[first]? = some surface := by
  cases h with
  | start h => exact ⟨_, h⟩
  | step h _ _ => exact ⟨_, h⟩

theorem Climbs.exists_top (h : Climbs classes length first top) :
    ∃ surface, classes[top]? = some surface := by
  induction h with
  | start h => exact ⟨_, h⟩
  | step _ _ _ ih => exact ih

theorem Climbs.mono (h : Climbs left length first top)
    (hleft : ∀ (name : ClassName) surface, left[name]? = some surface →
      classes[name]? = some surface) :
    Climbs classes length first top := by
  induction h with
  | start h => exact .start (hleft _ _ h)
  | step h hnext _ ih => exact .step (hleft _ _ h) hnext ih

/-!
# One row

Meeting a row takes its classes out of those still to be met.
-/

def meet : List ClassName → Std.ExtTreeMap ClassName ClassSurface →
    List (ClassName × ClassSurface) × Std.ExtTreeMap ClassName ClassSurface
  | [], unmet => ([], unmet)
  | name :: rest, unmet =>
    match unmet[name]? with
    | none => meet rest unmet
    | some surface =>
      ((name, surface) :: (meet rest (unmet.erase name)).1, (meet rest (unmet.erase name)).2)

def above (met : List (ClassName × ClassSurface)) : List ClassName :=
  met.flatMap fun entry => entry.2.supertypes

theorem getElem?_erase_eq {other : ClassName} :
    (classes.erase name)[other]? = if name = other then none else classes[other]? := by
  rw [Std.ExtTreeMap.getElem?_erase]
  simp only [Std.LawfulEqCmp.compare_eq_iff_eq]

theorem getElem?_meet (row : List ClassName) (unmet : Std.ExtTreeMap ClassName ClassSurface) :
    (meet row unmet).2[name]? = if name ∈ row then none else unmet[name]? := by
  induction row generalizing unmet with
  | nil => rfl
  | cons first rest ih =>
      unfold meet
      cases hfirst : unmet[first]? with
      | none =>
          show (meet rest unmet).2[name]? = _
          rw [ih]
          by_cases hname : name = first
          · rw [hname, hfirst, ite_self, ite_self]
          · simp only [List.mem_cons, hname, false_or]
      | some surface =>
          show (meet rest (unmet.erase first)).2[name]? = _
          rw [ih, getElem?_erase_eq]
          by_cases hname : name = first
          · simp [hname]
          · simp only [List.mem_cons, hname, Ne.symm hname, false_or, if_false]

theorem mem_meet (row : List ClassName) (unmet : Std.ExtTreeMap ClassName ClassSurface) :
    (name, surface) ∈ (meet row unmet).1 ↔ name ∈ row ∧ unmet[name]? = some surface := by
  induction row generalizing unmet with
  | nil => simp [meet]
  | cons first rest ih =>
      unfold meet
      cases hfirst : unmet[first]? with
      | none =>
          show _ ∈ (meet rest unmet).1 ↔ _
          rw [ih, List.mem_cons]
          constructor
          · exact fun h => ⟨Or.inr h.1, h.2⟩
          · rintro ⟨rfl | hrest, hsurface⟩
            · rw [hfirst] at hsurface
              cases hsurface
            · exact ⟨hrest, hsurface⟩
      | some found =>
          show _ ∈ (first, found) :: (meet rest (unmet.erase first)).1 ↔ _
          rw [List.mem_cons, ih, getElem?_erase_eq, List.mem_cons, Prod.mk.injEq]
          by_cases hname : name = first
          · subst hname
            simp [hfirst, eq_comm]
          · simp [hname, Ne.symm hname]

theorem nodup_meet (row : List ClassName) (unmet : Std.ExtTreeMap ClassName ClassSurface) :
    ((meet row unmet).1.map Prod.fst).Nodup := by
  induction row generalizing unmet with
  | nil => exact List.nodup_nil
  | cons first rest ih =>
      unfold meet
      cases hfirst : unmet[first]? with
      | none => exact ih unmet
      | some surface =>
          show (first :: (meet rest (unmet.erase first)).1.map Prod.fst).Nodup
          refine List.nodup_cons.mpr ⟨?_, ih _⟩
          rw [List.mem_map]
          rintro ⟨⟨name, found⟩, hmem, rfl⟩
          rw [mem_meet, getElem?_erase_eq, if_pos rfl] at hmem
          cases hmem.2

theorem size_meet (row : List ClassName) (unmet : Std.ExtTreeMap ClassName ClassSurface) :
    (meet row unmet).2.size ≤ unmet.size ∧
      ((meet row unmet).1 ≠ [] → (meet row unmet).2.size < unmet.size) := by
  induction row generalizing unmet with
  | nil => exact ⟨Nat.le_refl _, fun h => absurd rfl h⟩
  | cons first rest ih =>
      unfold meet
      cases hfirst : unmet[first]? with
      | none => exact ih unmet
      | some surface =>
          have hlt := Nat.lt_of_le_of_lt (ih (unmet.erase first)).1 (size_erase_lt hfirst)
          exact ⟨Nat.le_of_lt hlt, fun _ => hlt⟩

/-- The walk meets the first row and goes on with the rest of the queue and the row behind it. -/
theorem ancestorsFrom_append (row queue : List ClassName)
    (unmet : Std.ExtTreeMap ClassName ClassSurface) :
    ancestorsFrom (row ++ queue) unmet =
      (meet row unmet).1.map Prod.snd ++
        ancestorsFrom (queue ++ above (meet row unmet).1) (meet row unmet).2 := by
  induction row generalizing queue unmet with
  | nil => simp [meet, above]
  | cons first rest ih =>
      rw [List.cons_append, ancestorsFrom]
      unfold meet
      split
      case h_1 hfirst =>
        rw [ih]
        simp only [hfirst]
      case h_2 surface hfirst =>
        rw [List.append_assoc, ih]
        simp only [hfirst, above, List.map_cons, List.flatMap_cons, List.cons_append,
          List.append_assoc]

/-!
# From one row to the next

A chain from the row to a class outside of it is cut behind its last class in
the row. What is left of it goes through classes that are left, and is shorter.
-/

theorem mem_above : first ∈ above (meet row classes).1 ↔
    ∃ name ∈ row, ∃ surface, classes[name]? = some surface ∧ first ∈ surface.supertypes := by
  unfold above
  rw [List.mem_flatMap]
  constructor
  · rintro ⟨⟨name, surface⟩, hmem, hfirst⟩
    rcases (mem_meet row classes).mp hmem with ⟨hname, hsurface⟩
    exact ⟨name, hname, surface, hsurface, hfirst⟩
  · rintro ⟨name, hname, surface, hsurface, hfirst⟩
    exact ⟨(name, surface), (mem_meet row classes).mpr ⟨hname, hsurface⟩, hfirst⟩

theorem Climbs.cut (h : Climbs classes length first top) (htop : top ∉ row) :
    Climbs (meet row classes).2 length first top ∨
      ∃ shorter < length,
        Reaches (meet row classes).2 (above (meet row classes).1) shorter top := by
  induction h with
  | @start name surface h =>
      left
      have hleft : (meet row classes).2[name]? = some surface := by
        rw [getElem?_meet, if_neg htop]
        exact h
      exact .start hleft
  | @step length name next top surface h hnext hchain ih =>
      rcases ih htop with hleft | ⟨shorter, hshorter, hreaches⟩
      · by_cases hname : name ∈ row
        · right
          have hnext := mem_above.mpr ⟨name, hname, surface, h, hnext⟩
          exact ⟨length, Nat.lt_succ_self length, next, hnext, hleft⟩
        · left
          refine .step ?_ hnext hleft
          rw [getElem?_meet, if_neg hname]
          exact h
      · exact Or.inr ⟨shorter, Nat.lt_succ_of_lt hshorter, hreaches⟩

theorem Reaches.cut (h : Reaches classes row length top) (htop : top ∉ row) :
    ∃ shorter < length, Reaches (meet row classes).2 (above (meet row classes).1) shorter top := by
  rcases h with ⟨first, hfirst, hchain⟩
  rcases hchain.cut htop with hleft | hshorter
  · rcases hleft.exists_first with ⟨surface, hsurface⟩
    rw [getElem?_meet, if_pos hfirst] at hsurface
    cases hsurface
  · exact hshorter

theorem Reaches.behind
    (h : Reaches (meet row classes).2 (above (meet row classes).1) length top) :
    top ∉ row ∧ Reaches classes row (length + 1) top := by
  rcases h with ⟨first, hfirst, hchain⟩
  rcases mem_above.mp hfirst with ⟨name, hname, surface, hsurface, hnext⟩
  constructor
  · intro htop
    rcases hchain.exists_top with ⟨found, hfound⟩
    rw [getElem?_meet, if_pos htop] at hfound
    cases hfound
  · refine ⟨name, hname, .step hsurface hnext (hchain.mono ?_)⟩
    intro other found hfound
    rw [getElem?_meet] at hfound
    by_cases hother : other ∈ row
    · rw [if_pos hother] at hfound
      cases hfound
    · rw [if_neg hother] at hfound
      exact hfound

/-!
# The whole walk
-/

def NoFarther (classes : Std.ExtTreeMap ClassName ClassSurface) (row : List ClassName)
    (near far : ClassName) : Prop :=
  ∀ length, Reaches classes row length far → ∃ shorter ≤ length, Reaches classes row shorter near

/-- What a walk from a row comes to: each class above it once, the nearest first. -/
structure Walks (classes : Std.ExtTreeMap ClassName ClassSurface) (row : List ClassName)
    (entries : List (ClassName × ClassSurface)) : Prop where
  distinct : (entries.map Prod.fst).Nodup
  mem_iff : ∀ name surface, (name, surface) ∈ entries ↔
    classes[name]? = some surface ∧ ∃ length, Reaches classes row length name
  nearest_first : entries.Pairwise fun near far => NoFarther classes row near.1 far.1

theorem walks_nil : Walks classes [] [] where
  distinct := List.nodup_nil
  mem_iff name surface := by simp [Reaches]
  nearest_first := .nil

theorem Walks.behind (h : Walks (meet row classes).2 (above (meet row classes).1) entries) :
    (∀ name surface, (name, surface) ∈ entries ↔
      name ∉ row ∧ classes[name]? = some surface ∧ ∃ length, Reaches classes row length name) ∧
    entries.Pairwise fun near far => NoFarther classes row near.1 far.1 := by
  constructor
  · intro name surface
    rw [h.mem_iff, getElem?_meet]
    constructor
    · rintro ⟨hsurface, length, hreaches⟩
      rcases hreaches.behind with ⟨hname, hreaches⟩
      rw [if_neg hname] at hsurface
      exact ⟨hname, hsurface, length + 1, hreaches⟩
    · rintro ⟨hname, hsurface, length, hreaches⟩
      rcases hreaches.cut hname with ⟨shorter, _, hreaches⟩
      rw [if_neg hname]
      exact ⟨hsurface, shorter, hreaches⟩
  · apply h.nearest_first.imp_of_mem
    intro near far _ hfar hno length hreaches
    rcases (h.mem_iff far.1 far.2).mp hfar with ⟨_, _, hfar⟩
    rcases hreaches.cut hfar.behind.1 with ⟨shorter, hshorter, hreaches⟩
    rcases hno shorter hreaches with ⟨shortest, hshortest, hreaches⟩
    exact ⟨shortest + 1, by omega, hreaches.behind.2⟩

theorem Walks.cons_row (h : Walks (meet row classes).2 (above (meet row classes).1) entries) :
    Walks classes row ((meet row classes).1 ++ entries) := by
  rcases h.behind with ⟨hmem, hnearest⟩
  have hzero : ∀ entry ∈ (meet row classes).1, Reaches classes row 0 entry.1 := by
    rintro ⟨name, surface⟩ hentry
    rcases (mem_meet row classes).mp hentry with ⟨hname, hsurface⟩
    exact ⟨name, hname, .start hsurface⟩
  constructor
  · rw [List.map_append, List.nodup_append]
    refine ⟨nodup_meet row classes, h.distinct, ?_⟩
    rintro _ hmet _ hlater rfl
    rcases List.mem_map.mp hmet with ⟨⟨name, surface⟩, hentry, rfl⟩
    rcases List.mem_map.mp hlater with ⟨⟨other, found⟩, hother, hsame⟩
    have hrow := ((mem_meet row classes).mp hentry).1
    rw [← show other = name from hsame] at hrow
    exact ((hmem other found).mp hother).1 hrow
  · intro name surface
    rw [List.mem_append, mem_meet, hmem]
    constructor
    · rintro (⟨hname, hsurface⟩ | ⟨_, hsurface, hreaches⟩)
      · exact ⟨hsurface, 0, name, hname, .start hsurface⟩
      · exact ⟨hsurface, hreaches⟩
    · rintro ⟨hsurface, hreaches⟩
      by_cases hname : name ∈ row
      · exact Or.inl ⟨hname, hsurface⟩
      · exact Or.inr ⟨hname, hsurface, hreaches⟩
  · have hfirst : ∀ near ∈ (meet row classes).1, ∀ far : ClassName × ClassSurface,
        NoFarther classes row near.1 far.1 :=
      fun near hnear far length _ => ⟨0, Nat.zero_le length, hzero near hnear⟩
    refine List.pairwise_append.mpr ⟨?_, hnearest, fun near hnear far _ => hfirst near hnear far⟩
    exact List.pairwise_of_forall_mem_list fun near hnear far _ => hfirst near hnear far

/-- By induction on the number of classes that are left, of which a row takes some. -/
theorem exists_walks (row : List ClassName) (classes : Std.ExtTreeMap ClassName ClassSurface) :
    ∃ entries, ancestorsFrom row classes = entries.map Prod.snd ∧ Walks classes row entries := by
  induction hsize : classes.size using Nat.strongRecOn generalizing row classes with
  | ind size ih =>
  have hwalk := ancestorsFrom_append row [] classes
  rw [List.append_nil, List.nil_append] at hwalk
  have hbehind : ∃ entries, ancestorsFrom (above (meet row classes).1) (meet row classes).2 =
      entries.map Prod.snd ∧
        Walks (meet row classes).2 (above (meet row classes).1) entries := by
    by_cases hmet : (meet row classes).1 = []
    · rw [hmet]
      exact ⟨[], by rw [above, List.flatMap_nil, ancestorsFrom]; rfl, walks_nil⟩
    · have hlt := (size_meet row classes).2 hmet
      rw [hsize] at hlt
      exact ih _ hlt _ _ rfl
  rcases hbehind with ⟨entries, hentries, hwalks⟩
  refine ⟨(meet row classes).1 ++ entries, ?_, hwalks.cons_row⟩
  rw [hwalk, hentries, List.map_append]

/-!
# The ancestors of a class

They are the rows behind the one that the class makes up alone.
-/

noncomputable def distance (snapshot : Snapshot) (name other : ClassName) : Nat :=
  sInf {length | Climbs snapshot.classes length name other}

theorem ancestors_eq (snapshot : Snapshot) (name : ClassName) :
    snapshot.ancestors name =
      ancestorsFrom (above (meet [name] snapshot.classes).1) (meet [name] snapshot.classes).2 := by
  unfold ancestors get? meet above
  cases snapshot.classes[name]? with
  | none => exact (ancestorsFrom.eq_1 _).symm
  | some surface =>
      show _ = ancestorsFrom (surface.supertypes ++ []) _
      rw [List.append_nil]
      rfl

theorem reaches_singleton : Reaches classes [name] length top ↔ Climbs classes length name top := by
  simp [Reaches]

theorem mem_ancestors_iff {snapshot : Snapshot} :
    surface ∈ snapshot.ancestors name ↔ ∃ other ≠ name, snapshot.get? other = some surface ∧
      ∃ length, Climbs snapshot.classes length name other := by
  rcases exists_walks (above (meet [name] snapshot.classes).1) (meet [name] snapshot.classes).2 with
    ⟨entries, hentries, hwalks⟩
  have hmem := hwalks.behind.1
  simp only [List.mem_singleton, reaches_singleton] at hmem
  rw [ancestors_eq, hentries, List.mem_map]
  constructor
  · rintro ⟨⟨other, _⟩, hentry, rfl⟩
    exact ⟨other, (hmem other _).mp hentry⟩
  · rintro ⟨other, hother⟩
    exact ⟨(other, surface), (hmem other surface).mpr hother, rfl⟩

theorem distance_le_of_noFarther {snapshot : Snapshot} {near far : ClassName}
    (h : NoFarther snapshot.classes [name] near far)
    (hfar : ∃ length, Climbs snapshot.classes length name far) :
    snapshot.distance name near ≤ snapshot.distance name far := by
  have hshortest : Climbs snapshot.classes (snapshot.distance name far) name far :=
    Nat.sInf_mem hfar
  rcases h _ (reaches_singleton.mpr hshortest) with ⟨length, hlength, hnear⟩
  exact Nat.le_trans (Nat.sInf_le (reaches_singleton.mp hnear)) hlength

/--
The ancestors of a class are the classes of the snapshot that some chain of
supertypes through the snapshot leads up to, each of them once, and those with
the shortest chains first. The class itself is not among them, and one that is
not in the snapshot has none.
-/
theorem ancestors_stand_nearest_first (snapshot : Snapshot) (name : ClassName) :
    ∃ names : List ClassName,
      (snapshot.ancestors name).map some = names.map snapshot.get? ∧
      names.Nodup ∧
      (∀ other, other ∈ names ↔
        other ≠ name ∧ ∃ length > 0, Climbs snapshot.classes length name other) ∧
      names.Pairwise (fun near far => snapshot.distance name near ≤ snapshot.distance name far) ∧
      (snapshot.get? name = none → snapshot.ancestors name = []) ∧
      ∀ classes, snapshot = ofList classes →
        (snapshot.ancestors name).map ClassSurface.name = names := by
  rcases exists_walks (above (meet [name] snapshot.classes).1) (meet [name] snapshot.classes).2 with
    ⟨entries, hentries, hwalks⟩
  rw [← ancestors_eq] at hentries
  rcases hwalks.behind with ⟨hmem, hnearest⟩
  simp only [List.mem_singleton, reaches_singleton] at hmem
  have hfound : ∀ entry ∈ entries, snapshot.get? entry.1 = some entry.2 :=
    fun entry hentry => ((hmem entry.1 entry.2).mp hentry).2.1
  refine ⟨entries.map Prod.fst, ?_, hwalks.distinct, ?_, ?_, ?_, ?_⟩
  · rw [hentries, List.map_map, List.map_map]
    exact List.map_congr_left fun entry hentry => (hfound entry hentry).symm
  · intro other
    rw [List.mem_map]
    constructor
    · rintro ⟨⟨_, surface⟩, hentry, rfl⟩
      rcases (hmem _ surface).mp hentry with ⟨hother, _, length, hchain⟩
      refine ⟨hother, length, Nat.pos_of_ne_zero ?_, hchain⟩
      rintro rfl
      cases hchain
      exact hother rfl
    · rintro ⟨hother, length, _, hchain⟩
      rcases hchain.exists_top with ⟨surface, hsurface⟩
      exact ⟨(other, surface), (hmem other surface).mpr ⟨hother, hsurface, length, hchain⟩, rfl⟩
  · refine List.pairwise_map.mpr (hnearest.imp_of_mem fun {near far} _ hfar hno => ?_)
    exact distance_le_of_noFarther hno ((hmem far.1 far.2).mp hfar).2.2
  · intro hnone
    rw [ancestors, hnone]
  · rintro classes rfl
    rw [hentries, List.map_map]
    exact List.map_congr_left fun entry hentry =>
      (get?_ofList_eq_some_iff.mp (hfound entry hentry)).holds

def placed (name : String) (superClass : Option ClassName) (interfaces : List ClassName) :
    ClassSurface where
  version := ⟨52, 0⟩
  flags := .publicFlag
  name := ⟨name⟩
  superClass := superClass
  interfaces := interfaces
  fields := []
  methods := []
  constants := []
  references := .empty

def tangled : List ClassSurface :=
  [placed "C" (some ⟨"B"⟩) [⟨"I"⟩], placed "B" (some ⟨"A"⟩) [⟨"J"⟩],
    placed "A" (some ⟨"java.lang.Object"⟩) [], placed "I" none [⟨"J"⟩], placed "J" none [⟨"I"⟩]]

theorem ancestors_of_tangled :
    ((ofList tangled).ancestors ⟨"C"⟩).map ClassSurface.name =
        [⟨"B"⟩, ⟨"I"⟩, ⟨"A"⟩, ⟨"J"⟩] ∧
      (∃ length > 0, Climbs (ofList tangled).classes length ⟨"C"⟩ ⟨"J"⟩) ∧
      (ofList tangled).distance ⟨"C"⟩ ⟨"I"⟩ ≤ (ofList tangled).distance ⟨"C"⟩ ⟨"A"⟩ ∧
      (ofList tangled).ancestors ⟨"D"⟩ = [] := by
  have hnames : ((ofList tangled).ancestors ⟨"C"⟩).map ClassSurface.name =
      [⟨"B"⟩, ⟨"I"⟩, ⟨"A"⟩, ⟨"J"⟩] := by
    cbv
  rcases ancestors_stand_nearest_first (ofList tangled) ⟨"C"⟩ with
    ⟨names, _, _, hmem, hnearest, _, hlisted⟩
  rcases ancestors_stand_nearest_first (ofList tangled) ⟨"D"⟩ with ⟨_, _, _, _, _, hnone, _⟩
  have hsame := hnames.symm.trans (hlisted tangled rfl)
  rw [← hsame] at hmem hnearest
  refine ⟨hnames, ((hmem ⟨"J"⟩).mp (by decide)).2, ?_, hnone (by cbv)⟩
  simp only [List.pairwise_cons] at hnearest
  exact hnearest.2.1 _ (by decide)

end Snapshot
end Recompile
