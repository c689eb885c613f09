import Recompile.Proofs.Entries
import Recompile.Surface.Usage

/-!
# Users are uses read backwards

The users of a class in a snapshot are the classes there that refer to it. The
two kinds of reference are collected one after the other, class by class, and
each step adds one user to one class on one side.
-/

namespace Recompile

variable {references : References} {name source target other : ClassName}

inductive Side where
  | exposed
  | internal
deriving DecidableEq

namespace References

def side (references : References) : Side → ClassSet
  | .exposed => references.exposed
  | .internal => references.internal

theorem mem_all : name ∈ references.all ↔ references.contains name = true := by
  simp [all, contains, Std.ExtTreeSet.mem_toList]

theorem contains_iff :
    references.contains name = true ↔ name ∈ references.exposed ∨ name ∈ references.internal := by
  simp [contains]

theorem contains_iff_side :
    references.contains name = true ↔ ∃ side, name ∈ references.side side := by
  rw [contains_iff]
  constructor
  · rintro (hexposed | hinternal)
    · exact ⟨.exposed, hexposed⟩
    · exact ⟨.internal, hinternal⟩
  · rintro ⟨side, hside⟩
    cases side with
    | exposed => exact Or.inl hside
    | internal => exact Or.inr hside

theorem not_mem_side_empty (side : Side) : name ∉ References.empty.side side := by
  cases side <;> exact Std.ExtTreeSet.not_mem_empty

end References

namespace Usage

variable {users : Std.ExtTreeMap ClassName References} {side kind : Side}

def addTo : Side → ClassName → Std.ExtTreeMap ClassName References → ClassName →
    Std.ExtTreeMap ClassName References
  | .exposed => addExposed
  | .internal => addInternal

/-- Whether a class counts as a user of another by references of one kind. -/
def Names (users : Std.ExtTreeMap ClassName References) (side : Side)
    (target name : ClassName) : Prop :=
  name ∈ (users[target]?.getD .empty).side side

theorem not_names_empty : ¬Names ∅ side target name := by
  simp [Names, References.not_mem_side_empty]

theorem names_addTo :
    Names (addTo kind source users other) side target name ↔
      Names users side target name ∨ kind = side ∧ name = source ∧ other = target := by
  unfold Names
  cases kind
  all_goals
    simp only [addTo, addExposed, addInternal, Std.ExtTreeMap.getElem?_insert,
      Std.LawfulEqCmp.compare_eq_iff_eq]
    by_cases hother : other = target
    · subst hother
      cases side <;>
        simp [References.side, Std.ExtTreeSet.mem_insert, or_comm, eq_comm (a := source)]
    · simp [hother]

theorem names_foldl_addTo (others : List ClassName) :
    Names (others.foldl (addTo kind source) users) side target name ↔
      Names users side target name ∨ kind = side ∧ name = source ∧ target ∈ others := by
  induction others generalizing users with
  | nil => simp
  | cons other rest ih =>
      rw [List.foldl_cons, ih, names_addTo, or_assoc, ← and_or_left, ← and_or_left,
        List.mem_cons, @eq_comm _ target]

theorem names_addClass (usage : Usage) (surface : ClassSurface) :
    Names (usage.addClass source surface).users side target name ↔
      Names usage.users side target name ∨
        name = source ∧ target ∈ surface.references.side side := by
  have husers : (usage.addClass source surface).users =
      surface.references.internal.toList.foldl (addTo .internal source)
        (surface.references.exposed.toList.foldl (addTo .exposed source) usage.users) := rfl
  rw [husers, names_foldl_addTo, names_foldl_addTo, Std.ExtTreeSet.mem_toList,
    Std.ExtTreeSet.mem_toList]
  cases side <;> simp [References.side]

theorem names_foldl_addClass (usage : Usage) (classes : List (ClassName × ClassSurface)) :
    Names (classes.foldl (fun usage (name, surface) => usage.addClass name surface) usage).users
        side target name ↔
      Names usage.users side target name ∨
        ∃ surface, (name, surface) ∈ classes ∧ target ∈ surface.references.side side := by
  induction classes generalizing usage with
  | nil => simp
  | cons entry rest ih =>
      rw [List.foldl_cons, ih, names_addClass, or_assoc]
      refine or_congr_right ?_
      constructor
      · rintro (⟨rfl, hrefers⟩ | ⟨surface, hmem, hrefers⟩)
        · exact ⟨entry.2, List.mem_cons_self, hrefers⟩
        · exact ⟨surface, List.mem_cons_of_mem _ hmem, hrefers⟩
      · rintro ⟨surface, hmem, hrefers⟩
        rcases List.mem_cons.mp hmem with rfl | hrest
        · exact Or.inl ⟨rfl, hrefers⟩
        · exact Or.inr ⟨surface, hrest, hrefers⟩

theorem mem_side_usersOf_ofSnapshot {snapshot : Snapshot} (side : Side) :
    name ∈ ((ofSnapshot snapshot).usersOf target).side side ↔
      ∃ surface, snapshot.get? name = some surface ∧ target ∈ surface.references.side side := by
  have hnone : ¬Names empty.users side target name := not_names_empty
  refine (names_foldl_addClass empty snapshot.classes.toList).trans ?_
  rw [or_iff_right hnone]
  simp only [Std.ExtTreeMap.mem_toList_iff_getElem?_eq_some]
  rfl

theorem mem_usersOf_ofSnapshot {snapshot : Snapshot} :
    name ∈ ((ofSnapshot snapshot).usersOf target).all ↔
      ∃ surface, snapshot.get? name = some surface ∧
        surface.references.contains target = true := by
  rw [References.mem_all, References.contains_iff_side]
  simp only [mem_side_usersOf_ofSnapshot, References.contains_iff_side]
  constructor
  · rintro ⟨side, surface, hfound, hrefers⟩
    exact ⟨surface, hfound, side, hrefers⟩
  · rintro ⟨surface, hfound, side, hrefers⟩
    exact ⟨side, surface, hfound, hrefers⟩

/-!
# Uses
-/

theorem uses_foldl_addClass (usage : Usage) (classes : List (ClassName × ClassSurface)) :
    (classes.foldl (fun usage (name, surface) => usage.addClass name surface) usage).uses =
      (classes.map fun entry => (entry.1, entry.2.references)).foldl
        (fun uses entry => uses.insert entry.1 entry.2) usage.uses := by
  induction classes generalizing usage with
  | nil => rfl
  | cons entry rest ih => exact ih _

theorem usesOf_ofSnapshot (snapshot : Snapshot) (name : ClassName) :
    (ofSnapshot snapshot).usesOf name =
      ((snapshot.get? name).map ClassSurface.references).getD .empty := by
  have hdistinct : ((snapshot.classes.toList.map fun entry =>
      (entry.1, entry.2.references)).map Prod.fst).Nodup := by
    rw [List.map_map]
    show (snapshot.classes.toList.map Prod.fst).Nodup
    rw [Std.ExtTreeMap.map_fst_toList_eq_keys]
    exact Std.ExtTreeMap.nodup_keys
  have huses : (ofSnapshot snapshot).uses[name]? =
      (snapshot.get? name).map ClassSurface.references := by
    apply Option.ext
    intro references
    rw [ofSnapshot, uses_foldl_addClass]
    refine (getElem?_foldl_rekey Function.injective_id hdistinct _ name references).trans ?_
    rw [Option.map_eq_some_iff, List.mem_map]
    constructor
    · rintro (⟨⟨_, surface⟩, hmem, ⟨⟩⟩ | ⟨_, hnone⟩)
      · exact ⟨surface, Std.ExtTreeMap.mem_toList_iff_getElem?_eq_some.mp hmem, rfl⟩
      · simp [empty] at hnone
    · rintro ⟨surface, hfound, rfl⟩
      exact Or.inl
        ⟨(name, surface), Std.ExtTreeMap.mem_toList_iff_getElem?_eq_some.mpr hfound, rfl⟩
  rw [usesOf, huses]

end Usage
end Recompile
