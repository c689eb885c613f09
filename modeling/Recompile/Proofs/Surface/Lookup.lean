import Recompile.Surface.Snapshot

/-!
# Looking members and classes up

A class file may declare several members of one name, and the last one is the
one that is found. Compilers that keep names apart leave no choice. It is the
same with several classes of one name in a snapshot.
-/

namespace Recompile

section Last

variable {α : Type}

/-- Whether an item is the last one with a property in a list. -/
def IsLast (property : α → Prop) (items : List α) (item : α) : Prop :=
  ∃ front back, items = front ++ item :: back ∧ property item ∧
    ∀ other ∈ back, ¬property other

variable {property : α → Prop} {items : List α} {item : α}

theorem IsLast.mem (h : IsLast property items item) : item ∈ items := by
  rcases h with ⟨front, back, rfl, _⟩
  apply List.mem_append_right
  exact List.mem_cons_self

theorem IsLast.holds (h : IsLast property items item) : property item := by
  rcases h with ⟨_, _, _, hproperty, _⟩
  exact hproperty

theorem isLast_of_nodup {β : Type} {key : α → β} (h : (items.map key).Nodup)
    (hitem : item ∈ items) : IsLast (fun other => key other = key item) items item := by
  rcases List.append_of_mem hitem with ⟨front, back, rfl⟩
  refine ⟨front, back, rfl, rfl, ?_⟩
  intro other hother hsame
  rw [List.map_append, List.map_cons] at h
  have hlater := (List.nodup_cons.mp (List.nodup_append.mp h).2.1).1
  apply hlater
  rw [← hsame]
  exact List.mem_map_of_mem hother

variable [DecidablePred property]

theorem find?_reverse_eq_some_iff :
    items.reverse.find? (fun other => decide (property other)) = some item ↔
      IsLast property items item := by
  rw [List.find?_eq_some_iff_append]
  unfold IsLast
  constructor
  · rintro ⟨hitem, after, before, hreverse, hafter⟩
    refine ⟨before.reverse, after.reverse, ?_, of_decide_eq_true hitem, ?_⟩
    · rw [← List.reverse_reverse items, hreverse]
      simp
    · intro other hother
      simpa using hafter other (List.mem_reverse.mp hother)
  · rintro ⟨front, back, rfl, hitem, hback⟩
    refine ⟨decide_eq_true hitem, back.reverse, front.reverse, by simp, ?_⟩
    intro other hother
    simpa using hback other (List.mem_reverse.mp hother)

theorem find?_reverse_eq_none_iff :
    items.reverse.find? (fun other => decide (property other)) = none ↔
      ∀ other ∈ items, ¬property other := by
  simp [List.find?_eq_none]

end Last

namespace ClassSurface

variable {surface : ClassSurface} {name : String} {signature : Signature}

theorem field?_eq_some_iff {field : FieldDecl} :
    surface.field? name = some field ↔
      IsLast (fun other => other.name = name) surface.fields field :=
  find?_reverse_eq_some_iff

theorem field?_eq_none_iff :
    surface.field? name = none ↔ ∀ field ∈ surface.fields, field.name ≠ name :=
  find?_reverse_eq_none_iff

theorem method?_eq_some_iff {method : MethodDecl} :
    surface.method? signature = some method ↔
      IsLast (fun other => other.signature = signature) surface.methods method :=
  find?_reverse_eq_some_iff

theorem method?_eq_none_iff :
    surface.method? signature = none ↔
      ∀ method ∈ surface.methods, method.signature ≠ signature :=
  find?_reverse_eq_none_iff

theorem constant?_eq_some_iff {fingerprint : UInt64} :
    surface.constant? name = some fingerprint ↔
      ∃ constant, IsLast (fun other => other.name = name) surface.constants constant ∧
        constant.fingerprint = fingerprint := by
  unfold constant?
  rw [Option.map_eq_some_iff]
  exact exists_congr fun constant => and_congr_left fun _ => find?_reverse_eq_some_iff

end ClassSurface

namespace Snapshot

variable {classes : List ClassSurface} {name : ClassName} {surface : ClassSurface}

theorem getElem?_foldl_insert (known : Std.ExtTreeMap ClassName ClassSurface) :
    (classes.foldl (fun known surface => known.insert surface.name surface) known)[name]? =
      (classes.reverse.find? fun other => other.name = name).or known[name]? := by
  induction classes generalizing known with
  | nil => rfl
  | cons first rest ih =>
      rw [List.foldl_cons, ih, List.reverse_cons, List.find?_append, Option.or_assoc,
        Std.ExtTreeMap.getElem?_insert]
      by_cases hsame : first.name = name
      · simp [hsame]
      · simp [hsame, Std.LawfulEqCmp.compare_eq_iff_eq]

theorem get?_ofList_eq_some_iff :
    (ofList classes).get? name = some surface ↔
      IsLast (fun other => other.name = name) classes surface := by
  rw [get?, ofList, getElem?_foldl_insert, Std.ExtTreeMap.getElem?_empty, Option.or_none]
  exact find?_reverse_eq_some_iff

theorem get?_ofList_eq_none_iff :
    (ofList classes).get? name = none ↔ ∀ surface ∈ classes, surface.name ≠ name := by
  rw [get?, ofList, getElem?_foldl_insert, Std.ExtTreeMap.getElem?_empty, Option.or_none]
  exact find?_reverse_eq_none_iff

end Snapshot
end Recompile
