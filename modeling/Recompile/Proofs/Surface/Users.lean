import Recompile.Proofs.Surface.Lookup
import Recompile.Proofs.Surface.References
import Recompile.Proofs.Surface.Usage

/-!
# Who refers to a class

The classes that refer to a class are found on the side of their reference, and
no others are. A class that has been read from a class file has no reference on
both sides, so it is found once where it is found.
-/

namespace Recompile

/-- Whether every class of the snapshot has been read from a class file. -/
def Snapshot.IsRead (snapshot : Snapshot) : Prop :=
  ∀ name surface, snapshot.get? name = some surface →
    ∃ bytes, ClassFile.surfaceOf bytes = .ok surface

namespace References

variable {references other : References} {name : ClassName}

theorem ext_side (h : ∀ side name, name ∈ references.side side ↔ name ∈ other.side side) :
    references = other := by
  have hexposed : references.exposed = other.exposed :=
    Std.ExtTreeSet.ext_mem fun name => h .exposed name
  have hinternal : references.internal = other.internal :=
    Std.ExtTreeSet.ext_mem fun name => h .internal name
  cases references
  cases other
  rw [mk.injEq]
  exact ⟨hexposed, hinternal⟩

theorem nodup_toList (names : ClassSet) : names.toList.Nodup :=
  Std.ExtTreeSet.distinct_toList.imp fun hdistinct hsame =>
    hdistinct (Std.LawfulEqCmp.compare_eq_iff_eq.mpr hsame)

theorem nodup_all (h : ∀ name ∈ references.exposed, name ∉ references.internal) :
    references.all.Nodup := by
  refine List.nodup_append.mpr ⟨nodup_toList _, nodup_toList _, ?_⟩
  rintro name hexposed _ hinternal rfl
  rw [Std.ExtTreeSet.mem_toList] at hexposed hinternal
  exact h name hexposed hinternal

end References

namespace ClassFile

theorem not_mem_internal_of_surfaceOf {bytes : Bytes} {surface : ClassSurface} {name : ClassName}
    (h : surfaceOf bytes = .ok surface) (hexposed : name ∈ surface.references.exposed) :
    name ∉ surface.references.internal := by
  rcases answers_of_surfaceOf h with ⟨_, answers, _, _, hreferences⟩
  rw [hreferences] at hexposed ⊢
  rw [References.mem_internal_ofOccurrences]
  exact fun hboth => hboth.2 hexposed

end ClassFile

namespace Usage

variable {snapshot : Snapshot} {user used : ClassName}

theorem mem_side_usesOf_ofSnapshot {side : Side} :
    used ∈ ((ofSnapshot snapshot).usesOf user).side side ↔
      ∃ surface, snapshot.get? user = some surface ∧ used ∈ surface.references.side side := by
  rw [usesOf_ofSnapshot]
  cases snapshot.get? user with
  | none => simp [References.not_mem_side_empty]
  | some surface => simp

theorem mem_side_usersOf_iff (side : Side) :
    user ∈ ((ofSnapshot snapshot).usersOf used).side side ↔
      used ∈ ((ofSnapshot snapshot).usesOf user).side side :=
  (mem_side_usersOf_ofSnapshot side).trans mem_side_usesOf_ofSnapshot.symm

theorem contains_usesOf_iff :
    ((ofSnapshot snapshot).usesOf user).contains used = true ↔
      ∃ surface, snapshot.get? user = some surface ∧
        surface.references.contains used = true := by
  rw [usesOf_ofSnapshot]
  cases snapshot.get? user with
  | none => simp [References.contains_iff_side, References.not_mem_side_empty]
  | some surface => simp

theorem not_mem_internal_usersOf (h : snapshot.IsRead)
    (hexposed : user ∈ ((ofSnapshot snapshot).usersOf used).exposed) :
    user ∉ ((ofSnapshot snapshot).usersOf used).internal := by
  intro hinternal
  rcases (mem_side_usersOf_ofSnapshot .exposed).mp hexposed with
    ⟨surface, hsurface, hexposed⟩
  rcases (mem_side_usersOf_ofSnapshot .internal).mp hinternal with
    ⟨other, hother, hinternal⟩
  rw [hsurface] at hother
  cases hother
  rcases h user surface hsurface with ⟨bytes, hbytes⟩
  exact ClassFile.not_mem_internal_of_surfaceOf hbytes hexposed hinternal

/--
The users of a class, whether or not it is in the snapshot, are the classes of
the snapshot that refer to it, on the side of the reference. In a snapshot of
class files that were read each of them is there once.
-/
theorem users_invert_uses (snapshot : Snapshot) :
    (∀ user, (ofSnapshot snapshot).usesOf user =
      ((snapshot.get? user).map ClassSurface.references).getD .empty) ∧
    (∀ used user,
      (user ∈ ((ofSnapshot snapshot).usersOf used).exposed ↔
        used ∈ ((ofSnapshot snapshot).usesOf user).exposed) ∧
      (user ∈ ((ofSnapshot snapshot).usersOf used).internal ↔
        used ∈ ((ofSnapshot snapshot).usesOf user).internal)) ∧
    (∀ used, (∀ user surface, snapshot.get? user = some surface →
        surface.references.contains used = false) →
      (ofSnapshot snapshot).usersOf used = .empty) ∧
    (snapshot.IsRead → ∀ used,
      (∀ user ∈ ((ofSnapshot snapshot).usersOf used).exposed,
        user ∉ ((ofSnapshot snapshot).usersOf used).internal) ∧
      ((ofSnapshot snapshot).usersOf used).all.Nodup ∧
      ∀ user, user ∈ ((ofSnapshot snapshot).usersOf used).all ↔
        ((ofSnapshot snapshot).usesOf user).contains used = true) := by
  refine ⟨usesOf_ofSnapshot snapshot, ?_, ?_, ?_⟩
  · intro used user
    exact ⟨mem_side_usersOf_iff .exposed, mem_side_usersOf_iff .internal⟩
  · intro used hunused
    apply References.ext_side
    intro side user
    rw [mem_side_usersOf_ofSnapshot]
    refine iff_of_false ?_ (References.not_mem_side_empty side)
    rintro ⟨surface, hsurface, hrefers⟩
    have hcontains := References.contains_iff_side.mpr ⟨side, hrefers⟩
    rw [hunused user surface hsurface] at hcontains
    cases hcontains
  · intro hread used
    have hdisjoint : ∀ user ∈ ((ofSnapshot snapshot).usersOf used).exposed,
        user ∉ ((ofSnapshot snapshot).usersOf used).internal :=
      fun _ => not_mem_internal_usersOf hread
    refine ⟨hdisjoint, References.nodup_all hdisjoint, fun user => ?_⟩
    rw [mem_usersOf_ofSnapshot, contains_usesOf_iff]

theorem users_of_referringContent :
    ∃ surface, ClassFile.surfaceOf ClassFile.referringContent.bytes = .ok surface ∧
      (Snapshot.ofList [surface]).IsRead ∧
      ((ofSnapshot (Snapshot.ofList [surface])).usersOf ⟨"a.S"⟩).all.Nodup ∧
      ⟨"a.X"⟩ ∈ ((ofSnapshot (Snapshot.ofList [surface])).usersOf ⟨"a.S"⟩).all ∧
      (ofSnapshot (Snapshot.ofList [surface])).usersOf ⟨"a.X"⟩ = .empty := by
  have hread : (ClassFile.surfaceOf ClassFile.referringContent.bytes >>= fun surface =>
      pure (surface.name, surface.references.contains ⟨"a.S"⟩,
        surface.references.contains ⟨"a.X"⟩)) = .ok (⟨"a.X"⟩, true, false) := by
    decide +kernel
  rcases bind_eq_ok.mp hread with ⟨surface, hsurface, hfacts⟩
  rcases Prod.mk.inj (Except.ok.inj hfacts) with ⟨hname, hfacts⟩
  rcases Prod.mk.inj hfacts with ⟨hsuper, hown⟩
  have hfound : (Snapshot.ofList [surface]).get? ⟨"a.X"⟩ = some surface :=
    Snapshot.get?_ofList_eq_some_iff.mpr ⟨[], [], rfl, hname, nofun⟩
  have honly : ∀ name other, (Snapshot.ofList [surface]).get? name = some other →
      other = surface := by
    intro name other hother
    exact List.mem_singleton.mp (Snapshot.get?_ofList_eq_some_iff.mp hother).mem
  have hisRead : (Snapshot.ofList [surface]).IsRead := by
    intro name other hother
    rw [honly name other hother]
    exact ⟨_, hsurface⟩
  rcases users_invert_uses (Snapshot.ofList [surface]) with ⟨huses, _, hunused, honce⟩
  rcases honce hisRead ⟨"a.S"⟩ with ⟨_, hnodup, hmem⟩
  refine ⟨surface, hsurface, hisRead, hnodup, (hmem ⟨"a.X"⟩).mpr ?_, hunused ⟨"a.X"⟩ ?_⟩
  · rw [huses, hfound]
    exact hsuper
  · intro user other hother
    rw [honly user other hother]
    exact hown

end Usage
end Recompile
