import Recompile.ClassFile.Layout
import Recompile.Proofs.ClassFile.Reading

/-!
# Where a reader fails

As what a reader gives is told by the forms of its values, so is a fault by the
bytes it is reported for. A sequence reports what its first reader does, and
what its rest does behind a form of what comes first. Most readers report
nothing but that bytes are missing.
-/

namespace Recompile
namespace ClassFile
namespace Decoder

variable {α β : Type}

/-- Whether a reader reports a fault exactly where what comes next is of that kind. -/
def Faults (read : Decoder α) (fault : Fault) (kind : Bytes → Prop) : Prop :=
  ∀ cursor, read cursor = .error fault ↔ kind cursor.rest

def Avoids (read : Decoder α) (fault : Fault) : Prop :=
  ∀ cursor, read cursor ≠ .error fault

variable {read : Decoder α} {form : Bytes → α → Prop} {next : α → Decoder β} {fault : Fault}
  {kind kind' : Bytes → Prop}

theorem bind_eq_error {cursor : Cursor} :
    (read >>= next) cursor = .error fault ↔
      read cursor = .error fault ∨
        ∃ value left, read cursor = .ok (value, left) ∧ next value left = .error fault := by
  rw [bind_eq]
  cases read cursor with
  | error other =>
      constructor
      · intro h
        cases h
        exact Or.inl rfl
      · rintro (h | ⟨_, _, h, _⟩)
        · cases h
          rfl
        · cases h
  | ok found =>
      constructor
      · intro h
        exact Or.inr ⟨found.1, found.2, rfl, h⟩
      · rintro (h | ⟨_, _, h, hnext⟩)
        · cases h
        · cases h
          exact hnext

theorem Faults.congr (h : Faults read fault kind) (hkind : ∀ bytes, kind bytes ↔ kind' bytes) :
    Faults read fault kind' :=
  fun cursor => (h cursor).trans (hkind cursor.rest)

theorem Avoids.faults (h : Avoids read fault) : Faults read fault fun _ => False :=
  fun cursor => iff_of_false (h cursor) id

theorem Faults.bind (hread : Reads read form) (h : Faults read fault kind)
    (behind : α → Bytes → Prop) (hnext : ∀ value, Faults (next value) fault (behind value)) :
    Faults (read >>= next) fault fun bytes =>
      kind bytes ∨ ∃ value written rest, form written value ∧ bytes = written ++ rest ∧
        behind value rest := by
  intro cursor
  rw [bind_eq_error, h cursor]
  apply or_congr_right
  constructor
  · rintro ⟨value, left, hvalue, hfault⟩
    rcases hread.iff_behind.mp hvalue with ⟨written, rest, hform, hrest, rfl⟩
    exact ⟨value, written, rest, hform, hrest, (hnext value _).mp hfault⟩
  · rintro ⟨value, written, rest, hform, hrest, hfault⟩
    exact ⟨value, _, hread.iff_behind.mpr ⟨written, rest, hform, hrest, rfl⟩,
      (hnext value _).mpr hfault⟩

theorem Avoids.bind_faults (hread : Reads read form) (h : Avoids read fault)
    (behind : α → Bytes → Prop) (hnext : ∀ value, Faults (next value) fault (behind value)) :
    Faults (read >>= next) fault fun bytes =>
      ∃ value written rest, form written value ∧ bytes = written ++ rest ∧ behind value rest :=
  (h.faults.bind hread behind hnext).congr fun _ => iff_of_eq (false_or _)

theorem Faults.bind_avoids (h : Faults read fault kind)
    (hnext : ∀ value, Avoids (next value) fault) :
    Faults (read >>= next) fault kind := by
  intro cursor
  rw [bind_eq_error, h cursor]
  apply or_iff_left
  rintro ⟨value, left, _, hfault⟩
  exact hnext value left hfault

theorem Avoids.bind (h : Avoids read fault) (hnext : ∀ value, Avoids (next value) fault) :
    Avoids (read >>= next) fault := by
  intro cursor hfault
  rcases bind_eq_error.mp hfault with hfirst | ⟨value, left, _, hrest⟩
  · exact h cursor hfirst
  · exact hnext value left hrest

theorem avoids_pure (value : α) : Avoids (pure value) fault :=
  fun _ => nofun

theorem Avoids.map (h : Avoids read fault) (change : α → β) :
    Avoids (do return change (← read)) fault :=
  h.bind fun value => avoids_pure (change value)

theorem avoids_throw {other : Fault} (h : other ≠ fault) :
    Avoids (throw other : Decoder α) fault := by
  intro cursor hfault
  cases hfault
  exact h rfl

theorem avoids_throw_bind {other : Fault} (h : other ≠ fault) :
    Avoids ((throw other : Decoder α) >>= next) fault := by
  intro cursor hfault
  rcases bind_eq_error.mp hfault with hfirst | ⟨value, left, hvalue, _⟩
  · exact avoids_throw h cursor hfirst
  · cases hvalue

theorem Faults.runOn_eq_error (h : Faults read fault kind) {bytes : Bytes} :
    read.runOn bytes = .error fault ↔ kind bytes := by
  refine Iff.trans ?_ (h ⟨0, bytes⟩)
  unfold runOn
  cases read ⟨0, bytes⟩ with
  | error other => simp [Except.map]
  | ok found => exact iff_of_false nofun nofun

/-!
# Faults other than missing bytes
-/

variable (hfault : ∀ offset wanted, Fault.unexpectedEnd offset wanted ≠ fault)

include hfault

theorem avoids_take (count : Nat) : Avoids (take count) fault := by
  intro cursor h
  unfold take at h
  cases hsplit : splitOnto [] count cursor.rest with
  | some found =>
      rw [hsplit] at h
      cases h
  | none =>
      rw [hsplit] at h
      cases h
      exact hfault _ _ rfl

theorem avoids_u1 : Avoids u1 fault :=
  (avoids_take hfault 1).map _

theorem avoids_u2 : Avoids u2 fault :=
  (avoids_take hfault 2).map _

theorem avoids_u4 : Avoids u4 fault :=
  (avoids_take hfault 4).map _

theorem avoids_u8 : Avoids u8 fault :=
  (avoids_u4 hfault).bind fun _ => (avoids_u4 hfault).map _

omit hfault in
theorem Avoids.repeatOnto (h : Avoids read fault) (items : List α) (count : Nat) :
    Avoids (Decoder.repeatOnto read items count) fault := by
  induction count generalizing items with
  | zero => exact avoids_pure _
  | succ count ih => exact h.bind fun item => ih (item :: items)

theorem Avoids.counted (h : Avoids read fault) : Avoids (Decoder.counted read) fault :=
  (avoids_u2 hfault).bind fun count => h.repeatOnto [] count.toNat

theorem avoids_readAttribute : Avoids readAttribute fault :=
  (avoids_u2 hfault).bind fun _ => (avoids_u4 hfault).bind fun length =>
    (avoids_take hfault length.toNat).map _

theorem avoids_readMember : Avoids readMember fault :=
  (avoids_u2 hfault).bind fun _ => (avoids_u2 hfault).bind fun _ => (avoids_u2 hfault).bind fun _ =>
    (Avoids.counted hfault (avoids_readAttribute hfault)).map _

end Decoder
end ClassFile
end Recompile
