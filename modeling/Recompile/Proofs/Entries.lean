import Mathlib.Logic.Function.Basic
import Std.Data.ExtTreeMap

/-!
# Entries put one by one

A map that is made by putting entries one after the other has each of them, as
long as no two have the same key. So a map that is taken apart and put together
again is found as it was, also where its keys are written in another form.
-/

namespace Recompile

variable {α β γ : Type} [Ord γ] [Std.TransOrd γ] [Std.LawfulEqOrd γ] {key : α → γ}

theorem getElem?_foldl_rekey (hkey : Function.Injective key) {entries : List (α × β)}
    (hdistinct : (entries.map Prod.fst).Nodup) (kept : Std.ExtTreeMap γ β) (name : α) (value : β) :
    (entries.foldl (fun kept entry => kept.insert (key entry.1) entry.2) kept)[key name]? =
        some value ↔
      (name, value) ∈ entries ∨
        name ∉ entries.map Prod.fst ∧ kept[key name]? = some value := by
  induction entries generalizing kept with
  | nil => simp
  | cons entry rest ih =>
      rcases entry with ⟨first, held⟩
      rw [List.map_cons, List.nodup_cons] at hdistinct
      rw [List.foldl_cons, ih hdistinct.2, Std.ExtTreeMap.getElem?_insert]
      by_cases hfirst : first = name
      · subst hfirst
        have hrest : (first, value) ∉ rest := fun h =>
          hdistinct.1 (List.mem_map.mpr ⟨_, h, rfl⟩)
        simp [hrest, hdistinct.1, eq_comm]
      · simp [hkey.ne hfirst, Ne.symm hfirst]

variable [Ord α] [Std.TransOrd α] [Std.LawfulEqOrd α]

theorem getElem?_foldl_toList_rekey (hkey : Function.Injective key) (table : Std.ExtTreeMap α β)
    (name : α) :
    (table.toList.foldl (fun kept entry => kept.insert (key entry.1) entry.2)
      (∅ : Std.ExtTreeMap γ β))[key name]? = table[name]? := by
  have hdistinct : (table.toList.map Prod.fst).Nodup := by
    rw [Std.ExtTreeMap.map_fst_toList_eq_keys]
    exact Std.ExtTreeMap.nodup_keys
  apply Option.ext
  intro value
  rw [getElem?_foldl_rekey hkey hdistinct, Std.ExtTreeMap.mem_toList_iff_getElem?_eq_some]
  simp

end Recompile
