import Mathlib.Data.List.Nodup
import Recompile.Proofs.Entries
import Recompile.Proofs.Text.Utf8
import Recompile.State.Table

/-!
# Tables and their rows

A table of texts is kept as rows of bytes. To replace it, all rows are taken out
and those of the new table are put one by one, and this is refused if and only
if some key is empty or too long. Rows that are read again make the table that
they were made from, and the rows of a register make what is kept of it.
-/

namespace Recompile
namespace State

/-!
# Changes
-/

abbrev Rows := Std.ExtTreeMap Bytes Bytes

/-- What becomes of a table, if there is one, by one step; a step that is refused has no result. -/
def Edit.after? : Option Rows → Edit → Option (Option Rows)
  | none, .create => some (some ∅)
  | some rows, .create => some (some rows)
  | some _, .clear => some (some ∅)
  | some rows, .put key value =>
    if isGoodKeySize key.length then some (some (rows.insert key value)) else none
  | none, .clear => none
  | none, .put _ _ => none

def afterEdits? (rows : Option Rows) (edits : List Edit) : Option (Option Rows) :=
  edits.foldlM Edit.after? rows

def Holds (rows : Rows) (table : Table) : Prop :=
  ∀ key value, rows[key]? = some value ↔ (key, value) ∈ rowsOfTable table

def HasGoodKeys (table : Table) : Prop :=
  ∀ key ∈ table, isGoodKeySize (Bytes.ofText key).length = true

theorem mem_rowsOfTable_iff {table : Table} {key value : Bytes} :
    (key, value) ∈ rowsOfTable table ↔
      ∃ name text, key = Bytes.ofText name ∧ value = Bytes.ofText text ∧
        table[name]? = some text := by
  unfold rowsOfTable
  rw [List.mem_map]
  constructor
  · rintro ⟨⟨name, text⟩, hentry, hrow⟩
    cases hrow
    exact ⟨name, text, rfl, rfl, Std.ExtTreeMap.mem_toList_iff_getElem?_eq_some.mp hentry⟩
  · rintro ⟨name, text, rfl, rfl, hentry⟩
    exact ⟨(name, text), Std.ExtTreeMap.mem_toList_iff_getElem?_eq_some.mpr hentry, rfl⟩

theorem hasGoodKeys_iff {table : Table} :
    HasGoodKeys table ↔ ∀ row ∈ rowsOfTable table, isGoodKeySize row.1.length = true := by
  constructor
  · rintro hgood ⟨key, value⟩ hrow
    rcases mem_rowsOfTable_iff.mp hrow with ⟨name, text, rfl, rfl, hentry⟩
    exact hgood name (Std.ExtTreeMap.mem_iff_isSome_getElem?.mpr (by rw [hentry]; rfl))
  · intro hgood name hname
    rw [Std.ExtTreeMap.mem_iff_isSome_getElem?] at hname
    rcases Option.isSome_iff_exists.mp hname with ⟨text, hentry⟩
    exact hgood _ (mem_rowsOfTable_iff.mpr ⟨name, text, rfl, rfl, hentry⟩)

theorem nodup_keys_rowsOfTable (table : Table) : ((rowsOfTable table).map Prod.fst).Nodup := by
  unfold rowsOfTable
  rw [List.map_map]
  have hkeys : (table.toList.map (Prod.fst ∘ fun entry : String × String =>
      (Bytes.ofText entry.1, Bytes.ofText entry.2))) = table.keys.map Bytes.ofText := by
    rw [← Std.ExtTreeMap.map_fst_toList_eq_keys, List.map_map]
    rfl
  rw [hkeys]
  exact Std.ExtTreeMap.nodup_keys.map fun _ _ => Utf8.ofText_injective

theorem afterEdits?_puts {pairs : List (Bytes × Bytes)} {rows : Rows}
    (hgood : ∀ pair ∈ pairs, isGoodKeySize pair.1.length = true) :
    afterEdits? (some rows) (pairs.map fun pair => Edit.put pair.1 pair.2) =
      some (some (pairs.foldl (fun rows pair => rows.insert pair.1 pair.2) rows)) := by
  induction pairs generalizing rows with
  | nil => rfl
  | cons pair pairs ih =>
      rcases List.forall_mem_cons.mp hgood with ⟨hpair, hpairs⟩
      rw [List.foldl_cons, ← ih hpairs]
      unfold afterEdits?
      rw [List.map_cons, List.foldlM_cons, Edit.after?, if_pos hpair]
      rfl

theorem afterEdits?_puts_eq_none {pairs : List (Bytes × Bytes)} {rows : Rows}
    (hbad : ∃ pair ∈ pairs, ¬isGoodKeySize pair.1.length = true) :
    afterEdits? (some rows) (pairs.map fun pair => Edit.put pair.1 pair.2) = none := by
  induction pairs generalizing rows with
  | nil => simp at hbad
  | cons pair pairs ih =>
      unfold afterEdits?
      rw [List.map_cons, List.foldlM_cons, Edit.after?]
      by_cases hpair : isGoodKeySize pair.1.length = true
      · rw [if_pos hpair]
        apply ih
        rcases hbad with ⟨bad, hmem, hsize⟩
        rcases List.mem_cons.mp hmem with rfl | hmem
        · exact absurd hpair hsize
        · exact ⟨bad, hmem, hsize⟩
      · rw [if_neg hpair]
        rfl

theorem afterEdits?_replacement (rows : Option Rows) (table : Table) :
    afterEdits? rows (replacement table) =
      afterEdits? (some ∅)
        ((rowsOfTable table).map fun pair => Edit.put pair.1 pair.2) := by
  cases rows <;> rfl

/-- Whatever a table held, a replacement leaves the rows of the new one and nothing else. -/
theorem exists_afterEdits?_replacement {table : Table} (hgood : HasGoodKeys table)
    (rows : Option Rows) :
    ∃ left, afterEdits? rows (replacement table) = some (some left) ∧ Holds left table := by
  rw [afterEdits?_replacement, afterEdits?_puts (hasGoodKeys_iff.mp hgood)]
  refine ⟨_, rfl, ?_⟩
  intro key value
  have hlook :=
    getElem?_foldl_rekey Function.injective_id (nodup_keys_rowsOfTable table) ∅ key value
  refine hlook.trans (or_iff_left ?_)
  simp

theorem afterEdits?_replacement_eq_none {table : Table} (hbad : ¬HasGoodKeys table)
    (rows : Option Rows) : afterEdits? rows (replacement table) = none := by
  rw [afterEdits?_replacement]
  apply afterEdits?_puts_eq_none
  simp only [hasGoodKeys_iff, not_forall] at hbad
  rcases hbad with ⟨row, hrow, hsize⟩
  exact ⟨row, hrow, hsize⟩

/-!
# Reading
-/

def Lists (scan : Scan) (rows : Rows) : Prop :=
  scan.fault = none ∧ ∀ key value, (key, value) ∈ scan.rows ↔ rows[key]? = some value

theorem readText_ofText (text : String) : readText (Bytes.ofText text) = .ok text := by
  rw [readText, Utf8.read_ofText]
  rfl

theorem exists_tableOnto {table : Table} {rows : List (Bytes × Bytes)}
    (hrows : ∀ row ∈ rows, row ∈ rowsOfTable table) (start : Table) :
    ∃ result, tableOnto start rows = .ok result ∧ ∀ name, result[name]? =
      if Bytes.ofText name ∈ rows.map Prod.fst then table[name]? else start[name]? := by
  induction rows generalizing start with
  | nil => exact ⟨start, rfl, fun _ => rfl⟩
  | cons row rest ih =>
      rcases List.forall_mem_cons.mp hrows with ⟨hrow, hrest⟩
      rcases mem_rowsOfTable_iff.mp hrow with ⟨first, text, hkey, hvalue, hentry⟩
      rcases ih hrest (start.insert first text) with ⟨result, hresult, hlook⟩
      refine ⟨result, ?_, ?_⟩
      · rw [← hresult, tableOnto, hkey, hvalue, readText_ofText, readText_ofText]
        rfl
      · intro name
        rw [hlook]
        simp only [Std.ExtTreeMap.getElem?_insert, Std.LawfulEqCmp.compare_eq_iff_eq,
          List.map_cons, List.mem_cons, hkey]
        by_cases hfirst : first = name
        · subst hfirst
          simp [hentry]
        · have hne : Bytes.ofText name ≠ Bytes.ofText first :=
            fun h => hfirst (Utf8.ofText_injective h).symm
          simp only [hfirst, hne, if_false, false_or]

theorem table_of_lists {scan : Scan} {rows : Rows} {table : Table} (hlists : Lists scan rows)
    (hholds : Holds rows table) : scan.table = .ok table := by
  have hmem : ∀ row, row ∈ scan.rows ↔ row ∈ rowsOfTable table :=
    fun (key, value) => (hlists.2 key value).trans (hholds key value)
  rcases exists_tableOnto (fun row hrow => (hmem row).mp hrow) ∅ with ⟨result, hresult, hlook⟩
  have hsame : result = table := by
    apply Std.ExtTreeMap.ext_getElem?
    intro name
    rw [hlook]
    cases hentry : table[name]? with
    | none => simp
    | some text =>
        have hrow := (hmem _).mpr (mem_rowsOfTable_iff.mpr ⟨name, text, rfl, rfl, hentry⟩)
        rw [if_pos (List.mem_map.mpr ⟨_, hrow, rfl⟩)]
  rw [Scan.table, hresult, hlists.1, hsame]
  rfl

/-!
# Registers
-/

namespace TableStore

theorem getElem?_ownershipRows (register : Ownership) (name : ClassName) :
    (ownershipRows register)[name.text]? = register.byClass[name]? := by
  have hkey : Function.Injective ClassName.text := by
    rintro ⟨text⟩ ⟨other⟩ h
    exact congrArg ClassName.mk h
  exact getElem?_foldl_toList_rekey hkey register.byClass name

theorem ofOwnershipRows_ownershipRows (register : Ownership) :
    ofOwnershipRows (ownershipRows register) = Ownership.ofClasses register.byClass := by
  unfold ofOwnershipRows
  congr 1
  apply Std.ExtTreeMap.ext_getElem?
  rintro ⟨text⟩
  have hkey : Function.Injective ClassName.mk := by
    intro text other h
    exact congrArg ClassName.text h
  have hlook := getElem?_foldl_toList_rekey hkey (ownershipRows register) text
  exact hlook.trans (getElem?_ownershipRows register ⟨text⟩)

theorem hasGoodKeys_ownershipRows_iff (register : Ownership) :
    HasGoodKeys (ownershipRows register) ↔
      ∀ name ∈ register.byClass, isGoodKeySize (Bytes.ofText name.text).length = true := by
  have hmem : ∀ name : ClassName, name.text ∈ ownershipRows register ↔ name ∈ register.byClass := by
    intro name
    rw [Std.ExtTreeMap.mem_iff_isSome_getElem?, Std.ExtTreeMap.mem_iff_isSome_getElem?,
      getElem?_ownershipRows]
  constructor
  · intro hgood name hname
    exact hgood name.text ((hmem name).mpr hname)
  · intro hgood key hkey
    exact hgood ⟨key⟩ ((hmem ⟨key⟩).mp hkey)

end TableStore
end State
end Recompile
