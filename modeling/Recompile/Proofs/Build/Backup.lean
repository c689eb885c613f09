import Recompile.Proofs.ClassFiles

/-!
# Restoring a backup

A backup has at most one entry at a key: what was there, or that nothing was.
Restoring puts every key with an entry back to it and leaves the others alone,
so what a file would be restored to can be told at any time.
-/

namespace Recompile
namespace Backup

variable {destination path : Path} {names : ClassName → Prop} {backup : Backup} {key : FileKey}
  {previous : Option Bytes}

def noted? (backup : Backup) (key : FileKey) : Option (Option Bytes) :=
  backup.saved[key]?.map Prod.snd

theorem noted?_empty (key : FileKey) : empty.noted? key = none := by
  simp [noted?, empty]

theorem isSaved_eq_isSome_noted? (backup : Backup) (path : Path) :
    backup.isSaved path = (backup.noted? path.components).isSome := by
  simp [isSaved, noted?]

theorem noted?_note (backup : Backup) (path : Path) (previous : Option Bytes) (key : FileKey) :
    (backup.note path previous).noted? key =
      if path.components = key ∧ backup.noted? key = none then some previous
      else backup.noted? key := by
  simp only [noted?, note, Std.ExtTreeMap.getElem?_insertIfNew, Std.LawfulEqCmp.compare_eq_iff_eq,
    Std.ExtTreeMap.mem_iff_isSome_getElem?, Option.map_eq_none_iff]
  by_cases hkey : path.components = key
  · subst hkey
    cases backup.saved[path.components]? with
    | none => simp
    | some entry => simp
  · simp [hkey]

/-- Whether each entry is at the key of the class file that it was made for. -/
def WellKept (destination : Path) (names : ClassName → Prop) (backup : Backup) : Prop :=
  ∀ key path previous, backup.saved[key]? = some (path, previous) →
    ∃ name, names name ∧ path = classFileIn destination name ∧ key = fileKey destination name

theorem wellKept_empty (destination : Path) (names : ClassName → Prop) :
    empty.WellKept destination names := by
  intro key path previous h
  simp [empty] at h

theorem WellKept.note (h : backup.WellKept destination names) {name : ClassName}
    (hname : names name) (previous : Option Bytes) :
    (backup.note (classFileIn destination name) previous).WellKept destination names := by
  intro key path found hfound
  simp only [Backup.note, Std.ExtTreeMap.getElem?_insertIfNew,
    Std.LawfulEqCmp.compare_eq_iff_eq] at hfound
  split at hfound
  case isTrue hnew =>
    simp only [Option.some.injEq, Prod.mk.injEq] at hfound
    exact ⟨name, hname, hfound.1.symm, hnew.1.symm⟩
  case isFalse => exact h key path found hfound

theorem noted?_noteAbsent (destination : Path) (before : Snapshot) (backup : Backup)
    (classes : List ClassName) (key : FileKey) :
    (noteAbsent destination before backup classes).noted? key =
      if backup.noted? key = none ∧
          ∃ name ∈ classes, before.contains name = false ∧ fileKey destination name = key then
        some none
      else backup.noted? key := by
  unfold noteAbsent
  induction classes generalizing backup with
  | nil => simp
  | cons name rest ih =>
      by_cases hknown : before.contains name = true
      · rw [List.filter_cons_of_neg (by simp [hknown]), ih backup]
        simp [hknown]
      · rw [List.filter_cons_of_pos (by simpa using hknown), List.foldl_cons, ih, noted?_note]
        simp only [Bool.not_eq_true] at hknown
        by_cases hkey : (classFileIn destination name).components = key
        · cases hentry : backup.noted? key with
          | none => simp [hknown, fileKey, hkey]
          | some found => simp
        · simp [fileKey, hkey]

theorem WellKept.noteAbsent (h : backup.WellKept destination names) (before : Snapshot)
    {classes : List ClassName} (hclasses : ∀ name ∈ classes, names name) :
    (Backup.noteAbsent destination before backup classes).WellKept destination names := by
  have hnew : ∀ name ∈ classes.filter fun name => !before.contains name, names name :=
    fun name hname => hclasses name (List.mem_filter.mp hname).1
  unfold Backup.noteAbsent
  revert hnew
  induction classes.filter (fun name => !before.contains name) generalizing backup with
  | nil => exact fun _ => h
  | cons name rest ih =>
      intro hnew
      exact ih (h.note (hnew name List.mem_cons_self) none)
        fun other hother => hnew other (List.mem_cons_of_mem _ hother)

end Backup

/-!
# What restoring does

The entries are taken one after the other, each at its own key.
-/

namespace ClassFiles

variable {σ : Type} {host : Host (StateM σ)} {destination : Path}
  (files : ClassFiles host destination) {world world' : σ} {name : ClassName}

/-- What a file would be if the backup were restored now. -/
def restored (backup : Backup) (world : σ) (key : FileKey) : Option Bytes :=
  (backup.noted? key).getD (files.held world key)

theorem held_removeIfThere (hname : name.LeadsBelow)
    (h : runIn (Backup.removeIfThere host (classFileIn destination name)) world =
      (.ok (), world')) :
    files.held world' = Function.update (files.held world) (fileKey destination name) none := by
  unfold Backup.removeIfThere at h
  rw [runIn_bind, runIn_lift] at h
  rcases hremoved : ((host.removeFile (classFileIn destination name)).run world).1 with fault | _
  · rw [hremoved] at h
    cases fault <;> cases h
    rw [files.removeFile_error hname hremoved, ← files.removeFile_notFound hname hremoved,
      Function.update_eq_self]
  · rw [hremoved] at h
    cases h
    exact files.removeFile_ok hname hremoved

theorem held_removeIfThere_error {error : Failure} (hname : name.LeadsBelow)
    (h : runIn (Backup.removeIfThere host (classFileIn destination name)) world =
      (.error error, world')) :
    files.held world' = files.held world := by
  unfold Backup.removeIfThere at h
  rw [runIn_bind, runIn_lift] at h
  rcases hremoved : ((host.removeFile (classFileIn destination name)).run world).1 with fault | _
  · rw [hremoved] at h
    cases fault <;> cases h <;> exact files.removeFile_error hname hremoved
  · rw [hremoved] at h
    cases h

theorem held_writeFile {bytes : Bytes} (hname : name.LeadsBelow)
    (h : runIn (diskAt (classFileIn destination name)
        (host.writeFile (classFileIn destination name) bytes)) world = (.ok (), world')) :
    files.held world' =
      Function.update (files.held world) (fileKey destination name) (some bytes) := by
  unfold diskAt at h
  rw [runIn_bind, runIn_lift] at h
  rcases hwritten :
      ((host.writeFile (classFileIn destination name) bytes).run world).1 with fault | _
  · rw [hwritten] at h
    cases h
  · rw [hwritten] at h
    cases h
    exact files.writeFile_ok hname hwritten

theorem held_restoreFile {previous : Option Bytes} (hname : name.LeadsBelow)
    (h : runIn (Backup.restoreFile host (classFileIn destination name) previous) world =
      (.ok (), world')) :
    files.held world' =
      Function.update (files.held world) (fileKey destination name) previous := by
  cases previous with
  | none => exact files.held_removeIfThere hname h
  | some bytes =>
      rw [Backup.restoreFile] at h
      cases hparent : (classFileIn destination name).parent? with
      | none =>
          rw [hparent] at h
          exact files.held_writeFile hname h
      | some parent =>
          rw [hparent] at h
          rcases ok_of_runIn_bind h with ⟨_, between, hmade, hwritten⟩
          have hkept := files.spares_diskAt parent (files.makeDirectories_keeps parent)
            world
          rw [hmade] at hkept
          rw [files.held_writeFile hname hwritten, hkept]

theorem held_restoreEntries {entries : List (FileKey × Path × Option Bytes)}
    (hkept : ∀ entry ∈ entries, ∃ name : ClassName, name.LeadsBelow ∧
      entry.2.1 = classFileIn destination name ∧ entry.1 = fileKey destination name)
    (hdistinct : entries.Pairwise fun a b => a.1 ≠ b.1)
    (h : runIn (entries.forM fun (_, path, previous) => Backup.restoreFile host path previous)
      world = (.ok (), world')) (key : FileKey) :
    (∀ entry ∈ entries, entry.1 = key → files.held world' key = entry.2.2) ∧
      ((∀ entry ∈ entries, entry.1 ≠ key) → files.held world' key = files.held world key) := by
  induction entries generalizing world with
  | nil =>
      cases h
      exact ⟨fun _ hmem => absurd hmem List.not_mem_nil, fun _ => rfl⟩
  | cons first rest ih =>
      rcases ok_of_runIn_bind h with ⟨_, between, hfirst, hrest⟩
      obtain ⟨hahead, hdistinct⟩ := List.pairwise_cons.mp hdistinct
      obtain ⟨name, hname, hpath, hkey⟩ := hkept first List.mem_cons_self
      have hbetween : files.held between =
          Function.update (files.held world) first.1 first.2.2 := by
        rw [hkey]
        refine files.held_restoreFile hname ?_
        rw [← hpath]
        exact hfirst
      obtain ⟨hput, hleft⟩ :=
        ih (fun entry hmem => hkept entry (List.mem_cons_of_mem _ hmem)) hdistinct hrest
      constructor
      · intro entry hmem hentry
        rcases List.mem_cons.mp hmem with rfl | hmem
        · rw [hleft fun other hother => by
            rw [← hentry]
            exact (hahead other hother).symm, hbetween, ← hentry, Function.update_self]
        · exact hput entry hmem hentry
      · intro hnone
        rw [hleft fun other hother => hnone other (List.mem_cons_of_mem _ hother), hbetween,
          Function.update_of_ne (hnone first List.mem_cons_self).symm]

theorem held_restore {backup : Backup} (hkept : backup.WellKept destination ClassName.LeadsBelow)
    (h : runIn (backup.restore host) world = (.ok (), world')) :
    files.held world' = files.restored backup world := by
  have hentries : ∀ entry ∈ backup.saved.toList, ∃ name : ClassName, name.LeadsBelow ∧
      entry.2.1 = classFileIn destination name ∧ entry.1 = fileKey destination name := by
    intro entry hmem
    exact hkept entry.1 entry.2.1 entry.2.2
      (Std.ExtTreeMap.mem_toList_iff_getElem?_eq_some.mp hmem)
  have hdistinct : backup.saved.toList.Pairwise fun a b => a.1 ≠ b.1 := by
    refine Std.ExtTreeMap.distinct_keys_toList.imp ?_
    intro a b hab heq
    exact hab (by rw [heq]; exact Std.ReflCmp.compare_self)
  funext key
  obtain ⟨hput, hleft⟩ := files.held_restoreEntries hentries hdistinct h key
  unfold restored Backup.noted?
  cases hentry : backup.saved[key]? with
  | none =>
      refine hleft ?_
      intro entry hmem heq
      have hsome := Std.ExtTreeMap.mem_toList_iff_getElem?_eq_some.mp hmem
      rw [heq, hentry] at hsome
      cases hsome
  | some found =>
      exact hput (key, found) (Std.ExtTreeMap.mem_toList_iff_getElem?_eq_some.mpr hentry) rfl

end ClassFiles
end Recompile
