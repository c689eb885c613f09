import Recompile.Compilation.Attribution
import Recompile.Proofs.Text.Pieces

/-!
# The source that a class is put down to

Sources of one file name are told apart by their directories. A source of the
package of a class has a directory that ends in the components of the package.
What is looked at is whether it ends in the same letters, and so may that of a
source of another package.
-/

namespace Recompile
namespace Attribution

variable {sources : List String} {name : ClassName} {file source : String}
  {sourceFile : Option String}

def candidates (sources : List String) (file : String) : List String :=
  sources.filter fun source => fileName source = file

theorem mem_candidates : source ∈ candidates sources file ↔
    source ∈ sources ∧ fileName source = file := by
  rw [candidates, List.mem_filter, decide_eq_true_eq]

theorem candidates_perm {order : List String} (file : String) (h : order.Perm sources) :
    (candidates order file).Perm (candidates sources file) :=
  h.filter _

theorem mem_candidates_of_sourceOf? (h : sourceOf? sources name sourceFile = some source) :
    source ∈ candidates sources (sourceFile.getD (defaultFileName name)) := by
  unfold sourceOf? at h
  simp only at h
  unfold candidates
  split at h
  · exact List.mem_of_mem_head? h
  · split at h
    · next hdirectory =>
        cases h
        exact List.mem_of_find?_eq_some hdirectory
    · exact List.mem_of_find?_eq_some h

/-!
# Directories of packages
-/

/-- Whether the directory of a source is that of a package or ends in its components. -/
def LiesIn (name : ClassName) (source : String) : Prop :=
  Text.pieces '/' (packageDirectory name).toList <:+ Text.pieces '/' (directory source).toList

instance (name : ClassName) (source : String) : Decidable (LiesIn name source) :=
  inferInstanceAs (Decidable (Text.pieces '/' _ <:+ _))

def EndsAlike (name : ClassName) (source : String) : Prop :=
  (packageDirectory name).toList <:+ (directory source).toList

instance (name : ClassName) (source : String) : Decidable (EndsAlike name source) :=
  inferInstanceAs (Decidable (String.toList _ <:+ _))

theorem liesIn_iff : LiesIn name source ↔ directory source = packageDirectory name ∨
    ∃ root, directory source = root ++ "/" ++ packageDirectory name := by
  unfold LiesIn
  rw [Text.pieces_suffix_iff, String.toList_inj]
  apply or_congr_right
  constructor
  · rintro ⟨front, h⟩
    refine ⟨String.ofList front, ?_⟩
    rw [← String.toList_inj, h]
    simp
  · rintro ⟨root, h⟩
    refine ⟨root.toList, ?_⟩
    rw [h]
    simp

theorem LiesIn.endsAlike (h : LiesIn name source) : EndsAlike name source := by
  unfold EndsAlike
  rcases liesIn_iff.mp h with hsame | ⟨root, hbelow⟩
  · exact ⟨[], by rw [hsame, List.nil_append]⟩
  · rw [hbelow, String.toList_append]
    exact List.suffix_append _ _

theorem endsWith_iff {text ending : String} :
    endsWith text ending = true ↔ ending.toList <:+ text.toList := by
  unfold endsWith
  rw [Option.isSome_iff_exists]
  exact exists_congr fun rest => Text.before?_eq_some_iff.trans eq_comm

theorem packageDirectory_ne_empty (h : name.package ≠ "") : packageDirectory name ≠ "" := by
  unfold packageDirectory
  rwa [ne_eq, String.map_eq_empty]

/-!
# The choice between sources of one name
-/

theorem sourceOf?_of_two (hpackage : name.package ≠ "")
    (htwo : 2 ≤ (candidates sources file).length) :
    sourceOf? sources name (some file) =
      ((candidates sources file).find? fun source => directory source = packageDirectory name).or
        ((candidates sources file).find? fun source => EndsAlike name source) := by
  have hends : (fun source => packageDirectory name ≠ "" &&
      endsWith (directory source) (packageDirectory name)) =
        fun source => decide (EndsAlike name source) := by
    funext source
    rw [decide_eq_true (packageDirectory_ne_empty hpackage), Bool.true_and, Bool.eq_iff_iff,
      endsWith_iff, decide_eq_true_eq]
    rfl
  rw [← hends]
  unfold sourceOf?
  simp only [Option.getD_some]
  rw [← candidates, if_neg (by omega)]
  cases (candidates sources file).find? fun source => directory source = packageDirectory name <;>
    rfl

/--
Whether none of the sources is in the very directory of a package and one that only ends in
its letters comes before all that lie in the package.
-/
def Misled (sources : List String) (file : String) (name : ClassName) : Prop :=
  (∀ source ∈ candidates sources file, directory source ≠ packageDirectory name) ∧
  ∃ before alike after, candidates sources file = before ++ alike :: after ∧
    EndsAlike name alike ∧ ¬LiesIn name alike ∧ ∀ other ∈ before, ¬LiesIn name other

theorem eq_or_mem_of_append_eq {α : Type} {before after front back : List α} {a b : α}
    (h : before ++ a :: after = front ++ b :: back) : a = b ∨ a ∈ front ∨ b ∈ before := by
  rcases List.append_eq_append_iff.mp h with ⟨between, hfront, hrest⟩ | ⟨between, hbefore, hrest⟩
  · cases between with
    | nil => exact Or.inl (List.cons.inj hrest).1
    | cons first between =>
        rw [hfront, (List.cons.inj hrest).1]
        exact Or.inr (Or.inl (List.mem_append_right _ List.mem_cons_self))
  · cases between with
    | nil => exact Or.inl (List.cons.inj hrest).1.symm
    | cons first between =>
        rw [hbefore, (List.cons.inj hrest).1]
        exact Or.inr (Or.inr (List.mem_append_right _ List.mem_cons_self))

theorem liesIn_iff_not_misled_of_first {before after : List String}
    (hnone : ∀ source ∈ candidates sources file, directory source ≠ packageDirectory name)
    (hcut : candidates sources file = before ++ source :: after)
    (halike : EndsAlike name source) (hbefore : ∀ other ∈ before, ¬EndsAlike name other) :
    LiesIn name source ↔ ¬Misled sources file name := by
  constructor
  · rintro hlies ⟨-, front, alike, back, hcut', halike', hnot, hfront⟩
    rcases eq_or_mem_of_append_eq (hcut.symm.trans hcut') with rfl | hmem | hmem
    · exact hnot hlies
    · exact hfront source hmem hlies
    · exact hbefore alike hmem halike'
  · intro hclear
    apply Decidable.byContradiction
    intro hnot
    exact hclear ⟨hnone, before, source, after, hcut, halike, hnot, fun other hother hlies =>
      hbefore other hother hlies.endsAlike⟩

theorem exists_sourceOf?_eq (hpackage : name.package ≠ "")
    (htwo : 2 ≤ (candidates sources file).length)
    (hlies : ∃ source ∈ candidates sources file, LiesIn name source) :
    ∃ source, sourceOf? sources name (some file) = some source ∧ EndsAlike name source ∧
      (LiesIn name source ↔ ¬Misled sources file name) := by
  rw [sourceOf?_of_two hpackage htwo]
  cases hsame : (candidates sources file).find? fun source =>
      directory source = packageDirectory name with
  | some source =>
      have hdirectory : directory source = packageDirectory name := by
        simpa using List.find?_some hsame
      have hthere : LiesIn name source := liesIn_iff.mpr (Or.inl hdirectory)
      refine ⟨source, rfl, hthere.endsAlike, iff_of_true hthere ?_⟩
      rintro ⟨hnone, -⟩
      exact hnone source (List.mem_of_find?_eq_some hsame) hdirectory
  | none =>
      have hnone : ∀ source ∈ candidates sources file,
          directory source ≠ packageDirectory name := by
        simpa using hsame
      cases halike : (candidates sources file).find? fun source => EndsAlike name source with
      | none =>
          obtain ⟨source, hsource, hthere⟩ := hlies
          have hnever := List.find?_eq_none.mp halike source hsource
          rw [decide_eq_true_eq] at hnever
          exact absurd hthere.endsAlike hnever
      | some source =>
          obtain ⟨hends, before, after, hcut, hbefore⟩ := List.find?_eq_some_iff_append.mp halike
          rw [decide_eq_true_eq] at hends
          have hfirst : ∀ other ∈ before, ¬EndsAlike name other := by
            simpa using hbefore
          exact ⟨source, rfl, hends, liesIn_iff_not_misled_of_first hnone hcut hends hfirst⟩

theorem misled_of_moved (hnone : ∀ source ∈ candidates sources file,
      directory source ≠ packageDirectory name)
    (hsource : source ∈ candidates sources file) (halike : EndsAlike name source)
    (hnot : ¬LiesIn name source) : Misled (source :: sources.erase source) file name := by
  have hsame := candidates_perm file (List.perm_cons_erase (mem_candidates.mp hsource).1)
  refine ⟨fun other hother => hnone other (hsame.mem_iff.mpr hother), [], source, _,
    List.filter_cons_of_pos ?_, halike, hnot, List.forall_mem_nil _⟩
  exact decide_eq_true (mem_candidates.mp hsource).2

theorem not_misled_iff :
    (∀ order, order.Perm sources → ¬Misled order file name) ↔
      (∃ source ∈ candidates sources file, directory source = packageDirectory name) ∨
        ∀ source ∈ candidates sources file, EndsAlike name source → LiesIn name source := by
  constructor
  · intro hclear
    by_cases hexact : ∃ source ∈ candidates sources file, directory source = packageDirectory name
    · exact Or.inl hexact
    · refine Or.inr fun alike hmem halike => Decidable.byContradiction fun hnot => ?_
      have hperm := List.perm_cons_erase (mem_candidates.mp hmem).1
      refine hclear _ hperm.symm (misled_of_moved ?_ hmem halike hnot)
      exact fun source hsource hdirectory => hexact ⟨source, hsource, hdirectory⟩
  · rintro hclear order hperm ⟨hnone, before, alike, after, hcut, halike, hnot, -⟩
    have hsame := candidates_perm file hperm
    rcases hclear with ⟨source, hsource, hdirectory⟩ | hclear
    · exact hnone source (hsame.mem_iff.mpr hsource) hdirectory
    · have hmem : alike ∈ candidates order file := by
        rw [hcut]
        exact List.mem_append_right _ List.mem_cons_self
      exact hnot (hclear alike (hsame.mem_iff.mp hmem) halike)

/--
Between sources of one name of which some lie in the package of a class, the chosen one ends in
the letters of the package. It lies in the package unless the sources mislead, and it does so in
every order if one is in the very directory of the package or all that end alike lie in it.
-/
theorem chosen_source_liesIn_iff_not_misled (hpackage : name.package ≠ "")
    (htwo : 2 ≤ (candidates sources file).length)
    (hlies : ∃ source ∈ candidates sources file, LiesIn name source) :
    (∃ source ∈ candidates sources file, sourceOf? sources name (some file) = some source ∧
      EndsAlike name source ∧ (LiesIn name source ↔ ¬Misled sources file name)) ∧
    ((∀ order, order.Perm sources → ∃ source, sourceOf? order name (some file) = some source ∧
        LiesIn name source) ↔
      (∃ source ∈ candidates sources file, directory source = packageDirectory name) ∨
        ∀ source ∈ candidates sources file, EndsAlike name source → LiesIn name source) := by
  have hchoice : ∀ order, order.Perm sources → ∃ source,
      sourceOf? order name (some file) = some source ∧ EndsAlike name source ∧
        (LiesIn name source ↔ ¬Misled order file name) := by
    intro order hperm
    have hsame := candidates_perm file hperm
    obtain ⟨source, hsource, hthere⟩ := hlies
    exact exists_sourceOf?_eq hpackage (hsame.length_eq ▸ htwo)
      ⟨source, hsame.mem_iff.mpr hsource, hthere⟩
  refine ⟨?_, Iff.trans ?_ not_misled_iff⟩
  · obtain ⟨source, howner, hrest⟩ := hchoice sources (List.Perm.refl _)
    exact ⟨source, mem_candidates_of_sourceOf? howner, howner, hrest⟩
  · refine forall_congr' fun order => forall_congr' fun hperm => ?_
    obtain ⟨source, howner, -, hclear⟩ := hchoice order hperm
    rw [howner, ← hclear]
    simp

def twoPackages : List String := ["ab/Util.java", "x/b/Util.java"]

theorem chosen_source_of_reversed_packages :
    sourceOf? twoPackages.reverse ⟨"b.Util"⟩ (some "Util.java") = some "x/b/Util.java" ∧
      ¬Misled twoPackages.reverse "Util.java" ⟨"b.Util"⟩ := by
  obtain ⟨source, -, howner, -, hlies⟩ :=
    (@chosen_source_liesIn_iff_not_misled twoPackages.reverse ⟨"b.Util"⟩ "Util.java"
      (by decide +kernel) (by decide +kernel)
      ⟨"x/b/Util.java", by decide +kernel, by decide +kernel⟩).1
  have hchosen : sourceOf? twoPackages.reverse ⟨"b.Util"⟩ (some "Util.java") =
      some "x/b/Util.java" := by decide +kernel
  cases howner.symm.trans hchosen
  exact ⟨hchosen, hlies.mp (by decide +kernel)⟩

theorem chosen_source_not_liesIn_of_alike_first :
    (⟨"b.Util"⟩ : ClassName).package ≠ "" ∧ 2 ≤ (candidates twoPackages "Util.java").length ∧
      (∃ source ∈ candidates twoPackages "Util.java", LiesIn ⟨"b.Util"⟩ source) ∧
      ¬∃ source, sourceOf? twoPackages ⟨"b.Util"⟩ (some "Util.java") = some source ∧
        LiesIn ⟨"b.Util"⟩ source := by
  refine ⟨by decide +kernel, by decide +kernel,
    ⟨"x/b/Util.java", by decide +kernel, by decide +kernel⟩, ?_⟩
  rintro ⟨source, howner, hlies⟩
  have hchosen : sourceOf? twoPackages ⟨"b.Util"⟩ (some "Util.java") = some "ab/Util.java" := by
    decide +kernel
  cases howner.symm.trans hchosen
  exact absurd hlies (by decide +kernel)

end Attribution
end Recompile
