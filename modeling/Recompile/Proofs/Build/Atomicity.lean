import Recompile.Proofs.Build.Commit
import Recompile.State.Row

/-!
# Failing between two saves

What is stored between builds is saved in two parts, one after the other, and
the first one is not taken back. A build that fails has changed what is stored
only where it failed at the second part.
-/

namespace Recompile
namespace Build

variable {σ : Type} {services : Services (StateM σ)} {project : Project} {start : σ}

/-- A course that saves its register and is refused its fingerprints. -/
structure Course.Splits (course : Course services project start)
    (look : FirstLook services project start) (draft : Draft) : Prop where
  result_eq : course.result = .ok draft
  success : draft.success = true
  saved : (course.saved draft).1 = .ok ()
  refused : ∃ error, (course.committed look draft).1 = .error error

namespace Stores

variable (stores : Stores services)

/-- Whether fingerprints that are refused leave the stored ones in place. -/
def RefusesCleanly : Prop :=
  ∀ saved world error, (runIn (services.fingerprints.save saved) world).1 = .error error →
    stores.fingerprints (runIn (services.fingerprints.save saved) world).2 =
      stores.fingerprints world

variable {stores}

theorem stored_of_splits (hclean : stores.RefusesCleanly)
    {course : Course services project start} {look : FirstLook services project start}
    {draft : Draft} (hsplits : course.Splits look draft) :
    stores.fingerprints (runIn (run services project) start).2 = stores.fingerprints start ∧
      stores.owners (runIn (run services project) start).2 = some draft.ownership.byClass := by
  have hsurvey := ((stores.serves _ _).ended course rfl).1.trans (course.survey_eq look)
  have hconcluded := course.concluded_of_saved hsurvey hsplits.result_eq hsplits.success
    hsplits.saved
  have hended := stores.stored_eq_iff.mp (stores.stored_ended course)
  have hrun := stores.stored_eq_iff.mp (stores.stored_run course)
  rcases hsplits.refused with ⟨error, hrefused⟩
  rw [hrun.1, hrun.2]
  constructor
  · rw [hconcluded, ← hended.1]
    exact (hclean _ _ error hrefused).trans (stores.saveOwnership_keeps _ _)
  · exact (stores.stored_of_saved course look hsplits.result_eq hsplits.success hsplits.saved).1

theorem stored_or_splits_of_error {error : Failure}
    (herror : (runIn (run services project) start).1 = .error error) :
    stores.stored (runIn (run services project) start).2 = stores.stored start ∨
      ∃ (course : Course services project start) (look : FirstLook services project start)
        (draft : Draft), course.Splits look draft := by
  rcases stores.stored_run_cases project start with ⟨hstored, _⟩ | ⟨course, hkept⟩
  · exact Or.inl hstored
  · -- A course that is kept has saved its register, so an error can come from one step only.
    right
    rcases course.exists_of_not_undone hkept with ⟨draft, hresult, hsuccess, hsaved⟩
    rcases course.exists_look with ⟨look, _⟩
    have hsurvey := ((stores.serves _ _).ended course rfl).1.trans (course.survey_eq look)
    have hconcluded := course.concluded_of_saved hsurvey hresult hsuccess hsaved
    refine ⟨course, look, draft, hresult, hsuccess, hsaved, ?_⟩
    rw [course.runIn_run, hconcluded] at herror
    cases hcommitted : (course.committed look draft).1 with
    | error error => exact ⟨error, rfl⟩
    | ok value =>
        rw [hcommitted] at herror
        cases herror

/--
A build that fails leaves the stored fingerprints as they were. It leaves the
stored owners as they were as well, unless it saved its register and was refused
its fingerprints: then the owners are those of the new register. So both parts
are as they were if and only if the register of such a build is the stored one.
-/
theorem stored_of_error (hclean : stores.RefusesCleanly) {error : Failure}
    (herror : (runIn (run services project) start).1 = .error error) :
    stores.fingerprints (runIn (run services project) start).2 = stores.fingerprints start ∧
    (∀ (course : Course services project start) (look : FirstLook services project start)
      (draft : Draft), course.Splits look draft →
        stores.owners (runIn (run services project) start).2 = some draft.ownership.byClass) ∧
    (stores.stored (runIn (run services project) start).2 = stores.stored start ↔
      ∀ (course : Course services project start) (look : FirstLook services project start)
        (draft : Draft), course.Splits look draft →
          stores.owners start = some draft.ownership.byClass) := by
  refine ⟨?_, fun _ _ _ hsplits => (stored_of_splits hclean hsplits).2, ?_⟩
  · rcases stored_or_splits_of_error herror with hstored | ⟨course, look, draft, hsplits⟩
    · exact (stores.stored_eq_iff.mp hstored).1
    · exact (stored_of_splits hclean hsplits).1
  · constructor
    · intro hstored course look draft hsplits
      rw [← (stores.stored_eq_iff.mp hstored).2]
      exact (stored_of_splits hclean hsplits).2
    · intro hsame
      rcases stored_or_splits_of_error herror with hstored | ⟨course, look, draft, hsplits⟩
      · exact hstored
      · have hsplit := stored_of_splits hclean hsplits
        exact stores.stored_eq_iff.mpr
          ⟨hsplit.1, hsplit.2.trans (hsame course look draft hsplits).symm⟩

end Stores
end Build

/-!
# A key that is too long

The fingerprints are stored under the names of the sources, and a table refuses
names that are too long. The names of classes need not be as long.
-/

namespace Shelf

def limitedServices (sources : List String) (products : List Product) :
    Services (StateM Shelf) where
  host := host sources
  compile := compile products true
  method := .modifiedTime
  fingerprints :=
    ⟨do return (← get).fingerprints,
      fun fingerprints =>
        if fingerprints.keys.all fun source => State.isGoodKeySize (Bytes.ofText source).length then
          modify fun shelf => { shelf with fingerprints := some fingerprints }
        else throw (.state .badKeySize)⟩
  ownership := (services sources products true).ownership

def limitedStores (sources : List String) (products : List Product) :
    Build.Stores (limitedServices sources products) where
  fingerprints := Shelf.fingerprints
  owners shelf := shelf.register.map Ownership.byClass
  serves destination was := {
    kindOf := ((stores sources products true).serves destination was).kindOf
    filesBelow := ((stores sources products true).serves destination was).filesBelow
    readFile := ((stores sources products true).serves destination was).readFile
    modified := ((stores sources products true).serves destination was).modified
    disk := fun _ _ => trivial
    malformedClass := fun _ _ => trivial
    milliseconds := ((stores sources products true).serves destination was).milliseconds
    makeDirectories := ((stores sources products true).serves destination was).makeDirectories
    writeFile := ((stores sources products true).serves destination was).writeFile
    removeFile := ((stores sources products true).serves destination was).removeFile
    compile := ((stores sources products true).serves destination was).compile
    loadFingerprints := ((stores sources products true).serves destination was).loadFingerprints
    loadOwnership := ((stores sources products true).serves destination was).loadOwnership }
  loadFingerprints h := (Except.ok.inj h).symm
  loadOwnership h := congrArg (Option.map Ownership.byClass) (Except.ok.inj h).symm
  saveFingerprints_keeps saved shelf := by
    unfold limitedServices
    simp only
    split
    · rfl
    · rfl
  saveFingerprints_ok {saved shelf} h := by
    unfold limitedServices at h ⊢
    simp only at h ⊢
    split at h
    · next hfits =>
        rw [if_pos hfits]
        rfl
    · cases h
  saveOwnership_keeps _ _ := rfl
  saveOwnership_ok _ := rfl
  saveOwnership_error := nofun

theorem limitedStores_refusesCleanly (sources : List String) (products : List Product) :
    (limitedStores sources products).RefusesCleanly := by
  intro saved shelf error h
  unfold limitedServices at h ⊢
  simp only at h ⊢
  split at h
  · cases h
  · next hlong =>
      rw [if_neg hlong]
      rfl

def longName (letter : Char) : String :=
  String.ofList (List.replicate 255 letter)

theorem isName_longName {letter : Char} (hslash : letter ≠ '/') :
    Path.IsName (longName letter) := by
  unfold longName
  apply Path.isName_of_two_lt
  · rw [String.length_ofList, List.length_replicate]
    decide
  · rw [String.toList_ofList, List.mem_replicate]
    exact fun h => hslash h.2.symm

def deepSource : String :=
  String.intercalate "/" [longName 'd', longName 'e', "A.java"]

theorem listed_deepSource : Listed [deepSource] := by
  have hfile : Path.IsName "A.java" := by
    unfold Path.IsName
    decide
  have hnames : ∀ name ∈ [longName 'd', longName 'e'] ++ ["A.java"], Path.IsName name := by
    simp [isName_longName, hfile]
  have hlisted := listed_singleton hnames (by decide +kernel)
  exact hlisted

def deepServices : Services (StateM Shelf) :=
  limitedServices [deepSource] (soloProducts deepSource)

def deepStores : Build.Stores deepServices :=
  limitedStores [deepSource] (soloProducts deepSource)

def emptyShelf : Shelf :=
  ⟨[], none, none⟩

def deepCourse : Build.Course deepServices (project out) emptyShelf :=
  let unlimited := course out (soloProducts deepSource) true listed_deepSource emptyShelf
    (by decide +kernel)
  ⟨unlimited.survey, unlimited.changes, unlimited.begun, unlimited.looked, unlimited.changed⟩

theorem deepStores_refusesCleanly : deepStores.RefusesCleanly :=
  limitedStores_refusesCleanly _ _

theorem error_of_deepSource :
    ∃ error, (runIn (Build.run deepServices (project out)) emptyShelf).1 = .error error := by
  have hrefused : deepCourse.concluded.1.toOption.isNone = true := by
    decide +kernel
  rw [deepCourse.runIn_run]
  rcases hconcluded : deepCourse.concluded with ⟨answer, left⟩
  rw [hconcluded] at hrefused
  cases answer with
  | error error => exact ⟨error, rfl⟩
  | ok draft => cases hrefused

theorem owners_of_deepSource :
    deepStores.owners (runIn (Build.run deepServices (project out)) emptyShelf).2 ≠ none := by
  have hsaved : (deepStores.owners deepCourse.concluded.2).isSome = true := by
    decide +kernel
  rw [(deepStores.stored_eq_iff.mp (deepStores.stored_run deepCourse)).2]
  exact Option.isSome_iff_ne_none.mp hsaved

theorem stored_of_error_of_deepSource :
    deepStores.RefusesCleanly ∧
      (∃ error, (runIn (Build.run deepServices (project out)) emptyShelf).1 = .error error) ∧
      deepStores.fingerprints (runIn (Build.run deepServices (project out)) emptyShelf).2 = none ∧
      ∃ (course : Build.Course deepServices (project out) emptyShelf)
        (look : Build.FirstLook deepServices (project out) emptyShelf) (draft : Build.Draft),
          course.Splits look draft ∧
            deepStores.owners (runIn (Build.run deepServices (project out)) emptyShelf).2 =
              some draft.ownership.byClass := by
  rcases error_of_deepSource with ⟨error, herror⟩
  rcases Build.Stores.stored_of_error deepStores_refusesCleanly herror with
    ⟨hfingerprints, howners, hstored⟩
  refine ⟨deepStores_refusesCleanly, ⟨error, herror⟩, hfingerprints, ?_⟩
  -- Without a split course nothing would be stored, but the owners are.
  by_contra hnone
  have hunchanged := hstored.mpr fun course look draft hsplits =>
    absurd ⟨course, look, draft, hsplits, howners course look draft hsplits⟩ hnone
  exact owners_of_deepSource (deepStores.stored_eq_iff.mp hunchanged).2

theorem not_stored_of_deepSource :
    deepStores.RefusesCleanly ∧
      (∃ error, (runIn (Build.run deepServices (project out)) emptyShelf).1 = .error error) ∧
      deepStores.stored (runIn (Build.run deepServices (project out)) emptyShelf).2 ≠
        deepStores.stored emptyShelf := by
  refine ⟨deepStores_refusesCleanly, error_of_deepSource, ?_⟩
  intro hstored
  exact owners_of_deepSource (deepStores.stored_eq_iff.mp hstored).2

end Shelf
end Recompile
