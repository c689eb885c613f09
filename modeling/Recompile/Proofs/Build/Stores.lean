import Recompile.Proofs.Build.FirstLook

/-!
# What is stored between builds

Two things outlast a build: the fingerprints of its sources and the owners of
the classes. A build that is undone, and one that sees no changes, leaves both
as they were. Any other one stores the owners before the fingerprints.
-/

namespace Recompile
namespace Build

variable {σ : Type} {services : Services (StateM σ)} {project : Project} {start : σ}

theorem Course.wellKept (course : Course services project start) :
    course.progress.backup.WellKept project.destination fun _ => True := by
  rcases course.exists_observation with ⟨observation, hseen⟩
  have hempty := Backup.wellKept_empty project.destination fun _ => True
  exact (maintains_backsUp_compileNeeded services project observation course.changes
    course.first course.begun ⟨hseen, hempty⟩).1.2

namespace Serves

variable {keeps : σ → Prop} (h : Serves services project.destination keeps fun _ => True)
include h

theorem left (look : FirstLook services project start) (hkeeps : keeps start) :
    keeps (services.host.milliseconds.run look.left).2 := by
  have hstarted := h.milliseconds start hkeeps
  exact h.milliseconds _ (h.lookForChanges.of_runIn hstarted look.runIn_lookForChanges).1

theorem begun (course : Course services project start) (hkeeps : keeps start) :
    keeps course.begun :=
  (h.lookForChanges.of_runIn (h.milliseconds start hkeeps) course.looked).1

theorem turned (course : Course services project start) (hkeeps : keeps start)
    {abandoned : List (Round σ)} {progress : Progress} {world : σ}
    (hfull : course.full? = some (abandoned, progress, world)) :
    progress.survey = course.survey ∧ keeps world := by
  have hloaded := h.loadOwnership course.begun (h.begun course hkeeps)
  rcases course.of_full hfull with ⟨hload, _, hprogress⟩ | ⟨register, loaded, hload, hattempt, _⟩
  · rw [hload] at hloaded
    rw [hprogress]
    exact ⟨rfl, hloaded.1⟩
  · rw [hload] at hloaded
    have htried := (h.compileChanges course.survey (fun _ _ _ _ _ => trivial) course.changes
      register).of_runFrom ⟨rfl, hloaded.1⟩ hattempt
    exact htried.1

theorem ended (course : Course services project start) (hkeeps : keeps start) :
    course.progress.survey = course.survey ∧ keeps course.ended := by
  rcases course.exists_observation with ⟨observation, hseen⟩
  exact (h.compileNeeded course.survey hseen (fun _ _ _ _ _ => trivial) course.changes
    course.first course.begun ⟨rfl, h.begun course hkeeps⟩).1

end Serves

/--
What the two cells hold, and that no part of a build but saving to them changes
it, wherever its class files go.
-/
structure Stores (services : Services (StateM σ)) where
  fingerprints : σ → Option Fingerprints
  owners : σ → Option (Std.ExtTreeMap ClassName String)
  serves : ∀ destination was, Serves services destination
    (fun world => (fingerprints world, owners world) = was) fun _ => True
  loadFingerprints : ∀ {world stored},
    (runIn services.fingerprints.load world).1 = .ok stored → stored = fingerprints world
  loadOwnership : ∀ {world stored},
    (runIn services.ownership.load world).1 = .ok stored →
      stored.map Ownership.byClass = owners world
  saveFingerprints_keeps : ∀ saved world,
    owners (runIn (services.fingerprints.save saved) world).2 = owners world
  saveFingerprints_ok : ∀ {saved world},
    (runIn (services.fingerprints.save saved) world).1 = .ok () →
      fingerprints (runIn (services.fingerprints.save saved) world).2 = some saved
  saveOwnership_keeps : ∀ register world,
    fingerprints (runIn (services.ownership.save register) world).2 = fingerprints world
  saveOwnership_ok : ∀ {register world},
    (runIn (services.ownership.save register) world).1 = .ok () →
      owners (runIn (services.ownership.save register) world).2 = some register.byClass
  saveOwnership_error : ∀ {register world error},
    (runIn (services.ownership.save register) world).1 = .error error →
      owners (runIn (services.ownership.save register) world).2 = owners world

namespace Stores

variable (stores : Stores services)

def stored (world : σ) : Option Fingerprints × Option (Std.ExtTreeMap ClassName String) :=
  (stores.fingerprints world, stores.owners world)

theorem stored_eq_iff {world world' : σ} :
    stores.stored world = stores.stored world' ↔
      stores.fingerprints world = stores.fingerprints world' ∧
        stores.owners world = stores.owners world' := by
  unfold stored
  rw [Prod.mk.injEq]

theorem committed_eq (look : FirstLook services project start) :
    look.committed = stores.fingerprints start := by
  rw [stores.loadFingerprints (congrArg Prod.fst look.loads)]
  have hclock :=
    (stores.serves project.destination (stores.stored start)).milliseconds start rfl
  exact congrArg Prod.fst hclock

theorem owners_of_load (course : Course services project start) {register : Ownership} {loaded : σ}
    (hload : runIn services.ownership.load course.begun = (.ok (some register), loaded)) :
    stores.owners start = some register.byClass := by
  have hbegun := (stores.serves _ (stores.stored start)).begun course rfl
  rw [← (stores.stored_eq_iff.mp hbegun).2]
  exact (stores.loadOwnership (congrArg Prod.fst hload)).symm

theorem stored_ended (course : Course services project start) :
    stores.stored course.ended = stores.stored start :=
  ((stores.serves project.destination (stores.stored start)).ended course rfl).2

theorem stored_of_undone (course : Course services project start) (hundone : course.IsUndone) :
    stores.stored course.concluded.2 = stores.stored start := by
  have hended := stores.stored_ended course
  have hfrom : stores.stored course.undoneFrom = stores.stored start := by
    unfold Course.undoneFrom
    unfold Course.IsUndone at hundone
    cases hresult : course.result with
    | error error => exact hended
    | ok draft =>
        rw [hresult] at hundone
        cases hsuccess : draft.success with
        | false => simpa [hsuccess] using hended
        | true =>
            rcases hundone hsuccess with ⟨error, hrefused⟩
            have howners := stores.saveOwnership_error hrefused
            have hkept := stores.saveOwnership_keeps draft.ownership course.ended
            rw [← hended]
            simp only
            rw [if_pos hsuccess]
            exact Prod.ext hkept howners
  rw [course.concluded_of_undone hundone]
  have hserves := stores.serves project.destination (stores.stored start)
  exact (hserves.restore course.wellKept _ hfrom).1

theorem stored_of_saved (course : Course services project start)
    (look : FirstLook services project start) {draft : Draft}
    (hresult : course.result = .ok draft) (hsuccess : draft.success = true)
    (hsaved : (course.saved draft).1 = .ok ()) :
    stores.owners course.concluded.2 = some draft.ownership.byClass ∧
      ∀ found, course.concluded.1 = .ok found →
        stores.fingerprints course.concluded.2 = some look.observation.fingerprints := by
  have hsurvey := ((stores.serves _ _).ended course rfl).1.trans (course.survey_eq look)
  have howners : stores.owners (course.saved draft).2 = some draft.ownership.byClass :=
    stores.saveOwnership_ok hsaved
  rw [course.concluded_of_saved hsurvey hresult hsuccess hsaved]
  constructor
  · exact (stores.saveFingerprints_keeps _ _).trans howners
  · intro found hfound
    cases hcommitted : (course.committed look draft).1 with
    | error error =>
        rw [hcommitted] at hfound
        cases hfound
    | ok value =>
        exact stores.saveFingerprints_ok hcommitted

end Stores
end Build
end Recompile
