import Recompile.Proofs.Maintaining
import Recompile.Proofs.Sources.Differences

/-!
# What a look at the sources sees

Where reading changes nothing, a look that succeeds sees all sources with the
fingerprints of their files, and leaves everything as it is. What is seen is
then told by how things were.
-/

namespace Recompile

variable {σ : Type} {host : Host (StateM σ)}

def ReadsOnly (host : Host (StateM σ)) : Prop :=
  ∀ was, Looks host (fun world => world = was) fun _ => True

theorem ReadsOnly.left_eq {α : Type} {operation : ExceptT Failure (StateM σ) α} {world left : σ}
    {result : Except Failure α}
    (h : ∀ was : σ, Maintains (fun world => world = was) (fun _ => True) operation)
    (hrun : runIn operation world = (result, left)) : left = world :=
  ((h world).of_runIn rfl hrun).1

namespace Survey

def Describes (host : Host (StateM σ)) (method : FingerprintMethod) (root : Path) (world : σ)
    (seen : Fingerprints) : Prop :=
  ∃ sources, runIn (Find.sources host root) world = (.ok sources, world) ∧
    (∀ source, source ∈ seen ↔ source ∈ sources) ∧
    ∀ source ∈ sources, ∃ text,
      runIn (fingerprint host method (root.join ⟨source⟩)) world = (.ok text, world) ∧
        seen[source]? = some text

variable {method : FingerprintMethod} {root : Path} {world left : σ} {seen : Fingerprints}

theorem Describes.unique {other : Fingerprints} (h : Describes host method root world seen)
    (hother : Describes host method root world other) : seen = other := by
  rcases h with ⟨sources, hsources, hmem, htexts⟩
  rcases hother with ⟨others, hothers, hmem', htexts'⟩
  cases hsources.symm.trans hothers
  apply Std.ExtTreeMap.ext_getElem?
  intro source
  by_cases hsource : source ∈ sources
  · rcases htexts source hsource with ⟨text, htext, hseen⟩
    rcases htexts' source hsource with ⟨text', htext', hseen'⟩
    cases htext.symm.trans htext'
    rw [hseen, hseen']
  · rw [Std.ExtTreeMap.getElem?_eq_none ((not_congr (hmem source)).mpr hsource),
      Std.ExtTreeMap.getElem?_eq_none ((not_congr (hmem' source)).mpr hsource)]

/-- Each source is taken with its own fingerprint; a source that is met again has the same one. -/
theorem of_runIn_fingerprintsOnto (hreads : ReadsOnly host) {taken : Fingerprints}
    {sources : List String}
    (h : runIn (fingerprintsOnto host method root taken sources) world = (.ok seen, left)) :
    (∀ source ∈ sources, ∃ text,
      runIn (fingerprint host method (root.join ⟨source⟩)) world = (.ok text, world) ∧
        seen[source]? = some text) ∧
    ∀ source, source ∉ sources → seen[source]? = taken[source]? := by
  induction sources generalizing taken with
  | nil =>
      cases h
      exact ⟨nofun, fun _ _ => rfl⟩
  | cons first rest ih =>
      rcases ok_of_runIn_bind h with ⟨text, between, htext, hrest⟩
      cases ReadsOnly.left_eq (fun was => (hreads was).fingerprint method _) htext
      rcases ih hrest with ⟨hlater, hother⟩
      constructor
      · intro source hsource
        by_cases hagain : source ∈ rest
        · exact hlater source hagain
        · rcases List.mem_cons.mp hsource with rfl | hmem
          · refine ⟨text, htext, ?_⟩
            rw [hother _ hagain, Std.ExtTreeMap.getElem?_insert_self]
          · exact absurd hmem hagain
      · intro source hsource
        rw [List.mem_cons, not_or] at hsource
        rw [hother source hsource.2, Std.ExtTreeMap.getElem?_insert, if_neg]
        rw [Std.LawfulEqCmp.compare_eq_iff_eq]
        exact Ne.symm hsource.1

theorem of_runIn_look (hreads : ReadsOnly host) {survey : Survey} {observation : Observation}
    (h : runIn (look host survey) world = (.ok observation, left)) :
    Describes host survey.method survey.root world observation.fingerprints ∧
      observation.changes = .between survey.committed observation.fingerprints := by
  rcases ok_of_runIn_bind h with ⟨sources, between, hsources, h⟩
  cases ReadsOnly.left_eq (fun was => (hreads was).sources _) hsources
  rcases ok_of_runIn_bind h with ⟨seen, _, hseen, h⟩
  rcases of_runIn_fingerprintsOnto hreads hseen with ⟨htaken, hother⟩
  cases h
  refine ⟨⟨sources, hsources, ?_, htaken⟩, rfl⟩
  intro source
  rw [Std.ExtTreeMap.mem_iff_isSome_getElem?]
  constructor
  · intro hsome
    apply Decidable.byContradiction
    intro hsource
    rw [hother source hsource] at hsome
    simp at hsome
  · intro hsource
    rcases htaken source hsource with ⟨text, _, htext⟩
    rw [htext]
    rfl

theorem of_runIn_observe (hreads : ReadsOnly host) {survey after : Survey}
    {observation : Observation}
    (h : runIn (observe host survey) world = (.ok (observation, after), left)) :
    left = world ∧ after = { survey with observation := some observation } ∧
      (survey.observation = some observation ∨
        survey.observation = none ∧
          Describes host survey.method survey.root world observation.fingerprints ∧
            observation.changes = .between survey.committed observation.fingerprints) := by
  have hleft := ReadsOnly.left_eq (fun was => (hreads was).observe survey) h
  refine ⟨hleft, ?_⟩
  unfold observe at h
  cases hseen : survey.observation with
  | some known =>
      rw [hseen] at h
      cases h
      exact ⟨by rw [← hseen], Or.inl rfl⟩
  | none =>
      rw [hseen] at h
      rcases ok_of_runIn_bind h with ⟨found, _, hlook, h⟩
      cases h
      exact ⟨rfl, Or.inr ⟨rfl, of_runIn_look hreads hlook⟩⟩

theorem runIn_observe_of_some {survey : Survey} {observation : Observation}
    (h : survey.observation = some observation) (world : σ) :
    runIn (observe host survey) world = (.ok (observation, survey), world) := by
  unfold observe
  rw [h]
  rfl

end Survey
end Recompile
