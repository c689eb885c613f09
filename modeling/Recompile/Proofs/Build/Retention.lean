import Recompile.Proofs.Build.Completion
import Recompile.Proofs.Build.Shelf

/-!
# The class files of a saved register

A class of the register that a build saves should have the file that the last
round to list it wrote, or the one from before. It has, unless that round took
the class from one of its sources and gave it to a later one: then the earlier
source is entered first, finds the class gone from it and deletes the new file.
-/

namespace Recompile
namespace Build

variable {σ : Type} {services : Services (StateM σ)} {project : Project}
  {files : ClassFiles services.host project.destination}
  {name : ClassName} {round : Round σ} {rounds rest : List (Round σ)} {now : Option Bytes}

def Round.MovesLater (round : Round σ) (name : ClassName) : Prop :=
  ∃ old ∈ round.outcome.produced.toList, ∃ new ∈ round.outcome.produced.toList,
    round.ownership.sourceOf? name = some old.1 ∧ name ∈ new.2 ∧ compare old.1 new.1 = .lt

/-- Whether the last round that lists a class moves it to a later source. -/
def MovedLast (name : ClassName) : List (Round σ) → Prop
  | [] => False
  | round :: rest =>
    MovedLast name rest ∨
      round.MovesLater name ∧ ∀ later ∈ rest, name ∉ later.outcome.classes

def lastWritten (files : ClassFiles services.host project.destination) (name : ClassName)
    (now : Option Bytes) : List (Round σ) → Option Bytes
  | [] => now
  | round :: rest =>
    lastWritten files name
      (if name ∈ round.outcome.classes then
        files.held round.world (fileKey project.destination name)
      else now) rest

theorem Round.MovesLater.listed (h : round.MovesLater name) : name ∈ round.outcome.classes := by
  obtain ⟨_, _, new, hnew, _, hlists, _⟩ := h
  exact mem_classes.mpr ⟨new, hnew, hlists⟩

theorem MovedLast.listed (h : MovedLast name rounds) :
    ∃ round ∈ rounds, name ∈ round.outcome.classes := by
  induction rounds with
  | nil => exact h.elim
  | cons round rest ih =>
      rcases h with hrest | ⟨hmoves, _⟩
      · obtain ⟨later, hlater, hlists⟩ := ih hrest
        exact ⟨later, List.mem_cons_of_mem _ hlater, hlists⟩
      · exact ⟨round, List.mem_cons_self, hmoves.listed⟩

theorem lastWritten_of_unlisted (h : ∀ round ∈ rounds, name ∉ round.outcome.classes) :
    lastWritten files name now rounds = now := by
  induction rounds generalizing now with
  | nil => rfl
  | cons round rest ih =>
      rw [lastWritten, if_neg (h round List.mem_cons_self)]
      exact ih fun later hlater => h later (List.mem_cons_of_mem _ hlater)

theorem lastWritten_of_listed (h : ∃ round ∈ rounds, name ∈ round.outcome.classes)
    (now other : Option Bytes) :
    lastWritten files name now rounds = lastWritten files name other rounds := by
  induction rounds generalizing now other with
  | nil =>
      obtain ⟨_, hnone, _⟩ := h
      cases hnone
  | cons round rest ih =>
      by_cases hrest : ∃ later ∈ rest, name ∈ later.outcome.classes
      · exact ih hrest _ _
      · obtain ⟨listing, hlisting, hlists⟩ := h
        rcases List.mem_cons.mp hlisting with rfl | hlater
        · rw [lastWritten, lastWritten, if_pos hlists, if_pos hlists]
        · exact absurd ⟨listing, hlater, hlists⟩ hrest

theorem lastWritten_append (now : Option Bytes) (rounds rest : List (Round σ)) :
    lastWritten files name now (rounds ++ rest) =
      lastWritten files name (lastWritten files name now rounds) rest := by
  induction rounds generalizing now with
  | nil => rfl
  | cons round more ih => exact ih _

theorem movedLast_append :
    MovedLast name (rounds ++ rest) ↔
      MovedLast name rest ∨
        MovedLast name rounds ∧ ∀ later ∈ rest, name ∉ later.outcome.classes := by
  induction rounds with
  | nil => simp [MovedLast]
  | cons round more ih =>
      rw [List.cons_append, MovedLast, MovedLast, ih, List.forall_mem_append]
      constructor
      · rintro ((hrest | ⟨hmore, hlater⟩) | ⟨hmoves, hmore, hlater⟩)
        · exact Or.inl hrest
        · exact Or.inr ⟨Or.inl hmore, hlater⟩
        · exact Or.inr ⟨Or.inr ⟨hmoves, hmore⟩, hlater⟩
      · rintro (hrest | ⟨hmore | ⟨hmoves, hmore⟩, hlater⟩)
        · exact Or.inl (Or.inl hrest)
        · exact Or.inl (Or.inr ⟨hmore, hlater⟩)
        · exact Or.inr ⟨hmoves, hmore, hlater⟩

/-!
# Registers and files side by side

Rounds lead from one register and its files to another. What holds of the
classes that are left at the end is put together from round to round: a class
that no later round lists was there before them, with the file that it has.
-/

structure Retains (files : ClassFiles services.host project.destination) (register : Ownership)
    (world : σ) (rounds : List (Round σ)) (register' : Ownership) (world' : σ) : Prop where
  registered : ∀ {name source}, register'.sourceOf? name = some source →
    (∀ round ∈ rounds, name ∉ round.outcome.classes) → register.sourceOf? name = some source
  moved : ∀ {name source}, register'.sourceOf? name = some source → MovedLast name rounds →
    files.held world' (fileKey project.destination name) = none
  kept : ∀ {name source}, register'.sourceOf? name = some source → ¬MovedLast name rounds →
    files.held world' (fileKey project.destination name) =
      lastWritten files name (files.held world (fileKey project.destination name)) rounds
  there : ∀ {name source} (now : Option Bytes), register'.sourceOf? name = some source →
    (∃ round ∈ rounds, name ∈ round.outcome.classes) → lastWritten files name now rounds ≠ none

variable {register register₁ register₂ : Ownership} {world world₁ world₂ : σ}

theorem Retains.trans (h₁ : Retains files register world rounds register₁ world₁)
    (h₂ : Retains files register₁ world₁ rest register₂ world₂) :
    Retains files register world (rounds ++ rest) register₂ world₂ := by
  constructor
  · intro name source hsource hunlisted
    rw [List.forall_mem_append] at hunlisted
    exact h₁.registered (h₂.registered hsource hunlisted.2) hunlisted.1
  · intro name source hsource hmoved
    rcases movedLast_append.mp hmoved with hrest | ⟨hrounds, hunlisted⟩
    · exact h₂.moved hsource hrest
    · have hstays : ¬MovedLast name rest := by
        intro hrest
        obtain ⟨later, hlater, hlists⟩ := hrest.listed
        exact hunlisted later hlater hlists
      rw [h₂.kept hsource hstays, lastWritten_of_unlisted hunlisted]
      exact h₁.moved (h₂.registered hsource hunlisted) hrounds
  · intro name source hsource hstays
    rw [movedLast_append, not_or] at hstays
    rw [h₂.kept hsource hstays.1, lastWritten_append]
    by_cases hlisted : ∃ later ∈ rest, name ∈ later.outcome.classes
    · exact lastWritten_of_listed hlisted _ _
    · have hunlisted : ∀ later ∈ rest, name ∉ later.outcome.classes := by
        intro later hlater hlists
        exact hlisted ⟨later, hlater, hlists⟩
      have hbefore : ¬MovedLast name rounds := fun hmoved => hstays.2 ⟨hmoved, hunlisted⟩
      rw [h₁.kept (h₂.registered hsource hunlisted) hbefore]
  · rintro name source now hsource ⟨round, hround, hlists⟩
    rw [lastWritten_append]
    by_cases hlisted : ∃ later ∈ rest, name ∈ later.outcome.classes
    · exact h₂.there _ hsource hlisted
    · have hunlisted : ∀ later ∈ rest, name ∉ later.outcome.classes := by
        intro later hlater hlists
        exact hlisted ⟨later, hlater, hlists⟩
      rw [lastWritten_of_unlisted hunlisted]
      refine h₁.there now (h₂.registered hsource hunlisted) ?_
      rcases List.mem_append.mp hround with hfirst | hlater
      · exact ⟨round, hfirst, hlists⟩
      · exact absurd hlists (hunlisted round hlater)

/-!
# One round

What a register has to be for its files to be told apart: both indexes agree,
and the classes have binary names.
-/

/-- A register whose indexes agree and whose classes have files of their own. -/
structure Tidy (register : Ownership) : Prop where
  consistent : register.Consistent
  binary : ∀ {name source}, register.sourceOf? name = some source → name.IsBinary

theorem Tidy.leadsBelow (h : Tidy register) : register.LeadsBelow :=
  fun source name howns => (h.binary ((h.consistent name source).mpr howns)).leadsBelow

theorem Tidy.removeAll (h : Tidy register) (sources : List String) :
    Tidy (register.removeAll sources) := by
  refine ⟨h.consistent.removeAll sources, ?_⟩
  intro name source hsource
  exact h.binary ((h.consistent.sourceOf?_removeAll sources).mp hsource).2

theorem Tidy.registerAll (h : Tidy register) {outcome : Outcome} (hlists : ListsPlainly outcome) :
    Tidy (register.registerAll outcome.produced.toList) := by
  refine ⟨h.consistent.registerAll _, ?_⟩
  intro name source hsource
  by_cases hlisted : name ∈ outcome.classes
  · exact hlists.binary name hlisted
  · have hbefore :=
      (h.consistent.sourceOf?_registerAll_of_unlisted (not_mem_of_unlisted hlisted)).mp hsource
    exact h.binary hbefore.1

theorem Tidy.retains_removed (h : Tidy register) {sources : List String} {ledger : Ledger}
    (hcleared : Cleared files register sources world ledger world₁) :
    Retains files register world [⟨none, register, sources, .nothing, world₁, world₁⟩]
      ledger.ownership world₁ := by
  have hownership : ledger.ownership = register.removeAll sources := hcleared.removed.ownership_eq
  have hnothing : ∀ name : ClassName, name ∉ Outcome.nothing.classes := by
    simp [Outcome.classes, Outcome.nothing]
  rw [hownership]
  constructor
  · intro name source hsource _
    exact ((h.consistent.sourceOf?_removeAll sources).mp hsource).2
  · intro name source _ hmoved
    obtain ⟨round, hround, hlists⟩ := hmoved.listed
    rw [List.mem_singleton.mp hround] at hlists
    exact absurd hlists (hnothing name)
  · intro name source hsource _
    obtain ⟨hstays, hbefore⟩ := (h.consistent.sourceOf?_removeAll sources).mp hsource
    rw [lastWritten, lastWritten, if_neg (hnothing name)]
    refine hcleared.deletion.left _ ?_
    intro howned
    obtain ⟨other, ⟨owner, howner, howns⟩, hkey⟩ := mem_ownedKeys.mp howned
    have hother := (h.consistent other owner).mpr howns
    have hsame := fileKey_injective project.destination (h.binary hother) (h.binary hbefore) hkey
    rw [hsame, hbefore] at hother
    exact hstays (Option.some.inj hother ▸ howner)
  · rintro name source now _ ⟨round, hround, hlists⟩
    rw [List.mem_singleton.mp hround] at hlists
    exact absurd hlists (hnothing name)

theorem Tidy.orphaned_iff_movesLater (h : Tidy round.ownership)
    (hlists : ListsPlainly round.outcome) (hlisted : name ∈ round.outcome.classes) :
    round.ownership.Orphaned name round.outcome.produced.toList ↔ round.MovesLater name := by
  rw [h.consistent.orphaned_iff Std.ExtTreeMap.ordered_keys_toList]
  constructor
  · rintro ⟨old, hold, hsource, hlater⟩
    obtain ⟨new, hnew, hname⟩ := mem_classes.mp hlisted
    exact ⟨old, hold, new, hnew, hsource, hname, hlater new hnew hname⟩
  · rintro ⟨old, hold, new, hnew, hsource, hname, hlt⟩
    refine ⟨old, hold, hsource, ?_⟩
    intro entry hentry hentryName
    rw [hlists.once hentry hnew hentryName hname]
    exact hlt

theorem Tidy.mem_orphanKeys_iff (h : Tidy register) {entries : List (String × ClassSet)}
    (hordered : entries.Pairwise fun a b => compare a.1 b.1 = .lt) (hname : name.IsBinary) :
    fileKey project.destination name ∈ orphanKeys project.destination register entries ↔
      register.Orphaned name entries := by
  constructor
  · rintro ⟨other, horphaned, hkey⟩
    obtain ⟨owner, _, howns⟩ := horphaned.exists_owns hordered
    have hother := h.binary ((h.consistent other owner.1).mpr howns)
    rw [← fileKey_injective project.destination hother hname hkey]
    exact horphaned
  · exact fun horphaned => ⟨name, horphaned, rfl⟩

theorem retains_batch (round : Round σ) (h : Tidy round.ownership)
    (hlists : ListsPlainly round.outcome) {ledger ledger' : Ledger}
    (hledger : ledger.ownership = round.ownership)
    (hbatched : Batched files ledger world round.outcome round.world ledger' world₁) :
    Retains files round.ownership world [round] ledger'.ownership world₁ := by
  have hordered : round.outcome.produced.toList.Pairwise fun a b => compare a.1 b.1 = .lt :=
    Std.ExtTreeMap.ordered_keys_toList
  have hownership : ledger'.ownership =
      round.ownership.registerAll round.outcome.produced.toList := by
    rw [hbatched.entered.ownership_eq, hledger]
  have hgone := hbatched.deletion.gone
  have hleft := hbatched.deletion.left
  rw [hledger] at hgone hleft
  have htidy := h.registerAll hlists
  rw [hownership]
  constructor
  · intro name source hsource hunlisted
    have hnone := not_mem_of_unlisted (hunlisted round List.mem_cons_self)
    exact ((h.consistent.sourceOf?_registerAll_of_unlisted hnone).mp hsource).1
  · intro name source hsource hmoved
    rcases hmoved with hnone | ⟨hmoves, _⟩
    · exact hnone.elim
    · have horphaned := (h.orphaned_iff_movesLater hlists hmoves.listed).mpr hmoves
      exact hgone _ ⟨name, horphaned, rfl⟩
  · intro name source hsource hstays
    have hkey : fileKey project.destination name ∈ _ ↔ _ :=
      h.mem_orphanKeys_iff hordered (htidy.binary hsource)
    rw [lastWritten, lastWritten]
    by_cases hlisted : name ∈ round.outcome.classes
    · rw [if_pos hlisted]
      refine hleft _ fun horphan => hstays (Or.inr ⟨?_, by simp⟩)
      exact (h.orphaned_iff_movesLater hlists hlisted).mp (hkey.mp horphan)
    · rw [if_neg hlisted]
      obtain ⟨hbefore, hothers⟩ :=
        (h.consistent.sourceOf?_registerAll_of_unlisted (not_mem_of_unlisted hlisted)).mp hsource
      rw [hleft, hbatched.accounts.unlisted]
      · intro other hother heq
        have hsame := fileKey_injective project.destination (hlists.binary other hother)
          (htidy.binary hsource) heq
        rw [hsame] at hother
        exact hlisted hother
      · intro horphan
        obtain ⟨owner, howner, hsource', _⟩ :=
          (h.consistent.orphaned_iff hordered).mp (hkey.mp horphan)
        rw [hbefore] at hsource'
        exact hothers owner howner (Option.some.inj hsource').symm
  · rintro name source now _ ⟨_, hround, hlisted⟩
    rw [List.mem_singleton.mp hround] at hlisted
    rw [lastWritten, lastWritten, if_pos hlisted]
    exact hbatched.accounts.present name hlisted

/-!
# A whole build
-/

theorem Tidy.retains_attempt (h : Tidy register) (hcompiler : WritesListed files)
    (hplain : CompilesPlainly services project) {changes : SourceChanges}
    {progress progress' : Progress} {draft : Draft}
    (hrun : (compileChanges services project changes register).runFrom progress world =
      (.ok (some draft), progress', world₁)) :
    Retains files register world
      (attemptRounds services project changes register progress world)
      draft.ownership world₁ := by
  obtain ⟨stages, hfinishes⟩ := Completion.exists_of_runFrom hrun
  have hcleared := stages.cleared files h.leadsBelow
  have hbatched := stages.reviewedBatch hcompiler h.leadsBelow
  have hopened : stages.opened.ownership = register.removeAll changes.removed.toList :=
    hcleared.removed.ownership_eq
  have hfirst := hplain.compileBatch stages.compiles
  have htidy : Tidy stages.opened.ownership := by
    rw [hopened]
    exact h.removeAll _
  have hchanged : Retains files stages.opened.ownership stages.openedWorld
      [batchRound services project stages.before stages.opened changes.stale stages.outcome
        stages.compiledProgress stages.compiledWorld]
      stages.reviewed.ownership stages.reviewedWorld :=
    retains_batch (batchRound services project stages.before stages.opened changes.stale
      stages.outcome stages.compiledProgress stages.compiledWorld) htidy hfirst rfl hbatched
  have htwo := (h.retains_removed hcleared).trans hchanged
  rw [stages.attemptRounds_eq]
  rcases hfinishes.cases with ⟨hnone, hownership, _, rfl⟩ | ⟨hsome, ⟨second⟩⟩
  · rw [stages.finishRounds_of_none hnone, hownership]
    exact htwo
  · rw [second.finishRounds_eq hsome, second.ownership_eq]
    have hagain := hplain.compileBatch second.compiles
    have hreviewed : Tidy stages.reviewed.ownership := by
      rw [hbatched.entered.ownership_eq]
      exact htidy.registerAll hfirst
    have hsecond : Retains files stages.reviewed.ownership stages.reviewedWorld
        [batchRound services project stages.before stages.reviewed stages.dependants.toList
          second.outcome second.compiledProgress second.compiledWorld]
        second.entered.ownership world₁ :=
      retains_batch (batchRound services project stages.before stages.reviewed
        stages.dependants.toList second.outcome second.compiledProgress second.compiledWorld)
        hreviewed hagain rfl (second.batch hcompiler h.leadsBelow)
    exact htwo.trans hsecond

theorem freshOwnership_eq (outcome : Outcome) :
    freshOwnership outcome = Ownership.empty.registerAll outcome.produced.toList :=
  rfl

theorem listed_of_freshOwnership {outcome : Outcome} {source : String}
    (h : (freshOwnership outcome).sourceOf? name = some source) : name ∈ outcome.classes := by
  rw [freshOwnership_eq] at h
  refine Classical.byContradiction fun hlisted => ?_
  have hunlisted := not_mem_of_unlisted hlisted
  have hbefore :=
    ((Ownership.consistent_empty.sourceOf?_registerAll_of_unlisted hunlisted).mp h).1
  simp [Ownership.sourceOf?, Ownership.empty] at hbefore

theorem present_of_compileSurveyed (hcompiler : WritesListed files)
    {progress progress' : Progress} {sources : List String} {outcome : Outcome}
    (hrun : (compileSurveyed services project).runFrom progress world =
      (.ok (sources, outcome), progress', world₁)) :
    ∀ name ∈ outcome.classes, files.held world₁ (fileKey project.destination name) ≠ none := by
  unfold compileSurveyed at hrun
  simp only [Step.runFrom_bind, Step.runFrom_get, Step.runFrom_perform] at hrun
  rcases hsurveyed : runIn (progress.survey.sources services.host) world with ⟨surveyed, between⟩
  simp only [hsurveyed] at hrun
  cases surveyed with
  | error error => cases hrun
  | ok surveyed =>
      simp only [Step.runFrom_modify] at hrun
      rcases hcompiled : (compile services project surveyed.1).runFrom
        { progress with survey := surveyed.2 } between with ⟨compiled, middle, final⟩
      simp only [hcompiled] at hrun
      cases compiled with
      | error error => cases hrun
      | ok found =>
          obtain ⟨_, haccounts⟩ := hcompiler.compile_ok hcompiled
          simp only [Step.runFrom_pure] at hrun
          cases hrun
          exact haccounts.present

/-- The register of a full build starts from nothing, so there is no class to move. -/
theorem retains_full (hcompiler : WritesListed files)
    (abandoned : List (Round σ)) {progress progress' : Progress} {draft : Draft} (start : σ)
    (hrun : (compileAll services project).runFrom progress world =
      (.ok draft, progress', world₁)) :
    Retains files register start (abandoned ++ fullRounds services project progress world)
      draft.ownership world₁ := by
  unfold compileAll at hrun
  rcases Step.ok_of_runFrom_bind hrun with ⟨⟨sources, outcome⟩, _, _, hsurveyed, hdone⟩
  rw [Step.runFrom_pure] at hdone
  cases hdone
  have hrounds : fullRounds services project progress world =
      [⟨none, .empty, sources, outcome, world₁, world₁⟩] := by
    unfold fullRounds
    rw [hsurveyed]
  have hlisted : ∀ {name source}, (freshOwnership outcome).sourceOf? name = some source →
      ∃ round ∈ [(⟨none, .empty, sources, outcome, world₁, world₁⟩ : Round σ)],
        name ∈ round.outcome.classes :=
    fun hsource => ⟨_, List.mem_cons_self, listed_of_freshOwnership hsource⟩
  have hpresent := present_of_compileSurveyed hcompiler hsurveyed
  rw [hrounds]
  constructor
  · intro name source hsource hunlisted
    obtain ⟨round, hround, hlists⟩ := hlisted hsource
    exact absurd hlists (hunlisted round (List.mem_append_right _ hround))
  · intro name source hsource hmoved
    rcases movedLast_append.mp hmoved with (hnone | ⟨⟨_, _, _, _, howner, _⟩, _⟩) | ⟨_, hunlisted⟩
    · exact hnone.elim
    · simp [Ownership.sourceOf?, Ownership.empty] at howner
    · obtain ⟨round, hround, hlists⟩ := hlisted hsource
      exact absurd hlists (hunlisted round hround)
  · intro name source hsource _
    rw [lastWritten_append, lastWritten, lastWritten,
      if_pos (listed_of_freshOwnership hsource)]
  · rintro name source now hsource _
    have hlists := listed_of_freshOwnership hsource
    rw [lastWritten_append, lastWritten, lastWritten, if_pos hlists]
    exact hpresent name hlists

theorem Retains.held_iff (h : Retains files register world rounds register₁ world₁)
    (hthere : ∀ name source, register.sourceOf? name = some source →
      files.held world (fileKey project.destination name) ≠ none)
    {source : String} (hsource : register₁.sourceOf? name = some source) :
    (files.held world₁ (fileKey project.destination name) =
          lastWritten files name (files.held world (fileKey project.destination name)) rounds ∧
        files.held world₁ (fileKey project.destination name) ≠ none) ↔
      ¬MovedLast name rounds := by
  constructor
  · rintro ⟨_, hpresent⟩ hmoved
    exact hpresent (h.moved hsource hmoved)
  · intro hstays
    have hkept := h.kept hsource hstays
    refine ⟨hkept, ?_⟩
    rw [hkept]
    by_cases hlisted : ∃ round ∈ rounds, name ∈ round.outcome.classes
    · exact h.there _ hsource hlisted
    · have hunlisted : ∀ round ∈ rounds, name ∉ round.outcome.classes := by
        intro round hround hlists
        exact hlisted ⟨round, hround, hlists⟩
      rw [lastWritten_of_unlisted hunlisted]
      exact hthere name source (h.registered hsource hunlisted)

theorem held_iff_of_result
    (files : ClassFiles services.host project.destination) (hstores : StoresSpare files)
    (hcompiler : WritesListed files) (hplain : CompilesPlainly services project) {start : σ}
    (course : Course services project start)
    (hregister : ∀ register loaded,
      runIn services.ownership.load course.begun = (.ok (some register), loaded) →
        Tidy register ∧ ∀ name source, register.sourceOf? name = some source →
          files.held start (fileKey project.destination name) ≠ none)
    {draft : Draft} (hresult : course.result = .ok draft) {source : String}
    (hsource : draft.ownership.sourceOf? name = some source) :
    (files.held course.ended (fileKey project.destination name) =
          lastWritten files name (files.held start (fileKey project.destination name))
            course.rounds ∧
        files.held course.ended (fileKey project.destination name) ≠ none) ↔
      ¬MovedLast name course.rounds := by
  rcases course.of_result hresult with
    ⟨register, loaded, hloaded, hrounds, hattempt⟩ | ⟨abandoned, progress, world, hfull, hrun⟩
  · obtain ⟨htidy, hthere⟩ := hregister register loaded hloaded
    have hkept : files.held loaded = files.held start := by
      have hkeeps := hstores.loadOwnership course.begun
      rw [hloaded] at hkeeps
      exact hkeeps.trans (course.held_begun hstores)
    have hretains := htidy.retains_attempt hcompiler hplain hattempt
    rw [hrounds, ← hkept]
    refine hretains.held_iff ?_ hsource
    rw [hkept]
    exact hthere
  · have hretains : Retains files .empty start _ _ _ :=
      retains_full hcompiler abandoned start hrun
    rw [course.rounds_of_full hfull]
    refine hretains.held_iff ?_ hsource
    intro name source hsource
    simp [Ownership.sourceOf?, Ownership.empty] at hsource

/--
A build that succeeds saves a register of classes that have their files, apart
from those that the round that listed them last moved to a later source.
-/
theorem held_saved_class_iff
    (files : ClassFiles services.host project.destination) (hstores : StoresSpare files)
    (hcompiler : WritesListed files) (hplain : CompilesPlainly services project) {start : σ}
    (course : Course services project start)
    (hregister : ∀ register loaded,
      runIn services.ownership.load course.begun = (.ok (some register), loaded) →
        Tidy register ∧ ∀ name source, register.sourceOf? name = some source →
          files.held start (fileKey project.destination name) ≠ none)
    {report : Report} (hreport : (runIn (run services project) start).1 = .ok report)
    (hsuccess : report.success = true) :
    ∃ draft, course.result = .ok draft ∧ (course.saved draft).1 = .ok () ∧
      ∀ name source, draft.ownership.sourceOf? name = some source →
        ((files.held (runIn (run services project) start).2 (fileKey project.destination name) =
              lastWritten files name (files.held start (fileKey project.destination name))
                course.rounds ∧
            files.held (runIn (run services project) start).2
              (fileKey project.destination name) ≠ none) ↔
          ¬MovedLast name course.rounds) := by
  obtain ⟨draft, hresult, hsettled, _, _, hdraft⟩ := course.of_report hreport
  rw [hsuccess] at hdraft
  refine ⟨draft, hresult, course.saved_of_settle hdraft.symm hsettled, ?_⟩
  intro name source hsource
  rw [course.held_run_of_success hstores hreport hsuccess]
  exact held_iff_of_result files hstores hcompiler hplain course hregister hresult hsource

/-!
# A class that moves

Two sources have changed, and one of them has a class now that the other one
had before. In the one direction the class keeps its file, in the other not.
-/

theorem changed_soloShelf (owner : Option String) :
    ((Shelf.soloShelf none owner).changes ["A.java", "B.java"]).isEmpty = false := by
  show (SourceChanges.between ∅ (Shelf.current ["A.java", "B.java"])).isEmpty = false
  decide +kernel

def moving (old new : String) :
    Course (Shelf.services ["A.java", "B.java"] (Shelf.soloProducts new) true)
      (Shelf.project Shelf.out) (Shelf.soloShelf none (some old)) :=
  Shelf.course Shelf.out (Shelf.soloProducts new) true Shelf.listed_pair _
    (changed_soloShelf (some old))

theorem tidy_soloRegister (owner : String) : Tidy (Shelf.soloRegister owner) := by
  refine ⟨Ownership.consistent_ofClasses _, ?_⟩
  intro name source hsource
  rw [Shelf.sourceOf?_soloRegister hsource]
  decide

theorem held_saved_class_iff_of_moved_earlier :
    let files := Shelf.classFiles ["A.java", "B.java"] (Shelf.soloProducts "A.java") true Shelf.out
    let services := Shelf.services ["A.java", "B.java"] (Shelf.soloProducts "A.java") true
    let course := moving "B.java" "A.java"
    let start := Shelf.soloShelf none (some "B.java")
    let world := (runIn (run services (Shelf.project Shelf.out)) start).2
    ∃ draft, course.result = .ok draft ∧ (course.saved draft).1 = .ok () ∧
      ∀ name source, draft.ownership.sourceOf? name = some source →
        ((files.held world (fileKey Shelf.out name) =
              lastWritten files name (files.held start (fileKey Shelf.out name)) course.rounds ∧
            files.held world (fileKey Shelf.out name) ≠ none) ↔
          ¬MovedLast name course.rounds) := by
  intro files services course start world
  have hconcluded : (course.concluded.1.toOption.map fun draft =>
      (draft.mode, draft.success)) = some (.incremental, true) := by
    decide +kernel
  obtain ⟨report, hreport, _, hsuccess⟩ := Shelf.exists_report _ hconcluded
  refine held_saved_class_iff files (Shelf.storesSpare _ _ _ _)
    (Shelf.writesListed _ _ _ (Shelf.soloProducts_binary _))
    (Shelf.compilesPlainly _ _ _ (Shelf.soloProducts_binary _) (Shelf.soloProducts_once _))
    course ?_ hreport hsuccess
  intro register loaded hloaded
  cases hloaded
  refine ⟨tidy_soloRegister "B.java", ?_⟩
  intro name source hsource
  rw [Shelf.sourceOf?_soloRegister hsource]
  exact Shelf.present_soloShelf none (some "B.java")

/-- A class that moves to the later of two sources is saved as theirs and has no file. -/
theorem not_held_saved_class_of_moved_later :
    let services := Shelf.services ["A.java", "B.java"] (Shelf.soloProducts "B.java") true
    let files := Shelf.classFiles ["A.java", "B.java"] (Shelf.soloProducts "B.java") true Shelf.out
    let key := fileKey Shelf.out Shelf.solo
    let start := Shelf.soloShelf none (some "A.java")
    let ended := runIn (run services (Shelf.project Shelf.out)) start
    WritesListed files ∧ CompilesPlainly services (Shelf.project Shelf.out) ∧
      files.held start key ≠ none ∧
      (∃ report, ended.1 = .ok report ∧ report.mode = .incremental ∧ report.success = true) ∧
      (ended.2.register.bind fun register => register.sourceOf? Shelf.solo) = some "B.java" ∧
      files.held ended.2 key = none := by
  intro services files key start ended
  have hconcluded : ((moving "A.java" "B.java").concluded.1.toOption.map fun draft =>
      (draft.mode, draft.success)) = some (.incremental, true) := by
    decide +kernel
  have howner : ((moving "A.java" "B.java").concluded.2.register.bind fun register =>
      register.sourceOf? Shelf.solo) = some "B.java" := by
    decide +kernel
  have hlost : (moving "A.java" "B.java").concluded.2.held key = none := by
    decide +kernel
  have hended : ended.2 = (moving "A.java" "B.java").concluded.2 := Shelf.run_eq_concluded _
  refine ⟨Shelf.writesListed _ _ _ (Shelf.soloProducts_binary _), ?_, ?_,
    Shelf.exists_report _ hconcluded, ?_, ?_⟩
  · exact Shelf.compilesPlainly _ _ _ (Shelf.soloProducts_binary _) (Shelf.soloProducts_once _)
  · exact Shelf.present_soloShelf none (some "A.java")
  · rw [hended]
    exact howner
  · rw [hended]
    exact hlost

end Build
end Recompile
