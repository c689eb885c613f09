import Recompile.Proofs.Build.Coverage

/-!
# Stray class files

A class that has a file but no source is a stray. An attempt leaves no strays
that were not there before. When it is undone, a class that has a file has had
one before: what is put back was there, and a new class file that is not removed
is that of a class which was seen before.
-/

namespace Recompile

variable {σ : Type}

def ClassFiles.HoldsClass {host : Host (StateM σ)} {destination : Path}
    (files : ClassFiles host destination) (world : σ) (name : ClassName) : Prop :=
  ∃ bytes surface, files.held world (fileKey destination name) = some bytes ∧
    ClassFile.surfaceOf bytes = .ok surface ∧ surface.name = name

namespace ClassFiles

variable {host : Host (StateM σ)} {destination : Path} {files : ClassFiles host destination}
  {world world' left : σ} {name : ClassName}

theorem HoldsClass.of_held_eq (h : files.HoldsClass world name)
    (hheld : files.held world' = files.held world) : files.HoldsClass world' name := by
  unfold HoldsClass
  rw [hheld]
  exact h

theorem Placed.holdsClass (hplaced : files.Placed world) {key : FileKey} {bytes : Bytes}
    {surface : ClassSurface} (hbytes : files.held world key = some bytes)
    (hsurface : ClassFile.surfaceOf bytes = .ok surface) :
    files.HoldsClass world surface.name := by
  refine ⟨bytes, surface, ?_, hsurface, rfl⟩
  rw [← hplaced hbytes hsurface]
  exact hbytes

theorem holdsClass_of_contains (hreads : files.ReadsListed) (hplaced : files.Placed world)
    {snapshot : Snapshot}
    (htake : runIn (Inventory.take host destination) world = (.ok snapshot, left))
    (hcontains : snapshot.contains name = true) : files.HoldsClass world name := by
  unfold Snapshot.contains at hcontains
  rw [Std.ExtTreeMap.contains_eq_isSome_getElem?, Option.isSome_iff_exists] at hcontains
  rcases hcontains with ⟨surface, hfound⟩
  rcases exists_file_of_get? hreads hplaced htake hfound with ⟨bytes, hbytes, hsurface, hname⟩
  exact ⟨bytes, surface, hbytes, hsurface, hname⟩

end ClassFiles

theorem Backup.noted?_note_classFile (backup : Backup) (destination : Path) (name : ClassName)
    (previous : Option Bytes) (key : FileKey) :
    (backup.note (classFileIn destination name) previous).noted? key =
      if fileKey destination name = key ∧ backup.noted? key = none then some previous
      else backup.noted? key :=
  backup.noted?_note _ previous key

namespace Build

variable {services : Services (StateM σ)} {project : Project}
  {files : ClassFiles services.host project.destination}
  {register : Ownership} {sources : List String} {world world' compiled : σ}
  {outcome : Outcome} {ledger ledger' : Ledger} {name : ClassName}

/-- Whether a class has its file, but no source that is registered. -/
def Strays (files : ClassFiles services.host project.destination) (register : Ownership)
    (world : σ) (name : ClassName) : Prop :=
  register.sourceOf? name = none ∧ files.HoldsClass world name

/-!
# Strays of an attempt
-/

theorem Cleared.strays (h : Cleared files register sources world ledger world')
    (hconsistent : register.Consistent) (hstrays : Strays files ledger.ownership world' name) :
    Strays files register world name := by
  rcases hstrays with ⟨hnone, bytes, surface, hbytes, hsurface⟩
  refine ⟨?_, bytes, surface, (h.deletion.held_of_some hbytes).2, hsurface⟩
  rw [Option.eq_none_iff_forall_ne_some]
  intro source hsource
  have hkept := h.sourceOf?_of_held hconsistent hbytes hsource
  rw [hnone] at hkept
  cases hkept

theorem Batched.strays (h : Batched files ledger world outcome compiled ledger' world')
    (hconsistent : ledger.ownership.Consistent) (hnamed : Named files outcome compiled)
    (hstrays : Strays files ledger'.ownership world' name) :
    Strays files ledger.ownership world name := by
  rcases hstrays with ⟨hnone, bytes, surface, hbytes, hsurface, hname⟩
  have hunlisted : name ∉ outcome.classes := by
    intro hlisted
    rcases h.sourceOf?_of_listed hconsistent hlisted with ⟨entry, _, hsource⟩
    rw [hnone] at hsource
    cases hsource
  constructor
  · rw [Option.eq_none_iff_forall_ne_some]
    intro source hsource
    have hkept := h.sourceOf?_of_unlisted hconsistent hbytes hunlisted hsource
    rw [hnone] at hkept
    cases hkept
  · rw [← hname] at hbytes hunlisted ⊢
    exact ⟨bytes, surface, h.held_of_unlisted hnamed hbytes hsurface hunlisted, hsurface, rfl⟩

theorem Reviews.strays {changes : SourceChanges} {reviewed : Reviewed}
    (reviews : Reviews files changes register world reviewed world')
    (hconsistent : register.Consistent)
    (hstrays : Strays files reviewed.ledger.ownership world' name) :
    Strays files register world name := by
  have hopened : reviews.opened.ownership.Consistent := by
    rw [reviews.cleared.removed.ownership_eq]
    exact hconsistent.removeAll _
  exact reviews.cleared.strays hconsistent (reviews.batched.strays hopened reviews.named hstrays)

section Finishing

variable {changes : SourceChanges} {progress progress' : Progress} {draft : Draft}

theorem Completion.consistent_of_finishes
    {stages : Completion services project changes register progress world}
    (hconsistent : register.Consistent) (hfinishes : stages.Finishes draft progress' world') :
    draft.ownership.Consistent := by
  have hreviewed := stages.consistent_reviewed hconsistent
  rcases hfinishes.cases with ⟨_, hownership, _⟩ | ⟨_, ⟨second⟩⟩
  · rw [hownership]
    exact hreviewed
  · rw [second.ownership_eq, (entered_of_runFrom second.registers).ownership_eq]
    exact hreviewed.registerAll _

theorem Completion.leadsBelow_of_finishes
    {stages : Completion services project changes register progress world}
    (hwrites : WritesListed files) (hbelow : register.LeadsBelow)
    (hfinishes : stages.Finishes draft progress' world') : draft.ownership.LeadsBelow := by
  have hreviewed :=
    (stages.reviewedBatch hwrites hbelow).leadsBelow (stages.leadsBelow_opened hbelow)
  rcases hfinishes.cases with ⟨_, hownership, _⟩ | ⟨_, ⟨second⟩⟩
  · rw [hownership]
    exact hreviewed
  · rw [second.ownership_eq]
    exact (second.batch hwrites hbelow).leadsBelow hreviewed

theorem leadsBelow_of_compileAll (hwrites : WritesListed files) {observation : Observation}
    (hseen : progress.survey.observation = some observation)
    (hrun : (compileAll services project).runFrom progress world = (.ok draft, progress', world')) :
    ∀ name ∈ draft.ownership.byClass.keys, name.LeadsBelow := by
  rw [runFrom_compileAll hseen] at hrun
  rcases hcompiled : (compile services project observation.fingerprints.keys).runFrom progress
    world with ⟨compiled, middle, left⟩
  rw [hcompiled] at hrun
  cases compiled with
  | error error => cases hrun
  | ok outcome =>
      cases hrun
      rcases hwrites.compile_ok hcompiled with ⟨_, haccounts⟩
      have hempty := Ownership.consistent_empty.registerAll outcome.produced.toList
      exact hempty.holdsOnly_iff.mp
        ((Ownership.holdsOnly_empty _).registerAll haccounts.below_of_mem)

end Finishing

theorem Completion.strays_of_finishes {changes : SourceChanges} {progress progress' : Progress}
    {draft : Draft} {stages : Completion services project changes register progress world}
    (hwrites : WritesListed files) (hnames : NamesFiles files)
    (hconsistent : register.Consistent) (hbelow : register.LeadsBelow)
    (hfinishes : stages.Finishes draft progress' world')
    (hstrays : Strays files draft.ownership world' name) : Strays files register world name := by
  have hreviewed : Strays files stages.reviewed.ownership stages.reviewedWorld name := by
    rcases hfinishes.cases with ⟨_, hownership, _, hworld⟩ | ⟨_, ⟨second⟩⟩
    · rw [hownership, hworld] at hstrays
      exact hstrays
    · rw [second.ownership_eq] at hstrays
      exact (second.batch hwrites hbelow).strays (stages.consistent_reviewed hconsistent)
        (hnames.of_compileBatch second.compiles) hstrays
  have hreviews : Nonempty (Reviews files changes register world
      ⟨stages.before, stages.outcome, stages.reviewed, stages.after⟩ stages.reviewedWorld) :=
    nonempty_reviews hwrites hnames hbelow stages.opens stages.compiles stages.reviews
  rcases hreviews with ⟨reviews⟩
  exact reviews.strays hconsistent hreviewed

/-!
# What steps keep of class files

A step backs a file up as it is, deletes one, or compiles. What each of these
keeps of the backup and the class files, all steps keep.
-/

section Steps

variable {keeps : Backup → (FileKey → Option Bytes) → Prop}

theorem maintains_backUpFile
    (hnote : ∀ {backup held} name, keeps backup held →
      keeps (backup.note (classFileIn project.destination name)
        (held (fileKey project.destination name))) held) (name : ClassName)
    (hname : name.LeadsBelow) :
    (backUpFile services (classFileIn project.destination name)).Maintains
      (fun progress world => keeps progress.backup (files.held world)) fun _ => True := by
  intro progress world hkeeps
  refine ⟨?_, fun _ _ => trivial⟩
  by_cases hsaved : progress.backup.isSaved (classFileIn project.destination name) = true
  · rw [runFrom_backUpFile_of_saved hsaved]
    exact hkeeps
  · have hnoted := hnote name hkeeps
    rw [runFrom_backUpFile_of_not_saved (Bool.eq_false_iff.mpr hsaved)]
    have hheld := files.readFile_keeps (classFileIn project.destination name) world
    rcases hread : (services.host.readFile (classFileIn project.destination name)).run world with
      ⟨found, left⟩
    have hfound : ((services.host.readFile
        (classFileIn project.destination name)).run world).1 = found := by
      rw [hread]
    rw [hread] at hheld
    simp only at hheld
    rw [← hheld] at hkeeps hnoted
    rcases found with fault | bytes
    · cases fault
      case notFound =>
        rw [hheld, files.readFile_notFound hname hfound, ← hheld] at hnoted
        exact hnoted
      all_goals exact hkeeps
    · rw [hheld, files.readFile_ok hname hfound, ← hheld] at hnoted
      exact hnoted

theorem maintains_removeIfThere
    (hdelete : ∀ {backup held} name, keeps backup held →
      keeps backup (Function.update held (fileKey project.destination name) none))
    (name : ClassName) (hname : name.LeadsBelow) :
    Step.Maintains (fun progress world => keeps progress.backup (files.held world)) (fun _ => True)
      (perform (Backup.removeIfThere services.host (classFileIn project.destination name))) := by
  intro progress world hkeeps
  refine ⟨?_, fun _ _ => trivial⟩
  rcases hremoved : runIn (Backup.removeIfThere services.host
    (classFileIn project.destination name)) world with ⟨removed, left⟩
  rw [Step.runFrom_perform, hremoved]
  simp only
  cases removed with
  | ok value =>
      rw [files.held_removeIfThere hname hremoved]
      exact hdelete name hkeeps
  | error error =>
      rw [files.held_removeIfThere_error hname hremoved]
      exact hkeeps

theorem maintains_compileNoting (hwrites : WritesListed files) (hnames : NamesFiles files)
    {before : Snapshot}
    (hcompile : ∀ {backup world outcome world'}, Accounts files world outcome world' →
      Named files outcome world' → keeps backup (files.held world) →
        keeps (backup.noteProduced project.destination before outcome) (files.held world'))
    (sources : List String) :
    Step.Maintains (fun progress world => keeps progress.backup (files.held world)) (fun _ => True)
      (do
        let outcome ← compile services project sources
        modifyBackup fun backup => backup.noteProduced project.destination before outcome
        return outcome) := by
  intro progress world hkeeps
  refine ⟨?_, fun _ _ => trivial⟩
  rw [Step.runFrom_bind]
  rcases hcompiled : (compile services project sources).runFrom progress world with
    ⟨result, middle, left⟩
  cases result with
  | ok outcome =>
      rcases hwrites.compile_ok hcompiled with ⟨hsame, haccounts⟩
      have hkept := hcompile haccounts (hnames.of_compile hcompiled) hkeeps
      rw [hsame]
      exact hkept
  | error error =>
      rcases hwrites.compile_error hcompiled with ⟨hsame, hheld⟩
      rw [hsame]
      simp only
      rw [hheld]
      exact hkeeps

theorem works_of_files (hwrites : WritesListed files) (hnames : NamesFiles files)
    {before : Snapshot}
    (hnote : ∀ {backup held} name, keeps backup held →
      keeps (backup.note (classFileIn project.destination name)
        (held (fileKey project.destination name))) held)
    (hdelete : ∀ {backup held} name, keeps backup held →
      keeps backup (Function.update held (fileKey project.destination name) none))
    (hcompile : ∀ {backup world outcome world'}, Accounts files world outcome world' →
      Named files outcome world' → keeps backup (files.held world) →
        keeps (backup.noteProduced project.destination before outcome) (files.held world')) :
    Works services project before ClassName.LeadsBelow
      (fun progress world => keeps progress.backup (files.held world)) fun _ => True where
  take := by
    intro progress world hkeeps
    refine ⟨?_, fun _ _ => trivial⟩
    have hspares := files.spares_take project.destination world
    rw [Step.runFrom_perform]
    simp only
    rw [hspares]
    exact hkeeps
  backUpFile := maintains_backUpFile hnote
  deleteFile := maintains_removeIfThere hdelete
  compileNoting := maintains_compileNoting hwrites hnames hcompile
  listed hcall := (hwrites.accounts hcall).below

end Steps

/-!
# Files keep to their places
-/

def KeepsPlaces (destination : Path) (backup : Backup) (held : FileKey → Option Bytes) : Prop :=
  ∀ ⦃key bytes⦄, held key = some bytes ∨ backup.noted? key = some (some bytes) →
    ∀ surface, ClassFile.surfaceOf bytes = .ok surface → key = fileKey destination surface.name

variable {backup : Backup} {held : FileKey → Option Bytes} {key : FileKey} {bytes : Bytes}

theorem keepsPlaces_of_placed (hplaced : files.Placed world) :
    KeepsPlaces project.destination .empty (files.held world) := by
  intro key bytes hbytes surface hsurface
  rcases hbytes with hbytes | hnoted
  · exact hplaced hbytes hsurface
  · rw [Backup.noted?_empty] at hnoted
    cases hnoted

theorem KeepsPlaces.placed (h : KeepsPlaces project.destination backup (files.held world)) :
    files.Placed world :=
  fun _ _ _ hbytes hsurface => h (Or.inl hbytes) _ hsurface

theorem KeepsPlaces.placed_restored
    (h : KeepsPlaces project.destination backup (files.held world))
    (hrestored : files.held world' = files.restored backup world) : files.Placed world' := by
  intro key bytes surface hbytes hsurface
  rw [hrestored] at hbytes
  unfold ClassFiles.restored at hbytes
  cases hnoted : backup.noted? key with
  | none =>
      rw [hnoted] at hbytes
      exact h (Or.inl hbytes) surface hsurface
  | some previous =>
      rw [hnoted, Option.getD_some] at hbytes
      rw [hbytes] at hnoted
      exact h (Or.inr hnoted) surface hsurface

theorem KeepsPlaces.after_compile (h : KeepsPlaces project.destination backup (files.held world))
    (haccounts : Accounts files world outcome world') (hnamed : Named files outcome world') :
    KeepsPlaces project.destination backup (files.held world') := by
  intro key bytes hbytes surface hsurface
  rcases hbytes with hbytes | hnoted
  · exact haccounts.placed hnamed h.placed hbytes hsurface
  · exact h (Or.inr hnoted) surface hsurface

theorem works_keepsPlaces (hwrites : WritesListed files) (hnames : NamesFiles files)
    (before : Snapshot) :
    Works services project before ClassName.LeadsBelow
      (fun progress world =>
        KeepsPlaces project.destination progress.backup (files.held world)) fun _ => True := by
  apply works_of_files hwrites hnames
  · intro backup held name hplaces key bytes hbytes surface hsurface
    rw [Backup.noted?_note_classFile] at hbytes
    rcases hbytes with hbytes | hnoted
    · exact hplaces (Or.inl hbytes) surface hsurface
    · by_cases hnew : fileKey project.destination name = key ∧ backup.noted? key = none
      · rw [if_pos hnew, hnew.1, Option.some.injEq] at hnoted
        exact hplaces (Or.inl hnoted) surface hsurface
      · rw [if_neg hnew] at hnoted
        exact hplaces (Or.inr hnoted) surface hsurface
  · intro backup held name hplaces key bytes hbytes surface hsurface
    rcases hbytes with hbytes | hnoted
    · by_cases hsame : key = fileKey project.destination name
      · rw [hsame, Function.update_self] at hbytes
        cases hbytes
      · rw [Function.update_of_ne hsame] at hbytes
        exact hplaces (Or.inl hbytes) surface hsurface
    · exact hplaces (Or.inr hnoted) surface hsurface
  · intro backup world outcome world' haccounts hnamed hplaces key bytes hbytes surface hsurface
    refine (hplaces.after_compile haccounts hnamed) ?_ surface hsurface
    refine hbytes.imp_right fun hnoted => ?_
    unfold Backup.noteProduced at hnoted
    rw [Backup.noted?_noteAbsent] at hnoted
    split at hnoted
    · cases hnoted
    · exact hnoted

theorem taken_of_runFrom_compileChanges (files : ClassFiles services.host project.destination)
    {changes : SourceChanges} {progress progress' : Progress}
    {result : Except Failure (Option Draft)}
    (hrun : (compileChanges services project changes register).runFrom progress world =
      (result, progress', world')) :
    (progress' = progress ∧ files.held world' = files.held world) ∨
      ∃ before between,
        runIn (Inventory.take services.host project.destination) world = (.ok before, between) ∧
        files.held between = files.held world ∧
        (proceed services project changes register before).runFrom progress between =
          (result, progress', world') := by
  have hkept := files.spares_take project.destination world
  rw [runFrom_compileChanges] at hrun
  rcases htake : runIn (Inventory.take services.host project.destination) world with
    ⟨taken, between⟩
  rw [htake] at hrun hkept
  cases taken with
  | error error =>
      cases hrun
      exact Or.inl ⟨rfl, hkept⟩
  | ok before => exact Or.inr ⟨before, between, rfl, hkept, hrun⟩

theorem keepsPlaces_of_compileChanges (hwrites : WritesListed files) (hnames : NamesFiles files)
    (hbelow : register.LeadsBelow) {changes : SourceChanges} {progress progress' : Progress}
    {result : Except Failure (Option Draft)}
    (hplaces : KeepsPlaces project.destination progress.backup (files.held world))
    (hrun : (compileChanges services project changes register).runFrom progress world =
      (result, progress', world')) :
    KeepsPlaces project.destination progress'.backup (files.held world') := by
  rcases taken_of_runFrom_compileChanges files hrun with
    ⟨hsame, hheld⟩ | ⟨before, between, _, hheld, hrun⟩
  · rw [hsame, hheld]
    exact hplaces
  · rw [← hheld] at hplaces
    exact (((works_keepsPlaces hwrites hnames before).proceed (fun _ _ _ _ => trivial)
      hbelow).of_runFrom hplaces hrun).1

theorem keepsPlaces_of_compileAll (hwrites : WritesListed files) (hnames : NamesFiles files)
    {progress progress' : Progress} {observation : Observation} {result : Except Failure Draft}
    (hseen : progress.survey.observation = some observation)
    (hplaces : KeepsPlaces project.destination progress.backup (files.held world))
    (hrun : (compileAll services project).runFrom progress world = (result, progress', world')) :
    KeepsPlaces project.destination progress'.backup (files.held world') := by
  rw [runFrom_compileAll hseen] at hrun
  rcases hcompiled : (compile services project observation.fingerprints.keys).runFrom progress
    world with ⟨compiled, middle, left⟩
  rw [hcompiled] at hrun
  cases compiled with
  | error error =>
      cases hrun
      rcases hwrites.compile_error hcompiled with ⟨hsame, hheld⟩
      rw [hsame, hheld]
      exact hplaces
  | ok outcome =>
      cases hrun
      rcases hwrites.compile_ok hcompiled with ⟨hsame, haccounts⟩
      rw [hsame]
      exact hplaces.after_compile haccounts (hnames.of_compile hcompiled)

/-!
# What undoing brings back

A file that is there once an attempt is undone was there before, or its class was
seen before, and then that class had its file.
-/

/-- Whether each file that undoing would leave was there at first, or its class was seen then. -/
def Traces (destination : Path) (before : Snapshot) (first : FileKey → Option Bytes)
    (backup : Backup) (held : FileKey → Option Bytes) : Prop :=
  ∀ ⦃key bytes⦄, (backup.noted? key).getD (held key) = some bytes →
    first key = some bytes ∨
      ∃ name, before.contains name = true ∧ fileKey destination name = key ∧
        ∀ surface, ClassFile.surfaceOf bytes = .ok surface → surface.name = name

namespace Traces

variable {destination : Path} {before : Snapshot} {first : FileKey → Option Bytes}

theorem after_note (h : Traces destination before first backup held) (name : ClassName) :
    Traces destination before first
      (backup.note (classFileIn destination name) (held (fileKey destination name))) held := by
  intro key bytes hbytes
  apply h
  rw [Backup.noted?_note_classFile] at hbytes
  by_cases hnew : fileKey destination name = key ∧ backup.noted? key = none
  · rw [if_pos hnew, hnew.1, Option.getD_some] at hbytes
    rw [hnew.2]
    exact hbytes
  · rw [if_neg hnew] at hbytes
    exact hbytes

theorem after_delete (h : Traces destination before first backup held) (name : ClassName) :
    Traces destination before first backup
      (Function.update held (fileKey destination name) none) := by
  intro key bytes hbytes
  apply h
  cases hnoted : backup.noted? key with
  | some previous =>
      rw [hnoted] at hbytes
      exact hbytes
  | none =>
      rw [hnoted, Option.getD_none] at hbytes
      by_cases hsame : key = fileKey destination name
      · rw [hsame, Function.update_self] at hbytes
        cases hbytes
      · rw [Function.update_of_ne hsame] at hbytes
        exact hbytes

theorem after_compile {outcome : Outcome}
    (h : Traces project.destination before first backup (files.held world))
    (haccounts : Accounts files world outcome world') (hnamed : Named files outcome world') :
    Traces project.destination before first
      (backup.noteProduced project.destination before outcome) (files.held world') := by
  intro key bytes hbytes
  unfold Backup.noteProduced at hbytes
  rw [Backup.noted?_noteAbsent] at hbytes
  by_cases hnew : backup.noted? key = none ∧ ∃ name ∈ outcome.classes,
      before.contains name = false ∧ fileKey project.destination name = key
  · rw [if_pos hnew, Option.getD_some] at hbytes
    cases hbytes
  · rw [if_neg hnew] at hbytes
    cases hnoted : backup.noted? key with
    | some previous =>
        apply h
        rw [hnoted] at hbytes ⊢
        exact hbytes
    | none =>
        rw [hnoted, Option.getD_none] at hbytes
        by_cases hlisted : ∃ name ∈ outcome.classes, fileKey project.destination name = key
        · rcases hlisted with ⟨name, hname, hkey⟩
          -- a file that is not taken for a new one holds a class that was seen before
          right
          refine ⟨name, ?_, hkey, ?_⟩
          · rw [← Bool.not_eq_false]
            exact fun hunseen => hnew ⟨hnoted, name, hname, hunseen, hkey⟩
          · intro surface hsurface
            rw [← hkey] at hbytes
            exact hnamed name hname hbytes hsurface
        · have hunlisted : ∀ name ∈ outcome.classes, fileKey project.destination name ≠ key :=
            fun name hname hkey => hlisted ⟨name, hname, hkey⟩
          apply h
          rw [haccounts.unlisted key hunlisted] at hbytes
          rw [hnoted]
          exact hbytes

end Traces

theorem works_traces (hwrites : WritesListed files) (hnames : NamesFiles files)
    (before : Snapshot) (first : FileKey → Option Bytes) :
    Works services project before ClassName.LeadsBelow
      (fun progress world =>
        Traces project.destination before first progress.backup (files.held world))
      fun _ => True :=
  works_of_files hwrites hnames (fun name htraces => htraces.after_note name)
    (fun name htraces => htraces.after_delete name)
    fun haccounts hnamed htraces => htraces.after_compile haccounts hnamed

/-- Once an attempt is undone, no class has a file that had none before. -/
theorem holdsClass_of_undone (hwrites : WritesListed files) (hnames : NamesFiles files)
    (hreads : files.ReadsListed) (hbelow : register.LeadsBelow) (hplaced : files.Placed world)
    {changes : SourceChanges} {progress progress' : Progress}
    {result : Except Failure (Option Draft)} (hempty : progress.backup = .empty)
    (hrun : (compileChanges services project changes register).runFrom progress world =
      (result, progress', world')) {surface : ClassSurface}
    (hbytes : files.restored progress'.backup world' key = some bytes)
    (hsurface : ClassFile.surfaceOf bytes = .ok surface) :
    files.HoldsClass world surface.name := by
  unfold ClassFiles.restored at hbytes
  rcases taken_of_runFrom_compileChanges files hrun with
    ⟨hsame, hheld⟩ | ⟨before, between, htake, hheld, hrun⟩
  · rw [hsame, hempty, Backup.noted?_empty, Option.getD_none, hheld] at hbytes
    exact hplaced.holdsClass hbytes hsurface
  · have hfirst : Traces project.destination before (files.held world) progress.backup
        (files.held between) := by
      intro key bytes hbytes
      rw [hempty, Backup.noted?_empty, Option.getD_none, hheld] at hbytes
      exact Or.inl hbytes
    have htraces := (((works_traces hwrites hnames before (files.held world)).proceed
      (fun _ _ _ _ => trivial) hbelow).of_runFrom hfirst hrun).1
    rcases htraces hbytes with hheld | ⟨name, hseen, _, hnamed⟩
    · exact hplaced.holdsClass hheld hsurface
    · rw [hnamed surface hsurface]
      exact ClassFiles.holdsClass_of_contains hreads hplaced htake hseen

end Build
end Recompile
