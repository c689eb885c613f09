import Recompile.Build.Inventory
import Recompile.Sources.Survey
import Recompile.Proofs.Step

/-!
# What operations maintain

A property of the surroundings that single calls of a host keep is kept by all
that is put together from such calls, also where it fails. The ways in which
the whole can fail are those of its parts.
-/

namespace Recompile

variable {σ α β : Type}

/-- Whether an operation keeps a property of the surroundings and fails in certain ways only. -/
def Maintains (keeps : σ → Prop) (fails : Failure → Prop)
    (operation : ExceptT Failure (StateM σ) α) : Prop :=
  ∀ world, keeps world →
    keeps (runIn operation world).2 ∧
      ∀ error, (runIn operation world).1 = .error error → fails error

variable {keeps : σ → Prop} {fails : Failure → Prop}

theorem Maintains.of_runIn {operation : ExceptT Failure (StateM σ) α} {world left : σ}
    {result : Except Failure α} (h : Maintains keeps fails operation) (hkeeps : keeps world)
    (hrun : runIn operation world = (result, left)) :
    keeps left ∧ ∀ error, result = .error error → fails error := by
  have hmaintained := h world hkeeps
  rw [hrun] at hmaintained
  exact hmaintained

theorem maintains_pure (value : α) :
    Maintains keeps fails (pure value : ExceptT Failure (StateM σ) α) :=
  fun _ hkeeps => ⟨hkeeps, nofun⟩

theorem maintains_throw {error : Failure} (herror : fails error) :
    Maintains keeps fails (throw error : ExceptT Failure (StateM σ) α) := by
  intro world hkeeps
  refine ⟨hkeeps, ?_⟩
  intro thrown hthrown
  cases hthrown
  exact herror

theorem maintains_lift {operation : StateM σ α}
    (h : ∀ world, keeps world → keeps (operation.run world).2) :
    Maintains keeps fails (monadLift operation : ExceptT Failure (StateM σ) α) :=
  fun world hkeeps => ⟨h world hkeeps, nofun⟩

theorem Maintains.bind {operation : ExceptT Failure (StateM σ) α}
    {next : α → ExceptT Failure (StateM σ) β} (hfirst : Maintains keeps fails operation)
    (hnext : ∀ value, Maintains keeps fails (next value)) :
    Maintains keeps fails (operation >>= next) := by
  intro world hkeeps
  obtain ⟨hbetween, hfails⟩ := hfirst world hkeeps
  rw [runIn_bind]
  rcases hrun : runIn operation world with ⟨result, between⟩
  rw [hrun] at hbetween hfails
  cases result with
  | ok value => exact hnext value between hbetween
  | error error =>
      refine ⟨hbetween, ?_⟩
      intro found hfound
      cases hfound
      exact hfails error rfl

theorem maintains_diskAt (path : Path) {operation : StateM σ (Except IoFault α)}
    (h : ∀ world, keeps world → keeps (operation.run world).2)
    (hdisk : ∀ cause, fails (.disk path cause)) :
    Maintains keeps fails (diskAt path operation) := by
  refine (maintains_lift h).bind fun result => ?_
  cases result with
  | ok value => exact maintains_pure value
  | error cause => exact maintains_throw (hdisk cause)

theorem maintains_mapM {act : α → ExceptT Failure (StateM σ) β} (items : List α)
    (h : ∀ item ∈ items, Maintains keeps fails (act item)) :
    Maintains keeps fails (items.mapM act) := by
  induction items with
  | nil => exact maintains_pure _
  | cons item rest ih =>
      rw [List.mapM_cons]
      refine (h item List.mem_cons_self).bind fun _ => ?_
      refine Maintains.bind ?_ fun _ => maintains_pure _
      exact ih fun other hother => h other (List.mem_cons_of_mem _ hother)

/-!
# Looking

Directories are listed and files are read, and sources are surveyed. Nothing
else can go wrong than that the disk fails or that a class file is malformed.
-/

structure Looks (host : Host (StateM σ)) (keeps : σ → Prop) (fails : Failure → Prop) : Prop where
  kindOf : ∀ path world, keeps world → keeps ((host.kindOf path).run world).2
  filesBelow : ∀ path world, keeps world → keeps ((host.filesBelow path).run world).2
  readFile : ∀ path world, keeps world → keeps ((host.readFile path).run world).2
  modified : ∀ path world, keeps world → keeps ((host.modified path).run world).2
  disk : ∀ path cause, fails (.disk path cause)
  malformedClass : ∀ path reason, fails (.malformedClass path reason)

namespace Looks

variable {host : Host (StateM σ)} (h : Looks host keeps fails)
include h

theorem isDirectory (path : Path) :
    Maintains keeps fails
      (monadLift (host.isDirectory path) : ExceptT Failure (StateM σ) Bool) := by
  refine maintains_lift fun world hkeeps => ?_
  have hkept := h.kindOf path world hkeeps
  unfold Host.isDirectory
  rw [StateT.run_bind]
  rcases hkind : (host.kindOf path).run world with ⟨kind, left⟩
  rw [hkind] at hkept
  rcases kind with fault | kind
  · exact hkept
  · cases kind <;> exact hkept

theorem files (root : Path) : Maintains keeps fails (Find.files host root) := by
  unfold Find.files
  by_cases hinput : Find.isStandardInput root = true
  · rw [if_pos hinput]
    exact maintains_pure []
  · rw [if_neg hinput]
    exact maintains_diskAt root (h.filesBelow root) (h.disk root)

theorem classFiles (root : Path) : Maintains keeps fails (Find.classFiles host root) := by
  unfold Find.classFiles
  refine (h.isDirectory root).bind fun isDirectory => ?_
  cases isDirectory with
  | false => exact maintains_pure []
  | true => exact (h.files root).bind fun _ => maintains_pure _

theorem sources (root : Path) : Maintains keeps fails (Find.sources host root) := by
  unfold Find.sources
  refine (h.isDirectory root).bind fun isDirectory => ?_
  cases isDirectory with
  | false =>
      refine (maintains_throw (h.disk root _)).bind fun _ => ?_
      exact (h.files root).bind fun _ => maintains_pure _
  | true => exact (h.files root).bind fun _ => maintains_pure _

theorem readClass (path : Path) : Maintains keeps fails (Inventory.readClass host path) := by
  unfold Inventory.readClass
  refine (maintains_diskAt path (h.readFile path) (h.disk path)).bind fun bytes => ?_
  cases ClassFile.surfaceOf bytes with
  | ok surface => exact maintains_pure surface
  | error reason => exact maintains_throw (h.malformedClass path reason)

theorem take (root : Path) : Maintains keeps fails (Inventory.take host root) := by
  unfold Inventory.take
  refine (h.classFiles root).bind fun paths => ?_
  refine Maintains.bind ?_ fun _ => maintains_pure _
  exact maintains_mapM paths fun path _ => h.readClass path

theorem fingerprint (method : FingerprintMethod) (path : Path) :
    Maintains keeps fails (Survey.fingerprint host method path) := by
  cases method with
  | modifiedTime =>
      exact (maintains_diskAt path (h.modified path) (h.disk path)).bind
        fun _ => maintains_pure _
  | contentHash =>
      exact (maintains_diskAt path (h.readFile path) (h.disk path)).bind
        fun _ => maintains_pure _

theorem fingerprintsOnto (method : FingerprintMethod) (root : Path) (taken : Fingerprints)
    (sources : List String) :
    Maintains keeps fails (Survey.fingerprintsOnto host method root taken sources) := by
  induction sources generalizing taken with
  | nil => exact maintains_pure taken
  | cons source rest ih => exact (h.fingerprint method _).bind fun _ => ih _

theorem look (survey : Survey) : Maintains keeps fails (survey.look host) := by
  unfold Survey.look
  refine (h.sources survey.root).bind fun sources => ?_
  exact (h.fingerprintsOnto survey.method survey.root ∅ sources).bind fun _ => maintains_pure _

theorem observe (survey : Survey) : Maintains keeps fails (survey.observe host) := by
  unfold Survey.observe
  cases survey.observation with
  | some observation => exact maintains_pure _
  | none => exact (h.look survey).bind fun _ => maintains_pure _

theorem changes (survey : Survey) : Maintains keeps fails (survey.changes host) :=
  (h.observe survey).bind fun _ => maintains_pure _

theorem surveyed (survey : Survey) : Maintains keeps fails (survey.sources host) :=
  (h.observe survey).bind fun _ => maintains_pure _

end Looks
end Recompile
