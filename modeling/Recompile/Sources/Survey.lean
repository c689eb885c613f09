import Recompile.Digest
import Recompile.Sources.Changes
import Recompile.Sources.Find
import Recompile.State.Cell

/-!
# Surveys of the sources

A survey starts from the fingerprints of the last successful build. It looks
at the source tree at most once, and what it saw then is what it reports and
what it saves, whatever happens to the tree meanwhile.
-/

namespace Recompile

inductive FingerprintMethod where
  /-- The time of the last modification, in nanoseconds. -/
  | modifiedTime
  | contentHash
deriving DecidableEq

def contentDigest (bytes : Bytes) : String :=
  Bytes.hex (Digest.sha256 bytes)

/-- A time before the epoch counts as the epoch. -/
def timeFingerprint (nanoseconds : Int) : String :=
  toString nanoseconds.toNat

structure Observation where
  fingerprints : Fingerprints
  changes : SourceChanges
deriving DecidableEq

structure Survey where
  method : FingerprintMethod
  root : Path
  committed : Fingerprints
  observation : Option Observation
deriving DecidableEq

namespace Survey

variable {m : Type → Type} [Monad m]

def start (cell : Cell m Fingerprints) (method : FingerprintMethod) (root : Path) :
    ExceptT Failure m Survey := do
  let committed ← cell.load
  return ⟨method, root, committed.getD ∅, none⟩

def fingerprint (host : Host m) (method : FingerprintMethod) (path : Path) :
    ExceptT Failure m String := do
  match method with
  | .modifiedTime => return timeFingerprint (← diskAt path (host.modified path))
  | .contentHash => return contentDigest (← diskAt path (host.readFile path))

def fingerprintsOnto (host : Host m) (method : FingerprintMethod) (root : Path)
    (taken : Fingerprints) : List String → ExceptT Failure m Fingerprints
  | [] => return taken
  | source :: rest => do
    let text ← fingerprint host method (root.join ⟨source⟩)
    fingerprintsOnto host method root (taken.insert source text) rest

def look (host : Host m) (survey : Survey) : ExceptT Failure m Observation := do
  let sources ← Find.sources host survey.root
  let current ← fingerprintsOnto host survey.method survey.root ∅ sources
  return ⟨current, SourceChanges.between survey.committed current⟩

/-- What the survey saw first, which is now if it has not looked before. -/
def observe (host : Host m) (survey : Survey) :
    ExceptT Failure m (Observation × Survey) := do
  match survey.observation with
  | some observation => return (observation, survey)
  | none =>
    let observation ← look host survey
    return (observation, { survey with observation := some observation })

def changes (host : Host m) (survey : Survey) :
    ExceptT Failure m (SourceChanges × Survey) := do
  let (observation, survey) ← observe host survey
  return (observation.changes, survey)

def sources (host : Host m) (survey : Survey) :
    ExceptT Failure m (List String × Survey) := do
  let (observation, survey) ← observe host survey
  return (observation.fingerprints.keys, survey)

/-- Saves what was seen; a survey that never looked saves nothing. -/
def commit (cell : Cell m Fingerprints) (survey : Survey) :
    ExceptT Failure m Unit := do
  match survey.observation with
  | some observation => cell.save observation.fingerprints
  | none => return ()

end Survey
end Recompile
