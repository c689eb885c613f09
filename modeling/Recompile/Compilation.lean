import Recompile.Ownership

/-!
# Compiling sources

A batch is a list of sources below a root that are compiled together. The
outcome says which classes each of them produced and which messages it drew,
and the status of each source of the batch follows from that.
-/

namespace Recompile

structure Batch where
  sourceRoot : Path
  /-- Relative to the root, with slashes. -/
  sources : List String
  classpath : String
  destination : Path
deriving DecidableEq

structure Outcome where
  success : Bool
  produced : Std.ExtTreeMap String ClassSet
  diagnostics : Std.ExtTreeMap String (List String)

inductive SourceStatus where
  | ok
  | failed (diagnostics : List String)
deriving DecidableEq

namespace SourceStatus

def isOk : SourceStatus → Bool
  | ok => true
  | failed _ => false

/-- Two results for one source; a failure wins, and messages stay in order. -/
def merge : SourceStatus → SourceStatus → SourceStatus
  | failed earlier, failed later => failed (earlier ++ later)
  | failed messages, ok => failed messages
  | ok, failed messages => failed messages
  | ok, ok => ok

end SourceStatus

namespace Outcome

def nothing : Outcome :=
  ⟨true, ∅, ∅⟩

def classes (outcome : Outcome) : List ClassName :=
  outcome.produced.toList.flatMap fun (_, classes) => classes.toList

/-- A failure that blames no source. -/
def isUnattributed (outcome : Outcome) : Bool :=
  !outcome.success && outcome.diagnostics.isEmpty

/--
The status of one source. A source without messages compiled cleanly, unless
the failure blames no source at all.
-/
def status (outcome : Outcome) (source : String) : SourceStatus :=
  match outcome.diagnostics[source]? with
  | some messages => .failed messages
  | none => if outcome.isUnattributed then .failed [] else .ok

def statuses (outcome : Outcome) (sources : List String) :
    Std.ExtTreeMap String SourceStatus :=
  sources.foldl (fun known source => known.insert source (outcome.status source)) ∅

end Outcome
end Recompile
