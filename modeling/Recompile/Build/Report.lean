import Recompile.Compilation
import Recompile.Sources.Changes

/-!
# Build reports

A report says what kind of build it was, which sources had changed, how each
compiled source came through, and which sources were compiled only because a
class that they use had changed.
-/

namespace Recompile

inductive Mode where
  | noOp
  | cold
  | incremental
deriving DecidableEq

def Mode.word : Mode → String
  | noOp => "no_op"
  | cold => "cold"
  | incremental => "incremental"

structure Report where
  mode : Mode
  changes : SourceChanges
  statuses : Std.ExtTreeMap String SourceStatus
  /-- The sources compiled only because of a class they use. -/
  dependants : SourceSet
  success : Bool
  milliseconds : Nat
deriving DecidableEq

def Report.compiled (report : Report) : Nat :=
  report.statuses.size

end Recompile
