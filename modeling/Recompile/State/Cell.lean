import Recompile.Failure

/-!
# Cells

What has to survive from one build to the next is kept in cells, one for each
kind of value. A cell that was never saved to is different from one that
holds an empty value.
-/

namespace Recompile

/-- A place where a value is kept; loading gives `none` when none was ever saved. -/
structure Cell (m : Type → Type) (α : Type) where
  load : ExceptT Failure m (Option α)
  save : α → ExceptT Failure m Unit

end Recompile
