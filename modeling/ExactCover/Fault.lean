/-!
# Faults of the linked structure

The steps that take a mesh apart and put it back rely on an order of calls that no type expresses:
a column is restored only after it was taken out, and the latest step is undone first. A step that
meets a mesh in which this order was broken has no sensible result. It then stops with a `Fault`,
which is a mistake of the caller or of this library and never an answer about the problem at hand.

The faults are kept apart from the errors of `ExactCover.Error`, so that a statement can say that
a whole search meets none of them.
-/

set_option autoImplicit false

namespace ExactCover

/-- The reasons for which a step on the linked structure stops without a result. -/
inductive Fault where
  /-- A row would be taken out of a column whose count of rows is zero. -/
  | countUnderflow
  /-- A walk along a row reached a position that is no cell of a row. -/
  | strayFromRow
  /-- The colors of a column were to be restored, but the column has no recorded color. -/
  | notPurified
  /-- A position or an option number lies outside the structure. -/
  | outOfRange
  /-- A walk did not come back to its starting point within as many steps as there are positions.
  -/
  | endless
  /-- The structure at the end of a search fails the consistency check. -/
  | notRestored
  deriving DecidableEq, Repr

/-- The text that describes a fault. -/
def Fault.message : Fault → String
  | .countUnderflow => "attempt to subtract with overflow"
  | .strayFromRow => "internal error: entered unreachable code: row walk reached a column header"
  | .notPurified => "unpurify of a column that was never purified"
  | .outOfRange => "index out of bounds"
  | .endless => "walk does not return to its starting point"
  | .notRestored => "search did not restore the grid"

end ExactCover
