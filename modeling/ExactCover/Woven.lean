import ExactCover.Grid

/-!
# The open grid

A woven grid has every row on its board from the moment it is added. Columns are made when an item
first appears, and the cells of a row are linked in a circle. Since a new row only touches the
ends of the lists it joins, rows can be added as long as nothing is covered, also between two
searches, and the grid is never sealed.
-/

set_option autoImplicit false

namespace ExactCover

/-- A grid whose board grows with every row. -/
structure Woven (ι χ : Type) where
  /-- The board with all rows added so far. -/
  board : Board ι χ

namespace Woven

variable {ι χ : Type}

/-- A grid without rows. -/
def empty : Woven ι χ := ⟨.empty .linked⟩

/-- Weaves a row into the board. -/
def addRow [BEq ι] [Item ι χ] (grid : Woven ι χ) (option : Nat) (items : List ι) : Woven ι χ :=
  let labelled := grid.board.addColumns items
  ⟨(labelled.addCells option items).linkRow labelled.size⟩

/-- Whether the links are in order and every item finds its column. -/
def isConsistent [BEq ι] (grid : Woven ι χ) : Except Fault Bool := do
  let intact ← grid.board.mesh.isIntact
  .ok (intact && grid.board.isIndexed)

instance [BEq ι] [Item ι χ] : Grid (Woven ι χ) ι χ where
  empty := empty
  addRow grid option items := .ok (grid.addRow option items)
  close grid := grid
  isSealed _ := false
  board := board
  withMesh grid mesh := ⟨{ grid.board with mesh := mesh }⟩
  isConsistent := isConsistent

end Woven

end ExactCover
