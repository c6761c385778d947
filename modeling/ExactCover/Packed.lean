import ExactCover.Grid

/-!
# The sealed grid

A packed grid keeps its rows aside until it is closed. Then it makes the board in one go: first
the columns, those that must be covered before the others, and behind them the rows one after
another, with spacers between them. From then on the grid is sealed and takes no more rows.

Since the columns of either ring come in the order in which their items first appear, a packed
grid shows the same rings and columns as a woven one with the same rows.
-/

set_option autoImplicit false

namespace ExactCover

/-- A grid whose board is made when the grid is closed. -/
inductive Packed (ι χ : Type) where
  /-- Rows that wait to be packed, each with the number of its option. -/
  | staged (rows : List (Nat × List ι))
  /-- A sealed grid with the board that was made from its rows. -/
  | built (board : Board ι χ)

namespace Packed

variable {ι χ : Type}

/-- A grid without rows. -/
def empty : Packed ι χ := .staged []

/-- Keeps a row for later, unless the grid is sealed. -/
def addRow (grid : Packed ι χ) (option : Nat) (items : List ι) :
    Except StateError (Packed ι χ) :=
  match grid with
  | .staged rows => .ok (.staged (rows ++ [(option, items)]))
  | .built _ => .error .sealed

/-- Adds the cells of a row and the spacer behind them to a board that ends with a spacer. A row
without cells leaves no trace. -/
def packRow [BEq ι] [Item ι χ] (b : Board ι χ) (row : Nat × List ι) : Board ι χ :=
  if row.2.isEmpty then b else (b.addCells row.1 row.2).spaceRow b.size

/-- The board for a list of rows. -/
def pack [BEq ι] [Item ι χ] (rows : List (Nat × List ι)) : Board ι χ :=
  let items := distinct (rows.flatMap (·.2))
  let primary := items.filter fun item => (Item.kind item).isPrimary
  let secondary := items.filter fun item => !(Item.kind item).isPrimary
  let labelled := (Board.empty .spaced).addColumns (primary ++ secondary)
  rows.foldl packRow labelled.addSpacer

/-- Packs the rows that wait. -/
def close [BEq ι] [Item ι χ] (grid : Packed ι χ) : Packed ι χ :=
  match grid with
  | .staged rows => .built (pack rows)
  | .built board => .built board

/-- Whether the rows have been packed. -/
def isSealed (grid : Packed ι χ) : Bool :=
  match grid with
  | .staged _ => false
  | .built _ => true

/-- The number of rows that wait to be packed. -/
def numStaged (grid : Packed ι χ) : Nat :=
  match grid with
  | .staged rows => rows.length
  | .built _ => 0

/-- The board, which has no columns before the rows are packed. -/
def board (grid : Packed ι χ) : Board ι χ :=
  match grid with
  | .staged _ => .empty .spaced
  | .built board => board

/-- Replaces the mesh of the board. Before the rows are packed there is nothing on it to replace.
-/
def withMesh (grid : Packed ι χ) (mesh : Mesh grid.board.size χ) : Packed ι χ :=
  match grid, mesh with
  | .staged rows, _ => .staged rows
  | .built board, mesh => .built { board with mesh := mesh }

instance [BEq ι] [Item ι χ] : Grid (Packed ι χ) ι χ where
  empty := empty
  addRow := addRow
  close := close
  isSealed := isSealed
  board := board
  withMesh := withMesh
  isConsistent grid := grid.board.mesh.isIntact

end Packed

end ExactCover
