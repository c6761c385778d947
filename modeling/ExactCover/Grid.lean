import ExactCover.Board
import ExactCover.Error

/-!
# Grids

A grid collects the rows of a problem and, once it is closed, has them on a board that can be
searched. The grids of this library differ in when the board is made: `Woven` puts every row on it
at once and can take more rows after a search, `Packed` keeps the rows until it is closed and
takes none from then on.

The steps of the search are those of the board's mesh, so they are the same for every grid.
-/

set_option autoImplicit false

namespace ExactCover

/-- Types whose values hold the rows of a problem over the items `ι` with colors from `χ`. -/
class Grid (γ : Type) (ι χ : outParam Type) where
  /-- A grid without rows. -/
  empty : γ
  /-- Adds a row for the option with the given number. The items are expected to be distinct. -/
  addRow (grid : γ) (option : Nat) (items : List ι) : Except StateError γ
  /-- Makes the grid ready for a search. -/
  close (grid : γ) : γ
  /-- Whether the grid takes no more rows. -/
  isSealed (grid : γ) : Bool
  /-- The board as far as it has been made. -/
  board (grid : γ) : Board ι χ
  /-- Replaces the mesh of the board by another one of the same size. -/
  withMesh (grid : γ) (mesh : Mesh (board grid).size χ) : γ
  /-- Whether the links are in order, as they are when nothing is covered. -/
  isConsistent (grid : γ) : Except Fault Bool

namespace Grid

variable {γ ι χ : Type} [Grid γ ι χ]

/-- Applies a step to the mesh of a grid, at the position with the given number. -/
def step (move : {n : Nat} → Fin n → Mesh n χ → Except Fault (Mesh n χ)) (grid : γ) (p : Nat) :
    Except Fault γ :=
  match (board grid).position? p with
  | none => .error .outOfRange
  | some p => do
    let mesh ← move p (board grid).mesh
    .ok (withMesh grid mesh)

/-- Covers a column. -/
def cover (grid : γ) (c : Nat) : Except Fault γ := step Mesh.cover grid c

/-- Reverses `cover` for the same column. -/
def uncover (grid : γ) (c : Nat) : Except Fault γ := step Mesh.uncover grid c

/-- Settles the columns of the other cells in the row of a cell. -/
def commitRow [BEq χ] (grid : γ) (p : Nat) : Except Fault γ := step Mesh.commitRow grid p

/-- Reverses `commitRow` for the same cell. -/
def uncommitRow (grid : γ) (p : Nat) : Except Fault γ := step Mesh.uncommitRow grid p

end Grid

end ExactCover
