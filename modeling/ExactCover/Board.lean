import ExactCover.Item
import ExactCover.Mesh.Dance
import ExactCover.Mesh.View

/-!
# Boards

A board is a mesh together with the items that its columns stand for. Items find their columns
through a list that grows with the board and keeps the order in which the items first appeared.

Boards only grow: new columns go to the end of their ring and new cells to the bottom of their
column, so the order of everything on a board is the order in which it was added. How the cells of
a row are held together is decided by what is done after they were added: `linkRow` closes them
into a circle and `spaceRow` sets them between spacers.
-/

set_option autoImplicit false

namespace ExactCover

/-- A mesh whose columns are labelled with items. -/
structure Board (ι χ : Type) where
  /-- The number of positions of the mesh. -/
  size : Nat
  /-- The linked structure. -/
  mesh : Mesh size χ
  /-- The items that have a column, each with the position of its header, in order of appearance.
  -/
  columns : List (ι × Nat)

namespace Board

variable {ι χ : Type}

/-- A board without rows and columns. -/
def empty (style : RowStyle) : Board ι χ := ⟨2, Mesh.heads style, []⟩

/-- The position with a given number, if the board has it. -/
def position? (b : Board ι χ) (p : Nat) : Option (Fin b.size) :=
  if h : p < b.size then some ⟨p, h⟩ else none

/-- The column of an item. -/
def column? [BEq ι] (b : Board ι χ) (item : ι) : Option (Fin b.size) :=
  (b.columns.find? fun entry => entry.1 == item).bind fun entry => b.position? entry.2

/-- The columns of some items, each once, in the order in which they are met. If one of the items
has no column, the result is the first such item. -/
def columnsOf [BEq ι] (b : Board ι χ) (items : List ι) : Except ι (List (Fin b.size)) :=
  (distinct items).mapM fun item =>
    match b.column? item with
    | some c => .ok c
    | none => .error item

/-- The item that a column stands for. -/
def item? (b : Board ι χ) (c : Fin b.size) : Option ι :=
  (b.columns.find? fun entry => entry.2 == c.val).map (·.1)

/-- Adds a column for an item, in the ring that its kind asks for. -/
def addColumn [Item ι χ] (b : Board ι χ) (item : ι) : Board ι χ where
  size := b.size + 1
  mesh := b.mesh.pushHeader (Item.kind item).isPrimary
  columns := b.columns ++ [(item, b.size)]

/-- Adds columns for those of the items that have none, in the order given. -/
def addColumns [BEq ι] [Item ι χ] (b : Board ι χ) (items : List ι) : Board ι χ :=
  items.foldl (fun b item => if (b.column? item).isSome then b else b.addColumn item) b

/-- What a cell for this item asks of its column. -/
def paintOf [Item ι χ] (item : ι) : Paint χ :=
  match (Item.kind item).color? with
  | some color => .colored color
  | none => .uncolored

/-- Adds a cell to the column of an item. An item without a column gets no cell. -/
def addCell [BEq ι] [Item ι χ] (option : Nat) (b : Board ι χ) (item : ι) : Board ι χ :=
  match b.column? item with
  | some c => ⟨b.size + 1, b.mesh.pushCell c option (paintOf item), b.columns⟩
  | none => b

/-- Adds the cells of a row, which take consecutive positions. -/
def addCells [BEq ι] [Item ι χ] (b : Board ι χ) (option : Nat) (items : List ι) : Board ι χ :=
  items.foldl (addCell option) b

/-- Adds a spacer. -/
def addSpacer (b : Board ι χ) : Board ι χ := ⟨b.size + 1, b.mesh.pushSpacer, b.columns⟩

/-- Closes the positions from a given one to the last into a circle, which makes a linked row of
them. -/
def linkRow (b : Board ι χ) (first : Nat) : Board ι χ :=
  { b with mesh := { b.mesh with
      across := b.mesh.across.circle ((List.finRange b.size).drop first) } }

/-- Adds a spacer behind the positions from a given one to the last, which makes a spaced row of
them. The position in front of the given one has to be a spacer as well. -/
def spaceRow (b : Board ι χ) (first : Nat) : Board ι χ :=
  let spaced := b.addSpacer
  if h : 0 < first ∧ first < b.size then
    { spaced with mesh := { spaced.mesh with
        down := spaced.mesh.down.bracket ⟨first - 1, by simp only [spaced, addSpacer]; omega⟩
          ⟨first, by simp only [spaced, addSpacer]; omega⟩
          ⟨b.size - 1, by simp only [spaced, addSpacer]; omega⟩
          ⟨b.size, by simp only [spaced, addSpacer]; omega⟩ } }
  else spaced

/-- The items of the open columns that must be covered, in the order of their ring. -/
def primaryItems (b : Board ι χ) : Except Fault (List ι) := do
  let columns ← b.mesh.primaryColumns
  .ok (columns.filterMap b.item?)

/-- The numbers of the options whose cells hang in a column, from top to bottom. -/
def options (b : Board ι χ) (c : Fin b.size) : Except Fault (List Nat) := do
  let cells ← b.mesh.cells c
  .ok (cells.filterMap b.mesh.option?)

/-- The topmost cell in a column that belongs to the option with the given number. -/
def cellOf? (b : Board ι χ) (c : Fin b.size) (option : Nat) :
    Except Fault (Option (Fin b.size)) := do
  let cells ← b.mesh.cells c
  .ok (cells.find? fun p => b.mesh.option? p == some option)

/-- Whether every item finds the column that was made for it. -/
def isIndexed [BEq ι] (b : Board ι χ) : Bool :=
  b.columns.all fun entry => (b.column? entry.1).map (·.val) == some entry.2

end Board

end ExactCover
