import ExactCover.Fault
import ExactCover.Links

/-!
# The mesh

A mesh is the incidence matrix of a problem as a web of links. Every entry of the matrix is a
*cell*; the cells of a column hang below the *header* of that column in a circular list, in the
order in which their rows were added; the headers of the columns that are still open form one of
two *rings*, each closed by a head of its own, one for the columns that must be covered and one
for those that may be.

Rows are held together in one of two styles. A *linked* row is a circular list through the same
links as the rings. A *spaced* row lies in consecutive positions between two *spacers*, and the
vertical links of the spacers name the ends of the rows next to them: the spacer behind a row
leads up to its first cell, and the spacer in front of it leads down to its last. In both styles
`right` and `left` walk around a row, and nothing else depends on the style.

What a position is and which column it belongs to never changes once the position exists. These
facts make up the `Frame` of the mesh; links, counts, paints and tints are what the steps of
`ExactCover.Mesh.Dance` work on.
-/

set_option autoImplicit false

namespace ExactCover

/-- What a cell asks of the other rows of its column. -/
inductive Paint (χ : Type) where
  /-- No other row may use the item: it is primary, or secondary without a color. -/
  | uncolored
  /-- Other rows may use the item with this color. -/
  | colored (color : χ)
  /-- The column is restricted to the color that this cell has, so nothing is left to ask. -/
  | purified
  deriving DecidableEq, Repr

/-- Whether the cell has been found to agree with the color of its column. -/
def Paint.isPurified {χ : Type} : Paint χ → Bool
  | .purified => true
  | _ => false

/-- What a position of a mesh stands for. -/
inductive Role where
  /-- The head of one of the two rings of columns. -/
  | ringHead
  /-- The header of a column. -/
  | header
  /-- An entry of the row that was added for the option with this number. -/
  | cell (option : Nat)
  /-- A gap before or after a spaced row. -/
  | spacer
  deriving DecidableEq, Repr

/-- Whether the position is an entry of a row. -/
def Role.isCell : Role → Bool
  | .cell _ => true
  | _ => false

/-- The two ways of holding a row together. -/
inductive RowStyle where
  /-- The cells of a row form a circular list. -/
  | linked
  /-- The cells of a row are neighbors by position, between two spacers. -/
  | spaced
  deriving DecidableEq, Repr

/-- The part of a mesh that stays as it is while columns are taken out and put back. -/
@[ext]
structure Frame (n : Nat) where
  /-- How rows are held together. -/
  style : RowStyle
  /-- The head of the ring of columns that must be covered. -/
  primaryHead : Fin n
  /-- The head of the ring of columns that may be covered. -/
  secondaryHead : Fin n
  /-- What each position stands for. -/
  roles : Vector Role n
  /-- The header of the column that each cell belongs to. Other positions own themselves. -/
  owner : Arrows n

/-- What the position stands for. -/
def Frame.role {n : Nat} (f : Frame n) (p : Fin n) : Role := getElem f.roles p.val p.isLt

/-- A web of `n` linked positions whose cells may carry colors from `χ`. -/
@[ext]
structure Mesh (n : Nat) (χ : Type) extends Frame n where
  /-- The rings of columns and, in the linked style, the rows. -/
  across : Links n
  /-- The columns. -/
  down : Links n
  /-- How many cells hang below each header. -/
  counts : Vector Nat n
  /-- What each cell asks of its column. -/
  paints : Vector (Paint χ) n
  /-- The color that each column is restricted to, if any, by position of the header. -/
  tints : Vector (Option χ) n

namespace Mesh

variable {n : Nat} {χ : Type}

/-- The header of the column that the position belongs to. -/
def column (m : Mesh n χ) (p : Fin n) : Fin n := m.owner.target p

/-- How many cells hang below the header. -/
def count (m : Mesh n χ) (c : Fin n) : Nat := getElem m.counts c.val c.isLt

/-- What the cell asks of its column. -/
def paint (m : Mesh n χ) (p : Fin n) : Paint χ := getElem m.paints p.val p.isLt

/-- The color that the column is restricted to. -/
def tint (m : Mesh n χ) (c : Fin n) : Option χ := getElem m.tints c.val c.isLt

/-- Changes a count. -/
def setCount (m : Mesh n χ) (c : Fin n) (k : Nat) : Mesh n χ :=
  { m with counts := m.counts.set c.val k c.isLt }

/-- Changes what a cell asks of its column. -/
def setPaint (m : Mesh n χ) (p : Fin n) (paint : Paint χ) : Mesh n χ :=
  { m with paints := m.paints.set p.val paint p.isLt }

/-- Changes the color that a column is restricted to. -/
def setTint (m : Mesh n χ) (c : Fin n) (tint : Option χ) : Mesh n χ :=
  { m with tints := m.tints.set c.val tint c.isLt }

theorem count_setCount (m : Mesh n χ) (c d : Fin n) (k : Nat) :
    (m.setCount c k).count d = if d = c then k else m.count d := by
  simp [count, setCount, Vector.getElem_set, Fin.ext_iff, eq_comm]

theorem paint_setPaint (m : Mesh n χ) (p q : Fin n) (paint : Paint χ) :
    (m.setPaint p paint).paint q = if q = p then paint else m.paint q := by
  simp [Mesh.paint, setPaint, Vector.getElem_set, Fin.ext_iff, eq_comm]

theorem tint_setTint (m : Mesh n χ) (c d : Fin n) (tint : Option χ) :
    (m.setTint c tint).tint d = if d = c then tint else m.tint d := by
  simp [Mesh.tint, setTint, Vector.getElem_set, Fin.ext_iff, eq_comm]

/-- Setting a count to what it was is no change, also after it was set to something else. -/
theorem setCount_setCount_count (m : Mesh n χ) (c : Fin n) (k : Nat) :
    (m.setCount c k).setCount c (m.count c) = m := by
  simp [count, setCount]

/-- The position below `p` in its column. -/
def below (m : Mesh n χ) (p : Fin n) : Fin n := m.down.next p

/-- The position above `p` in its column. -/
def above (m : Mesh n χ) (p : Fin n) : Fin n := m.down.prev p

/-- The cell after `p` in its row, which for the last cell is the first. -/
def right (m : Mesh n χ) (p : Fin n) : Except Fault (Fin n) :=
  match m.style with
  | .linked => .ok (m.across.next p)
  | .spaced =>
    if h : p.val + 1 < n then
      let q : Fin n := ⟨p.val + 1, h⟩
      if m.role q = .spacer then .ok (m.above q) else .ok q
    else
      .error .outOfRange

/-- The cell before `p` in its row, which for the first cell is the last. -/
def left (m : Mesh n χ) (p : Fin n) : Except Fault (Fin n) :=
  match m.style with
  | .linked => .ok (m.across.prev p)
  | .spaced =>
    if 0 < p.val then
      let q : Fin n := ⟨p.val - 1, Nat.lt_of_le_of_lt (Nat.sub_le _ _) p.isLt⟩
      if m.role q = .spacer then .ok (m.below q) else .ok q
    else
      .error .outOfRange

/-- The positions of the headers, in ascending order. -/
def headers (m : Mesh n χ) : List (Fin n) :=
  (List.finRange n).filter fun p => m.role p = .header

/-- The number of columns, whether they are in a ring or not. -/
def numColumns (m : Mesh n χ) : Nat := m.headers.length

/-- A mesh that consists of the heads of two empty rings. -/
def heads (style : RowStyle) : Mesh 2 χ where
  style := style
  primaryHead := 0
  secondaryHead := 1
  roles := #v[.ringHead, .ringHead]
  owner := (Arrows.empty.push 0).push 1
  across := Links.empty.push.push
  down := Links.empty.push.push
  counts := #v[0, 0]
  paints := #v[.uncolored, .uncolored]
  tints := #v[none, none]

/-- Adds one position behind the others. It is linked to itself only. -/
def push (m : Mesh n χ) (role : Role) (owner : Fin (n + 1)) (paint : Paint χ) : Mesh (n + 1) χ where
  style := m.style
  primaryHead := m.primaryHead.castSucc
  secondaryHead := m.secondaryHead.castSucc
  roles := m.roles.push role
  owner := m.owner.push owner
  across := m.across.push
  down := m.down.push
  counts := m.counts.push 0
  paints := m.paints.push paint
  tints := m.tints.push none

/-- Adds the header of a new column and puts it at the end of its ring. -/
def pushHeader (m : Mesh n χ) (isPrimary : Bool) : Mesh (n + 1) χ :=
  let grown := m.push .header (Fin.last n) .uncolored
  let head := if isPrimary then grown.primaryHead else grown.secondaryHead
  { grown with across := grown.across.insertBefore head (Fin.last n) }

/-- Adds a cell at the bottom of the column with header `c`. -/
def pushCell (m : Mesh n χ) (c : Fin n) (option : Nat) (paint : Paint χ) : Mesh (n + 1) χ :=
  let grown := m.push (.cell option) c.castSucc paint
  let hung := { grown with down := grown.down.insertBefore c.castSucc (Fin.last n) }
  hung.setCount c.castSucc (hung.count c.castSucc + 1)

/-- Adds a spacer, which is not yet the end of any row. -/
def pushSpacer (m : Mesh n χ) : Mesh (n + 1) χ :=
  m.push .spacer (Fin.last n) .uncolored

end Mesh

end ExactCover
