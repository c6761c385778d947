import ExactCover.Mesh.Basic

/-!
# Taking a mesh apart and putting it back

Choosing a row means that every item of the row is settled: the rows that no longer fit disappear
from all other columns, and the columns that are done leave their ring. `cover` does this for one
column, `purify` for a column in which rows of one color stay welcome, and `commitRow` for all the
columns of a row but the one it was chosen from.

Each of these has a reverse (`uncover`, `unpurify`, `uncommitRow`) that walks the same cells in
the opposite order. The reverse needs no record of what was done: a cell that is taken out keeps
its own links, and the walks find it by the links of cells that were never taken out. This works
only if the steps are reversed latest first, which is left to the caller, and the steps are
defined for every mesh. Where a mesh is in no state to be stepped, the result is a `Fault`.
-/

set_option autoImplicit false

namespace ExactCover.Mesh

variable {n : Nat} {χ : Type}

/-- Visits the positions that `step` leads through from `home` back to `home`, which itself is not
visited. Each step is taken in the mesh that the visits before it have left. On a mesh in order no
walk makes more than `n` visits, and a walk that would is stopped. -/
def sweep (step : Mesh n χ → Fin n → Except Fault (Fin n))
    (visit : Fin n → Mesh n χ → Except Fault (Mesh n χ)) (home : Fin n) (m : Mesh n χ) :
    Except Fault (Mesh n χ) := do
  let start ← step m home
  go n start m
where
  /-- Goes on from a position that has not been visited yet, for at most the given number of
  visits. -/
  go : Nat → Fin n → Mesh n χ → Except Fault (Mesh n χ)
    | 0, p, m => if p = home then .ok m else .error .endless
    | fuel + 1, p, m =>
      if p = home then .ok m
      else do
        let m ← visit p m
        let q ← step m p
        go fuel q m

/-- Walks down the column of `c`. -/
def sweepDown (visit : Fin n → Mesh n χ → Except Fault (Mesh n χ)) (c : Fin n) (m : Mesh n χ) :
    Except Fault (Mesh n χ) :=
  m.sweep (fun m p => .ok (m.below p)) visit c

/-- Walks up the column of `c`. -/
def sweepUp (visit : Fin n → Mesh n χ → Except Fault (Mesh n χ)) (c : Fin n) (m : Mesh n χ) :
    Except Fault (Mesh n χ) :=
  m.sweep (fun m p => .ok (m.above p)) visit c

/-- Walks around a row to the right, from the cell after `p` to the cell before it. -/
def sweepRight (visit : Fin n → Mesh n χ → Except Fault (Mesh n χ)) (p : Fin n) (m : Mesh n χ) :
    Except Fault (Mesh n χ) :=
  m.sweep right visit p

/-- Walks around a row to the left, from the cell before `p` to the cell after it. -/
def sweepLeft (visit : Fin n → Mesh n χ → Except Fault (Mesh n χ)) (p : Fin n) (m : Mesh n χ) :
    Except Fault (Mesh n χ) :=
  m.sweep left visit p

/-- Takes a cell out of its column. A purified cell stays: its column is settled, and its row may
still come back. -/
def detach (p : Fin n) (m : Mesh n χ) : Except Fault (Mesh n χ) :=
  if !(m.role p).isCell then .error .strayFromRow
  else if (m.paint p).isPurified then .ok m
  else
    let c := m.column p
    match m.count c with
    | 0 => .error .countUnderflow
    | k + 1 => .ok ({ m with down := m.down.unlink p }.setCount c k)

/-- Puts a cell back into its column, unless it was purified and never left. -/
def attach (p : Fin n) (m : Mesh n χ) : Except Fault (Mesh n χ) :=
  if !(m.role p).isCell then .error .strayFromRow
  else if (m.paint p).isPurified then .ok m
  else
    let c := m.column p
    .ok ({ m with down := m.down.relink p }.setCount c (m.count c + 1))

/-- Takes all cells of the row of `p` but `p` itself out of their columns. -/
def hide (p : Fin n) (m : Mesh n χ) : Except Fault (Mesh n χ) := m.sweepRight detach p

/-- Reverses `hide`. -/
def unhide (p : Fin n) (m : Mesh n χ) : Except Fault (Mesh n χ) := m.sweepLeft attach p

/-- Takes a column out of its ring and its rows out of all other columns. -/
def cover (c : Fin n) (m : Mesh n χ) : Except Fault (Mesh n χ) := do
  let m ← m.sweepDown hide c
  .ok { m with across := m.across.unlink c }

/-- Reverses `cover`. -/
def uncover (c : Fin n) (m : Mesh n χ) : Except Fault (Mesh n χ) :=
  { m with across := m.across.relink c }.sweepUp unhide c

/-- Covers columns one after another. -/
def coverAll (m : Mesh n χ) (columns : List (Fin n)) : Except Fault (Mesh n χ) :=
  columns.foldlM (fun m c => m.cover c) m

/-- Reverses `coverAll` for the same columns. -/
def uncoverAll (m : Mesh n χ) (columns : List (Fin n)) : Except Fault (Mesh n χ) :=
  columns.reverse.foldlM (fun m c => m.uncover c) m

/-- Restricts a column to a color: the cells of that color are marked as purified, and the rows of
all others are hidden. The column stays in its ring and keeps its cells. -/
def purify [BEq χ] (c : Fin n) (color : χ) (m : Mesh n χ) : Except Fault (Mesh n χ) := do
  let m ← m.sweepDown (restrict color) c
  .ok (m.setTint c (some color))
where
  /-- Marks the cell if it has the color and hides its row if not. -/
  restrict (color : χ) (p : Fin n) (m : Mesh n χ) : Except Fault (Mesh n χ) :=
    match m.paint p with
    | .colored other => if other == color then .ok (m.setPaint p .purified) else m.hide p
    | _ => m.hide p

/-- Reverses `purify`. -/
def unpurify (c : Fin n) (m : Mesh n χ) : Except Fault (Mesh n χ) :=
  match m.tint c with
  | none => .error .notPurified
  | some color => (m.setTint c none).sweepUp (release color) c
where
  /-- Gives a marked cell its color back and brings back the row of any other. -/
  release (color : χ) (p : Fin n) (m : Mesh n χ) : Except Fault (Mesh n χ) :=
    if (m.paint p).isPurified then .ok (m.setPaint p (.colored color)) else m.unhide p

/-- Settles the column of a cell whose row was chosen. A purified cell asks for nothing: its column
is restricted to its color already. -/
def commit [BEq χ] (p : Fin n) (m : Mesh n χ) : Except Fault (Mesh n χ) :=
  if !(m.role p).isCell then .error .strayFromRow
  else
    match m.paint p with
    | .uncolored => m.cover (m.column p)
    | .colored color => m.purify (m.column p) color
    | .purified => .ok m

/-- Reverses `commit`. A cell whose color restricted its column still has that color if it was out
of the column at the time, as the cells of a chosen row are once the column it was chosen from is
covered. -/
def uncommit (p : Fin n) (m : Mesh n χ) : Except Fault (Mesh n χ) :=
  if !(m.role p).isCell then .error .strayFromRow
  else
    match m.paint p with
    | .uncolored => m.uncover (m.column p)
    | .colored _ => m.unpurify (m.column p)
    | .purified => .ok m

/-- Settles the columns of all cells of the row of `p` but `p` itself, from left to right. -/
def commitRow [BEq χ] (p : Fin n) (m : Mesh n χ) : Except Fault (Mesh n χ) :=
  m.sweepRight commit p

/-- Reverses `commitRow`, from right to left. -/
def uncommitRow (p : Fin n) (m : Mesh n χ) : Except Fault (Mesh n χ) :=
  m.sweepLeft uncommit p

end ExactCover.Mesh
