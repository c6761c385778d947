import ExactCover.Mesh.Basic

/-!
# Reading a mesh

The order of the columns in a ring and of the cells in a column is found by following links. The
lists here are what such walks meet in a given mesh, and `isIntact` is the check that the links of
a mesh at rest have to pass: it compares every forward link with the backward link it should
match, and every count with the cells that are there.

The check does not presume that the links form lists. A walk that would run into a loop comes to a
position whose backward link names another position than the one it came from, so it stops there.
-/

set_option autoImplicit false

namespace ExactCover

namespace Links

variable {n : Nat}

/-- The positions that follow `home` until the links lead back to it. -/
def members (links : Links n) (home : Fin n) : Except Fault (List (Fin n)) :=
  go n (links.next home)
where
  /-- Goes on from a position, for at most the given number of members. -/
  go : Nat → Fin n → Except Fault (List (Fin n))
    | 0, p => if p = home then .ok [] else .error .endless
    | fuel + 1, p =>
      if p = home then .ok []
      else do
        let rest ← go fuel (links.next p)
        .ok (p :: rest)

/-- The number of positions that follow `home`, if the backward links reverse the forward links all
the way round and every member, together with the number of members before it, is `admitted`. -/
def circuit? (links : Links n) (admitted : Nat → Fin n → Bool) (home : Fin n) :
    Except Fault (Option Nat) :=
  go n 0 home
where
  /-- Goes on behind a position that is in order, with the number of members so far. -/
  go (fuel met : Nat) (p : Fin n) : Except Fault (Option Nat) :=
    let q := links.next p
    if links.prev q ≠ p then .ok none
    else if q = home then .ok (some met)
    else
      match fuel with
      | 0 => .error .endless
      | fuel + 1 => if admitted met q then go fuel (met + 1) q else .ok none

end Links

namespace Mesh

variable {n : Nat} {χ : Type}

/-- The open columns that must be covered, in the order of their ring. -/
def primaryColumns (m : Mesh n χ) : Except Fault (List (Fin n)) :=
  m.across.members m.primaryHead

/-- The cells that hang in a column, from top to bottom. -/
def cells (m : Mesh n χ) (c : Fin n) : Except Fault (List (Fin n)) :=
  m.down.members c

/-- The number of the option that a cell was added for. Other positions have none. -/
def option? (m : Mesh n χ) (p : Fin n) : Option Nat :=
  match m.role p with
  | .cell option => some option
  | _ => none

/-- Whether the cells of a column are properly linked, as many as counted, and not restricted to a
color. -/
def isColumnIntact (m : Mesh n χ) (c : Fin n) : Except Fault Bool := do
  let met ← m.down.circuit? (fun _ p => (m.role p).isCell && m.column p == c) c
  .ok (met == some (m.count c) && (m.tint c).isNone)

/-- The number of columns in a ring whose links are in order. A ring cannot have more members than
there are columns. -/
def ringLength? (m : Mesh n χ) (head : Fin n) : Except Fault (Option Nat) :=
  let columns := m.numColumns
  m.across.circuit? (fun met _ => met ≤ columns) head

/-- Whether every column is intact and the two rings hold as many columns as there are. -/
def isIntact (m : Mesh n χ) : Except Fault Bool := do
  let columns ← m.headers.allM m.isColumnIntact
  let primary ← m.ringLength? m.primaryHead
  let secondary ← m.ringLength? m.secondaryHead
  match primary, secondary with
  | some p, some s => .ok (columns && p + s == m.numColumns)
  | _, _ => .ok false

end Mesh

end ExactCover
