import ExactCover.Item
import ExactCover.Least

/-!
# Searching without a mesh

The same search can be stated on lists alone. It keeps nothing but the choice made so far and
works out from the rows, at every step, which items are still open and which rows are still live.
This is far too slow to be of use, but there is nothing in it that could fall out of step: it says
which solutions a search should find, and in which order.

Rows are named by their numbers. The items of the pre-selected options are taken from the start. A
row that lists one of them is never live, whatever color it gives the item.
-/

set_option autoImplicit false

namespace ExactCover

namespace Naive

variable {ι χ : Type} [BEq ι] [BEq χ] [Item ι χ]

/-- Whether both of two uses of an item give it a color, and the same one. -/
def agrees (a b : ι) : Bool :=
  match (Item.kind a).color?, (Item.kind b).color? with
  | some c, some d => c == d
  | _, _ => false

/-- Whether two rows agree on all the items that they share. -/
def compatible (r s : List ι) : Bool :=
  r.all fun a => s.all fun b => !(a == b) || agrees a b

/-- Whether a list has an item equal to the given one. -/
def lists (r : List ι) (item : ι) : Bool := r.any (· == item)

omit [BEq χ] [Item ι χ] in
theorem lists_iff {r : List ι} {item : ι} : lists r item ↔ ∃ x ∈ r, x == item := by
  simp [lists]

/-- A problem to be searched: the rows by number and the items that are taken from the start. -/
structure Problem (ι : Type) where
  /-- The rows, in the order in which they were added. -/
  rows : List (List ι)
  /-- The items of the pre-selected options. -/
  taken : List ι

/-- The row with the given number. -/
def Problem.row (problem : Problem ι) (k : Nat) : List ι := problem.rows.getD k []

/-- The items that have to be covered and are not, in the order of their first appearance. -/
def Problem.openItems (problem : Problem ι) (chosen : List Nat) : List ι :=
  (distinct problem.rows.flatten).filter fun item =>
    (Item.kind item).isPrimary && !lists problem.taken item
      && !chosen.any fun k => lists (problem.row k) item

/-- Whether a row can be added to a choice. -/
def Problem.isLive (problem : Problem ι) (chosen : List Nat) (k : Nat) : Bool :=
  (problem.row k).all (fun item => !lists problem.taken item)
    && chosen.all fun j => compatible (problem.row j) (problem.row k)

/-- The numbers of the live rows that list an item. -/
def Problem.candidates (problem : Problem ι) (chosen : List Nat) (item : ι) : List Nat :=
  (List.range problem.rows.length).filter fun k =>
    lists (problem.row k) item && problem.isLive chosen k

/-- The open item to branch on. -/
def Problem.branchItem? (problem : Problem ι) (chosen : List Nat) : Option ι :=
  leastBy? (fun item => (problem.candidates chosen item).length) (problem.openItems chosen)

/-- All ways to extend a choice until no item is open, with at most the given number of further
rows. -/
def Problem.extensions (problem : Problem ι) : Nat → List Nat → List (List Nat)
  | 0, chosen =>
    match problem.branchItem? chosen with
    | none => [chosen]
    | some _ => []
  | depth + 1, chosen =>
    match problem.branchItem? chosen with
    | none => [chosen]
    | some item =>
      (problem.candidates chosen item).flatMap fun k => problem.extensions depth (chosen ++ [k])

/-- All solutions, in the order of the search. Every further row covers an open item, so there are
no more of them than items that are open at the start. -/
def Problem.solutions (problem : Problem ι) : List (List Nat) :=
  problem.extensions (problem.openItems []).length []

end Naive

end ExactCover
