import ExactCover.Proofs.Lawful
import ExactCover.Proofs.Orderly
import ExactCover.Proofs.Preselected
import Mathlib.Data.List.Sort

/-!
# Rows that stay on file

A board *files* some rows if they can be read off it: for every number there is one row of cells
with this number, the row closes, and its cells lie, one after another, in the columns of the items
of the row (`Board.Files`). That is less than the board presenting the rows. The columns may have
lost cells, counts may be wrong, and the rings may be in any state.

What is needed for this is that the links lead onward in the layout of a board that presents the
rows (`Board.Retains`). A grid of either kind retains its rows whatever is done with it, so they
stay on file also where a search was stopped in the middle.
-/

set_option autoImplicit false

namespace ExactCover

variable {n : Nat} {ι χ : Type}

namespace Board

/-- The cells with a number, in the order in which they were added. -/
def rowOf (b : Board ι χ) (k : Nat) : List (Fin b.size) :=
  (List.finRange b.size).filter fun p => b.mesh.option? p = some k

/-- The rows on the board are these, each with the number of its place. -/
structure Files [BEq ι] (b : Board ι χ) (rows : List (List ι)) : Prop where
  /-- The cells with the number of a row are in the columns of its items, one after another. -/
  cells : ∀ k items, rows[k]? = some items →
    List.Forall₂ (fun p item => b.column? item = some (b.mesh.column p)) (b.rowOf k) items
  /-- The walks to the right and to the left lead from each of these cells to the next, and around.
  -/
  closes : ∀ k, b.mesh.ClosesRow (b.rowOf k)
  /-- Every cell has the number of a row. -/
  number : ∀ p k, b.mesh.option? p = some k → k < rows.length

/-- Which columns a board finds does not depend on its links. -/
theorem columnsOf_withMesh [BEq ι] (b : Board ι χ) (mesh : Mesh b.size χ) (items : List ι) :
    ({ b with mesh := mesh } : Board ι χ).columnsOf items = b.columnsOf items := by
  refine congrArg (fun find => (distinct items).mapM find) (funext fun item => ?_)
  have hsame : ({ b with mesh := mesh } : Board ι χ).column? item = b.column? item := rfl
  rw [hsame]
  cases b.column? item <;> rfl

variable [BEq ι] [BEq χ] [Item ι χ] {b : Board ι χ} {rows : List (List ι)}

/-- With other links the board would arrange the rows, and the links that it has lead onward. No row
lists an item twice. -/
structure Retains (b : Board ι χ) (rows : List (List ι)) : Prop where
  exists_rest : ∃ (L : Layout b.size χ) (rest : Mesh b.size χ),
    rest.Arranges b.columns L rows id ∧ b.mesh.Orderly L
  unrepeated : ∀ items ∈ rows, Unrepeated items

section Plots

variable {rest m : Mesh n χ} {labels : List (ι × Nat)} {L : Layout n χ} {k : Nat} {p : Fin n}

/-- A cell with a number lies in the row with this number. -/
theorem exists_row_of_option? (h : rest.Plots labels L rows) (hm : m.Orderly L)
    (hp : m.option? p = some k) : ∃ row, L.rows[k]? = some row ∧ p ∈ row := by
  have hrole : L.role p = .cell k := by
    rw [Mesh.option?, hm.role_eq] at hp
    split at hp
    · next option hrole => rw [hrole, Option.some.inj hp]
    · contradiction
  obtain ⟨row, hrow, hpRow⟩ := List.mem_flatten.mp (h.cell p (by rw [hrole]; rfl))
  obtain ⟨j, hj⟩ := List.mem_iff_getElem?.mp hrow
  have hnumber := h.number j row hj p hpRow
  rw [hrole, id_eq, Role.cell.injEq] at hnumber
  exact ⟨row, hnumber ▸ hj, hpRow⟩

/-- The cells with the number of a row are those of the row. -/
theorem rowOf_eq (h : rest.Plots labels L rows) (hm : m.Orderly L) {row : List (Fin n)}
    (hrow : L.rows[k]? = some row) : (⟨n, m, labels⟩ : Board ι χ).rowOf k = row := by
  have hsorted : row.Pairwise (· < ·) :=
    (List.pairwise_flatten.mp h.sound.cells_sorted).1 row (List.mem_of_getElem? hrow)
  refine ((List.pairwise_lt_finRange n).filter _).eq_of_mem_iff hsorted fun p => ?_
  rw [List.mem_filter, decide_eq_true_eq]
  constructor
  · rintro ⟨-, hp⟩
    obtain ⟨row', hrow', hpRow⟩ := exists_row_of_option? h hm hp
    rw [Option.some.inj (hrow.symm.trans hrow')]
    exact hpRow
  · intro hp
    refine ⟨List.mem_finRange p, ?_⟩
    rw [Mesh.option?, hm.role_eq, h.number k row hrow p hp]
    rfl

end Plots

namespace Retains

variable [EquivBEq ι]

/-- With other links the board would present the rows. -/
theorem exists_presents (h : b.Retains rows) : ∃ rest : Mesh b.size χ,
    ({ b with mesh := rest } : Board ι χ).Presents rows := by
  obtain ⟨L, rest, harranges, -⟩ := h.exists_rest
  have hlays : ({ b with mesh := rest } : Board ι χ).Lays rows :=
    ⟨⟨L, harranges.toPlots, harranges.closed⟩, harranges.primary_order, harranges.secondary_order⟩
  exact ⟨rest, hlays.presents h.unrepeated⟩

/-- Rows that a board retains can be read off it. -/
theorem files (h : b.Retains rows) : b.Files rows := by
  obtain ⟨L, rest, harranges, horderly⟩ := h.exists_rest
  have hrowOf : ∀ {k row}, L.rows[k]? = some row → b.rowOf k = row :=
    rowOf_eq harranges.toPlots horderly
  have hlength : L.rows.length = rows.length := harranges.cells.length_eq
  have hnumber : ∀ p k, b.mesh.option? p = some k → k < rows.length := by
    intro p k hp
    obtain ⟨row, hrow, -⟩ := exists_row_of_option? harranges.toPlots horderly hp
    rw [← hlength]
    exact (List.getElem?_eq_some_iff.mp hrow).1
  refine ⟨fun k items hitems => ?_, fun k => ?_, hnumber⟩
  · obtain ⟨hk, -⟩ := List.getElem?_eq_some_iff.mp hitems
    have hrow := List.getElem?_eq_getElem (hlength ▸ hk)
    rw [hrowOf hrow]
    refine (rel_of_getElem? harranges.cells hrow hitems).imp fun p item hp => ?_
    rw [horderly.column_eq]
    exact (harranges.column?_eq_some_iff b.mesh).mpr hp.1
  · by_cases hk : k < L.rows.length
    · have hrow := List.getElem?_eq_getElem hk
      rw [hrowOf hrow]
      exact horderly.closed _ (List.mem_of_getElem? hrow)
    · have hnone : b.rowOf k = [] := by
        rw [rowOf, List.filter_eq_nil_iff]
        intro p _ hp
        have hlt := hnumber p k (by simpa using hp)
        omega
      rw [hnone]
      exact .nil

variable {problem : Naive.Problem ι}

/-- A board that retains the rows names the first item to be taken that none of them lists. -/
theorem columnsOf_eq_error (h : b.Retains problem.rows) {item : ι}
    (hmissing : problem.missing? = some item) : b.columnsOf problem.taken = .error item := by
  obtain ⟨rest, hpresents⟩ := h.exists_presents
  rw [← b.columnsOf_withMesh rest]
  exact hpresents.columnsOf_eq_error hmissing

/-- A board that retains the rows finds the columns of the items to be taken if they list all of
them. -/
theorem exists_columnsOf (h : b.Retains problem.rows) (hmissing : problem.missing? = none) :
    ∃ cs, b.columnsOf problem.taken = .ok cs ∧
      List.Forall₂ (fun c item => b.column? item = some c) cs (distinct problem.taken) := by
  obtain ⟨rest, hpresents⟩ := h.exists_presents
  rw [← b.columnsOf_withMesh rest]
  exact hpresents.exists_columnsOf hmissing

/-- The columns that a board finds are among its headers. -/
theorem mem_headers_of_columnsOf (h : b.Retains rows) {rest : Mesh b.size χ}
    {L : Layout b.size χ} (harranges : rest.Arranges b.columns L rows id) {items : List ι}
    {cs : List (Fin b.size)} (hcs : b.columnsOf items = .ok cs) : ∀ c ∈ cs, c ∈ L.headers := by
  let problem : Naive.Problem ι := ⟨rows, items⟩
  have hproblem : b.Retains problem.rows := h
  cases hmissing : problem.missing? with
  | some item =>
    have herror := hproblem.columnsOf_eq_error hmissing
    rw [hcs] at herror
    contradiction
  | none =>
    obtain ⟨cs', hcs', hlabels⟩ := hproblem.exists_columnsOf hmissing
    rw [hcs] at hcs'
    obtain rfl := Except.ok.inj hcs'
    intro c hc
    obtain ⟨item, -, hlabel⟩ := exists_of_forall₂ hlabels hc
    exact harranges.mem_headers ((harranges.column?_eq_some_iff b.mesh).mp hlabel)

end Retains

end Board

variable [BEq ι] [BEq χ] [Item ι χ]

/-- Grids that retain the rows that they are given, whatever is done to their links. -/
class RetentiveGrid (γ : Type) {ι χ : outParam Type} [BEq ι] [BEq χ] [Item ι χ]
    [Grid γ ι χ] where
  /-- The grid has these rows, and nothing that was done to its links has made them unreadable. -/
  Retains : γ → List (List ι) → Prop
  retains_empty : Retains Grid.empty []
  exists_addRow : ∀ {grid : γ} {rows : List (List ι)} {items : List ι}, Retains grid rows →
    Unrepeated items → Grid.isSealed grid = false →
      ∃ grid' : γ, Grid.addRow grid rows.length items = .ok grid' ∧ Retains grid' (rows ++ [items])
  retains_close : ∀ {grid : γ} {rows : List (List ι)}, Retains grid rows →
    Retains (Grid.close grid) rows
  retains_board : ∀ {grid : γ} {rows : List (List ι)}, Retains grid rows →
    (Grid.board (Grid.close grid)).Retains rows
  retains_withMesh : ∀ {grid : γ} {rows : List (List ι)}, Retains grid rows →
    ∀ {mesh : Mesh (Grid.board (Grid.close grid)).size χ},
      mesh.toFrame = (Grid.board (Grid.close grid)).mesh.toFrame →
        ({ Grid.board (Grid.close grid) with mesh := mesh } : Board ι χ).Retains rows →
          Retains (Grid.withMesh (Grid.close grid) mesh) rows

namespace Woven

/-- The board retains the rows, and its columns are in the order in which the items appear. -/
structure Retains (grid : Woven ι χ) (rows : List (List ι)) : Prop where
  board : grid.board.Retains rows
  labels : grid.board.columns.map (·.1) = distinct rows.flatten
  style : grid.board.mesh.style = .linked

theorem Weaves.retains {grid : Woven ι χ} {rows : List (List ι)} (h : grid.Weaves rows)
    (hrows : ∀ items ∈ rows, Unrepeated items) : grid.Retains rows := by
  obtain ⟨L, harranges⟩ := h.lays.exists_arranges
  exact ⟨⟨⟨L, grid.board.mesh, harranges,
    harranges.atRest.orderly harranges.sound harranges.closed⟩, hrows⟩, h.labels, h.style⟩

theorem Retains.exists_underlies {grid : Woven ι χ} {rows : List (List ι)}
    (h : grid.Retains rows) : ∃ rest, Underlies rest grid rows := by
  obtain ⟨L, rest, harranges, horderly⟩ := h.board.exists_rest
  exact ⟨⟨{ grid.board with mesh := rest }⟩, ⟨_, rest, grid.board.mesh, _, L, rfl, rfl,
    harranges.toPlots, harranges.atRest.orderly harranges.sound harranges.closed, horderly⟩,
    h.labels, h.style⟩

theorem Underlies.retains {rest grid : Woven ι χ} {rows : List (List ι)}
    (h : Underlies rest grid rows) (hrows : ∀ items ∈ rows, Unrepeated items) :
    grid.Retains rows := by
  obtain ⟨board⟩ := grid
  obtain ⟨rest⟩ := rest
  obtain ⟨n, m₀, m, labels, L, rfl, rfl, hplots, hrest, hm⟩ := h.boards
  have hlabels : labels.map (·.1) = distinct rows.flatten := h.labels
  refine ⟨⟨⟨L, m₀, ⟨hplots, hrest.closed, ?_, ?_⟩, hm⟩, hrows⟩, h.labels, h.style⟩ <;> rw [hlabels]

theorem Retains.addRow [EquivBEq ι] [ReflBEq χ] {grid : Woven ι χ} {rows : List (List ι)}
    (h : grid.Retains rows) {items : List ι} (hitems : Unrepeated items) :
    (grid.addRow rows.length items).Retains (rows ++ [items]) := by
  obtain ⟨rest, hrest⟩ := h.exists_underlies
  exact (hrest.addRow items).retains (forall_mem_concat h.board.unrepeated hitems)

instance [EquivBEq ι] [EquivBEq χ] : RetentiveGrid (Woven ι χ) where
  Retains := Retains
  retains_empty := weaves_empty.retains (List.forall_mem_nil _)
  exists_addRow h hitems _ := ⟨_, rfl, h.addRow hitems⟩
  retains_close h := h
  retains_board h := h.board
  retains_withMesh h _ hframe hboard :=
    ⟨hboard, h.labels, (congrArg Frame.style hframe).trans h.style⟩

end Woven

namespace Packed

/-- The rows that wait to be packed are these, or the board retains them. -/
def Retains (grid : Packed ι χ) (rows : List (List ι)) : Prop :=
  match grid with
  | .staged waiting => waiting = numbered rows ∧ ∀ items ∈ rows, Unrepeated items
  | .built board => board.Retains rows

theorem Retains.addRow {grid : Packed ι χ} {rows : List (List ι)} {items : List ι}
    (h : grid.Retains rows) (hitems : Unrepeated items) (hopen : grid.isSealed = false) :
    ∃ grid', grid.addRow rows.length items = .ok grid' ∧ grid'.Retains (rows ++ [items]) := by
  cases grid with
  | built board => contradiction
  | staged waiting =>
    obtain ⟨rfl, hrows⟩ := h
    exact ⟨_, rfl, (numbered_concat rows items).symm, forall_mem_concat hrows hitems⟩

/-- Packing the rows that wait makes a board that retains them. -/
theorem Retains.board_close [EquivBEq ι] [ReflBEq χ] {grid : Packed ι χ} {rows : List (List ι)}
    (h : grid.Retains rows) : grid.close.board.Retains rows := by
  cases grid with
  | built board => exact h
  | staged waiting =>
    obtain ⟨rfl, hrows⟩ := h
    have hlays : (pack (numbered rows)).Lays rows := lays_pack rows
    obtain ⟨L, harranges⟩ := hlays.exists_arranges
    exact ⟨⟨L, _, harranges, harranges.atRest.orderly harranges.sound harranges.closed⟩, hrows⟩

instance [EquivBEq ι] [EquivBEq χ] : RetentiveGrid (Packed ι χ) where
  Retains := Retains
  retains_empty := ⟨rfl, List.forall_mem_nil _⟩
  exists_addRow h hitems hopen := h.addRow hitems hopen
  retains_close {grid} _ h := by
    have hclosed := h.board_close
    cases grid with
    | built board => exact h
    | staged waiting => exact hclosed
  retains_board h := h.board_close
  retains_withMesh {grid} _ _ _ _ hboard := by
    cases grid <;> exact hboard

end Packed

/-- What keeps the mesh of a closed grid orderly leaves the grid with its rows. -/
theorem RetentiveGrid.exists_layout {γ : Type} [Grid γ ι χ] [RetentiveGrid γ] [EquivBEq ι]
    {grid : γ} {rows : List (List ι)} (h : Retains grid rows) :
    ∃ L : Layout (Grid.board (Grid.close grid)).size χ, L.Sound ∧
      (Grid.board (Grid.close grid)).mesh.Orderly L ∧
      (∀ {items cs}, (Grid.board (Grid.close grid)).columnsOf items = .ok cs →
        ∀ c ∈ cs, c ∈ L.headers) ∧
      ∀ {mesh}, mesh.Orderly L → Retains (Grid.withMesh (Grid.close grid) mesh) rows := by
  have hboard := retains_board h
  obtain ⟨L, rest, harranges, horderly⟩ := hboard.exists_rest
  refine ⟨L, harranges.sound, horderly, fun hcs => hboard.mem_headers_of_columnsOf harranges hcs,
    fun hmesh => retains_withMesh h (hmesh.frame.trans horderly.frame.symm) ?_⟩
  exact ⟨⟨L, rest, harranges, hmesh⟩, hboard.unrepeated⟩

end ExactCover
