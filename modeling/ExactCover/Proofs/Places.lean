import ExactCover.Proofs.Counterparts
import Mathlib.Data.List.Sort

/-!
# Cells by their places

The positions of a board depend on how the board was made, but a column can be named by its item and
a cell by its *place*: the number of its row, and its number in the row. Since the cells of a board
are added row by row, the cell at a place is found by counting. On a board that arranges some rows
every cell is at a place of the rows, and at every place there is the cell that belongs there
(`Board.Directs`). On two such boards the cells at a place are counterparts.
-/

set_option autoImplicit false

namespace ExactCover

/-- The places of the entries of some rows: the number of the row and the number of the entry in it,
row by row. -/
def places {α : Type} (rows : List (List α)) : List (Nat × Nat) :=
  rows.zipIdx.flatMap fun row => (List.range row.1.length).map fun i => (row.2, i)

section Places

variable {α β : Type}

theorem mem_places {rows : List (List α)} {k i : Nat} :
    (k, i) ∈ places rows ↔ ∃ row, rows[k]? = some row ∧ i < row.length := by
  simp [places, List.mem_zipIdx_iff_getElem?]

/-- The places depend on the lengths of the rows only. -/
theorem places_congr {rows : List (List α)} {rows' : List (List β)}
    (hlengths : rows.map List.length = rows'.map List.length) : places rows = places rows' := by
  have hplaces : ∀ {γ : Type} (rows : List (List γ)), places rows =
      (rows.map List.length).zipIdx.flatMap fun x => (List.range x.1).map fun i => (x.2, i) := by
    intro γ rows
    rw [List.zipIdx_map, List.flatMap_map]
    rfl
  rw [hplaces, hplaces, hlengths]

/-- At every place there is the entry with its number in the row with its number. -/
theorem forall₂_places (rows : List (List α)) :
    List.Forall₂ (fun place a => ∃ row, rows[place.1]? = some row ∧ row[place.2]? = some a)
      (places rows) rows.flatten := by
  induction rows using List.reverseRecOn with
  | nil => exact .nil
  | append_singleton rows row ih =>
    have hsplit : places (rows ++ [row]) =
        places rows ++ (List.range row.length).map fun i => (rows.length, i) := by
      simp [places, List.zipIdx_append]
    rw [hsplit, List.flatten_append, List.flatten_singleton]
    apply List.rel_append
    · refine ih.imp fun place a ⟨row', hrow', ha⟩ => ⟨row', ?_, ha⟩
      obtain ⟨hlt, -⟩ := List.getElem?_eq_some_iff.mp hrow'
      rw [List.getElem?_append_left hlt, hrow']
    · rw [List.forall₂_map_left_iff, List.forall₂_iff_get]
      refine ⟨by simp, fun i hi hi' => ⟨row, by simp, ?_⟩⟩
      simp

end Places

namespace Board

variable {ι χ : Type}

/-- The cells of a board, in the order in which they were added. -/
def entries (b : Board ι χ) : List (Fin b.size) :=
  (List.finRange b.size).filter fun p => (b.mesh.role p).isCell

/-- The cell at a place of the rows that were added. -/
def cellAt? (b : Board ι χ) (rows : List (Nat × List ι)) (place : Nat × Nat) :
    Option (Fin b.size) :=
  b.entries[(places (rows.map (·.2))).idxOf place]?

/-- The place of a cell in the rows that were added. -/
def placeOf? (b : Board ι χ) (rows : List (Nat × List ι)) (p : Fin b.size) : Option (Nat × Nat) :=
  (places (rows.map (·.2)))[b.entries.idxOf p]?

/-- Items name the columns of a board, and places name its cells. -/
structure Directs [BEq ι] (b : Board ι χ) (rows : List (Nat × List ι)) : Prop where
  /-- Every column is that of an item that some row lists. -/
  column : ∀ c, b.mesh.role c = .header → ∃ item ∈ rows.flatMap (·.2), b.column? item = some c
  /-- Every cell is at a place. -/
  place : ∀ p, (b.mesh.role p).isCell → ∃ place, b.placeOf? rows p = some place ∧
    b.cellAt? rows place = some p
  /-- At every place of the rows there is a cell for the option of the row, in the column of the
  item at this place, and the walks around the row lead from one place to the next and back. -/
  cell : ∀ k row, rows[k]? = some row → ∀ i item, row.2[i]? = some item →
    ∃ p q, b.cellAt? rows (k, i) = some p ∧ b.placeOf? rows p = some (k, i) ∧
      b.mesh.option? p = some row.1 ∧ b.column? item = some (b.mesh.column p) ∧
        b.cellAt? rows (k, (i + 1) % row.2.length) = some q ∧
          b.mesh.right p = .ok q ∧ b.mesh.left q = .ok p

end Board

namespace Mesh.Arranges

variable {ι χ : Type} [BEq ι] [BEq χ] [Item ι χ] {n n' : Nat} {rest m : Mesh n χ}
  {rest' m' : Mesh n' χ} {labels labels' : List (ι × Nat)} {L : Layout n χ} {L' : Layout n' χ}
  {rows : List (Nat × List ι)} {numbering : Nat → Nat} {p : Fin n} {p' : Fin n'}

/-- The cells of a board are those of its layout, in order. -/
theorem entries_eq (h : rest.Arranges labels L (rows.map (·.2)) numbering)
    (hframe : m.toFrame = L.toFrame) : (⟨n, m, labels⟩ : Board ι χ).entries = L.cells := by
  refine ((List.pairwise_lt_finRange n).filter _).eq_of_mem_iff h.sound.cells_sorted fun p => ?_
  rw [List.mem_filter, hframe]
  constructor
  · intro hp
    exact h.cell p hp.2
  · intro hp
    exact ⟨List.mem_finRange p, h.sound.role_cell p hp⟩

/-- The cells of a layout at their places. -/
theorem forall₂_places (h : rest.Arranges labels L (rows.map (·.2)) numbering) :
    List.Forall₂ (fun place p => ∃ row, L.rows[place.1]? = some row ∧ row[place.2]? = some p)
      (places (rows.map (·.2))) L.cells := by
  rw [← places_congr h.map_length_rows]
  exact ExactCover.forall₂_places L.rows

/-- A cell has the place with the number that the cell has. -/
theorem placeOf?_eq (h : rest.Arranges labels L (rows.map (·.2)) numbering)
    (hframe : m.toFrame = L.toFrame) {i : Nat} (hp : L.cells[i]? = some p) :
    (⟨n, m, labels⟩ : Board ι χ).placeOf? rows p = (places (rows.map (·.2)))[i]? := by
  obtain ⟨hi, rfl⟩ := List.getElem?_eq_some_iff.mp hp
  rw [Board.placeOf?, h.entries_eq hframe, h.sound.cells_nodup.idxOf_getElem]

/-- At every place there is a cell, and the cell has this place. -/
theorem exists_cellAt? (h : rest.Arranges labels L (rows.map (·.2)) numbering)
    (hframe : m.toFrame = L.toFrame) {place : Nat × Nat}
    (hplace : place ∈ places (rows.map (·.2))) :
    ∃ p, (⟨n, m, labels⟩ : Board ι χ).cellAt? rows place = some p ∧
      (⟨n, m, labels⟩ : Board ι χ).placeOf? rows p = some place ∧
        ∃ row, L.rows[place.1]? = some row ∧ row[place.2]? = some p := by
  obtain ⟨hlength, hplaces⟩ := List.forall₂_iff_get.mp h.forall₂_places
  have hlt := List.idxOf_lt_length_iff.mpr hplace
  have hcell := hplaces _ hlt (hlength ▸ hlt)
  simp only [List.get_eq_getElem, List.getElem_idxOf] at hcell
  have hp := List.getElem?_eq_getElem (hlength ▸ hlt)
  rw [Board.cellAt?, h.entries_eq hframe]
  refine ⟨_, hp, ?_, hcell⟩
  rw [h.placeOf?_eq hframe hp, List.getElem?_eq_getElem hlt, List.getElem_idxOf]

/-- The cells at the same place of two boards are counterparts. -/
theorem sameCell_of_cellAt? (h : rest.Arranges labels L (rows.map (·.2)) numbering)
    (h' : rest'.Arranges labels' L' (rows.map (·.2)) numbering) (hframe : m.toFrame = L.toFrame)
    (hframe' : m'.toFrame = L'.toFrame) {place : Nat × Nat}
    (hp : (⟨n, m, labels⟩ : Board ι χ).cellAt? rows place = some p)
    (hp' : (⟨n', m', labels'⟩ : Board ι χ).cellAt? rows place = some p') :
    L.SameCell L' p p' := by
  rw [Board.cellAt?, h.entries_eq hframe] at hp
  rw [Board.cellAt?, h'.entries_eq hframe'] at hp'
  exact ⟨_, hp, hp'⟩

/-- Counterparts are at the same place. -/
theorem exists_placeOf? (h : rest.Arranges labels L (rows.map (·.2)) numbering)
    (h' : rest'.Arranges labels' L' (rows.map (·.2)) numbering) (hframe : m.toFrame = L.toFrame)
    (hframe' : m'.toFrame = L'.toFrame) (hp : L.SameCell L' p p') :
    ∃ place, (⟨n, m, labels⟩ : Board ι χ).placeOf? rows p = some place ∧
      (⟨n', m', labels'⟩ : Board ι χ).placeOf? rows p' = some place := by
  obtain ⟨i, hp, hp'⟩ := hp
  obtain ⟨hi, -⟩ := List.getElem?_eq_some_iff.mp hp
  have hplace := List.getElem?_eq_getElem (h.forall₂_places.length_eq ▸ hi)
  exact ⟨_, (h.placeOf?_eq hframe hp).trans hplace, (h'.placeOf?_eq hframe' hp').trans hplace⟩

variable [EquivBEq ι] {item : ι}

/-- Items that some row lists have columns, and they are counterparts. -/
theorem exists_column? (h : rest.Arranges labels L (rows.map (·.2)) numbering)
    (h' : rest'.Arranges labels' L' (rows.map (·.2)) numbering) (m : Mesh n χ) (m' : Mesh n' χ)
    (hitem : rows.any fun row => row.2.contains item) :
    ∃ c c', (⟨n, m, labels⟩ : Board ι χ).column? item = some c ∧
      (⟨n', m', labels'⟩ : Board ι χ).column? item = some c' ∧ L.SameColumn L' c c' := by
  obtain ⟨row, hrow, hlists⟩ := List.any_eq_true.mp hitem
  obtain ⟨x, hx, hitemx⟩ := List.contains_iff_exists_mem_beq.mp hlists
  have hmem : x ∈ (rows.map (·.2)).flatten :=
    List.mem_flatten.mpr ⟨row.2, List.mem_map_of_mem hrow, hx⟩
  have hlabel : ∀ {n : Nat} {labels : List (ι × Nat)} {c : Fin n}, Labels labels c x →
      Labels labels c item := fun ⟨y, hy, hyx⟩ => ⟨y, hy, BEq.trans hyx (BEq.symm hitemx)⟩
  obtain ⟨p, -, hp, -⟩ := exists_of_forall₂ (List.rel_flatten h.cells).flip hmem
  obtain ⟨p', -, hp', -⟩ := exists_of_forall₂ (List.rel_flatten h'.cells).flip hmem
  exact ⟨_, _, (h.column?_eq_some_iff m).mpr (hlabel hp),
    (h'.column?_eq_some_iff m').mpr (hlabel hp'), h.sameColumn_of_labels h' hp hp'⟩

omit [EquivBEq ι] in
/-- A cell is at a place that leads to it. -/
theorem cellAt?_of_isCell (h : rest.Arranges labels L (rows.map (·.2)) numbering)
    (hframe : m.toFrame = L.toFrame) (hp : (m.role p).isCell) :
    ∃ place, (⟨n, m, labels⟩ : Board ι χ).placeOf? rows p = some place ∧
      (⟨n, m, labels⟩ : Board ι χ).cellAt? rows place = some p := by
  rw [hframe] at hp
  obtain ⟨i, hi⟩ := List.mem_iff_getElem?.mp (h.cell p hp)
  obtain ⟨hlt, -⟩ := List.getElem?_eq_some_iff.mp hi
  have hplace := List.getElem?_eq_getElem (h.forall₂_places.length_eq ▸ hlt)
  have hplaceOf := (h.placeOf?_eq hframe hi).trans hplace
  refine ⟨_, hplaceOf, ?_⟩
  -- The cell that is found at the place is in the same row, with the same number.
  obtain ⟨q, hq, -, row, hrow, hqrow⟩ := h.exists_cellAt? hframe (List.mem_of_getElem? hplace)
  obtain ⟨row', hrow', hprow⟩ := rel_of_getElem? h.forall₂_places hplace hi
  obtain rfl : row = row' := Option.some.inj (hrow.symm.trans hrow')
  rw [hq, ← hqrow, hprow]

/-- At every place of a row there is the cell for its item. -/
theorem cellAt?_of_getElem? (h : rest.Arranges labels L (rows.map (·.2)) (Grid.numbering rows))
    (hm : m.Orderly L) {k i : Nat} {row : Nat × List ι} (hrow : rows[k]? = some row)
    (hitem : row.2[i]? = some item) :
    ∃ p q, (⟨n, m, labels⟩ : Board ι χ).cellAt? rows (k, i) = some p ∧
      (⟨n, m, labels⟩ : Board ι χ).placeOf? rows p = some (k, i) ∧
      m.option? p = some row.1 ∧
        (⟨n, m, labels⟩ : Board ι χ).column? item = some (m.column p) ∧
          (⟨n, m, labels⟩ : Board ι χ).cellAt? rows (k, (i + 1) % row.2.length) = some q ∧
            m.right p = .ok q ∧ m.left q = .ok p := by
  have hrows : (rows.map (·.2))[k]? = some row.2 := by rw [List.getElem?_map, hrow]; rfl
  obtain ⟨hi, -⟩ := List.getElem?_eq_some_iff.mp hitem
  have hnext : (i + 1) % row.2.length < row.2.length := Nat.mod_lt _ (Nat.zero_lt_of_lt hi)
  obtain ⟨p, hcell, hplace, cells, hcells, hp⟩ :=
    h.exists_cellAt? hm.frame (mem_places.mpr ⟨row.2, hrows, hi⟩)
  obtain ⟨q, hcell', -, cells', hcells', hq⟩ :=
    h.exists_cellAt? hm.frame (mem_places.mpr ⟨row.2, hrows, hnext⟩)
  obtain rfl : cells = cells' := Option.some.inj (hcells.symm.trans hcells')
  have hrel := rel_of_getElem? h.cells hcells hrows
  have hlabel := (rel_of_getElem? hrel hp hitem).1
  rw [← hrel.length_eq] at hq
  obtain ⟨hright, hleft⟩ := (hm.closed cells (List.mem_of_getElem? hcells)).beside hp hq
  have hrole : m.role p = .cell row.1 := by
    rw [hm.role_eq]
    have hnumber := h.number k cells hcells p (List.mem_of_getElem? hp)
    rwa [Grid.numbering, List.getElem?_map, hrow] at hnumber
  refine ⟨p, q, hcell, hplace, ?_, ?_, hcell', hright, hleft⟩
  · simp only [Mesh.option?, hrole]
  · rw [h.column?_eq_some_iff m, hm.column_eq]
    exact hlabel

/-- Items name the columns, and places name the cells, as long as the mesh is orderly. -/
theorem directs (h : rest.Arranges labels L (rows.map (·.2)) (Grid.numbering rows))
    (hm : m.Orderly L) : (⟨n, m, labels⟩ : Board ι χ).Directs rows where
  column c hc := by
    have hheader : c ∈ L.headers := h.header c (by rwa [← hm.frame])
    obtain ⟨x, hx, hlabel⟩ := exists_of_forall₂ h.header_labels hheader
    have hmem : x ∈ distinct (rows.map (·.2)).flatten :=
      (List.mem_append.mp hx).elim List.mem_of_mem_filter List.mem_of_mem_filter
    refine ⟨x, ?_, (h.column?_eq_some_iff m).mpr ⟨x, hlabel, BEq.rfl⟩⟩
    rw [List.flatMap_def]
    exact distinct_subset hmem
  place _ hp := h.cellAt?_of_isCell hm.frame hp
  cell _ _ hrow _ _ hitem := h.cellAt?_of_getElem? hm hrow hitem

end Mesh.Arranges

end ExactCover
