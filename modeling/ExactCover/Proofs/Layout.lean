import ExactCover.Proofs.Undo
import Mathlib.Data.List.Nodup

/-!
# Layouts and what a mesh shows of them

A *layout* names what a mesh is made of: the cells of each row in order, the columns of either ring
in order, and what each cell asks for while nothing is covered. It never changes while columns are
taken out and put back.

What does change is a *picture*: which cells hang in their columns, what they ask for, and which
columns are open or restricted to a color. `Displays` ties a mesh to a layout and a picture. Every
column is a ring of those of its cells that hang in it, the rings of columns hold the open columns,
and the walks around the rows find the cells of each row. The order in a ring is always the order
of the layout, so a picture and a layout leave nothing open but the links of what is taken out.

The step behind all others, taking one cell out of its column, is dealt with here (`detach`).
-/

set_option autoImplicit false

namespace ExactCover

variable {n : Nat} {χ : Type}

/-- Lists that have nothing in common have nothing in common either if some members are left out. -/
theorem disjoint_cons_filter {a b : Fin n} {as bs : List (Fin n)}
    (h : (a :: as).Disjoint (b :: bs)) (f : Fin n → Bool) :
    (a :: as.filter f).Disjoint (b :: bs.filter f) := by
  intro p hp hp'
  apply h
  · exact List.cons_subset_cons a List.filter_sublist.subset hp
  · exact List.cons_subset_cons b List.filter_sublist.subset hp'

/-- Whether a cell has a color, namely one equal to the given one. -/
def Paint.matchesTint [BEq χ] : Paint χ → Option χ → Bool
  | .colored color, some tint => color == tint
  | _, _ => false

/-- What a mesh is made of. -/
structure Layout (n : Nat) (χ : Type) extends Frame n where
  /-- What each cell asks of its column while nothing is covered. -/
  paint : Fin n → Paint χ
  /-- The cells of each row. -/
  rows : List (List (Fin n))
  /-- The headers of the columns that must be covered. -/
  primary : List (Fin n)
  /-- The headers of the columns that may be covered. -/
  secondary : List (Fin n)

namespace Layout

variable (L : Layout n χ)

/-- All cells, row by row. -/
def cells : List (Fin n) := L.rows.flatten

/-- All headers. -/
def headers : List (Fin n) := L.primary ++ L.secondary

/-- The header of the column that a position belongs to. -/
def columnOf (p : Fin n) : Fin n := L.owner.target p

/-- The cells of a column, from top to bottom. -/
def column (c : Fin n) : List (Fin n) := L.cells.filter fun p => L.columnOf p = c

/-- The row that a cell belongs to. -/
def rowOf (p : Fin n) : List (Fin n) := (L.rows.find? fun row => row.contains p).getD []

/-- The other cells of the row of a cell, from the next one to the one before it. -/
def around (p : Fin n) : List (Fin n) :=
  ((L.rowOf p).dropWhile (· ≠ p)).tail ++ (L.rowOf p).takeWhile (· ≠ p)

/-- Every position of the layout is what the frame says it is, and the positions of either ring and
those of the cells come in the order in which they were added. A row may have several cells in one
column. -/
structure Sound : Prop where
  heads_ne : L.primaryHead ≠ L.secondaryHead
  role_primaryHead : L.role L.primaryHead = .ringHead
  role_secondaryHead : L.role L.secondaryHead = .ringHead
  role_header : ∀ c ∈ L.headers, L.role c = .header
  role_cell : ∀ p ∈ L.cells, (L.role p).isCell
  headers_nodup : L.headers.Nodup
  primary_sorted : L.primary.Pairwise (· < ·)
  secondary_sorted : L.secondary.Pairwise (· < ·)
  cells_sorted : L.cells.Pairwise (· < ·)
  columnOf_mem : ∀ p ∈ L.cells, L.columnOf p ∈ L.headers
  isPurified_paint : ∀ p ∈ L.cells, (L.paint p).isPurified = false

/-- In addition, no row has two cells in one column. -/
structure Proper : Prop extends L.Sound where
  row_columns_nodup : ∀ row ∈ L.rows, (row.map L.columnOf).Nodup

variable {L}

@[simp]
theorem mem_column {c p : Fin n} : p ∈ L.column c ↔ p ∈ L.cells ∧ L.columnOf p = c := by
  simp [column]

theorem mem_cells_of_mem_row {row : List (Fin n)} {p : Fin n} (hrow : row ∈ L.rows)
    (hp : p ∈ row) : p ∈ L.cells :=
  List.mem_flatten.mpr ⟨row, hrow, hp⟩

/-- A row starts with any of its cells and goes around. -/
theorem rowOf_eq_append {p : Fin n} (hp : p ∈ L.rowOf p) :
    ∃ before behind, L.rowOf p = before ++ p :: behind ∧ L.around p = behind ++ before := by
  obtain ⟨before, behind, hsplit, hfirst⟩ := List.eq_append_cons_of_mem hp
  have hbefore : ∀ q ∈ before, decide (q ≠ p) = true := fun q hq => by
    simpa using fun heq : q = p => hfirst (heq ▸ hq)
  refine ⟨before, behind, hsplit, ?_⟩
  rw [around, hsplit, List.dropWhile_append_of_pos hbefore, List.takeWhile_append_of_pos hbefore,
    List.dropWhile_cons_of_neg (by simp), List.takeWhile_cons_of_neg (by simp), List.tail_cons,
    List.append_nil]

namespace Sound

theorem cells_nodup (hL : L.Sound) : L.cells.Nodup :=
  hL.cells_sorted.imp Fin.ne_of_lt

theorem row_nodup (hL : L.Sound) {row : List (Fin n)} (hrow : row ∈ L.rows) : row.Nodup :=
  (List.nodup_flatten.mp hL.cells_nodup).1 row hrow

theorem column_nodup (hL : L.Sound) (c : Fin n) : (L.column c).Nodup :=
  hL.cells_nodup.filter _

/-- A cell is in one row only. -/
theorem rowOf_eq (hL : L.Sound) {row : List (Fin n)} {p : Fin n} (hrow : row ∈ L.rows)
    (hp : p ∈ row) : L.rowOf p = row := by
  obtain ⟨row', hfind⟩ : ∃ row', L.rows.find? (fun row => row.contains p) = some row' :=
    Option.isSome_iff_exists.mp (List.find?_isSome.mpr ⟨row, hrow, by simpa using hp⟩)
  have hp' : p ∈ row' := by simpa using List.find?_some hfind
  have hrow' : row' ∈ L.rows := List.mem_of_find?_eq_some hfind
  rw [rowOf, hfind, Option.getD_some]
  by_contra hne
  have hapart := (List.nodup_flatten.mp hL.cells_nodup).2
  have : Std.Symm (@List.Disjoint (Fin n)) := ⟨fun _ _ h => h.symm⟩
  exact hapart.forall hrow' hrow hne hp' hp

/-- The row of a cell is one of the rows and has the cell. -/
theorem rowOf_mem (hL : L.Sound) {p : Fin n} (hp : p ∈ L.cells) :
    L.rowOf p ∈ L.rows ∧ p ∈ L.rowOf p := by
  obtain ⟨row, hrow, hp⟩ := List.mem_flatten.mp hp
  rw [hL.rowOf_eq hrow hp]
  exact ⟨hrow, hp⟩

/-- Cells of one row have the same row. -/
theorem rowOf_eq_of_mem (hL : L.Sound) {p q : Fin n} (hp : p ∈ L.cells) (hq : q ∈ L.rowOf p) :
    q ∈ L.cells ∧ L.rowOf q = L.rowOf p := by
  have hrow := (hL.rowOf_mem hp).1
  exact ⟨mem_cells_of_mem_row hrow hq, hL.rowOf_eq hrow hq⟩

/-- The other cells of a row are what the name says. -/
theorem mem_around (hL : L.Sound) {p q : Fin n} (hp : p ∈ L.cells) :
    q ∈ L.around p ↔ q ∈ L.rowOf p ∧ q ≠ p := by
  obtain ⟨hrow, hpRow⟩ := hL.rowOf_mem hp
  obtain ⟨before, behind, hsplit, haround⟩ := rowOf_eq_append hpRow
  have hnodup := hL.row_nodup hrow
  rw [hsplit] at hnodup
  rw [hsplit, haround]
  grind

theorem mem_cells_of_mem_around (hL : L.Sound) {p q : Fin n} (hp : p ∈ L.cells)
    (hq : q ∈ L.around p) : q ∈ L.cells :=
  (hL.rowOf_eq_of_mem hp ((hL.mem_around hp).mp hq).1).1

/-- A cell is no header. -/
theorem not_mem_headers (hL : L.Sound) {p : Fin n} (hp : p ∈ L.cells) : p ∉ L.headers := by
  intro hheader
  have hcell := hL.role_cell p hp
  rw [hL.role_header p hheader] at hcell
  exact Bool.false_ne_true hcell

/-- Positions of different columns are different. -/
theorem column_disjoint (hL : L.Sound) {c d : Fin n} (hc : c ∈ L.headers) (hd : d ∈ L.headers)
    (hcd : c ≠ d) : (c :: L.column c).Disjoint (d :: L.column d) := by
  intro p hp hp'
  rw [List.mem_cons, mem_column] at hp hp'
  rcases hp with rfl | ⟨hcell, hcolumn⟩ <;> rcases hp' with rfl | ⟨hcell', hcolumn'⟩
  · exact hcd rfl
  · exact hL.not_mem_headers hcell' hc
  · exact hL.not_mem_headers hcell hd
  · exact hcd (hcolumn.symm.trans hcolumn')

/-- The two rings of columns have nothing in common. -/
theorem rings_disjoint (hL : L.Sound) :
    (L.primaryHead :: L.primary).Disjoint (L.secondaryHead :: L.secondary) := by
  have hhead : ∀ {c : Fin n}, c ∈ L.headers → L.role c ≠ .ringHead := fun {c} hc => by
    rw [hL.role_header c hc]
    simp
  intro c hc hc'
  rcases List.mem_cons.mp hc with rfl | hc <;> rcases List.mem_cons.mp hc' with hc' | hc'
  · exact hL.heads_ne hc'
  · exact hhead (List.mem_append_right _ hc') hL.role_primaryHead
  · exact hhead (List.mem_append_left _ hc) (hc' ▸ hL.role_secondaryHead)
  · exact (List.nodup_append.mp hL.headers_nodup).2.2 c hc c hc' rfl

/-- A position of a ring of columns is no cell. -/
theorem isCell_eq_false_of_mem_ring (hL : L.Sound) {p : Fin n}
    (hp : p ∈ L.primaryHead :: L.primary ∨ p ∈ L.secondaryHead :: L.secondary) :
    (L.role p).isCell = false := by
  have hheader : p ∈ L.headers → (L.role p).isCell = false := fun hp => by
    rw [hL.role_header p hp]
    rfl
  rw [List.mem_cons, List.mem_cons] at hp
  rcases hp with (rfl | hp) | (rfl | hp)
  · rw [hL.role_primaryHead]
    rfl
  · exact hheader (List.mem_append_left _ hp)
  · rw [hL.role_secondaryHead]
    rfl
  · exact hheader (List.mem_append_right _ hp)

/-- A position of a column, its header included, is no spacer. -/
theorem role_ne_spacer (hL : L.Sound) {c p : Fin n} (hc : c ∈ L.headers)
    (hp : p ∈ c :: L.column c) : L.role p ≠ .spacer := by
  intro hspacer
  rcases List.mem_cons.mp hp with rfl | hp
  · rw [hL.role_header p hc] at hspacer
    cases hspacer
  · have hcell := hL.role_cell p (mem_column.mp hp).1
    rw [hspacer] at hcell
    exact Bool.false_ne_true hcell

end Sound

/-- Two cells of one row are in different columns. -/
theorem Proper.eq_of_columnOf_eq (hL : L.Proper) {p q : Fin n} (hp : p ∈ L.cells)
    (hq : q ∈ L.rowOf p) (hcolumn : L.columnOf q = L.columnOf p) : q = p := by
  obtain ⟨hrow, hpRow⟩ := hL.rowOf_mem hp
  exact List.inj_on_of_nodup_map (hL.row_columns_nodup _ hrow) hq hpRow hcolumn

end Layout

/-- What the columns of a mesh look like. -/
structure Picture (n : Nat) (χ : Type) where
  /-- Whether a cell hangs in its column. -/
  hangs : Fin n → Bool
  /-- What a cell asks of its column. -/
  paint : Fin n → Paint χ
  /-- The color that a column is restricted to. -/
  tint : Fin n → Option χ
  /-- Whether a column is in its ring. -/
  isOpen : Fin n → Bool

namespace Mesh

/-- Two cells follow each other in a row. -/
def Beside (m : Mesh n χ) (p q : Fin n) : Prop := m.right p = .ok q ∧ m.left q = .ok p

/-- The walks to the right and to the left lead around the row. -/
def ClosesRow (m : Mesh n χ) (row : List (Fin n)) : Prop :=
  List.IsChain m.Beside (row ++ row.take 1)

/-- In a row that is closed each cell is followed by the next one, and the last by the first. -/
theorem ClosesRow.beside {m : Mesh n χ} {row : List (Fin n)} (hcloses : m.ClosesRow row) {i : Nat}
    {p q : Fin n} (hp : row[i]? = some p) (hq : row[(i + 1) % row.length]? = some q) :
    m.Beside p q := by
  obtain ⟨hi, rfl⟩ := List.getElem?_eq_some_iff.mp hp
  have hlt : i + 1 < (row ++ row.take 1).length := by
    rw [List.length_append, List.length_take]
    omega
  have hnext : (row ++ row.take 1)[i + 1]? = some q := by
    by_cases hlast : i + 1 < row.length
    · rw [List.getElem?_append_left hlast]
      rwa [Nat.mod_eq_of_lt hlast] at hq
    · have hend : i + 1 = row.length := by omega
      rw [hend, Nat.mod_self] at hq
      rw [hend, List.getElem?_append_right (Nat.le_refl _), Nat.sub_self,
        List.getElem?_take_of_lt Nat.zero_lt_one, hq]
  rw [ClosesRow, List.isChain_iff_getElem] at hcloses
  have hbeside := hcloses i hlt
  rw [List.getElem?_eq_getElem hlt, Option.some.injEq] at hnext
  rw [List.getElem_append_left hi, hnext] at hbeside
  exact hbeside

/-- The walks that start at a cell lead through the rest of its row. -/
theorem ClosesRow.leads {m : Mesh n χ} {before behind : List (Fin n)} {p : Fin n}
    (hcloses : m.ClosesRow (before ++ p :: behind)) (hnodup : (before ++ p :: behind).Nodup) :
    m.Leads right p (behind ++ before) ∧ m.Leads left p (behind ++ before).reverse := by
  have hchain : List.IsChain m.Beside (p :: (behind ++ before ++ [p])) := by
    cases before with
    | nil => simpa [ClosesRow] using hcloses
    | cons q before =>
      have hcloses : List.IsChain m.Beside (q :: (before ++ p :: (behind ++ [q]))) := by
        simpa [ClosesRow] using hcloses
      rw [List.isChain_cons_split] at hcloses
      have hsplit : List.IsChain m.Beside (p :: (behind ++ q :: (before ++ [p]))) :=
        List.isChain_cons_split.mpr ⟨hcloses.2, hcloses.1⟩
      simpa using hsplit
  have hnodup' : (p :: (behind ++ before)).Nodup := by
    rw [← List.cons_append]
    exact (List.perm_append_comm).nodup_iff.mp hnodup
  refine ⟨⟨hchain.imp fun _ _ h => h.1, hnodup'⟩, ⟨?_, ?_⟩⟩
  · have hreverse := List.isChain_reverse.mpr (hchain.imp fun _ _ h => h.2)
    simpa using hreverse
  · have hnodup := hnodup'
    rw [List.nodup_cons, ← List.mem_reverse, ← List.nodup_reverse, ← List.nodup_cons] at hnodup
    exact hnodup

/-- The walks around a row can be started at any of its cells. -/
theorem leads_around_of_closed {m : Mesh n χ} {L : Layout n χ} (hL : L.Sound)
    (hclosed : ∀ row ∈ L.rows, m.ClosesRow row) {p : Fin n} (hp : p ∈ L.cells) :
    m.Leads right p (L.around p) ∧ m.Leads left p (L.around p).reverse := by
  obtain ⟨hrow, hpRow⟩ := hL.rowOf_mem hp
  obtain ⟨before, behind, hsplit, haround⟩ := Layout.rowOf_eq_append hpRow
  have hcloses := hclosed _ hrow
  have hnodup := hL.row_nodup hrow
  rw [hsplit] at hcloses hnodup
  rw [haround]
  exact hcloses.leads hnodup

/-- Walks around a row depend on the links of its cells to their sides and on the vertical links of
the spacers next to them. -/
theorem ClosesRow.congr_of_neighbors {m m' : Mesh n χ} {row : List (Fin n)}
    (hcloses : m.ClosesRow row) (hframe : m'.toFrame = m.toFrame)
    (hacross : ∀ p ∈ row,
      m'.across.next p = m.across.next p ∧ m'.across.prev p = m.across.prev p)
    (hbehind : ∀ p ∈ row, ∀ q, m.role q = .spacer → q.val = p.val + 1 →
      m'.down.prev q = m.down.prev q)
    (hfront : ∀ p ∈ row, ∀ q, m.role q = .spacer → q.val + 1 = p.val →
      m'.down.next q = m.down.next q) :
    m'.ClosesRow row := by
  have hmem : ∀ p ∈ row ++ row.take 1, p ∈ row := fun p hp =>
    (List.mem_append.mp hp).elim id List.mem_of_mem_take
  have hright : ∀ p ∈ row, m'.right p = m.right p := by
    intro p hp
    simp only [right, hframe, (hacross p hp).1]
    split
    · rfl
    · split
      · split
        · next hspacer => simp only [above, hbehind p hp _ hspacer rfl]
        · rfl
      · rfl
  have hleft : ∀ p ∈ row, m'.left p = m.left p := by
    intro p hp
    simp only [left, hframe, (hacross p hp).2]
    split
    · rfl
    · split
      · next hpos =>
        split
        · next hspacer =>
          have hnext := hfront p hp _ hspacer (Nat.sub_add_cancel hpos)
          simp only [below, hnext]
        · rfl
      · rfl
  refine List.IsChain.imp_of_mem_imp (fun p q hp hq hpq => ⟨?_, ?_⟩) hcloses
  · rw [hright p (hmem p hp)]
    exact hpq.1
  · rw [hleft q (hmem q hq)]
    exact hpq.2

/-- Walks around rows depend on the links of cells to their sides and on the vertical links of
spacers. -/
theorem ClosesRow.congr {m m' : Mesh n χ} {row : List (Fin n)} (hcloses : m.ClosesRow row)
    (hcell : ∀ p ∈ row, (m.role p).isCell) (hframe : m'.toFrame = m.toFrame)
    (hacross : ∀ p, (m.role p).isCell →
      m'.across.next p = m.across.next p ∧ m'.across.prev p = m.across.prev p)
    (hdown : ∀ p, m.role p = .spacer →
      m'.down.next p = m.down.next p ∧ m'.down.prev p = m.down.prev p) :
    m'.ClosesRow row :=
  hcloses.congr_of_neighbors hframe (fun p hp => hacross p (hcell p hp))
    (fun _ _ q hspacer _ => (hdown q hspacer).2) fun _ _ q hspacer _ => (hdown q hspacer).1

/-- Meshes that are alike have the same walks around rows. -/
theorem ClosesRow.of_alike [BEq χ] {m m' : Mesh n χ} {row : List (Fin n)}
    (hcloses : m.ClosesRow row) (halike : m.Alike m') : m'.ClosesRow row := by
  apply hcloses.imp
  intro p q hpq
  rw [Beside, halike.right_eq, halike.left_eq]
  exact hpq

/-- A row that lies between two spacers is closed if the spacers name its ends. -/
theorem closesRow_of_spacers {m : Mesh n χ} {row : List (Fin n)} {front behind : Fin n}
    (hstyle : m.style = .spaced) (hcells : ∀ p ∈ row, m.role p ≠ .spacer)
    (hfront : m.role front = .spacer) (hbehind : m.role behind = .spacer)
    (hlie : List.IsChain (fun p q : Fin n => q.val = p.val + 1) (front :: (row ++ [behind])))
    (hfirst : row.head? = some (m.above behind)) (hlast : row.getLast? = some (m.below front)) :
    m.ClosesRow row := by
  obtain ⟨first, rest, rfl⟩ : ∃ first rest, row = first :: rest := by
    cases row with
    | nil => simp at hfirst
    | cons first rest => exact ⟨first, rest, rfl⟩
  have hfirst : first = m.above behind := by simpa using hfirst
  rw [List.cons_append, List.isChain_cons_cons, ← List.cons_append, List.isChain_append] at hlie
  obtain ⟨hfirstFront, hrow, -, hlastBehind⟩ := hlie
  have hlastBehind := hlastBehind _ hlast behind rfl
  rw [ClosesRow, List.isChain_append]
  refine ⟨hrow.imp_of_mem_imp fun p q hp hq hpq => ⟨?_, ?_⟩, by simp, ?_⟩
  · have hlt : p.val + 1 < n := hpq ▸ q.isLt
    have hq' : (⟨p.val + 1, hlt⟩ : Fin n) = q := Fin.ext hpq.symm
    simp only [right, hstyle, dif_pos hlt, hq', if_neg (hcells q hq)]
  · have hp' : ∀ h, (⟨q.val - 1, h⟩ : Fin n) = p := fun h => Fin.ext (by simp [hpq])
    have hpos : 0 < q.val := by omega
    simp only [left, hstyle, if_pos hpos, hp', if_neg (hcells p hp)]
  · intro p hp q hq
    obtain rfl : m.below front = p := Option.some.inj (hlast.symm.trans hp)
    obtain rfl : first = q := by simpa using hq
    constructor
    · have hlt : (m.below front).val + 1 < n := hlastBehind ▸ behind.isLt
      have hq' : (⟨(m.below front).val + 1, hlt⟩ : Fin n) = behind := Fin.ext hlastBehind.symm
      simp only [right, hstyle, dif_pos hlt, hq', if_pos hbehind, ← hfirst]
    · have hp' : ∀ h, (⟨first.val - 1, h⟩ : Fin n) = front :=
        fun h => Fin.ext (by simp [hfirstFront])
      have hpos : 0 < first.val := by omega
      simp only [left, hstyle, if_pos hpos, hp', if_pos hfront]

/-- A mesh consists of what the layout names, linked as the picture shows. -/
structure Shows [BEq χ] (m : Mesh n χ) (L : Layout n χ) (v : Picture n χ) : Prop where
  frame : m.toFrame = L.toFrame
  column : ∀ c ∈ L.headers, m.down.IsRing c ((L.column c).filter v.hangs)
  count : ∀ c ∈ L.headers, m.count c = ((L.column c).filter v.hangs).length
  paint : ∀ p ∈ L.cells, (v.paint p).Alike (m.paint p)
  tint : ∀ c ∈ L.headers, TintAlike (v.tint c) (m.tint c)
  primary : m.across.IsRing L.primaryHead (L.primary.filter v.isOpen)
  secondary : m.across.IsRing L.secondaryHead (L.secondary.filter v.isOpen)

/-- In addition, all rows can be walked around. -/
structure Displays [BEq χ] (m : Mesh n χ) (L : Layout n χ) (v : Picture n χ) : Prop
    extends m.Shows L v where
  closed : ∀ row ∈ L.rows, m.ClosesRow row

namespace Shows

variable [BEq χ] {m : Mesh n χ} {L : Layout n χ} {v v' : Picture n χ}

theorem role_eq (h : m.Shows L v) (p : Fin n) : m.role p = L.role p := by
  simp only [Frame.role, h.frame]

theorem column_eq (h : m.Shows L v) (p : Fin n) : m.column p = L.columnOf p := by
  simp only [Mesh.column, Layout.columnOf, h.frame]

theorem isCell (h : m.Shows L v) (hL : L.Proper) {p : Fin n} (hp : p ∈ L.cells) :
    (m.role p).isCell := by
  rw [h.role_eq]
  exact hL.role_cell p hp

/-- Only the cells and columns of the layout count. -/
theorem congr [EquivBEq χ] (h : m.Shows L v) (hhangs : ∀ p ∈ L.cells, v'.hangs p = v.hangs p)
    (hpaint : ∀ p ∈ L.cells, v'.paint p = v.paint p)
    (htint : ∀ c ∈ L.headers, v'.tint c = v.tint c)
    (hopen : ∀ c ∈ L.headers, v'.isOpen c = v.isOpen c) : m.Shows L v' where
  frame := h.frame
  column c hc := by
    rw [List.filter_congr fun p hp => hhangs p (Layout.mem_column.mp hp).1]
    exact h.column c hc
  count c hc := by
    rw [List.filter_congr fun p hp => hhangs p (Layout.mem_column.mp hp).1]
    exact h.count c hc
  paint p hp := by
    rw [hpaint p hp]
    exact h.paint p hp
  tint c hc := by
    rw [htint c hc]
    exact h.tint c hc
  primary := by
    rw [List.filter_congr fun c hc => hopen c (List.mem_append_left _ hc)]
    exact h.primary
  secondary := by
    rw [List.filter_congr fun c hc => hopen c (List.mem_append_right _ hc)]
    exact h.secondary

/-- A mesh that is alike shows the same. -/
theorem of_alike [EquivBEq χ] {m' : Mesh n χ} (h : m.Shows L v) (halike : m.Alike m') :
    m'.Shows L v where
  frame := halike.frame.trans h.frame
  column c hc := by
    rw [halike.down]
    exact h.column c hc
  count c hc := by
    rw [halike.count_eq]
    exact h.count c hc
  paint p hp := (h.paint p hp).trans (halike.paint p)
  tint c hc := (h.tint c hc).trans (halike.tint c)
  primary := by
    rw [halike.across]
    exact h.primary
  secondary := by
    rw [halike.across]
    exact h.secondary

theorem role_ne_spacer (h : m.Shows L v) (hL : L.Proper) {c p : Fin n} (hc : c ∈ L.headers)
    (hp : p ∈ c :: (L.column c).filter v.hangs) : m.role p ≠ .spacer := by
  rw [h.role_eq]
  exact hL.role_ne_spacer hc (List.cons_subset_cons c List.filter_sublist.subset hp)

end Shows

namespace Displays

variable [BEq χ] {m : Mesh n χ} {L : Layout n χ} {v v' : Picture n χ}

/-- Only the cells and columns of the layout count. -/
theorem congr [EquivBEq χ] (h : m.Displays L v) (hhangs : ∀ p ∈ L.cells, v'.hangs p = v.hangs p)
    (hpaint : ∀ p ∈ L.cells, v'.paint p = v.paint p)
    (htint : ∀ c ∈ L.headers, v'.tint c = v.tint c)
    (hopen : ∀ c ∈ L.headers, v'.isOpen c = v.isOpen c) : m.Displays L v' :=
  ⟨h.toShows.congr hhangs hpaint htint hopen, h.closed⟩

/-- A mesh that is alike displays the same. -/
theorem of_alike [EquivBEq χ] {m' : Mesh n χ} (h : m.Displays L v) (halike : m.Alike m') :
    m'.Displays L v :=
  ⟨h.toShows.of_alike halike, fun row hrow => (h.closed row hrow).of_alike halike⟩

/-- What a cell asks in a mesh is what the picture says, in all but the color. -/
theorem isPurified_eq (h : m.Displays L v) {p : Fin n} (hp : p ∈ L.cells) :
    (m.paint p).isPurified = (v.paint p).isPurified :=
  (h.paint p hp).isPurified_eq

/-- The walks around a row can be started at any of its cells. -/
theorem leads_around (h : m.Displays L v) (hL : L.Proper) {p : Fin n} (hp : p ∈ L.cells) :
    m.Leads right p (L.around p) ∧ m.Leads left p (L.around p).reverse :=
  leads_around_of_closed hL.toSound h.closed hp

/-- What is left when a cell is taken out: its column is shorter by one, and everything else looks
as before. -/
theorem detached (h : m.Displays L v) (hL : L.Proper) {p : Fin n} {k : Nat} (hp : p ∈ L.cells)
    (hhangs : v.hangs p) (hcount : m.count (L.columnOf p) = k + 1) :
    (({ m with down := m.down.unlink p } : Mesh n χ).setCount (L.columnOf p) k).Displays L
      { v with hangs := fun q => v.hangs q && q ≠ p } := by
  have hheader : L.columnOf p ∈ L.headers := hL.columnOf_mem p hp
  have hring := h.column _ hheader
  have hmem : p ∈ (L.column (L.columnOf p)).filter v.hangs := by simp [hp, hhangs]
  have hsame : (L.column (L.columnOf p)).filter (fun q => v.hangs q && q ≠ p) =
      ((L.column (L.columnOf p)).filter v.hangs).erase p := by
    rw [hring.members_nodup.erase_eq_filter, List.filter_filter]
    apply List.filter_congr
    intro q _
    by_cases hqp : q = p <;> simp [hqp]
  have hother : ∀ c, c ≠ L.columnOf p →
      (L.column c).filter (fun q => v.hangs q && q ≠ p) = (L.column c).filter v.hangs := by
    refine fun c hc => List.filter_congr fun q hq => ?_
    have hne : q ≠ p := by
      rintro rfl
      exact hc (Layout.mem_column.mp hq).2.symm
    simp [hne]
  refine ⟨⟨h.frame, fun c hc => ?_, fun c hc => ?_, h.paint, h.tint, h.primary, h.secondary⟩,
    fun row hrow => ?_⟩
  · change (m.down.unlink p).IsRing c _
    by_cases hcp : c = L.columnOf p
    · rw [hcp, hsame]
      exact hring.unlink_erase hmem
    · rw [hother c hcp]
      exact hring.unlink_of_disjoint hmem (h.column c hc)
        (disjoint_cons_filter (hL.column_disjoint hheader hc (Ne.symm hcp)) v.hangs)
  · rw [count_setCount]
    by_cases hcp : c = L.columnOf p
    · rw [if_pos hcp, hcp, hsame, List.length_erase_of_mem hmem, ← h.count _ hheader, hcount]
      rfl
    · rw [if_neg hcp, hother c hcp]
      exact h.count c hc
  · refine (h.closed row hrow).congr (fun q hq => ?_) rfl (fun q _ => ⟨rfl, rfl⟩)
      fun q hspacer => ⟨?_, ?_⟩
    · exact h.isCell hL (Layout.mem_cells_of_mem_row hrow hq)
    · change (m.down.unlink p).next q = m.down.next q
      rw [Links.next_unlink, if_neg]
      rintro rfl
      exact h.role_ne_spacer hL hheader (hring.prev_mem hmem).1 hspacer
    · change (m.down.unlink p).prev q = m.down.prev q
      rw [Links.prev_unlink, if_neg]
      rintro rfl
      exact h.role_ne_spacer hL hheader (hring.next_mem hmem).1 hspacer

/-- A cell that hangs in its column can be taken out and put back. -/
theorem exists_detach (h : m.Displays L v) (hL : L.Proper) {p : Fin n} (hp : p ∈ L.cells)
    (hhangs : v.hangs p) (hpaint : (v.paint p).isPurified = false) :
    ∃ m', RoundTrip (detach p) (attach p) m m' ∧
      m'.Displays L { v with hangs := fun q => v.hangs q && q ≠ p } := by
  have hcolumn : m.column p = L.columnOf p := h.column_eq p
  have hheader : L.columnOf p ∈ L.headers := hL.columnOf_mem p hp
  have hring := h.column _ hheader
  have hmem : p ∈ (L.column (L.columnOf p)).filter v.hangs := by simp [hp, hhangs]
  obtain ⟨k, hk⟩ : ∃ k, m.count (L.columnOf p) = k + 1 := by
    apply Nat.exists_eq_add_one.mpr
    rw [h.count _ hheader]
    exact List.length_pos_of_mem hmem
  have hcell : (m.role p).isCell := h.isCell hL hp
  have hpaint' : (m.paint p).isPurified = false := by rw [h.isPurified_eq hp, hpaint]
  refine ⟨_, ⟨?_, fun m₁ halike => ?_⟩, h.detached hL hp hhangs hk⟩
  · simp [detach, hcell, hpaint', hcolumn, hk]
  · have hcell₁ : (m₁.role p).isCell := by
      rw [halike.role_eq]
      exact hcell
    have hpaint₁ : (m₁.paint p).isPurified = false := by
      rw [halike.isPurified_eq]
      exact hpaint'
    have hcolumn₁ : m₁.column p = L.columnOf p := by
      rw [halike.column_eq]
      exact hcolumn
    have hcount₁ : m₁.count (L.columnOf p) = k := by
      rw [halike.count_eq, count_setCount, if_pos rfl]
    refine ⟨({ m₁ with down := m₁.down.relink p } : Mesh n χ).setCount (L.columnOf p) (k + 1),
      ?_, halike.frame, halike.across, ?_, ?_, halike.paint, halike.tint⟩
    · simp [attach, hcell₁, hpaint₁, hcolumn₁, hcount₁]
    · change m₁.down.relink p = m.down
      rw [halike.down]
      exact hring.relink_unlink hmem
    · change m₁.counts.set (L.columnOf p).val (k + 1) (L.columnOf p).isLt = m.counts
      rw [halike.counts, ← hk]
      exact congrArg Mesh.counts (m.setCount_setCount_count (L.columnOf p) k)

end Displays

end Mesh

end ExactCover
