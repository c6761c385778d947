import ExactCover.Board
import ExactCover.Proofs.Distinct
import ExactCover.Proofs.Growth
import Mathlib.Data.List.Forall2

/-!
# What a board has on it

A board *plots* a list of rows if its mesh is at rest on a layout whose columns are labelled with
the items, no two of them with equal ones, and whose rows are the given rows, cell by cell. Adding
a column or a cell to a board that plots some rows makes one that plots them or the longer last
row, and closing the last row does not change what is plotted. The rows may be any lists of items;
if no row lists an item twice, the board *charts* them.

How a board came to be shows in nothing but the numbers of its positions. The statements about
searching are made about charts, and so are the same for all grids.
-/

set_option autoImplicit false

namespace ExactCover

/-- In lists that correspond, every element corresponds to one of the other list. -/
theorem exists_of_forall₂ {α β : Type} {R : α → β → Prop} {as : List α} {bs : List β}
    (h : List.Forall₂ R as bs) {a : α} (ha : a ∈ as) : ∃ b ∈ bs, R a b := by
  induction h with
  | nil => contradiction
  | @cons a' b as bs hab hrest ih =>
    rcases List.mem_cons.mp ha with rfl | ha
    · exact ⟨b, by simp, hab⟩
    · obtain ⟨b', hb', hab'⟩ := ih ha
      exact ⟨b', List.mem_cons_of_mem _ hb', hab'⟩

/-- Elements with the same number correspond. -/
theorem rel_of_getElem? {α β : Type} {R : α → β → Prop} {as : List α} {bs : List β} {a : α} {b : β}
    {i : Nat} (h : List.Forall₂ R as bs) (ha : as[i]? = some a) (hb : bs[i]? = some b) :
    R a b := by
  obtain ⟨hi, rfl⟩ := List.getElem?_eq_some_iff.mp ha
  obtain ⟨hi', rfl⟩ := List.getElem?_eq_some_iff.mp hb
  exact h.get hi hi'

/-- What is read off elements that correspond is the same list. -/
theorem map_eq_of_forall₂ {α β γ : Type} {R : α → β → Prop} {f : α → γ} {g : β → γ}
    {as : List α} {bs : List β} (h : List.Forall₂ R as bs) (hfg : ∀ a b, R a b → f a = g b) :
    as.map f = bs.map g := by
  rw [← List.forall₂_eq_eq_eq, List.forall₂_map_left_iff, List.forall₂_map_right_iff]
  exact h.imp hfg

/-- What holds of any two elements of a list carries over to a list that corresponds to it. -/
theorem pairwise_of_forall₂ {α β : Type} {R : α → β → Prop} {S : β → β → Prop} {T : α → α → Prop}
    {as : List α} {bs : List β} (h : List.Forall₂ R as bs) (hpairwise : bs.Pairwise S)
    (himp : ∀ {a a' b b'}, R a b → R a' b' → S b b' → T a a') : as.Pairwise T := by
  induction h with
  | nil => exact .nil
  | @cons a b as bs hab hrest ih =>
    obtain ⟨hhead, htail⟩ := List.pairwise_cons.mp hpairwise
    refine .cons (fun a' ha' => ?_) (ih htail)
    obtain ⟨b', hb', hab'⟩ := exists_of_forall₂ hrest ha'
    exact himp hab hab' (hhead b' hb')

variable {ι χ : Type} [BEq ι] [BEq χ] [Item ι χ] {n : Nat}

/-- Whether an item has to be covered. -/
abbrev isPrimaryItem (item : ι) : Bool := (Item.kind item).isPrimary

/-- The column is labelled with the item. -/
def Labels (columns : List (ι × Nat)) (c : Fin n) (item : ι) : Prop :=
  ∃ x, (x, c.val) ∈ columns ∧ x == item

theorem Board.isPurified_paintOf {ι χ : Type} [Item ι χ] (item : ι) :
    (paintOf item : Paint χ).isPurified = false := by
  rw [paintOf]
  split <;> rfl

namespace Mesh

/-- The mesh is at rest, its columns have the labels, and it has the rows on it. The cells of a row
have the number of an option, which is that of the row unless the rows are numbered otherwise. -/
structure Plots (m : Mesh n χ) (columns : List (ι × Nat)) (L : Layout n χ)
    (rows : List (List ι)) (numbering : Nat → Nat := id) : Prop where
  sound : L.Sound
  atRest : m.AtRest L
  primary : L.primary.map (·.val) = (columns.filter fun x => isPrimaryItem x.1).map (·.2)
  secondary : L.secondary.map (·.val) = (columns.filter fun x => !isPrimaryItem x.1).map (·.2)
  distinct : Unrepeated (columns.map (·.1))
  cells : List.Forall₂ (List.Forall₂ fun p item =>
    Labels columns (L.columnOf p) item ∧ L.paint p = Board.paintOf item) L.rows rows
  number : ∀ (k : Nat) (row : List (Fin n)), L.rows[k]? = some row →
    ∀ p ∈ row, L.role p = .cell (numbering k)
  header : ∀ p : Fin n, L.role p = .header → p ∈ L.headers
  cell : ∀ p : Fin n, (L.role p).isCell → p ∈ L.cells

namespace Plots

variable {m : Mesh n χ} {columns : List (ι × Nat)} {L : Layout n χ} {rows : List (List ι)}
  {numbering : Nat → Nat} {item : ι}

/-- Every label belongs to a header. -/
theorem exists_header (h : m.Plots columns L rows numbering) {x : ι × Nat} (hx : x ∈ columns) :
    ∃ c ∈ L.headers, c.val = x.2 ∧ (c ∈ L.primary ↔ isPrimaryItem x.1) := by
  have hnodup := List.nodup_append.mp h.sound.headers_nodup
  by_cases hkind : isPrimaryItem x.1
  · have hmem : x.2 ∈ L.primary.map (·.val) := by
      rw [h.primary]
      exact List.mem_map_of_mem (List.mem_filter.mpr ⟨hx, hkind⟩)
    obtain ⟨c, hc, hcx⟩ := List.mem_map.mp hmem
    exact ⟨c, List.mem_append_left _ hc, hcx, by simp [hc, hkind]⟩
  · have hmem : x.2 ∈ L.secondary.map (·.val) := by
      rw [h.secondary]
      exact List.mem_map_of_mem (List.mem_filter.mpr ⟨hx, by simpa using hkind⟩)
    obtain ⟨c, hc, hcx⟩ := List.mem_map.mp hmem
    have hnot : c ∉ L.primary := fun hc' => hnodup.2.2 c hc' c hc rfl
    exact ⟨c, List.mem_append_right _ hc, hcx, by simp [hnot, hkind]⟩

omit [BEq ι] in
/-- The headers of a ring, with the items that label them. -/
theorem rel_of_map_val {cs : List (Fin n)} {f : ι → Bool}
    (h : cs.map (·.val) = (columns.filter fun x => f x.1).map (·.2)) :
    List.Forall₂ (fun c x => (x, c.val) ∈ columns) cs ((columns.map (·.1)).filter f) := by
  have hlabels : List.Forall₂ (fun k x => k = x.2 ∧ x ∈ columns) (cs.map (·.val))
      (columns.filter fun x => f x.1) := by
    rw [h, List.forall₂_map_left_iff, List.forall₂_same]
    intro x hx
    exact ⟨rfl, (List.mem_filter.mp hx).1⟩
  rw [List.forall₂_map_left_iff] at hlabels
  rw [List.filter_map, List.forall₂_map_right_iff]
  refine hlabels.imp fun c x hcx => ?_
  rw [hcx.1]
  exact hcx.2

theorem primary_labels (h : m.Plots columns L rows numbering) :
    List.Forall₂ (fun c x => (x, c.val) ∈ columns) L.primary
      ((columns.map (·.1)).filter isPrimaryItem) :=
  rel_of_map_val h.primary

theorem secondary_labels (h : m.Plots columns L rows numbering) :
    List.Forall₂ (fun c x => (x, c.val) ∈ columns) L.secondary
      ((columns.map (·.1)).filter (!isPrimaryItem ·)) :=
  rel_of_map_val h.secondary

theorem isPrimaryItem_iff (h : m.Plots columns L rows numbering) {c : Fin n} {x : ι}
    (hx : (x, c.val) ∈ columns) : isPrimaryItem x ↔ c ∈ L.primary := by
  obtain ⟨d, -, hdx, hd⟩ := h.exists_header hx
  obtain rfl : d = c := Fin.ext hdx
  exact hd.symm

/-- Labels of different columns differ. -/
theorem label_inj [EquivBEq ι] (h : m.Plots columns L rows numbering) {x y : ι × Nat}
    (hx : x ∈ columns) (hy : y ∈ columns) (hxy : x.1 == y.1) : x = y := by
  by_contra hne
  have hapart := List.pairwise_map.mp h.distinct
  have : Std.Symm fun x y : ι × Nat => (x.1 == y.1) = false := ⟨fun x y h => by rwa [BEq.comm]⟩
  rw [hapart.forall hx hy hne] at hxy
  exact Bool.false_ne_true hxy

/-- A column has one label. -/
theorem label_unique (h : m.Plots columns L rows numbering) {k : Nat} {x y : ι}
    (hx : (x, k) ∈ columns) (hy : (y, k) ∈ columns) : x = y := by
  obtain ⟨c, -, rfl, hcx⟩ := h.exists_header hx
  have hkind : isPrimaryItem y ↔ isPrimaryItem x :=
    (h.isPrimaryItem_iff hy).trans (h.isPrimaryItem_iff hx).symm
  have hnodup := List.nodup_append.mp h.sound.headers_nodup
  have hprimary : ((columns.filter fun x => isPrimaryItem x.1).map (·.2)).Nodup := by
    rw [← h.primary]
    exact hnodup.1.map Fin.val_injective
  have hsecondary : ((columns.filter fun x => !isPrimaryItem x.1).map (·.2)).Nodup := by
    rw [← h.secondary]
    exact hnodup.2.1.map Fin.val_injective
  have hsame : (x, c.val) = (y, c.val) := by
    by_cases hpx : isPrimaryItem x
    · exact List.inj_on_of_nodup_map hprimary (by simp [hx, hpx]) (by simp [hy, hkind.mpr hpx]) rfl
    · have hpy : ¬isPrimaryItem y := fun hpy => hpx (hkind.mp hpy)
      exact List.inj_on_of_nodup_map hsecondary (by simpa [hx] using hpx)
        (by simpa [hy] using hpy) rfl
  exact congrArg Prod.fst hsame

theorem beq_of_labels [EquivBEq ι] (h : m.Plots columns L rows numbering) {c : Fin n} {x y : ι}
    (hx : Labels columns c x) (hy : Labels columns c y) : x == y := by
  obtain ⟨x', hx', hxx⟩ := hx
  obtain ⟨y', hy', hyy⟩ := hy
  rw [h.label_unique hx' hy'] at hxx
  exact BEq.trans (BEq.symm hxx) hyy

theorem eq_of_labels [EquivBEq ι] (h : m.Plots columns L rows numbering) {c d : Fin n} {x y : ι}
    (hx : Labels columns c x) (hy : Labels columns d y) (hxy : x == y) : c = d := by
  obtain ⟨x', hx', hxx⟩ := hx
  obtain ⟨y', hy', hyy⟩ := hy
  have hsame := h.label_inj hx' hy' (BEq.trans (BEq.trans hxx hxy) (BEq.symm hyy))
  exact Fin.ext (congrArg Prod.snd hsame)

theorem pushHeader [EquivBEq ι] (h : m.Plots columns L rows numbering)
    (hnew : (columns.map (·.1)).contains item = false) :
    (m.pushHeader (isPrimaryItem item)).Plots (columns ++ [(item, n)])
      (L.pushHeader (isPrimaryItem item)) rows numbering where
  sound := h.sound.pushHeader _
  atRest := h.atRest.pushHeader h.sound _
  primary := by
    have hprimary := h.primary
    cases hkind : isPrimaryItem item <;>
      simp [Layout.pushHeader, Layout.push, hkind, Function.comp_def, hprimary]
  secondary := by
    have hsecondary := h.secondary
    cases hkind : isPrimaryItem item <;>
      simp [Layout.pushHeader, Layout.push, hkind, Function.comp_def, hsecondary]
  distinct := by
    rw [not_contains_iff] at hnew
    rw [List.map_append, Unrepeated, List.pairwise_append]
    refine ⟨h.distinct, List.pairwise_singleton _ _, fun a ha b hb => ?_⟩
    rw [List.mem_singleton.mp hb, BEq.comm]
    exact hnew a ha
  cells := by
    rw [Layout.rows_pushHeader, List.forall₂_map_left_iff]
    apply h.cells.imp
    intro row items hrow
    rw [List.forall₂_map_left_iff]
    apply hrow.imp
    intro p x hp
    rw [Layout.columnOf_pushHeader, Layout.paint_pushHeader]
    obtain ⟨⟨y, hy, hyx⟩, hpaint⟩ := hp
    exact ⟨⟨y, List.mem_append_left _ hy, hyx⟩, hpaint⟩
  number := by
    intro k row hrow p hp
    rw [Layout.rows_pushHeader, List.getElem?_map, Option.map_eq_some_iff] at hrow
    obtain ⟨old, hold, rfl⟩ := hrow
    obtain ⟨q, hq, rfl⟩ := List.mem_map.mp hp
    exact (Layout.role_pushHeader _ q).trans (h.number k old hold q hq)
  header := by
    intro p hp
    rw [Layout.mem_headers_pushHeader]
    cases p using Fin.lastCases with
    | last => exact .inr rfl
    | cast p =>
      rw [Layout.role_pushHeader] at hp
      exact .inl (List.mem_map_of_mem (h.header p hp))
  cell := by
    intro p hp
    rw [Layout.cells_pushHeader]
    cases p using Fin.lastCases with
    | last =>
      rw [Layout.role_pushHeader_last] at hp
      contradiction
    | cast p =>
      rw [Layout.role_pushHeader] at hp
      exact List.mem_map_of_mem (h.cell p hp)

theorem startRow (h : m.Plots columns L rows numbering) :
    m.Plots columns L.startRow (rows ++ [[]]) numbering where
  sound := h.sound.startRow
  atRest := h.atRest.startRow
  primary := h.primary
  secondary := h.secondary
  distinct := h.distinct
  cells := List.rel_append h.cells (.cons .nil .nil)
  number := by
    intro k row hrow p hp
    rw [Layout.startRow, List.getElem?_append] at hrow
    split at hrow
    · exact h.number k row hrow p hp
    · obtain rfl : row = [] := by
        have hmem := List.mem_of_getElem? hrow
        simpa using hmem
      contradiction
  header := h.header
  cell := by
    rw [Layout.cells_startRow]
    exact h.cell

variable {items : List ι} {done : List (List (Fin n))} {pending : List (Fin n)} {c : Fin n}

theorem mem_headers (h : m.Plots columns L rows numbering) (hc : Labels columns c item) :
    c ∈ L.headers := by
  obtain ⟨x, hx, -⟩ := hc
  obtain ⟨d, hd, hdx, -⟩ := h.exists_header hx
  obtain rfl : d = c := Fin.ext hdx
  exact hd

/-- The rows before the last and the last one, by cells. -/
theorem cells_concat (h : m.Plots columns L (rows ++ [items]) numbering)
    (hrows : L.rows = done ++ [pending]) :
    List.Forall₂ (List.Forall₂ fun p item =>
      Labels columns (L.columnOf p) item ∧ L.paint p = Board.paintOf item) done rows ∧
    List.Forall₂ (fun p item =>
      Labels columns (L.columnOf p) item ∧ L.paint p = Board.paintOf item) pending items := by
  have hcells := h.cells
  rw [hrows] at hcells
  have hlength : done.length = rows.length := by
    have hlength := hcells.length_eq
    simpa using hlength
  have hdone := List.forall₂_take_append _ _ _ hcells
  have hpending := List.forall₂_drop_append _ _ _ hcells
  rw [← hlength, List.take_left] at hdone
  rw [← hlength, List.drop_left] at hpending
  cases hpending with
  | cons hpending _ => exact ⟨hdone, hpending⟩

/-- A new cell adds its item to the last row and leaves the other cells as they are. -/
theorem cells_pushCell (h : m.Plots columns L (rows ++ [items]) numbering)
    (hrows : L.rows = done ++ [pending]) (hc : Labels columns c item) (option : Nat) :
    List.Forall₂ (List.Forall₂ fun p x =>
      Labels columns ((L.pushCell c option (Board.paintOf item)).columnOf p) x ∧
        (L.pushCell c option (Board.paintOf item)).paint p = Board.paintOf x)
      (L.pushCell c option (Board.paintOf item)).rows (rows ++ [items ++ [item]]) := by
  obtain ⟨hdone, hpending⟩ := h.cells_concat hrows
  have hold : ∀ (p : Fin n) (x : ι),
      Labels columns (L.columnOf p) x ∧ L.paint p = Board.paintOf x →
        Labels columns ((L.pushCell c option (Board.paintOf item)).columnOf p.castSucc) x ∧
          (L.pushCell c option (Board.paintOf item)).paint p.castSucc = Board.paintOf x := by
    intro p x hp
    rw [Layout.columnOf_pushCell_castSucc, Layout.paint_pushCell_castSucc]
    exact hp
  rw [Layout.rows_pushCell hrows]
  apply List.rel_append
  · rw [List.forall₂_map_left_iff]
    apply hdone.imp
    intro row items hrow
    rw [List.forall₂_map_left_iff]
    exact hrow.imp hold
  · apply List.Forall₂.cons _ .nil
    apply List.rel_append
    · rw [List.forall₂_map_left_iff]
      exact hpending.imp hold
    · apply List.Forall₂.cons _ .nil
      rw [Layout.columnOf_pushCell_last, Layout.paint_pushCell_last]
      exact ⟨hc, rfl⟩

/-- With a new cell in the last row, cells still have the numbers of their rows. -/
theorem number_pushCell (h : m.Plots columns L (rows ++ [items]) numbering)
    (hrows : L.rows = done ++ [pending]) {paint : Paint χ} {k : Nat} {row : List (Fin (n + 1))}
    (hrow : (L.pushCell c (numbering rows.length) paint).rows[k]? = some row) :
    ∀ p ∈ row, (L.pushCell c (numbering rows.length) paint).role p = .cell (numbering k) := by
  have hlength : done.length = rows.length := (h.cells_concat hrows).1.length_eq
  intro p hp
  rw [Layout.rows_pushCell hrows, List.getElem?_append, List.length_map] at hrow
  split at hrow
  · next hlt =>
    rw [List.getElem?_map, Option.map_eq_some_iff] at hrow
    obtain ⟨old, hrow, rfl⟩ := hrow
    obtain ⟨q, hq, rfl⟩ := List.mem_map.mp hp
    rw [Layout.role_pushCell_castSucc]
    exact h.number k old (by rw [hrows, List.getElem?_append_left hlt, hrow]) q hq
  · next hge =>
    obtain ⟨hk, rfl⟩ : k = done.length ∧ pending.map Fin.castSucc ++ [Fin.last n] = row := by
      rw [List.getElem?_singleton] at hrow
      split at hrow
      · next hk => exact ⟨by omega, Option.some.inj hrow⟩
      · contradiction
    rcases List.mem_append.mp hp with hp | hp
    · obtain ⟨q, hq, rfl⟩ := List.mem_map.mp hp
      rw [Layout.role_pushCell_castSucc]
      exact h.number k pending (by simp [hrows, hk]) q hq
    · rw [List.mem_singleton.mp hp, Layout.role_pushCell_last, hk, hlength]

theorem pushCell [ReflBEq χ] (h : m.Plots columns L (rows ++ [items]) numbering)
    (hrows : L.rows = done ++ [pending]) (hc : Labels columns c item) :
    (m.pushCell c (numbering rows.length) (Board.paintOf item)).Plots columns
      (L.pushCell c (numbering rows.length) (Board.paintOf item)) (rows ++ [items ++ [item]])
      numbering where
  sound := h.sound.pushCell hrows (h.mem_headers hc) (Board.isPurified_paintOf item)
  atRest := h.atRest.pushCell h.sound hrows (h.mem_headers hc)
  primary := by
    rw [← h.primary]
    simp [Layout.pushCell, Layout.push, Function.comp_def]
  secondary := by
    rw [← h.secondary]
    simp [Layout.pushCell, Layout.push, Function.comp_def]
  distinct := h.distinct
  cells := h.cells_pushCell hrows hc (numbering rows.length)
  number _ _ hrow := h.number_pushCell hrows hrow
  header := by
    intro p hp
    change p ∈ (L.push (.cell (numbering rows.length)) c.castSucc (Board.paintOf item)).headers
    rw [Layout.headers_push]
    cases p using Fin.lastCases with
    | last =>
      rw [Layout.role_pushCell_last] at hp
      contradiction
    | cast p =>
      rw [Layout.role_pushCell_castSucc] at hp
      exact List.mem_map_of_mem (h.header p hp)
  cell := by
    intro p hp
    rw [Layout.cells_pushCell hrows]
    cases p using Fin.lastCases with
    | last => exact List.mem_append_right _ (List.mem_singleton_self _)
    | cast p =>
      rw [Layout.role_pushCell_castSucc] at hp
      exact List.mem_append_left _ (List.mem_map_of_mem (h.cell p hp))

/-- A position that is neither a header nor a cell changes nothing. -/
theorem pushSpacer (h : m.Plots columns L rows numbering) :
    m.pushSpacer.Plots columns (L.push .spacer (Fin.last n) .uncolored) rows numbering where
  sound := h.sound.push .spacer (Fin.last n) .uncolored
  atRest := h.atRest.push .spacer (Fin.last n) .uncolored
  primary := by
    rw [← h.primary]
    simp [Layout.push, Function.comp_def]
  secondary := by
    rw [← h.secondary]
    simp [Layout.push, Function.comp_def]
  distinct := h.distinct
  cells := by
    change List.Forall₂ _ (L.rows.map (List.map Fin.castSucc)) rows
    rw [List.forall₂_map_left_iff]
    apply h.cells.imp
    intro row items hrow
    rw [List.forall₂_map_left_iff]
    apply hrow.imp
    intro p x hp
    rw [Layout.columnOf_push_castSucc, Layout.paint_push_castSucc]
    exact hp
  number := by
    intro k row hrow p hp
    change (L.rows.map (List.map Fin.castSucc))[k]? = some row at hrow
    rw [List.getElem?_map, Option.map_eq_some_iff] at hrow
    obtain ⟨old, hold, rfl⟩ := hrow
    obtain ⟨q, hq, rfl⟩ := List.mem_map.mp hp
    rw [Layout.role_push_castSucc]
    exact h.number k old hold q hq
  header := by
    intro p hp
    rw [Layout.headers_push]
    cases p using Fin.lastCases with
    | last =>
      rw [Layout.role_push_last] at hp
      contradiction
    | cast p =>
      rw [Layout.role_push_castSucc] at hp
      exact List.mem_map_of_mem (h.header p hp)
  cell := by
    intro p hp
    rw [Layout.cells_push]
    cases p using Fin.lastCases with
    | last =>
      rw [Layout.role_push_last] at hp
      contradiction
    | cast p =>
      rw [Layout.role_push_castSucc] at hp
      exact List.mem_map_of_mem (h.cell p hp)

end Plots

/-- In addition, no row lists an item twice, so it has its cells in different columns. -/
structure Charts (m : Mesh n χ) (columns : List (ι × Nat)) (L : Layout n χ)
    (rows : List (List ι)) (numbering : Nat → Nat := id) : Prop
    extends m.Plots columns L rows numbering where
  row_columns_nodup : ∀ row ∈ L.rows, (row.map L.columnOf).Nodup

variable {m : Mesh n χ} {columns : List (ι × Nat)} {L : Layout n χ} {rows : List (List ι)}
  {numbering : Nat → Nat}

theorem Charts.proper (h : m.Charts columns L rows numbering) : L.Proper :=
  ⟨h.sound, h.row_columns_nodup⟩

/-- Cells of one row are in different columns if the row lists no item twice. -/
theorem Plots.charts [EquivBEq ι] (h : m.Plots columns L rows numbering)
    (hrows : ∀ items ∈ rows, Unrepeated items) : m.Charts columns L rows numbering where
  toPlots := h
  row_columns_nodup := by
    intro row hrow
    obtain ⟨items, hitems, hcells⟩ := exists_of_forall₂ h.cells hrow
    refine List.pairwise_map.mpr (pairwise_of_forall₂ hcells (hrows items hitems) ?_)
    intro p q x y hpx hqy hxy hsame
    have hequal := h.beq_of_labels hpx.1 (hsame ▸ hqy.1)
    rw [hxy] at hequal
    exact Bool.false_ne_true hequal

end Mesh

end ExactCover
