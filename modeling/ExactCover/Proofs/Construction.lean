import ExactCover.Proofs.Bisimilar

/-!
# What is on a grid after its rows were added

A board *tabulates* some rows if it is their incidence matrix in the order in which they came: it
has a column for every item that a row lists, the rings hold the columns in the order in which
their items first appeared, and the cells of a column are those of the rows that list its item,
from the first row at the top to the last at the bottom. All of it is said of what walks along the
links find, down and up.

The two kinds of grids come to such a board on different ways. An open grid inserts every cell
and every column at the end of its list when the row is added, a sealed grid sorts the items first
and then packs row after row. The invariants of both ways end in the same description of the board
(`Board.Lays`), from which the walks are read off here, once for both.
-/

set_option autoImplicit false

namespace ExactCover

namespace Links

variable {n : Nat} {links : Links n} {home : Fin n} {members : List (Fin n)}

/-- The same links with forward and backward exchanged. -/
def reversed (links : Links n) : Links n := ⟨links.backward, links.forward⟩

/-- The other way round, a ring has its members in the opposite order. -/
theorem IsRing.reversed (hring : links.IsRing home members) :
    links.reversed.IsRing home members.reverse := by
  constructor
  · have hlist : home :: (members.reverse ++ [home]) = (home :: (members ++ [home])).reverse := by
      simp
    rw [hlist, List.isChain_reverse]
    exact hring.chain.imp fun p q hpq => ⟨hpq.2, hpq.1⟩
  · have hnodup := hring.nodup
    rw [List.nodup_cons, List.mem_reverse, List.nodup_reverse]
    exact List.nodup_cons.mp hnodup

end Links

/-- Lists that correspond to the same list correspond to each other. -/
theorem forall₂_trans {α β γ : Type} {R : α → β → Prop} {S : β → γ → Prop} {T : α → γ → Prop}
    {as : List α} {bs : List β} {cs : List γ} (h : List.Forall₂ R as bs)
    (h' : List.Forall₂ S bs cs) (himp : ∀ a b c, R a b → S b c → T a c) :
    List.Forall₂ T as cs := by
  induction h generalizing cs with
  | nil =>
    cases h'
    exact .nil
  | cons hab _ ih =>
    cases h' with
    | cons hbc hrest => exact .cons (himp _ _ _ hab hbc) (ih hrest)

/-- Picking elements by their places or by what they are is the same. -/
theorem forall₂_filter_range {α : Type} (as : List α) {f : Nat → Bool} {g : α → Bool}
    (hfg : ∀ k a, as[k]? = some a → f k = g a) :
    List.Forall₂ (fun k a => as[k]? = some a) ((List.range as.length).filter f) (as.filter g) := by
  have hall : List.Forall₂ (fun k a => as[k]? = some a) (List.range as.length) as := by
    rw [List.forall₂_iff_get]
    exact ⟨List.length_range, fun k hk hk' => by simp⟩
  exact List.rel_filter (fun k a hka => Bool.eq_iff_iff.mp (hfg k a hka)) hall

variable {ι χ : Type} [BEq ι] [Item ι χ]

namespace Board

/-- The cell at `p` is the entry of a row in the column at `c`, which is the column of an item: it
has the number of the row, and it carries the color of the item as the row lists it. -/
def IsEntry (b : Board ι χ) (c : Fin b.size) (item : ι) (p : Fin b.size) (row : Nat × List ι) :
    Prop :=
  b.mesh.option? p = some row.1 ∧ b.mesh.column p = c ∧
    ∃ x ∈ row.2, x == item ∧ b.mesh.paint p = paintOf x

/-- The board is the incidence matrix of the rows, each of which comes with its number. -/
structure Tabulates (b : Board ι χ) (rows : List (Nat × List ι)) : Prop where
  /-- Exactly the items that some row lists have a column. -/
  column : ∀ item, (b.column? item).isSome ↔ ∃ row ∈ rows, Naive.lists row.2 item
  /-- There are as many columns as different items. -/
  numColumns : b.mesh.numColumns = (distinct (rows.flatMap (·.2))).length
  /-- The first ring has the columns of the items that first appear as primary, in order. -/
  primary : ∃ cs, b.mesh.across.members b.mesh.primaryHead = .ok cs ∧
    List.Forall₂ (fun c item => b.column? item = some c) cs
      ((distinct (rows.flatMap (·.2))).filter isPrimaryItem)
  /-- The second ring has the columns of the other items, in order. -/
  secondary : ∃ cs, b.mesh.across.members b.mesh.secondaryHead = .ok cs ∧
    List.Forall₂ (fun c item => b.column? item = some c) cs
      ((distinct (rows.flatMap (·.2))).filter (!isPrimaryItem ·))
  /-- The walk down the column of an item meets one entry of each row that lists the item, in the
  order of the rows. The walk up meets the same cells in the opposite order, and the column counts
  as many. -/
  cells : ∀ {item : ι} {c : Fin b.size}, b.column? item = some c → ∃ ps,
    b.mesh.cells c = .ok ps ∧ b.mesh.down.reversed.members c = .ok ps.reverse ∧
      b.mesh.count c = ps.length ∧
        List.Forall₂ (b.IsEntry c item) ps (rows.filter fun row => Naive.lists row.2 item)

section Lays

variable [EquivBEq ι] [BEq χ] {b : Board ι χ} {L : Layout b.size χ} {rows : List (Nat × List ι)}
  {item : ι} {c : Fin b.size}

/-- A cell in the column of an item that lies in a row is the entry of that row. -/
theorem isEntry_of_column [LawfulBEq χ]
    (h : b.mesh.Charts b.columns L (rows.map (·.2)) (Grid.numbering rows))
    (hc : b.column? item = some c) {p : Fin b.size} (hp : p ∈ L.column c) {k : Nat}
    {row : Nat × List ι} (hplace : L.rows[k]? = some (L.rowOf p)) (hrow : rows[k]? = some row) :
    b.IsEntry c item p row := by
  obtain ⟨hcell, hcolumn⟩ := Layout.mem_column.mp hp
  have hmem := (h.proper.rowOf_mem hcell).2
  have hrole : b.mesh.role p = .cell row.1 := by
    rw [h.atRest.shows.role_eq, h.number k _ hplace p hmem]
    simp [Grid.numbering, hrow]
  have hcells := rel_of_getElem? h.cells hplace (b := row.2) (by rw [List.getElem?_map, hrow]; rfl)
  obtain ⟨x, hx, hlabel, hpaint⟩ := exists_of_forall₂ hcells hmem
  rw [hcolumn] at hlabel
  refine ⟨?_, (h.atRest.shows.column_eq p).trans hcolumn, x, hx, ?_, ?_⟩
  · rw [Mesh.option?, hrole]
  · exact h.beq_of_labels hlabel ((column?_eq_some_iff h.toPlots).mp hc)
  · rw [← (h.atRest.paint p hcell).eq, hpaint]

/-- The cells of a column, from top to bottom, are the entries of the rows that list its item. -/
theorem forall₂_isEntry [LawfulBEq χ]
    (h : b.mesh.Charts b.columns L (rows.map (·.2)) (Grid.numbering rows))
    (hc : b.column? item = some c) :
    List.Forall₂ (b.IsEntry c item) (L.column c)
      (rows.filter fun row => Naive.lists row.2 item) := by
  obtain ⟨x, hx, hxitem⟩ := (column?_eq_some_iff h.toPlots).mp hc
  let problem : Naive.Problem ι := ⟨rows.map (·.2), []⟩
  have hproblem : b.mesh.Charts b.columns L problem.rows (Grid.numbering rows) := h
  have hall : ∀ (k : Nat) (row : List (Fin b.size)), L.rows[k]? = some row →
      ∀ p ∈ row, (fun _ : Fin b.size => true) p = (fun _ : Nat => true) k :=
    fun _ _ _ _ _ => rfl
  have hcells := hproblem.column_rel hx hall
  have hrows := forall₂_filter_range rows (f := fun k => Naive.lists (problem.row k) x && true)
    (g := fun row => Naive.lists row.2 item) fun k row hrow => by
      have hitems : problem.row k = row.2 := by
        simp [problem, Naive.Problem.row, hrow]
      rw [hitems, Bool.and_true]
      exact Bool.eq_iff_iff.mpr (Naive.lists_congr hxitem)
  rw [List.filter_true, List.length_map] at hcells
  exact forall₂_trans hcells hrows fun p k row hpk hrow =>
    isEntry_of_column h hc hpk.1 hpk.2.2 hrow

/-- A board that lays out rows without repeated items tabulates them. -/
theorem Lays.tabulates [LawfulBEq χ] (h : b.Lays (rows.map (·.2)) (Grid.numbering rows))
    (hrows : ∀ row ∈ rows, Unrepeated row.2) : b.Tabulates rows := by
  have hunrepeated : ∀ items ∈ rows.map (·.2), Unrepeated items := by
    intro items hitems
    obtain ⟨row, hrow, rfl⟩ := List.mem_map.mp hitems
    exact hrows row hrow
  have hpresents := h.presents hunrepeated
  obtain ⟨L, harranges⟩ := h.exists_arranges
  have hcharts := harranges.charts hunrepeated
  have hrest := harranges.atRest
  have hflat : (rows.map (·.2)).flatten = rows.flatMap (·.2) := (List.flatMap_def ..).symm
  have hprimaryHead : b.mesh.primaryHead = L.primaryHead :=
    congrArg Frame.primaryHead hrest.frame
  have hsecondaryHead : b.mesh.secondaryHead = L.secondaryHead :=
    congrArg Frame.secondaryHead hrest.frame
  have hcolumns : ∀ {cs : List (Fin b.size)} {items : List ι},
      List.Forall₂ (fun c x => (x, c.val) ∈ b.columns) cs items →
        List.Forall₂ (fun c item => b.column? item = some c) cs items := fun hlabels =>
    hlabels.imp fun _ x hx => (column?_eq_some_iff harranges.toPlots).mpr ⟨x, hx, BEq.rfl⟩
  have hprimary := hcolumns harranges.primary_labels
  have hsecondary := hcolumns harranges.secondary_labels
  rw [harranges.primary_order, hflat] at hprimary
  rw [harranges.secondary_order, hflat] at hsecondary
  refine ⟨fun item => ?_, ?_, ⟨L.primary, ?_, hprimary⟩, ⟨L.secondary, ?_, hsecondary⟩, ?_⟩
  · rw [hpresents.isSome_column?, hflat, Naive.lists, List.any_flatMap, List.any_eq_true]
    rfl
  · rw [Mesh.numColumns, (harranges.sound.headers_perm hrest.frame harranges.header).length_eq,
      Layout.headers, List.length_append, hprimary.length_eq, hsecondary.length_eq,
      ← List.length_append, (List.filter_append_perm _ _).length_eq]
  · rw [hprimaryHead]
    exact hrest.primary.members_eq
  · rw [hsecondaryHead]
    exact hrest.secondary.members_eq
  · intro item c hc
    have hheader := harranges.mem_headers ((column?_eq_some_iff harranges.toPlots).mp hc)
    have hring := hrest.column c hheader
    exact ⟨L.column c, hring.members_eq, hring.reversed.members_eq, hrest.count c hheader,
      forall₂_isEntry hcharts hc⟩

end Lays

end Board

/-- Adding rows none of which lists an item twice makes a grid of either kind whose board
tabulates the rows and which passes its own check. -/
theorem Grid.tabulates_ofRows [EquivBEq ι] {rows : List (Nat × List ι)}
    (hrows : ∀ row ∈ rows, firstRepeat? row.2 = none) :
    (∃ grid : Woven ι χ, ofRows rows = .ok grid ∧ (board grid).Tabulates rows ∧
      isConsistent grid = .ok true) ∧
    ∃ grid : Packed ι χ, ofRows rows = .ok grid ∧ isSealed grid ∧ (board grid).Tabulates rows ∧
      isConsistent grid = .ok true := by
  classical
  -- The paints on a board are those of the items themselves, so colors are compared for identity.
  let : BEq χ := instBEqOfDecidableEq
  have hunrepeated : ∀ row ∈ rows, Unrepeated row.2 := fun row hrow =>
    firstRepeat?_eq_none_iff.mp (hrows row hrow)
  constructor
  · obtain ⟨grid, hgrid, hweaves⟩ := Woven.exists_ofRows rows
    exact ⟨grid, hgrid, hweaves.lays.tabulates hunrepeated, hweaves.isConsistent_eq⟩
  · obtain ⟨b, hgrid, hlays⟩ := Packed.exists_ofRows rows
    exact ⟨.built b, hgrid, rfl, hlays.tabulates hunrepeated, hlays.bears.isIntact⟩

/-- A column without a color in one row and with colors in two others, next to a row without
cells. -/
theorem Grid.tabulates_ofRows_of_colored :
    let rows : List (Nat × List (Constraint Nat Nat)) :=
      [(0, [.primary 0, .secondary 1 (some 7)]), (4, []),
        (2, [.secondary 1 none, .primary 2]), (9, [.primary 0, .secondary 1 (some 8)])]
    (∀ row ∈ rows, firstRepeat? row.2 = none) ∧
      (∃ grid : Woven (Constraint Nat Nat) Nat, ofRows rows = .ok grid ∧
        (board grid).Tabulates rows ∧ isConsistent grid = .ok true) ∧
      ∃ grid : Packed (Constraint Nat Nat) Nat, ofRows rows = .ok grid ∧ isSealed grid ∧
        (board grid).Tabulates rows ∧ isConsistent grid = .ok true := by
  intro rows
  have hrows : ∀ row ∈ rows, firstRepeat? row.2 = none := by decide
  exact ⟨hrows, tabulates_ofRows hrows⟩

end ExactCover
