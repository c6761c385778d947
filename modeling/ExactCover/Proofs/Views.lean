import ExactCover.Proofs.Covers
import ExactCover.Proofs.Moves
import ExactCover.Proofs.Preselected

/-!
# What a partly covered grid shows

A board that moves were made on *exhibits* its rows where some columns are settled: the ring of the
columns that must be covered lists the items whose columns are not covered, and a column that is
not settled lists the rows with its item that are *admitted*. These are the rows that list no item
whose column is covered and give every item whose column is restricted an equal color.

So what the walks over a board find, outside of the settled columns, depends on which columns are
covered and which are restricted to which colors, and neither on the order of the moves nor on the
moves that were undone in between (`Grid.ViewsSettled`). This holds of any equality of colors and
of items, also where items of different kinds are equal.
-/

set_option autoImplicit false

namespace ExactCover

section SameSettled

variable {α χ : Type} [BEq χ] {settled settled' : List (α × Option χ)}

/-- In both lists the same columns are settled, with equal colors. -/
def SameSettled (settled settled' : List (α × Option χ)) : Prop :=
  (∀ x ∈ settled, ∃ y ∈ settled', x.1 = y.1 ∧ TintAlike x.2 y.2) ∧
    ∀ y ∈ settled', ∃ x ∈ settled, x.1 = y.1 ∧ TintAlike x.2 y.2

theorem TintAlike.symm [PartialEquivBEq χ] {s t : Option χ} (h : TintAlike s t) :
    TintAlike t s := by
  cases h with
  | none => exact .none
  | some h => exact .some (BEq.symm h)

theorem TintAlike.matchesTint_eq [PartialEquivBEq χ] {s t : Option χ} (h : TintAlike s t)
    (a : Paint χ) : a.matchesTint s = a.matchesTint t := by
  cases h with
  | none => rfl
  | some h => exact Paint.matchesTint_congr h

theorem SameSettled.symm [PartialEquivBEq χ] (h : SameSettled settled settled') :
    SameSettled settled' settled := by
  constructor
  · intro y hy
    obtain ⟨x, hx, hxy, htint⟩ := h.2 y hy
    exact ⟨x, hx, hxy.symm, htint.symm⟩
  · intro x hx
    obtain ⟨y, hy, hxy, htint⟩ := h.1 x hx
    exact ⟨y, hy, hxy.symm, htint.symm⟩

theorem SameSettled.map_fst_subset (h : SameSettled settled settled') :
    settled.map (·.1) ⊆ settled'.map (·.1) := by
  intro c hc
  obtain ⟨x, hx, rfl⟩ := List.mem_map.mp hc
  obtain ⟨y, hy, hxy, -⟩ := h.1 x hx
  rw [hxy]
  exact List.mem_map_of_mem hy

end SameSettled

section Fits

variable {n : Nat} {χ : Type} [BEq χ] {L : Layout n χ} {columns columns' : List (Fin n × Option χ)}
  {settled settled' : List (Nat × Option χ)}

/-- The same columns at their positions. -/
theorem SameSettled.of_stands [EquivBEq χ] (h : SameSettled settled settled')
    (hstands : Stands settled columns) (hstands' : Stands settled' columns') :
    SameSettled columns columns' := by
  have hone : ∀ {settled settled' : List (Nat × Option χ)} {columns columns'},
      SameSettled settled settled' → Stands settled columns → Stands settled' columns' →
        ∀ x ∈ columns, ∃ y ∈ columns', (x.1 : Fin n) = y.1 ∧ TintAlike x.2 y.2 := by
    intro settled settled' columns columns' h hstands hstands' x hx
    obtain ⟨y, hy, hyx, htint⟩ := exists_of_forall₂ hstands.flip hx
    obtain ⟨z, hz, hyz, htint'⟩ := h.1 y hy
    obtain ⟨w, hw, hzw, htint''⟩ := exists_of_forall₂ hstands' hz
    exact ⟨w, hw, Fin.ext (hyx.symm.trans (hyz.trans hzw)),
      (htint.trans htint').trans htint''.symm⟩
  refine ⟨hone h hstands hstands', fun y hy => ?_⟩
  obtain ⟨x, hx, hyx, htint⟩ := hone h.symm hstands' hstands y hy
  exact ⟨x, hx, hyx.symm, htint.symm⟩

/-- Which rows fit depends on which columns are settled. -/
theorem Layout.fits_congr [PartialEquivBEq χ] (h : SameSettled columns columns') (p : Fin n) :
    L.fits columns p = L.fits columns' p := by
  have hone : ∀ {columns columns' : List (Fin n × Option χ)}, SameSettled columns columns' →
      L.fits columns p → L.fits columns' p := by
    intro columns columns' h hfits
    rw [fits_eq_true_iff] at hfits ⊢
    intro q hq y hy hqy
    obtain ⟨x, hx, hxy, htint⟩ := h.2 y hy
    rw [← htint.matchesTint_eq]
    exact hfits q hq x hx (hqy.trans hxy.symm)
  rw [Bool.eq_iff_iff]
  exact ⟨hone h, hone h.symm⟩

/-- Which columns are open depends on which columns are settled. -/
theorem Layout.isOpen_picture_congr [PartialEquivBEq χ] (h : SameSettled columns columns')
    (c : Fin n) : (L.picture columns).isOpen c = (L.picture columns').isOpen c := by
  have hone : ∀ {columns columns' : List (Fin n × Option χ)}, SameSettled columns columns' →
      columns.any (fun x => x.1 = c && x.2.isNone) →
        columns'.any fun x => x.1 = c && x.2.isNone := by
    intro columns columns' h hany
    obtain ⟨x, hx, hxc⟩ := List.any_eq_true.mp hany
    obtain ⟨y, hy, hxy, htint⟩ := h.1 x hx
    rw [hxy, htint.isNone_eq] at hxc
    exact List.any_eq_true.mpr ⟨y, hy, hxc⟩
  have hsame : columns.any (fun x => x.1 = c && x.2.isNone) =
      columns'.any fun x => x.1 = c && x.2.isNone := by
    rw [Bool.eq_iff_iff]
    exact ⟨hone h, hone h.symm⟩
  simp only [picture, hsame]

end Fits

namespace Board

variable {ι χ : Type} [BEq ι] [BEq χ] [Item ι χ]

/-- Whether a settled column is that of an item. -/
def isColumn (b : Board ι χ) (c : Nat) (item : ι) : Bool := (b.column? item).any (·.val == c)

/-- Whether the column of an item is covered. -/
def covers (b : Board ι χ) (settled : List (Nat × Option χ)) (item : ι) : Bool :=
  settled.any fun x => b.isColumn x.1 item && x.2.isNone

/-- Whether a row lists no item whose column is covered, and gives every item whose column is
restricted to a color an equal one. -/
def admits (b : Board ι χ) (settled : List (Nat × Option χ)) (row : List ι) : Bool :=
  row.all fun item => settled.all fun x =>
    !b.isColumn x.1 item || (paintOf item).matchesTint x.2

/-- What walks over the board find where some columns are settled. -/
structure Exhibits (b : Board ι χ) (rows : List (Nat × List ι))
    (settled : List (Nat × Option χ)) : Prop where
  /-- The ring of the columns that must be covered lists their items in the order of their first
  appearance, but those of covered columns. -/
  primary : ∃ columns, b.mesh.primaryColumns = .ok columns ∧ columns.map b.item? =
    ((distinct (rows.flatMap (·.2))).filter fun item =>
      isPrimaryItem item && !b.covers settled item).map some
  /-- Every column is that of an item that some row lists. -/
  header : ∀ c, b.mesh.role c = .header → ∃ item ∈ rows.flatMap (·.2), b.column? item = some c
  /-- A column that is not settled lists the rows that are admitted and list its item, in their
  order, and counts them. -/
  column : ∀ item c, b.column? item = some c → c.val ∉ settled.map (·.1) →
    ∃ cells, b.mesh.cells c = .ok cells ∧ cells.map b.mesh.role =
      ((rows.filter fun row => Naive.lists row.2 item && b.admits settled row.2).map fun row =>
        .cell row.1) ∧ b.mesh.count c = cells.length

/-- What the walk through the ring of the columns that must be covered finds. -/
def ringView (b : Board ι χ) : Except Fault (List Nat) :=
  b.mesh.primaryColumns.map (·.map (·.val))

/-- What the walk down the column of an item finds, and how many cells are counted there. -/
def columnView (b : Board ι χ) (item : ι) : Option (Except Fault (List Nat) × Nat) :=
  (b.column? item).map fun c => ((b.mesh.cells c).map (·.map (·.val)), b.mesh.count c)

end Board

section Shows

variable {ι χ : Type} [BEq ι] [EquivBEq ι] [BEq χ] [EquivBEq χ] [Item ι χ] {n : Nat}
  {rest m : Mesh n χ} {labels : List (ι × Nat)} {L : Layout n χ} {rows : List (Nat × List ι)}
  {columns : List (Fin n × Option χ)} {settled : List (Nat × Option χ)} {item : ι} {c : Fin n}

omit [EquivBEq χ] in
/-- Items find their columns whatever has been done to the mesh. -/
theorem Mesh.Plots.column?_eq_some_iff {rows : List (List ι)} {numbering : Nat → Nat}
    (h : rest.Plots labels L rows numbering) (m : Mesh n χ) :
    (⟨n, m, labels⟩ : Board ι χ).column? item = some c ↔ Labels labels c item :=
  Board.column?_eq_some_iff (b := ⟨n, rest, labels⟩) h

omit [EquivBEq χ] in
theorem Mesh.Charts.isColumn_iff {rows : List (List ι)} {numbering : Nat → Nat}
    (h : rest.Charts labels L rows numbering) (m : Mesh n χ) :
    (⟨n, m, labels⟩ : Board ι χ).isColumn c.val item ↔ Labels labels c item := by
  rw [← h.column?_eq_some_iff m, Board.isColumn, Option.any_eq_true]
  constructor
  · rintro ⟨d, hd, hdc⟩
    obtain rfl : d = c := Fin.ext (by simpa using hdc)
    exact hd
  · intro hc
    exact ⟨c, hc, by simp⟩

/-- The rows that fit are those that are admitted. -/
theorem Mesh.Charts.fits_eq_admits {problem : Naive.Problem ι} {numbering : Nat → Nat}
    (h : rest.Charts labels L problem.rows numbering) (hstands : Stands settled columns)
    (m : Mesh n χ) {k : Nat} {row : List (Fin n)} (hrow : L.rows[k]? = some row) {p : Fin n}
    (hp : p ∈ row) :
    L.fits columns p = (⟨n, m, labels⟩ : Board ι χ).admits settled (problem.row k) := by
  have hcells := h.row_cells hrow
  have hrowOf := h.proper.rowOf_eq (List.mem_of_getElem? hrow) hp
  rw [Bool.eq_iff_iff, Layout.fits_eq_true_iff, hrowOf, Board.admits]
  simp only [List.all_eq_true, Bool.or_eq_true, Bool.not_eq_true']
  constructor
  · intro hfits item hitem x hx
    obtain ⟨q, hq, hlabel, hpaint⟩ := exists_of_forall₂ hcells.flip hitem
    obtain ⟨y, hy, hxy, htint⟩ := exists_of_forall₂ hstands hx
    cases hcolumn : (⟨n, m, labels⟩ : Board ι χ).isColumn x.1 item with
    | false => exact .inl rfl
    | true =>
      rw [hxy, h.isColumn_iff m] at hcolumn
      have hmatch := hfits q hq y hy (h.eq_of_labels hlabel hcolumn BEq.rfl)
      rw [hpaint, htint.matchesTint_eq] at hmatch
      exact .inr hmatch
  · intro hadmits q hq y hy hqy
    obtain ⟨item, hitem, hlabel, hpaint⟩ := exists_of_forall₂ hcells hq
    obtain ⟨x, hx, hxy, htint⟩ := exists_of_forall₂ hstands.flip hy
    have hcolumn : (⟨n, m, labels⟩ : Board ι χ).isColumn x.1 item := by
      rw [hxy, h.isColumn_iff m, ← hqy]
      exact hlabel
    rw [hpaint, htint.matchesTint_eq]
    exact (hadmits item hitem x hx).resolve_left (by simp [hcolumn])

omit [EquivBEq ι] [EquivBEq χ] in
/-- A column stands for the item that labels it. -/
theorem Mesh.Plots.item?_eq_some {rows : List (List ι)} {numbering : Nat → Nat}
    (h : rest.Plots labels L rows numbering) (m : Mesh n χ) (hc : (item, c.val) ∈ labels) :
    (⟨n, m, labels⟩ : Board ι χ).item? c = some item := by
  obtain ⟨x, hfind⟩ : ∃ x, labels.find? (fun x => x.2 == c.val) = some x :=
    Option.isSome_iff_exists.mp (List.find?_isSome.mpr ⟨_, hc, by simp⟩)
  have hx : x.2 = c.val := by simpa using List.find?_some hfind
  have hsame : x.1 = item := h.label_unique (hx ▸ List.mem_of_find?_eq_some hfind) hc
  simp [Board.item?, hfind, hsame]

omit [EquivBEq χ] in
/-- A covered column is not in its ring, and every other column is. -/
theorem Mesh.Charts.isOpen_eq {rows : List (List ι)} {numbering : Nat → Nat}
    (h : rest.Charts labels L rows numbering) (hstands : Stands settled columns) (m : Mesh n χ)
    (hc : Labels labels c item) :
    (L.picture columns).isOpen c = !(⟨n, m, labels⟩ : Board ι χ).covers settled item := by
  have hsame : columns.any (fun x => x.1 = c && x.2.isNone) =
      (⟨n, m, labels⟩ : Board ι χ).covers settled item := by
    rw [Bool.eq_iff_iff, Board.covers, List.any_eq_true, List.any_eq_true]
    simp only [Bool.and_eq_true, decide_eq_true_eq]
    constructor
    · rintro ⟨y, hy, rfl, hnone⟩
      obtain ⟨x, hx, hxy, htint⟩ := exists_of_forall₂ hstands.flip hy
      exact ⟨x, hx, by rwa [hxy, h.isColumn_iff m], by rwa [← htint.isNone_eq]⟩
    · rintro ⟨x, hx, hcolumn, hnone⟩
      obtain ⟨y, hy, hxy, htint⟩ := exists_of_forall₂ hstands hx
      rw [hxy, h.isColumn_iff m] at hcolumn
      exact ⟨y, hy, h.eq_of_labels hcolumn hc BEq.rfl, by rwa [htint.isNone_eq]⟩
  simp only [Layout.picture, hsame]

/-- The cells of a column that is not settled, by the numbers of their rows. -/
theorem Mesh.Charts.map_role_column {problem : Naive.Problem ι} {numbering : Nat → Nat}
    (h : rest.Charts labels L problem.rows numbering) (hstands : Stands settled columns)
    (m : Mesh n χ) (hc : Labels labels c item) :
    ((L.column c).filter (L.fits columns)).map L.role =
      ((List.range problem.rows.length).filter fun k => Naive.lists (problem.row k) item &&
        (⟨n, m, labels⟩ : Board ι χ).admits settled (problem.row k)).map fun k =>
          .cell (numbering k) := by
  obtain ⟨x, hx, hxitem⟩ := hc
  have hrel := h.column_rel hx fun k row hrow p hp => h.fits_eq_admits hstands m hrow hp
  have hlists : ∀ k, Naive.lists (problem.row k) item = Naive.lists (problem.row k) x := fun k =>
    Bool.eq_iff_iff.mpr (Naive.lists_congr hxitem).symm
  simp only [hlists]
  refine map_eq_of_forall₂ hrel fun p k hpk => ?_
  exact h.number k _ hpk.2.2 p (h.proper.rowOf_mem (Layout.mem_column.mp hpk.1).1).2

omit [BEq ι] [EquivBEq ι] [BEq χ] [EquivBEq χ] [Item ι χ] in
/-- Rows can be picked by their places. -/
theorem map_filter_range {β : Type} (rows : List (Nat × List ι)) (f : List ι → Bool)
    (g : Nat → β) :
    ((List.range rows.length).filter fun k => f ((rows.map (·.2)).getD k [])).map
        (fun k => g (Grid.numbering rows k)) =
      (rows.filter fun row => f row.2).map fun row => g row.1 := by
  have hrows : (List.range rows.length).map
      (fun k => (Grid.numbering rows k, (rows.map (·.2)).getD k [])) = rows := by
    refine List.ext_getElem (by simp) fun k hk hk' => ?_
    simp [Grid.numbering, hk']
  have hpick := congrArg (fun rows => (rows.filter fun row => f row.2).map fun row => g row.1) hrows
  simp only [List.filter_map, List.map_map] at hpick
  exact hpick

omit [EquivBEq ι] [EquivBEq χ] in
theorem Mesh.Charts.exists_label {rows : List (List ι)} {numbering : Nat → Nat}
    (h : rest.Charts labels L rows numbering) (hc : c ∈ L.headers) :
    ∃ x, (x, c.val) ∈ labels := by
  have hmem : c.val ∈ L.primary.map (·.val) ∨ c.val ∈ L.secondary.map (·.val) := by
    rcases List.mem_append.mp hc with hc | hc
    · exact .inl (List.mem_map_of_mem hc)
    · exact .inr (List.mem_map_of_mem hc)
  rw [h.primary, h.secondary] at hmem
  rcases hmem with hmem | hmem
  all_goals
    obtain ⟨x, hx, hxc⟩ := List.mem_map.mp hmem
    exact ⟨x.1, hxc ▸ (List.mem_filter.mp hx).1⟩

/-- A mesh that shows what columns were settled exhibits the rows. -/
theorem Mesh.Displays.exhibits (hm : m.Displays L (L.picture columns))
    (h : rest.Charts labels L (rows.map (·.2)) (Grid.numbering rows))
    (hpresents : (⟨n, rest, labels⟩ : Board ι χ).Presents (rows.map (·.2)) (Grid.numbering rows))
    (hstands : Stands settled columns) :
    (⟨n, m, labels⟩ : Board ι χ).Exhibits rows settled where
  primary := by
    have hring := hm.primary.members_eq
    have hhead : m.primaryHead = L.primaryHead := congrArg Frame.primaryHead hm.frame
    refine ⟨L.primary.filter (L.picture columns).isOpen, ?_, ?_⟩
    · rw [Mesh.primaryColumns, hhead, hring]
    · have hproblem : rest.Charts labels L (Naive.Problem.mk (rows.map (·.2)) []).rows
        (Grid.numbering rows) := h
      have hrel := List.rel_filter (R := fun c x => c ∈ L.primary ∧ (x, c.val) ∈ labels)
        (p := (L.picture columns).isOpen)
        (q := fun x => !(⟨n, m, labels⟩ : Board ι χ).covers settled x)
        (fun c x hcx => Bool.eq_iff_iff.mp (h.isOpen_eq hstands m ⟨x, hcx.2, BEq.rfl⟩))
        hproblem.primary_rel
      rw [hpresents.primary, List.filter_filter, ← List.flatMap_def] at hrel
      have hsame : (fun item : ι => isPrimaryItem item &&
          !(⟨n, m, labels⟩ : Board ι χ).covers settled item) = fun item =>
            !(⟨n, m, labels⟩ : Board ι χ).covers settled item && isPrimaryItem item :=
        funext fun item => Bool.and_comm _ _
      rw [hsame]
      exact map_eq_of_forall₂ hrel fun c x hcx => h.item?_eq_some m hcx.2
  header := by
    intro c hc
    have hheader : c ∈ L.headers := h.header c (by rw [← hm.role_eq]; exact hc)
    obtain ⟨x, hx⟩ := h.exists_label hheader
    have hlisted := distinct_subset (hpresents.mem_labels.mp (List.mem_map_of_mem hx))
    rw [← List.flatMap_def] at hlisted
    exact ⟨x, hlisted, (h.column?_eq_some_iff m).mpr ⟨x, hx, BEq.rfl⟩⟩
  column := by
    intro item c hc hopen
    have hlabel := (h.column?_eq_some_iff m).mp hc
    have hheader := h.mem_headers hlabel
    rw [hstands.mem_map_fst_iff] at hopen
    refine ⟨_, (hm.column c hheader).members_eq, ?_, hm.count c hheader⟩
    have hrole : m.role = L.role := funext hm.role_eq
    have hproblem : rest.Charts labels L (Naive.Problem.mk (rows.map (·.2)) []).rows
      (Grid.numbering rows) := h
    have hcolumn := hproblem.map_role_column hstands m hlabel
    have hpick := map_filter_range rows (fun row => Naive.lists row item &&
      (⟨n, m, labels⟩ : Board ι χ).admits settled row) Role.cell
    rw [List.length_map] at hcolumn
    rw [Layout.filter_hangs_picture hopen, hrole]
    exact hcolumn.trans hpick

omit [BEq ι] [EquivBEq ι] [EquivBEq χ] [Item ι χ] in
/-- The ring that a mesh shows. -/
theorem Mesh.Displays.ringView_eq (hm : m.Displays L (L.picture columns)) :
    (⟨n, m, labels⟩ : Board ι χ).ringView =
      .ok ((L.primary.filter (L.picture columns).isOpen).map (·.val)) := by
  have hhead : m.primaryHead = L.primaryHead := congrArg Frame.primaryHead hm.frame
  rw [Board.ringView, Mesh.primaryColumns, hhead, hm.primary.members_eq]
  rfl

omit [EquivBEq ι] [EquivBEq χ] [Item ι χ] in
/-- What a mesh shows of a column that is not settled. -/
theorem Mesh.Displays.columnView_eq (hm : m.Displays L (L.picture columns))
    (hcolumn : (⟨n, m, labels⟩ : Board ι χ).column? item = some c) (hc : c ∈ L.headers)
    (hopen : c ∉ columns.map (·.1)) :
    (⟨n, m, labels⟩ : Board ι χ).columnView item =
      some (.ok (((L.column c).filter (L.fits columns)).map (·.val)),
        ((L.column c).filter (L.fits columns)).length) := by
  have hcells : m.cells c = _ := (hm.column c hc).members_eq
  rw [Board.columnView, hcolumn, Option.map_some, hcells, hm.count c hc,
    Layout.filter_hangs_picture hopen]
  rfl

end Shows

namespace Grid

variable {γ ι χ : Type} [BEq ι] [BEq χ] [Item ι χ] [Grid γ ι χ] {rows : List (Nat × List ι)}

/-- What walks over the grids find that come up from a grid with some rows is determined by what is
settled. -/
structure ViewsSettled (start : γ) (rows : List (Nat × List ι)) : Prop where
  exhibits : ∀ {grid : γ} {made : List (Move × γ)}, Nested start grid made →
    (board grid).Exhibits rows (settled made)
  ringView_eq : ∀ {grid grid' : γ} {made made' : List (Move × γ)}, Nested start grid made →
    Nested start grid' made' → SameSettled (settled made) (settled made') →
      (board grid).ringView = (board grid').ringView
  columnView_eq : ∀ {grid grid' : γ} {made made' : List (Move × γ)}, Nested start grid made →
    Nested start grid' made' → SameSettled (settled made) (settled made') → ∀ {item : ι},
      (∀ c ∈ (board grid).column? item, c.val ∉ (settled made).map (·.1)) →
        (board grid).columnView item = (board grid').columnView item

variable [EquivBEq ι] [EquivBEq χ]

theorem Rests.viewsSettled {n : Nat} {mount : Mesh n χ → γ} {labels : List (ι × Nat)}
    {L : Layout n χ} {rest : Mesh n χ} (hrests : Rests mount labels L rest)
    (hcharts : rest.Charts labels L (rows.map (·.2)) (numbering rows))
    (hpresents : (⟨n, rest, labels⟩ : Board ι χ).Presents (rows.map (·.2)) (numbering rows)) :
    ViewsSettled (mount rest) rows where
  exhibits h := by
    obtain ⟨m, columns, rfl, htraces⟩ := h.exists_traces hrests
    rw [hrests.board_eq]
    exact (htraces.displays hrests.displays).exhibits hcharts hpresents htraces.stands
  ringView_eq h h' hsame := by
    obtain ⟨m, columns, rfl, htraces⟩ := h.exists_traces hrests
    obtain ⟨m', columns', rfl, htraces'⟩ := h'.exists_traces hrests
    have hcolumns := hsame.of_stands htraces.stands htraces'.stands
    rw [hrests.board_eq, hrests.board_eq, (htraces.displays hrests.displays).ringView_eq,
      (htraces'.displays hrests.displays).ringView_eq,
      funext (Layout.isOpen_picture_congr hcolumns)]
  columnView_eq h h' hsame := by
    intro item hopen
    obtain ⟨m, columns, rfl, htraces⟩ := h.exists_traces hrests
    obtain ⟨m', columns', rfl, htraces'⟩ := h'.exists_traces hrests
    have hcolumns := hsame.of_stands htraces.stands htraces'.stands
    rw [hrests.board_eq, hrests.board_eq]
    rw [hrests.board_eq] at hopen
    cases hcolumn : (⟨n, m, labels⟩ : Board ι χ).column? item with
    | none =>
      have hcolumn' : (⟨n, m', labels⟩ : Board ι χ).column? item = none := hcolumn
      rw [Board.columnView, Board.columnView, hcolumn, hcolumn']
      rfl
    | some c =>
      have hcolumn' : (⟨n, m', labels⟩ : Board ι χ).column? item = some c := hcolumn
      have hc := hcharts.mem_headers ((hcharts.column?_eq_some_iff m).mp hcolumn)
      have hopen := mt htraces.stands.mem_map_fst_iff.mpr (hopen c hcolumn)
      have hopen' : c ∉ columns'.map (·.1) := fun hmem => hopen (hcolumns.symm.map_fst_subset hmem)
      rw [(htraces.displays hrests.displays).columnView_eq hcolumn hc hopen,
        (htraces'.displays hrests.displays).columnView_eq hcolumn' hc hopen',
        funext (Layout.fits_congr hcolumns)]

/-- What a lawful grid shows is determined by what is settled. -/
theorem exists_viewsSettled [LawfulGrid γ] (hrows : ∀ row ∈ rows, firstRepeat? row.2 = none) :
    ∃ start : γ, ofRows rows = .ok start ∧ ViewsSettled start rows := by
  obtain ⟨grid, hgrid, hcarries⟩ := exists_ofRows (γ := γ) fun row hrow =>
    firstRepeat?_eq_none_iff.mp (hrows row hrow)
  obtain ⟨L, hcharts, hrests⟩ := exists_rests hcarries
  have hviews := hrests.viewsSettled hcharts (LawfulGrid.presents_close hcarries)
  rw [LawfulGrid.withMesh_mesh] at hviews
  exact ⟨close grid, hgrid, hviews⟩

end Grid

section Kinds

variable {ι χ : Type} [BEq ι] [EquivBEq ι] [BEq χ] [EquivBEq χ] [Item ι χ]
  {rows : List (Nat × List ι)}

/-- What both kinds of grids show, while permitted moves are made and undone latest first, is
determined by the columns that are covered and those that are restricted. -/
theorem Grid.viewsSettled_ofRows (hrows : ∀ row ∈ rows, firstRepeat? row.2 = none) :
    (∃ start : Woven ι χ, ofRows rows = .ok start ∧ ViewsSettled start rows) ∧
      ∃ start : Packed ι χ, ofRows rows = .ok start ∧ ViewsSettled start rows :=
  ⟨exists_viewsSettled hrows, exists_viewsSettled hrows⟩

/-- Choosing a row restricts a column to a color, and the rows of that color are still shown. -/
theorem Grid.viewsSettled_ofRows_of_colored :
    let rows : List (Nat × List (Constraint Nat Nat)) :=
      [(0, [.primary 0, .secondary 1 (some 7)]), (1, [.primary 2, .secondary 1 (some 7)]),
        (2, [.primary 2, .secondary 1 (some 8)])]
    (∃ start before grid : Woven (Constraint Nat Nat) Nat, ofRows rows = .ok start ∧
      Nested start grid [(.commitRow 4, before), (.cover 2, start)] ∧
        (board grid).Exhibits rows (settled [(.commitRow 4, before), (.cover 2, start)])) ∧
      ∃ start before grid : Packed (Constraint Nat Nat) Nat, ofRows rows = .ok start ∧
        Nested start grid [(.commitRow 6, before), (.cover 2, start)] ∧
          (board grid).Exhibits rows (settled [(.commitRow 6, before), (.cover 2, start)]) := by
  intro rows
  have hrows : ∀ row ∈ rows, firstRepeat? row.2 = none := by decide
  obtain ⟨⟨start, hstart, hviews⟩, start', hstart', hviews'⟩ :=
    viewsSettled_ofRows hrows
  constructor
  · obtain ⟨before, grid, -, hnested⟩ := exists_nested_pair hrows hstart
      (.cover 2) (.commitRow 4) (by decide +kernel)
    exact ⟨start, before, grid, hstart, hnested, hviews.exhibits hnested⟩
  · obtain ⟨before, grid, -, hnested⟩ := exists_nested_pair hrows hstart'
      (.cover 2) (.commitRow 6) (by decide +kernel)
    exact ⟨start', before, grid, hstart', hnested, hviews'.exhibits hnested⟩

end Kinds

end ExactCover
