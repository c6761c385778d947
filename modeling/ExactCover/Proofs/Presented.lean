import ExactCover.Packed
import ExactCover.Proofs.Boards
import ExactCover.Proofs.Onward
import ExactCover.Woven
import Mathlib.Data.List.Range

/-!
# The boards that grids make

A board bears some rows if its mesh plots them and the walks around all rows close. Both kinds of
grids make such boards of any rows, by adding columns, then the cells of a row one after another,
then what closes the row. While a row is being added its cells are the latest positions of the
board, which is how the closing finds them. A board lays out its rows if in addition the items
stand in their rings in the order in which they first appear in the rows (`Lays`).

The lemmas on adding rows are about two boards that differ in their links at most (`Underlies`). The
one underneath bears the rows, and on the other one the links only have to lead onward. So they also
tell what happens where rows are added to a board that a search has not restored. If the two boards
are the same, they say that rows are added as they should be.

What the search depends on is said by `Presents`: the board lays out the rows, and none of them
lists an item twice.
-/

set_option autoImplicit false

namespace ExactCover

variable {ι χ : Type} [BEq ι] [BEq χ] [Item ι χ]

namespace Board

/-- The board has these rows on it and nothing is settled. -/
def Bears (b : Board ι χ) (rows : List (List ι)) (numbering : Nat → Nat := id) : Prop :=
  ∃ L, b.mesh.Plots b.columns L rows numbering ∧ ∀ row ∈ L.rows, b.mesh.ClosesRow row

/-- In addition, no row lists an item twice. -/
def Holds (b : Board ι χ) (rows : List (List ι)) (numbering : Nat → Nat := id) : Prop :=
  ∃ L, b.mesh.Charts b.columns L rows numbering ∧ ∀ row ∈ L.rows, b.mesh.ClosesRow row

/-- The board has these rows on it, and the items have columns in the order in which they appear in
the rows, as far as columns of the same ring are concerned. -/
structure Lays (b : Board ι χ) (rows : List (List ι)) (numbering : Nat → Nat := id) : Prop where
  bears : b.Bears rows numbering
  primary : (b.columns.map (·.1)).filter isPrimaryItem =
    (distinct rows.flatten).filter isPrimaryItem
  secondary : (b.columns.map (·.1)).filter (!isPrimaryItem ·) =
    (distinct rows.flatten).filter (!isPrimaryItem ·)

/-- The board lays out these rows, none of which lists an item twice. -/
structure Presents (b : Board ι χ) (rows : List (List ι)) (numbering : Nat → Nat := id) :
    Prop where
  holds : b.Holds rows numbering
  primary : (b.columns.map (·.1)).filter isPrimaryItem =
    (distinct rows.flatten).filter isPrimaryItem
  secondary : (b.columns.map (·.1)).filter (!isPrimaryItem ·) =
    (distinct rows.flatten).filter (!isPrimaryItem ·)

/-- The last row on the board is being added, and its cells are the positions from `first` on. -/
def Drafts (b : Board ι χ) (first : Nat) (rows : List (List ι)) (items : List ι)
    (numbering : Nat → Nat := id) : Prop :=
  ∃ L done, b.mesh.Plots b.columns L (rows ++ [items]) numbering ∧
    L.rows = done ++ [(List.finRange b.size).drop first] ∧ first ≤ b.size ∧
    ∀ row ∈ done, b.mesh.ClosesRow row

/-- The two boards differ in their links only. The first is at rest and has the rows on it, and the
second is orderly. -/
def Underlies (rest b : Board ι χ) (rows : List (List ι)) (numbering : Nat → Nat := id) : Prop :=
  ∃ (n : Nat) (m₀ m : Mesh n χ) (labels : List (ι × Nat)) (L : Layout n χ),
    rest = ⟨n, m₀, labels⟩ ∧ b = ⟨n, m, labels⟩ ∧ m₀.Plots labels L rows numbering ∧
      m₀.Orderly L ∧ m.Orderly L

/-- In both boards the last row is being added, and its cells are the positions from `first` on. -/
def Prepares (rest b : Board ι χ) (first : Nat) (rows : List (List ι)) (items : List ι)
    (numbering : Nat → Nat := id) : Prop :=
  ∃ (n : Nat) (m₀ m : Mesh n χ) (labels : List (ι × Nat)) (L : Layout n χ)
      (done : List (List (Fin n))),
    rest = ⟨n, m₀, labels⟩ ∧ b = ⟨n, m, labels⟩ ∧ m₀.Plots labels L (rows ++ [items]) numbering ∧
      L.rows = done ++ [(List.finRange n).drop first] ∧ first ≤ n ∧ m₀.OrderlyOn L done ∧
        m.OrderlyOn L done

theorem Holds.bears {b : Board ι χ} {rows : List (List ι)} {numbering : Nat → Nat}
    (h : b.Holds rows numbering) : b.Bears rows numbering := by
  obtain ⟨L, hcharts, hclosed⟩ := h
  exact ⟨L, hcharts.toPlots, hclosed⟩

/-- A board underlies itself if nothing on it is settled. -/
theorem Bears.underlies_self {b : Board ι χ} {rows : List (List ι)} {numbering : Nat → Nat}
    (h : b.Bears rows numbering) : Underlies b b rows numbering := by
  obtain ⟨L, hplots, hclosed⟩ := h
  have horderly := hplots.atRest.orderly hplots.sound hclosed
  exact ⟨b.size, b.mesh, b.mesh, b.columns, L, rfl, rfl, hplots, horderly, horderly⟩

theorem Underlies.bears {rest b : Board ι χ} {rows : List (List ι)} {numbering : Nat → Nat}
    (h : Underlies rest b rows numbering) : rest.Bears rows numbering := by
  obtain ⟨n, m₀, m, labels, L, rfl, rfl, hplots, hrest, -⟩ := h
  exact ⟨L, hplots, hrest.closed⟩

theorem Prepares.drafts {rest b : Board ι χ} {first : Nat} {rows : List (List ι)}
    {items : List ι} {numbering : Nat → Nat} (h : Prepares rest b first rows items numbering) :
    rest.Drafts first rows items numbering := by
  obtain ⟨n, m₀, m, labels, L, done, rfl, rfl, hplots, hrows, hfirst, hrest, -⟩ := h
  exact ⟨L, done, hplots, hrows, hfirst, hrest.closed⟩

theorem Lays.presents [EquivBEq ι] {b : Board ι χ} {rows : List (List ι)} {numbering : Nat → Nat}
    (h : b.Lays rows numbering) (hrows : ∀ items ∈ rows, Unrepeated items) :
    b.Presents rows numbering := by
  obtain ⟨L, hplots, hclosed⟩ := h.bears
  exact ⟨⟨L, hplots.charts hrows, hclosed⟩, h.primary, h.secondary⟩

section Columns

variable [EquivBEq ι] {b : Board ι χ} {L : Layout b.size χ} {rows : List (List ι)}
  {numbering : Nat → Nat} {item : ι}

theorem column?_eq_some_iff (h : b.mesh.Plots b.columns L rows numbering) {c : Fin b.size} :
    b.column? item = some c ↔ Labels b.columns c item := by
  rw [column?, Option.bind_eq_some_iff]
  constructor
  · rintro ⟨x, hfind, hposition⟩
    have hx := List.mem_of_find?_eq_some hfind
    obtain ⟨d, -, hd, -⟩ := h.exists_header hx
    have hsome : b.position? x.2 = some d := by simp [position?, ← hd]
    rw [hsome] at hposition
    obtain rfl := Option.some.inj hposition
    exact ⟨x.1, hd ▸ hx, by simpa using List.find?_some hfind⟩
  · rintro ⟨x, hx, heq⟩
    obtain ⟨y, hfind⟩ : ∃ y, b.columns.find? (fun y => y.1 == item) = some y :=
      Option.isSome_iff_exists.mp (List.find?_isSome.mpr ⟨_, hx, heq⟩)
    have hy := List.mem_of_find?_eq_some hfind
    have hyItem : (y.1 == item) = true := by simpa using List.find?_some hfind
    have hxy : (x, c.val) = y := h.label_inj hx hy (BEq.trans heq (BEq.symm hyItem))
    refine ⟨y, hfind, ?_⟩
    simp [← hxy, position?]

theorem isSome_column? (h : b.Bears rows numbering) :
    (b.column? item).isSome = (b.columns.map (·.1)).contains item := by
  obtain ⟨L, h, -⟩ := h
  rw [Bool.eq_iff_iff, Option.isSome_iff_exists, List.contains_iff_exists_mem_beq]
  constructor
  · rintro ⟨c, hc⟩
    obtain ⟨x, hx, heq⟩ := (column?_eq_some_iff h).mp hc
    exact ⟨x, List.mem_map_of_mem hx, BEq.symm heq⟩
  · rintro ⟨x, hx, heq⟩
    obtain ⟨y, hy, rfl⟩ := List.mem_map.mp hx
    obtain ⟨c, -, hcy, -⟩ := h.exists_header hy
    exact ⟨c, (column?_eq_some_iff h).mpr ⟨y.1, hcy ▸ hy, BEq.symm heq⟩⟩

end Columns

variable [EquivBEq ι] {rest b : Board ι χ} {rows : List (List ι)} {numbering : Nat → Nat}
  {items : List ι} {item : ι} {first : Nat}

omit [EquivBEq ι] in
/-- Boards that differ in their links only find the same columns. -/
theorem Underlies.isSome_column?_eq (h : Underlies rest b rows numbering) (item : ι) :
    (b.column? item).isSome = (rest.column? item).isSome := by
  obtain ⟨n, m₀, m, labels, L, rfl, rfl, -⟩ := h
  rfl

omit [EquivBEq ι] in
theorem Underlies.columns_eq (h : Underlies rest b rows numbering) : b.columns = rest.columns := by
  obtain ⟨n, m₀, m, labels, L, rfl, rfl, -⟩ := h
  rfl

omit [EquivBEq ι] in
theorem Underlies.size_eq (h : Underlies rest b rows numbering) : b.size = rest.size := by
  obtain ⟨n, m₀, m, labels, L, rfl, rfl, -⟩ := h
  rfl

omit [EquivBEq ι] in
theorem Underlies.style_eq (h : Underlies rest b rows numbering) :
    b.mesh.style = rest.mesh.style := by
  obtain ⟨n, m₀, m, labels, L, rfl, rfl, -, hrest, hm⟩ := h
  exact congrArg Frame.style (hm.frame.trans hrest.frame.symm)

theorem Underlies.addColumn (h : Underlies rest b rows numbering)
    (hnew : (b.columns.map (·.1)).contains item = false) :
    Underlies (rest.addColumn item) (b.addColumn item) rows numbering := by
  obtain ⟨n, m₀, m, labels, L, rfl, rfl, hplots, hrest, hm⟩ := h
  exact ⟨n + 1, _, _, _, _, rfl, rfl, hplots.pushHeader hnew,
    hrest.pushHeader hplots.sound (isPrimaryItem item),
    hm.pushHeader hplots.sound (isPrimaryItem item)⟩

/-- Adding columns extends the labels as `distinct` extends the items that it keeps. -/
theorem Underlies.addColumns (h : Underlies rest b rows numbering) (items given : List ι)
    (hlabels : b.columns.map (·.1) = distinct given) :
    Underlies (rest.addColumns items) (b.addColumns items) rows numbering ∧
      (b.addColumns items).columns.map (·.1) = distinct (given ++ items) ∧
      (b.addColumns items).mesh.style = b.mesh.style := by
  induction items generalizing rest b given with
  | nil =>
    rw [List.append_nil]
    exact ⟨h, hlabels, rfl⟩
  | cons item items ih =>
    have hsame := h.isSome_column?_eq item
    have hsome : (rest.column? item).isSome = (rest.columns.map (·.1)).contains item :=
      isSome_column? h.bears
    rw [← h.columns_eq, hlabels] at hsome
    rw [hsome] at hsame
    have hsplit : given ++ item :: items = (given ++ [item]) ++ items := by simp
    rw [hsplit]
    cases hkept : (distinct given).contains item with
    | true =>
      have hstep : ∀ b : Board ι χ, (b.column? item).isSome = (distinct given).contains item →
          b.addColumns (item :: items) = b.addColumns items := by
        intro b hb
        simp [Board.addColumns, hb, -List.contains_eq_mem, hkept]
      rw [hstep rest hsome, hstep b hsame]
      apply ih h _
      rw [hlabels, distinct_concat, if_pos hkept]
    | false =>
      have hstep : ∀ b : Board ι χ, (b.column? item).isSome = (distinct given).contains item →
          b.addColumns (item :: items) = (b.addColumn item).addColumns items := by
        intro b hb
        simp [Board.addColumns, hb, -List.contains_eq_mem, hkept]
      rw [hstep rest hsome, hstep b hsame]
      apply ih (h.addColumn (by rw [hlabels, hkept])) _
      rw [Board.addColumn, List.map_append, hlabels, distinct_concat, hkept]
      rfl

omit [EquivBEq ι] in
/-- A row begins behind the last position. -/
theorem Underlies.startRow (h : Underlies rest b rows numbering) :
    Prepares rest b b.size rows [] numbering := by
  obtain ⟨n, m₀, m, labels, L, rfl, rfl, hplots, hrest, hm⟩ := h
  refine ⟨n, m₀, m, labels, L.startRow, L.rows, rfl, rfl, hplots.startRow, ?_, Nat.le_refl _,
    hrest.orderlyOn.startRow, hm.orderlyOn.startRow⟩
  simp [Layout.startRow]

theorem Prepares.addCell [ReflBEq χ] (h : Prepares rest b first rows items numbering)
    (hcolumn : (b.columns.map (·.1)).contains item) :
    Prepares (rest.addCell (numbering rows.length) item) (b.addCell (numbering rows.length) item)
      first rows (items ++ [item]) numbering := by
  obtain ⟨n, m₀, m, labels, L, done, rfl, rfl, hplots, hrows, hfirst, hrest, hm⟩ := h
  obtain ⟨c, hc⟩ : ∃ c, (⟨n, m₀, labels⟩ : Board ι χ).column? item = some c := by
    obtain ⟨x, hx, heq⟩ := List.contains_iff_exists_mem_beq.mp hcolumn
    obtain ⟨y, hy, rfl⟩ := List.mem_map.mp hx
    obtain ⟨c, -, hcy, -⟩ := hplots.exists_header hy
    exact ⟨c, (column?_eq_some_iff hplots).mpr ⟨y.1, hcy ▸ hy, BEq.symm heq⟩⟩
  have hlabel : Labels labels c item := (column?_eq_some_iff hplots).mp hc
  have hcell : ∀ m : Mesh n χ, (⟨n, m, labels⟩ : Board ι χ).addCell (numbering rows.length) item =
      ⟨n + 1, m.pushCell c (numbering rows.length) (paintOf item), labels⟩ := by
    intro m
    have hc : (⟨n, m, labels⟩ : Board ι χ).column? item = some c := hc
    rw [Board.addCell, hc]
  have hheader := hplots.mem_headers hlabel
  refine ⟨n + 1, _, _, _, _, done.map (List.map Fin.castSucc), hcell m₀, hcell m,
    hplots.pushCell hrows hlabel, ?_, Nat.le_succ_of_le hfirst,
    hrest.pushCell hplots.sound hrows hheader, hm.pushCell hplots.sound hrows hheader⟩
  rw [Layout.rows_pushCell hrows, List.finRange_succ_last, List.drop_append_of_le_length,
    List.map_drop]
  simpa using hfirst

omit [BEq χ] [EquivBEq ι] in
/-- Adding a cell leaves the labels, the style and what the positions stand for as they are. -/
theorem addCell_frame (b : Board ι χ) (k : Nat) (item : ι) :
    (b.addCell k item).columns = b.columns ∧ (b.addCell k item).mesh.style = b.mesh.style ∧
      b.size ≤ (b.addCell k item).size ∧
      ∀ i < b.size, (b.addCell k item).mesh.roles[i]? = b.mesh.roles[i]? := by
  rw [addCell]
  split
  · refine ⟨rfl, rfl, Nat.le_succ _, fun i hi => ?_⟩
    simp only [Mesh.pushCell, Mesh.push, Mesh.setCount]
    rw [Vector.getElem?_push, if_neg (Nat.ne_of_lt hi)]
  · exact ⟨rfl, rfl, Nat.le_refl _, fun _ _ => rfl⟩

omit [BEq χ] [EquivBEq ι] in
theorem addCells_frame (b : Board ι χ) (k : Nat) (items : List ι) :
    (b.addCells k items).columns = b.columns ∧ (b.addCells k items).mesh.style = b.mesh.style ∧
      ∀ i < b.size, (b.addCells k items).mesh.roles[i]? = b.mesh.roles[i]? := by
  induction items generalizing b with
  | nil => exact ⟨rfl, rfl, fun _ _ => rfl⟩
  | cons item rest ih =>
    obtain ⟨hcolumns, hstyle, hsize, hroles⟩ := b.addCell_frame k item
    obtain ⟨hcolumns', hstyle', hroles'⟩ := ih (b.addCell k item)
    refine ⟨hcolumns'.trans hcolumns, hstyle'.trans hstyle, fun i hi => ?_⟩
    exact (hroles' i (Nat.lt_of_lt_of_le hi hsize)).trans (hroles i hi)

theorem Prepares.addCells [ReflBEq χ] {more : List ι}
    (h : Prepares rest b first rows items numbering)
    (hcolumns : ∀ x ∈ more, (b.columns.map (·.1)).contains x) :
    Prepares (rest.addCells (numbering rows.length) more) (b.addCells (numbering rows.length) more)
      first rows (items ++ more) numbering := by
  induction more generalizing rest b items with
  | nil =>
    rw [List.append_nil]
    exact h
  | cons item more ih =>
    have hsplit : items ++ item :: more = (items ++ [item]) ++ more := by simp
    rw [hsplit]
    refine ih (h.addCell (hcolumns item (by simp))) fun x hx => ?_
    rw [(b.addCell_frame (numbering rows.length) item).1]
    exact hcolumns x (List.mem_cons_of_mem _ hx)

omit [BEq ι] [BEq χ] [Item ι χ] [EquivBEq ι] in
/-- What ends a row leaves the labels and the style as they are, and a spacer at the end. -/
theorem spaceRow_frame (b : Board ι χ) (first : Nat) :
    (b.spaceRow first).columns = b.columns ∧ (b.spaceRow first).mesh.style = b.mesh.style ∧
      (b.spaceRow first).mesh.roles[(b.spaceRow first).size - 1]? = some .spacer := by
  have hlast : (b.mesh.roles.push .spacer)[b.size]? = some Role.spacer := by
    rw [Vector.getElem?_push, if_pos rfl]
  by_cases hfirst : 0 < first ∧ first < b.size
  · rw [Board.spaceRow, dif_pos hfirst]
    exact ⟨rfl, rfl, hlast⟩
  · rw [Board.spaceRow, dif_neg hfirst]
    exact ⟨rfl, rfl, hlast⟩

omit [EquivBEq ι] in
/-- A circle ends a row in the linked style. -/
theorem Prepares.linkRow (h : Prepares rest b first rows items numbering)
    (hstyle : b.mesh.style = .linked) :
    Underlies (rest.linkRow first) (b.linkRow first) (rows ++ [items]) numbering := by
  obtain ⟨n, m₀, m, labels, L, done, rfl, rfl, hplots, hrows, -, hrest, hm⟩ := h
  have hframe : m₀.toFrame = m.toFrame := hrest.frame.trans hm.frame.symm
  have hstyle₀ : m₀.style = .linked := (congrArg Frame.style hframe).trans hstyle
  exact ⟨n, _, _, labels, L, rfl, rfl,
    { hplots with atRest := hplots.atRest.circle hplots.sound hrows },
    hrest.circle hplots.sound hrows hstyle₀, hm.circle hplots.sound hrows hstyle⟩

/-- The positions from one on lie one behind the other. -/
theorem isChain_drop_finRange (n k : Nat) :
    List.IsChain (fun p q : Fin n => q.val = p.val + 1) ((List.finRange n).drop k) := by
  refine List.IsChain.drop ?_ k
  rw [List.isChain_iff_getElem]
  intro i hi
  simp

/-- The positions of a row lie between the spacer in front of it and the one that is added. -/
theorem isChain_between_spacers {n first : Nat} (hpos : 0 < first) (hlt : first < n) :
    List.IsChain (fun p q : Fin (n + 1) => q.val = p.val + 1)
      (⟨first - 1, by omega⟩ ::
        (((List.finRange n).drop first).map Fin.castSucc ++ [Fin.last n])) := by
  have htail : ((List.finRange n).drop first).map Fin.castSucc ++ [Fin.last n] =
      (List.finRange (n + 1)).drop first := by
    rw [List.finRange_succ_last, List.drop_append_of_le_length (by simpa using hlt.le),
      List.map_drop]
  have hdrop := List.drop_eq_getElem_cons (i := first - 1) (l := List.finRange (n + 1))
    (by rw [List.length_finRange]; omega)
  rw [Nat.sub_add_cancel hpos, List.getElem_finRange] at hdrop
  have hchain := isChain_drop_finRange (n + 1) (first - 1)
  rw [hdrop] at hchain
  rw [htail]
  exact hchain

theorem head?_drop_finRange {n first : Nat} (hlt : first < n) :
    (((List.finRange n).drop first).map Fin.castSucc).head? = some ⟨first, by omega⟩ := by
  rw [List.head?_map, List.head?_drop, List.getElem?_eq_getElem (by simpa using hlt)]
  simp

theorem getLast?_drop_finRange {n first : Nat} (hlt : first < n) :
    (((List.finRange n).drop first).map Fin.castSucc).getLast? = some ⟨n - 1, by omega⟩ := by
  rw [List.getLast?_map, List.getLast?_drop, if_neg (by simpa using hlt),
    List.getLast?_eq_getElem?, List.getElem?_eq_getElem (by simp; omega)]
  simp

omit [EquivBEq ι] in
/-- A spacer ends a row in the spaced style if there is another one in front of it. -/
theorem Drafts.spaceRow (h : b.Drafts first rows items numbering) (hstyle : b.mesh.style = .spaced)
    (hitems : items ≠ []) (hpos : 0 < first)
    (hfront : b.mesh.roles[first - 1]? = some .spacer) :
    (b.spaceRow first).Bears (rows ++ [items]) numbering := by
  obtain ⟨L, done, hplots, hrows, -, hclosed⟩ := h
  have hlt : first < b.size := by
    by_contra hge
    have hnil : (List.finRange b.size).drop first = [] := by
      rw [List.drop_eq_nil_iff, List.length_finRange]
      omega
    have hpending := (hplots.cells_concat hrows).2.length_eq
    rw [hnil] at hpending
    exact hitems (List.eq_nil_of_length_eq_zero hpending.symm)
  have hspacer := hplots.pushSpacer
  have hrole : b.mesh.pushSpacer.role ⟨first - 1, by omega⟩ = .spacer := by
    have hold := b.mesh.role_push_castSucc .spacer (Fin.last b.size) .uncolored
      ⟨first - 1, by omega⟩
    rw [Vector.getElem?_eq_getElem (by omega), Option.some.injEq] at hfront
    exact hold.trans hfront
  have hlast : b.mesh.pushSpacer.role (Fin.last b.size) = .spacer := by
    simp [Frame.role, Mesh.pushSpacer, Mesh.push]
  have hrows' : (L.push .spacer (Fin.last b.size) .uncolored).rows =
      done.map (List.map Fin.castSucc) ++
        [((List.finRange b.size).drop first).map Fin.castSucc] := by
    simp [Layout.push, hrows]
  have hdone : ∀ row ∈ done.map (List.map Fin.castSucc), b.mesh.pushSpacer.ClosesRow row := by
    intro row hrow
    obtain ⟨old, hold, rfl⟩ := List.mem_map.mp hrow
    exact (hclosed old hold).push .spacer (Fin.last b.size) .uncolored
  have hlie := isChain_between_spacers hpos hlt
  have hhead := head?_drop_finRange hlt
  have hend := getLast?_drop_finRange hlt
  have hrest := hspacer.atRest.bracket hspacer.sound ⟨first, by omega⟩ ⟨b.size - 1, by omega⟩
    hrole hlast
  have hcloses := hspacer.atRest.closesRow_bracket hspacer.sound hstyle hrole hlast hrows' hdone
    hlie hhead hend
  rw [Board.spaceRow, dif_pos ⟨hpos, hlt⟩]
  exact ⟨_, { hspacer with atRest := hrest }, hcloses⟩

end Board

/-- The layout of a mesh without rows and columns. -/
def Layout.heads (style : RowStyle) : Layout 2 χ where
  toFrame := (Mesh.heads (χ := χ) style).toFrame
  paint _ := .uncolored
  rows := []
  primary := []
  secondary := []

omit [BEq χ] in
theorem Layout.role_heads (style : RowStyle) (p : Fin 2) :
    (Layout.heads style : Layout 2 χ).role p = .ringHead := by
  revert p
  exact Fin.forall_fin_two.mpr ⟨rfl, rfl⟩

theorem Mesh.plots_heads (style : RowStyle) (numbering : Nat → Nat) :
    (Mesh.heads style : Mesh 2 χ).Plots ([] : List (ι × Nat)) (Layout.heads style) []
      numbering where
  sound := by
    constructor <;> simp [Layout.heads, Mesh.heads, Frame.role, Layout.headers, Layout.cells]
  atRest := by
    constructor <;> simp [Layout.heads, Layout.headers, Layout.cells]
    · exact Links.isRing_nil rfl rfl
    · exact Links.isRing_nil rfl rfl
  primary := rfl
  secondary := rfl
  distinct := .nil
  cells := .nil
  number := by simp [Layout.heads]
  header := by
    intro p hp
    rw [Layout.role_heads] at hp
    cases hp
  cell := by
    intro p hp
    rw [Layout.role_heads] at hp
    cases hp

theorem Board.bears_empty (style : RowStyle) (numbering : Nat → Nat) :
    (Board.empty style : Board ι χ).Bears [] numbering :=
  ⟨Layout.heads style, Mesh.plots_heads style numbering, fun _ hrow => nomatch hrow⟩

/-! ## The open grid -/

/-- The board of an open grid with the given rows. -/
structure Woven.Weaves (grid : Woven ι χ) (rows : List (List ι))
    (numbering : Nat → Nat := id) : Prop where
  bears : grid.board.Bears rows numbering
  labels : grid.board.columns.map (·.1) = distinct rows.flatten
  style : grid.board.mesh.style = .linked

namespace Woven

variable {numbering : Nat → Nat}

theorem weaves_empty : (Woven.empty : Woven ι χ).Weaves [] numbering :=
  ⟨Board.bears_empty .linked numbering, rfl, rfl⟩

theorem Weaves.lays {grid : Woven ι χ} {rows : List (List ι)}
    (h : grid.Weaves rows numbering) : grid.board.Lays rows numbering := by
  refine ⟨h.bears, ?_, ?_⟩ <;> rw [h.labels]

/-- The boards of the two grids differ in their links only. The first is at rest and has the rows on
it, and the second is orderly. -/
structure Underlies (rest grid : Woven ι χ) (rows : List (List ι)) (numbering : Nat → Nat := id) :
    Prop where
  boards : Board.Underlies rest.board grid.board rows numbering
  labels : grid.board.columns.map (·.1) = distinct rows.flatten
  style : grid.board.mesh.style = .linked

theorem Weaves.underlies_self {grid : Woven ι χ} {rows : List (List ι)}
    (h : grid.Weaves rows numbering) : Underlies grid grid rows numbering :=
  ⟨h.bears.underlies_self, h.labels, h.style⟩

theorem Underlies.weaves {rest grid : Woven ι χ} {rows : List (List ι)}
    (h : Underlies rest grid rows numbering) : rest.Weaves rows numbering where
  bears := h.boards.bears
  labels := by
    rw [← h.boards.columns_eq]
    exact h.labels
  style := by
    rw [← h.boards.style_eq]
    exact h.style

/-- Rows can be woven into a board that is not at rest as well. -/
theorem Underlies.addRow [EquivBEq ι] [ReflBEq χ] {rest grid : Woven ι χ} {rows : List (List ι)}
    (h : Underlies rest grid rows numbering) (items : List ι) :
    Underlies (rest.addRow (numbering rows.length) items)
      (grid.addRow (numbering rows.length) items) (rows ++ [items]) numbering := by
  obtain ⟨hlabelled, hlabels, hstyle⟩ := h.boards.addColumns items _ h.labels
  have hcolumns : ∀ x ∈ items,
      ((grid.board.addColumns items).columns.map (·.1)).contains x := by
    intro x hx
    rw [hlabels, List.contains_iff_exists_mem_beq]
    exact exists_mem_distinct (List.mem_append_right _ hx)
  obtain ⟨hsame, hlinked, -⟩ :=
    (grid.board.addColumns items).addCells_frame (numbering rows.length) items
  rw [hstyle, h.style] at hlinked
  refine ⟨?_, ?_, hlinked⟩
  · have hrest : rest.addRow (numbering rows.length) items =
        ⟨((rest.board.addColumns items).addCells (numbering rows.length) items).linkRow
          (grid.board.addColumns items).size⟩ := by
      rw [hlabelled.size_eq]
      rfl
    rw [hrest]
    exact (hlabelled.startRow.addCells hcolumns).linkRow hlinked
  · rw [List.flatten_append, List.flatten_singleton, ← hlabels, ← hsame]
    rfl

theorem Weaves.addRow [EquivBEq ι] [ReflBEq χ] {grid : Woven ι χ} {rows : List (List ι)}
    (h : grid.Weaves rows numbering) (items : List ι) :
    (grid.addRow (numbering rows.length) items).Weaves (rows ++ [items]) numbering :=
  (h.underlies_self.addRow items).weaves

end Woven

/-! ## The sealed grid -/

namespace Packed

/-- The board of a sealed grid while it is made: it holds the rows that have been packed and ends
with a spacer. -/
structure Packs (b : Board ι χ) (rows : List (List ι)) (numbering : Nat → Nat := id) : Prop where
  bears : b.Bears rows numbering
  style : b.mesh.style = .spaced
  last : b.mesh.roles[b.size - 1]? = some .spacer

variable {numbering : Nat → Nat}

theorem Packs.packRow [EquivBEq ι] [ReflBEq χ] {b : Board ι χ} {rows : List (List ι)}
    {items : List ι} (h : Packs b rows numbering)
    (hcolumns : ∀ x ∈ items, (b.columns.map (·.1)).contains x) :
    Packs (packRow b (numbering rows.length, items)) (rows ++ [items]) numbering ∧
      (packRow b (numbering rows.length, items)).columns = b.columns := by
  have hpos : 0 < b.size := by
    obtain ⟨hlt, -⟩ := Vector.getElem?_eq_some_iff.mp h.last
    exact Nat.lt_of_le_of_lt (Nat.zero_le _) hlt
  cases items with
  | nil =>
    obtain ⟨L, hplots, hclosed⟩ := h.bears
    refine ⟨⟨⟨L.startRow, hplots.startRow, fun row hrow => ?_⟩, h.style, h.last⟩, rfl⟩
    rcases List.mem_append.mp hrow with hrow | hrow
    · exact hclosed row hrow
    · rw [List.mem_singleton.mp hrow]
      exact .nil
  | cons item rest =>
    obtain ⟨hsame, hspaced, hroles⟩ := b.addCells_frame (numbering rows.length) (item :: rest)
    have hdraft := (h.bears.underlies_self.startRow.addCells hcolumns).drafts
    have hfront := (hroles (b.size - 1) (by omega)).trans h.last
    have hbears := hdraft.spaceRow (hspaced.trans h.style) (List.cons_ne_nil _ _) hpos hfront
    have hrow : Packed.packRow b (numbering rows.length, item :: rest) =
        (b.addCells (numbering rows.length) (item :: rest)).spaceRow b.size := rfl
    obtain ⟨hcolumns', hstyle', hlast'⟩ :=
      (b.addCells (numbering rows.length) (item :: rest)).spaceRow_frame b.size
    rw [hrow]
    exact ⟨⟨hbears, hstyle'.trans (hspaced.trans h.style), hlast'⟩, hcolumns'.trans hsame⟩

/-- Rows with the numbers of their options. -/
def numbered (rows : List (List ι)) (numbering : Nat → Nat := id) : List (Nat × List ι) :=
  rows.zipIdx.map fun row => (numbering row.2, row.1)

omit [BEq ι] in
theorem numbered_concat (rows : List (List ι)) (items : List ι) :
    numbered (rows ++ [items]) numbering =
      numbered rows numbering ++ [(numbering rows.length, items)] := by
  simp [numbered, List.zipIdx_append]

theorem Packs.foldl [EquivBEq ι] [ReflBEq χ] {b : Board ι χ} (h : Packs b [] numbering)
    (rows : List (List ι))
    (hrows : ∀ items ∈ rows, ∀ x ∈ items, (b.columns.map (·.1)).contains x) :
    Packs ((numbered rows numbering).foldl Packed.packRow b) rows numbering ∧
      ((numbered rows numbering).foldl Packed.packRow b).columns = b.columns := by
  induction rows using List.reverseRecOn with
  | nil => exact ⟨h, rfl⟩
  | append_singleton rows items ih =>
    obtain ⟨hpacks, hsame⟩ := ih fun items hitems => hrows items (List.mem_append_left _ hitems)
    have hcolumns := hrows items (by simp)
    rw [← hsame] at hcolumns
    obtain ⟨hrow, hcolumns'⟩ := hpacks.packRow hcolumns
    rw [numbered_concat, List.foldl_append]
    exact ⟨hrow, hcolumns'.trans hsame⟩

omit [BEq ι] in
theorem flatMap_numbered (rows : List (List ι)) :
    (numbered rows numbering).flatMap (·.2) = rows.flatten := by
  induction rows using List.reverseRecOn with
  | nil => rfl
  | append_singleton rows items ih => simp [numbered_concat, List.flatMap_append, ih]

/-- The board of a sealed grid lays out its rows. -/
theorem lays_pack [EquivBEq ι] [ReflBEq χ] (rows : List (List ι)) :
    (pack (numbered rows numbering)).Lays rows numbering := by
  let items := distinct rows.flatten
  let ordered := items.filter (fun x => isPrimaryItem x) ++ items.filter fun x => !isPrimaryItem x
  have hordered : Unrepeated ordered := by
    refine ((List.filter_append_perm _ _).pairwise_iff ?_).mpr (unrepeated_distinct rows.flatten)
    intro x y hxy
    rwa [BEq.comm]
  have hmem : ∀ x ∈ rows.flatten, ordered.contains x := by
    intro x hx
    obtain ⟨y, hy, hxy⟩ := exists_mem_distinct hx
    refine List.contains_iff_exists_mem_beq.mpr ⟨y, ?_, hxy⟩
    exact (List.filter_append_perm _ _).mem_iff.mpr hy
  obtain ⟨hlabelled, hlabels, hstyle⟩ :=
    (Board.bears_empty (ι := ι) .spaced numbering).underlies_self.addColumns ordered [] rfl
  rw [List.nil_append, hordered.distinct_eq] at hlabels
  let labelled := (Board.empty .spaced : Board ι χ).addColumns ordered
  have hstart : Packs labelled.addSpacer [] numbering := by
    obtain ⟨L, hplots, hclosed⟩ := hlabelled.bears
    refine ⟨⟨_, hplots.pushSpacer, fun row hrow => ?_⟩, hstyle, ?_⟩
    · obtain ⟨old, hold, rfl⟩ := List.mem_map.mp hrow
      exact (hclosed old hold).push _ _ _
    · exact (Vector.getElem?_push ..).trans (if_pos rfl)
  obtain ⟨hpacks, hcolumns⟩ := hstart.foldl rows fun row hrow x hx =>
    hlabels ▸ hmem x (List.mem_flatten.mpr ⟨row, hrow, hx⟩)
  have hpack : pack (numbered rows numbering) =
      (numbered rows numbering).foldl Packed.packRow labelled.addSpacer := by
    simp only [pack, flatMap_numbered]
    rfl
  rw [hpack]
  have hlabels' :
      ((numbered rows numbering).foldl Packed.packRow labelled.addSpacer).columns.map (·.1) =
        ordered := by
    rw [hcolumns]
    exact hlabels
  refine ⟨hpacks.bears, ?_, ?_⟩
  · rw [hlabels']
    simp [ordered, items, List.filter_append, List.filter_filter]
  · rw [hlabels']
    simp [ordered, items, List.filter_append, List.filter_filter]

end Packed

end ExactCover
