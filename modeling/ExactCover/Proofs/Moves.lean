import ExactCover.Proofs.Lawful
import ExactCover.Proofs.Settled
import ExactCover.Proofs.Tracking

/-!
# Moves on a grid and their undoing

A *move* covers a column or commits a row, and moves are undone latest first. So a grid that is
worked with is accompanied by the moves that were not undone yet, each with the grid that it was
made on. What these moves have settled decides which moves are permitted next. A column may be
covered if it is neither covered nor restricted to a color. A row may be committed from a cell that
hangs in a covered column, provided that each of the other cells of the row is purified or in a
column that is neither covered nor restricted.

`Grid.Nested` are the grids that come up when only such moves are made, and `Traces` is the
invariant that carries the proofs about them. A permitted move leads from one picture of a layout
to another and makes a round trip with its undoing (`Mesh.Displays.exists_forth`). Hence undoing
always meets the mesh that the move has left, and gives back the one that it was made on
(`Grid.Rests.reversible`).
-/

set_option autoImplicit false

namespace ExactCover

/-- A step forward on a grid, at the position of a header or of a cell. -/
inductive Move where
  /-- Covers the column of a header. -/
  | cover (c : Nat)
  /-- Commits the row of a cell. -/
  | commitRow (p : Nat)
  deriving DecidableEq, Repr

namespace Mesh

variable {n : Nat} {χ : Type}

/-- The other cells of the row of a cell, in the order in which the walk to the right meets them.
-/
def others (m : Mesh n χ) (p : Fin n) : List (Fin n) := go n p
where
  /-- Goes on behind a position, for at most the given number of cells. -/
  go : Nat → Fin n → List (Fin n)
    | 0, _ => []
    | fuel + 1, q =>
      match m.right q with
      | .ok r => if r = p then [] else r :: go fuel r
      | .error _ => []

/-- Whether the walk down its column meets a cell. -/
def hangs (m : Mesh n χ) (p : Fin n) : Bool :=
  match m.cells (m.column p) with
  | .ok cells => cells.contains p
  | .error _ => false

/-- If the walk to the right leads around, it meets what is on its route. -/
theorem Leads.others_eq {m : Mesh n χ} {p : Fin n} {route : List (Fin n)}
    (h : m.Leads right p route) : m.others p = route := by
  have hgo : ∀ (rest : List (Fin n)) (q : Fin n) (fuel : Nat),
      List.IsChain (fun p q => m.right p = .ok q) (q :: (rest ++ [p])) → p ∉ rest →
        rest.length < fuel → others.go m p fuel q = rest := by
    intro rest
    induction rest with
    | nil =>
      intro q fuel hchain _ hfuel
      obtain ⟨fuel, rfl⟩ := Nat.exists_eq_add_one.mpr hfuel
      rw [List.nil_append, List.isChain_pair] at hchain
      simp [others.go, hchain]
    | cons r rest ih =>
      intro q fuel hchain hp hfuel
      obtain ⟨fuel, rfl⟩ := Nat.exists_eq_add_one.mpr (Nat.zero_lt_of_lt hfuel)
      rw [List.cons_append, List.isChain_cons_cons] at hchain
      obtain ⟨hr, hp⟩ := List.ne_and_not_mem_of_not_mem_cons hp
      rw [List.length_cons] at hfuel
      simp [others.go, hchain.1, Ne.symm hr, ih r fuel hchain.2 hp (by omega)]
  have hlength := h.nodup.length_le_card
  rw [Fintype.card_fin, List.length_cons] at hlength
  exact hgo route p n h.chain (List.nodup_cons.mp h.nodup).1 hlength

end Mesh

namespace Board

variable {ι χ : Type}

/-- The columns that a move settles, each with the color that it is restricted to, or with none if
it is covered. Purified cells of a row ask for nothing. -/
def settles (b : Board ι χ) : Move → List (Nat × Option χ)
  | .cover c => [(c, none)]
  | .commitRow p =>
    match b.position? p with
    | none => []
    | some p => ((b.mesh.others p).filter fun q => !(b.mesh.paint q).isPurified).map fun q =>
        ((b.mesh.column q).val, (b.mesh.paint q).tint?)

/-- Whether a move is permitted where some columns are settled. -/
def Permits (b : Board ι χ) (settled : List (Nat × Option χ)) : Move → Prop
  | .cover c => ∃ p : Fin b.size, p.val = c ∧ b.mesh.role p = .header ∧ c ∉ settled.map (·.1)
  | .commitRow r => ∃ p : Fin b.size, p.val = r ∧ b.mesh.hangs p ∧
      ((b.mesh.column p).val, none) ∈ settled ∧
      ∀ q ∈ b.mesh.others p, b.mesh.paint q = .purified ∨
        (b.mesh.column q).val ∉ settled.map (·.1)

instance [DecidableEq χ] (b : Board ι χ) (settled : List (Nat × Option χ)) :
    (move : Move) → Decidable (b.Permits settled move)
  | .cover c => inferInstanceAs (Decidable (∃ p : Fin b.size, p.val = c ∧
      b.mesh.role p = .header ∧ c ∉ settled.map (·.1)))
  | .commitRow r => inferInstanceAs (Decidable (∃ p : Fin b.size, p.val = r ∧ b.mesh.hangs p ∧
      ((b.mesh.column p).val, none) ∈ settled ∧
      ∀ q ∈ b.mesh.others p, b.mesh.paint q = .purified ∨
        (b.mesh.column q).val ∉ settled.map (·.1)))

end Board

namespace Grid

variable {γ ι χ : Type} [Grid γ ι χ]

/-- Makes a move. -/
def forth [BEq χ] (grid : γ) : Move → Except Fault γ
  | .cover c => cover grid c
  | .commitRow p => commitRow grid p

/-- Undoes a move. -/
def back (grid : γ) : Move → Except Fault γ
  | .cover c => uncover grid c
  | .commitRow p => uncommitRow grid p

/-- What some moves have settled, the latest of them coming first. Every move comes with the grid
that it was made on. -/
def settled : List (Move × γ) → List (Nat × Option χ)
  | [] => []
  | (move, before) :: made => settled made ++ (board before).settles move

/-- The grids that come up when permitted moves are made and moves are undone latest first,
together with the moves that were not undone yet. -/
inductive Nested [BEq χ] (start : γ) : γ → List (Move × γ) → Prop where
  | start : Nested start start []
  | forth {grid grid' : γ} {made : List (Move × γ)} {move : Move} (h : Nested start grid made)
      (hpermits : (board grid).Permits (settled made) move)
      (hforth : forth grid move = .ok grid') : Nested start grid' ((move, grid) :: made)
  | back {grid grid' before : γ} {made : List (Move × γ)} {move : Move}
      (h : Nested start grid ((move, before) :: made)) (hback : back grid move = .ok grid') :
      Nested start grid' made

/-- A closed grid with the given rows, each of which has the number of an option. -/
def ofRows (rows : List (Nat × List ι)) : Except StateError γ := do
  let grid ← rows.foldlM (fun grid row => addRow grid row.1 row.2) empty
  .ok (close grid)

end Grid

section Stands

variable {n : Nat} {χ : Type} [BEq χ] {settled : List (Nat × Option χ)}
  {columns : List (Fin n × Option χ)} {c : Fin n}

/-- The settled columns are those at some positions, with equal colors. -/
abbrev Stands (settled : List (Nat × Option χ)) (columns : List (Fin n × Option χ)) : Prop :=
  List.Forall₂ (fun x y => x.1 = y.1.val ∧ TintAlike y.2 x.2) settled columns

theorem Stands.map_fst_eq (h : Stands settled columns) :
    settled.map (·.1) = columns.map (·.1.val) := by
  induction h with
  | nil => rfl
  | cons hxy _ ih => rw [List.map_cons, List.map_cons, ih, hxy.1]

theorem Stands.mem_map_fst_iff (h : Stands settled columns) :
    c.val ∈ settled.map (·.1) ↔ c ∈ columns.map (·.1) := by
  have hmap : columns.map (·.1.val) = (columns.map (·.1)).map (·.val) := by
    rw [List.map_map]
    rfl
  rw [h.map_fst_eq, hmap, List.mem_map_of_injective Fin.val_injective]

/-- A column is covered at its position. -/
theorem Stands.covered_iff (h : Stands settled columns) :
    (c.val, none) ∈ settled ↔ (c, none) ∈ columns := by
  constructor
  · intro hmem
    obtain ⟨⟨d, tint⟩, hd, hcd, htint⟩ := exists_of_forall₂ h hmem
    obtain rfl := Fin.ext hcd
    cases htint
    exact hd
  · intro hmem
    obtain ⟨⟨d, tint⟩, hd, hdc, htint⟩ := exists_of_forall₂ h.flip hmem
    obtain rfl : d = c.val := hdc
    cases htint
    exact hd

end Stands

/-- Cells that ask for the same restrict their columns to equal colors. -/
theorem Paint.Alike.tint?_rel {χ : Type} [BEq χ] {a b : Paint χ} (h : a.Alike b) :
    TintAlike a.tint? b.tint? := by
  cases h with
  | uncolored => exact .none
  | colored h => exact .some h
  | purified => exact .none

/-- A way to put a mesh into a grid: the board gets the mesh, and a step on the grid is the step on
the mesh. -/
structure Grid.Mounts {γ ι χ : Type} [Grid γ ι χ] {n : Nat} (mount : Mesh n χ → γ)
    (labels : List (ι × Nat)) : Prop where
  board_eq : ∀ m, board (mount m) = ⟨n, m, labels⟩
  step_eq : ∀ (move : {n : Nat} → Fin n → Mesh n χ → Except Fault (Mesh n χ)) (m : Mesh n χ)
    (p : Fin n), step move (mount m) p.val = (move p m).map mount

/-- In addition, one of these meshes is at rest on a layout. -/
structure Grid.Rests {γ ι χ : Type} [Grid γ ι χ] [BEq χ] {n : Nat} (mount : Mesh n χ → γ)
    (labels : List (ι × Nat)) (L : Layout n χ) (rest : Mesh n χ) : Prop
    extends Mounts mount labels where
  proper : L.Proper
  header : ∀ c : Fin n, L.role c = .header → c ∈ L.headers
  displays : rest.Displays L (L.picture [])

namespace Mesh.Displays

variable {γ ι χ : Type} [Grid γ ι χ] {n : Nat} [BEq χ] [EquivBEq χ] {m : Mesh n χ}
  {L : Layout n χ} {labels : List (ι × Nat)} {columns : List (Fin n × Option χ)}
  {settled : List (Nat × Option χ)} {p : Fin n} {mount : Mesh n χ → γ} {rest : Mesh n χ}

omit [EquivBEq χ] in
theorem others_eq (h : m.Displays L (L.picture columns)) (hL : L.Proper) (hp : p ∈ L.cells) :
    m.others p = L.around p :=
  (h.leads_around hL hp).1.others_eq

omit [EquivBEq χ] in
/-- What hangs in a column is a cell. -/
theorem mem_cells_of_hangs (h : m.Displays L (L.picture columns))
    (hheader : L.columnOf p ∈ L.headers) (hhangs : m.hangs p) : p ∈ L.cells := by
  have hcells := (h.column _ hheader).members_eq
  rw [← h.column_eq] at hcells
  rw [Mesh.hangs, Mesh.cells, hcells, List.contains_iff_mem] at hhangs
  exact (Layout.mem_column.mp (List.mem_filter.mp hhangs).1).1

omit [EquivBEq χ] in
/-- Where a row may be committed, its other cells in settled columns are purified. -/
theorem isPurified_of_settled (h : m.Displays L (L.picture columns)) (hL : L.Proper)
    (hstands : Stands settled columns) (hp : p ∈ L.cells)
    (hothers : ∀ q ∈ m.others p, m.paint q = .purified ∨
      (m.column q).val ∉ settled.map (·.1)) {q : Fin n} (hq : q ∈ L.around p)
    (hsettled : L.columnOf q ∈ columns.map (·.1)) : (m.paint q).isPurified := by
  rw [h.others_eq hL hp] at hothers
  rcases hothers q hq with hpurified | hopen
  · rw [hpurified]
    rfl
  · rw [h.column_eq, hstands.mem_map_fst_iff] at hopen
    exact absurd hsettled hopen

omit [EquivBEq χ] in
/-- Committing a row settles the columns of the other cells that are not settled yet, since these
are the cells that are not purified. -/
theorem stands_claims (h : m.Displays L (L.picture columns)) (hL : L.Proper)
    (hstands : Stands settled columns) (hp : p ∈ L.cells)
    (hothers : ∀ q ∈ m.others p, m.paint q = .purified ∨
      (m.column q).val ∉ settled.map (·.1)) :
    Stands ((⟨n, m, labels⟩ : Board ι χ).settles (.commitRow p.val))
      (L.claims columns (L.around p)) := by
  have hposition : (⟨n, m, labels⟩ : Board ι χ).position? p.val = some p := by
    simp [Board.position?]
  simp only [Board.settles, hposition, h.others_eq hL hp]
  have hplain : ∀ q ∈ L.around p, L.columnOf q ∉ columns.map (·.1) →
      (L.paint q).Alike (m.paint q) := by
    intro q hq hopen
    have halike := h.paint q (hL.mem_cells_of_mem_around hp hq)
    rwa [Layout.paint_picture hopen] at halike
  have hsame : ((L.around p).filter fun q => !(m.paint q).isPurified) =
      (L.around p).filter fun q => !(columns.map (·.1)).contains (L.columnOf q) := by
    apply List.filter_congr
    intro q hq
    by_cases hopen : L.columnOf q ∈ columns.map (·.1)
    · rw [h.isPurified_of_settled hL hstands hp hothers hq hopen]
      simp [hopen]
    · rw [(hplain q hq hopen).isPurified_eq,
        hL.isPurified_paint q (hL.mem_cells_of_mem_around hp hq)]
      simp [hopen]
  rw [hsame, Layout.claims, Stands, List.forall₂_map_left_iff, List.forall₂_map_right_iff,
    List.forall₂_same]
  intro q hq
  obtain ⟨hq, hopen⟩ := List.mem_filter.mp hq
  exact ⟨congrArg Fin.val (h.column_eq q), (hplain q hq (by simpa using hopen)).tint?_rel⟩

/-- A permitted move on a grid leads from one picture to another, and undoing it leads back. -/
theorem exists_forth (hrests : Grid.Rests mount labels L rest)
    (h : m.Displays L (L.picture columns)) (hcolumns : ∀ x ∈ columns, x.1 ∈ L.headers)
    (hstands : Stands settled columns) {move : Move}
    (hpermits : (⟨n, m, labels⟩ : Board ι χ).Permits settled move) :
    ∃ forth back m' new, (∀ m, Grid.forth (mount m) move = (forth m).map mount) ∧
      (∀ m, Grid.back (mount m) move = (back m).map mount) ∧ RoundTrip forth back m m' ∧
      m'.Displays L (L.picture (columns ++ new)) ∧ (∀ x ∈ new, x.1 ∈ L.headers) ∧
      Stands ((⟨n, m, labels⟩ : Board ι χ).settles move) new := by
  have hL := hrests.proper
  cases move with
  | cover c =>
    obtain ⟨c, rfl, hrole, hopen⟩ := hpermits
    have hc : c ∈ L.headers := hrests.header c (by rw [← h.role_eq]; exact hrole)
    rw [hstands.mem_map_fst_iff] at hopen
    obtain ⟨m', htrip, hm'⟩ := h.exists_settle hL hc hopen .none
    refine ⟨Mesh.cover c, Mesh.uncover c, m', [(c, none)], fun m => hrests.step_eq Mesh.cover m c,
      fun m => hrests.step_eq Mesh.uncover m c, htrip, hm', ?_, .cons ⟨rfl, .none⟩ .nil⟩
    intro x hx
    rw [List.mem_singleton.mp hx]
    exact hc
  | commitRow r =>
    obtain ⟨p, rfl, hhangs, hcovered, hothers⟩ := hpermits
    simp only [h.column_eq p] at hcovered
    rw [hstands.covered_iff] at hcovered
    have hp : p ∈ L.cells := h.mem_cells_of_hangs (hcolumns _ hcovered) hhangs
    have hmarked : ∀ q ∈ L.around p, L.columnOf q ∈ columns.map (·.1) →
        ((L.picture columns).paint q).isPurified := by
      intro q hq hsettled
      rw [← h.isPurified_eq (hL.mem_cells_of_mem_around hp hq)]
      exact h.isPurified_of_settled hL hstands hp hothers hq hsettled
    obtain ⟨m', htrip, hm'⟩ := exists_commitRow_of_covered hL hp h hcovered hmarked
    refine ⟨Mesh.commitRow p, Mesh.uncommitRow p, m', _, fun m => hrests.step_eq Mesh.commitRow m p,
      fun m => hrests.step_eq Mesh.uncommitRow m p, htrip, hm', ?_,
      h.stands_claims hL hstands hp hothers⟩
    intro x hx
    obtain ⟨q, hq, rfl⟩ := List.mem_map.mp hx
    exact hL.columnOf_mem q (hL.mem_cells_of_mem_around hp (List.mem_of_mem_filter hq))

end Mesh.Displays

/-! ## Going forth and back -/

section Traces

variable {γ ι χ : Type} [Grid γ ι χ] {n : Nat} [BEq χ] {mount : Mesh n χ → γ}
  {labels : List (ι × Nat)} {L : Layout n χ} {rest m : Mesh n χ} {made : List (Move × γ)}
  {columns : List (Fin n × Option χ)}

/-- A mesh that some moves lead to from a mesh at rest, with the columns that they settle. Every
move makes a round trip with its undoing. -/
inductive Traces (mount : Mesh n χ → γ) (L : Layout n χ) (rest : Mesh n χ) :
    List (Move × γ) → List (Fin n × Option χ) → Mesh n χ → Prop where
  | start {m : Mesh n χ} (halike : rest.Alike m) : Traces mount L rest [] [] m
  | forth {made : List (Move × γ)} {columns new : List (Fin n × Option χ)} {m m' m₁ : Mesh n χ}
      {move : Move} {forth back : Mesh n χ → Except Fault (Mesh n χ)}
      (h : Traces mount L rest made columns m) (htrip : Mesh.RoundTrip forth back m m')
      (hback : ∀ m, Grid.back (mount m) move = (back m).map mount)
      (hdisplays : m'.Displays L (L.picture (columns ++ new)))
      (hheaders : ∀ x ∈ new, x.1 ∈ L.headers)
      (hstands : Stands ((Grid.board (mount m)).settles move) new) (halike : m'.Alike m₁) :
      Traces mount L rest ((move, mount m) :: made) (columns ++ new) m₁

namespace Traces

theorem of_alike [EquivBEq χ] {m' : Mesh n χ} (h : Traces mount L rest made columns m)
    (halike : m.Alike m') : Traces mount L rest made columns m' := by
  cases h with
  | start hrest => exact .start (hrest.trans halike)
  | forth h htrip hback hdisplays hheaders hstands hm =>
    exact .forth h htrip hback hdisplays hheaders hstands (hm.trans halike)

/-- The mesh shows what its layout looks like once the columns were settled. -/
theorem displays [EquivBEq χ] (hrest : rest.Displays L (L.picture []))
    (h : Traces mount L rest made columns m) : m.Displays L (L.picture columns) := by
  cases h with
  | start halike => exact hrest.of_alike halike
  | forth _ _ _ hdisplays _ _ halike => exact hdisplays.of_alike halike

theorem headers (h : Traces mount L rest made columns m) : ∀ x ∈ columns, x.1 ∈ L.headers := by
  induction h with
  | start => simp
  | forth _ _ _ _ hheaders _ _ ih =>
    intro x hx
    exact (List.mem_append.mp hx).elim (ih x) (hheaders x)

theorem stands (h : Traces mount L rest made columns m) :
    Stands (Grid.settled made) columns := by
  induction h with
  | start => exact .nil
  | forth _ _ _ _ _ hstands _ ih => exact List.rel_append ih hstands

/-- Where a permitted move leads. -/
theorem exists_forth [EquivBEq χ] (hrests : Grid.Rests mount labels L rest)
    (h : Traces mount L rest made columns m) {move : Move}
    (hpermits : (Grid.board (mount m)).Permits (Grid.settled made) move) :
    ∃ m' columns', Grid.forth (mount m) move = .ok (mount m') ∧
      Traces mount L rest ((move, mount m) :: made) columns' m' := by
  rw [hrests.board_eq] at hpermits
  obtain ⟨forth, back, m', new, hforth, hback, htrip, hdisplays, hheaders, hstands⟩ :=
    (h.displays hrests.displays).exists_forth hrests h.headers h.stands hpermits
  rw [← hrests.board_eq] at hstands
  refine ⟨m', _, ?_, .forth h htrip hback hdisplays hheaders hstands (.refl m')⟩
  rw [hforth, htrip.forth_eq]
  rfl

/-- Undoing the latest move leads back to the mesh that it was made on. -/
theorem exists_back [EquivBEq χ] {move : Move} {before : γ}
    (h : Traces mount L rest ((move, before) :: made) columns m) :
    ∃ m₀ m' columns', before = mount m₀ ∧ m₀.Alike m' ∧
      Grid.back (mount m) move = .ok (mount m') ∧ Traces mount L rest made columns' m' := by
  cases h with
  | @forth _ columns _ m₀ _ _ _ _ _ h htrip hback _ _ _ halike =>
    obtain ⟨m', hm', halike'⟩ := htrip.exists_back m halike
    refine ⟨m₀, m', columns, rfl, halike', ?_, h.of_alike halike'⟩
    rw [hback, hm']
    rfl

end Traces

/-- Every grid that comes up has a mesh that its moves lead to. -/
theorem Grid.Nested.exists_traces [EquivBEq χ] (hrests : Rests mount labels L rest) {grid : γ}
    (h : Nested (mount rest) grid made) :
    ∃ m columns, grid = mount m ∧ Traces mount L rest made columns m := by
  induction h with
  | start => exact ⟨rest, [], rfl, .start (.refl rest)⟩
  | forth _ hpermits hforth ih =>
    obtain ⟨m, columns, rfl, htraces⟩ := ih
    obtain ⟨m', columns', hforth', htraces'⟩ := htraces.exists_forth hrests hpermits
    rw [hforth', Except.ok.injEq] at hforth
    exact ⟨m', columns', hforth.symm, htraces'⟩
  | back _ hback ih =>
    obtain ⟨m, columns, rfl, htraces⟩ := ih
    obtain ⟨-, m', columns', -, -, hback', htraces'⟩ := htraces.exists_back
    rw [hback', Except.ok.injEq] at hback
    exact ⟨m', columns', hback.symm, htraces'⟩

/-- From a grid, permitted moves can be made one after another, and undoing the latest one leads
back to the very grid that it was made on. -/
structure Grid.Reversible (start : γ) : Prop where
  exists_forth : ∀ {grid : γ} {made : List (Move × γ)} {move : Move}, Nested start grid made →
    (board grid).Permits (settled made) move → ∃ grid', forth grid move = .ok grid'
  back_eq : ∀ {grid before : γ} {made : List (Move × γ)} {move : Move},
    Nested start grid ((move, before) :: made) → back grid move = .ok before

/-- If equal colors are identical, moves are undone exactly. -/
theorem Grid.Rests.reversible [LawfulBEq χ] (hrests : Rests mount labels L rest) :
    Reversible (mount rest) where
  exists_forth h hpermits := by
    obtain ⟨m, columns, rfl, htraces⟩ := h.exists_traces hrests
    obtain ⟨m', -, hforth, -⟩ := htraces.exists_forth hrests hpermits
    exact ⟨mount m', hforth⟩
  back_eq h := by
    obtain ⟨m, columns, rfl, htraces⟩ := h.exists_traces hrests
    obtain ⟨m₀, m', -, rfl, halike, hback, -⟩ := htraces.exists_back
    rw [hback, halike.eq]

end Traces

namespace Grid

variable {γ ι χ : Type} [BEq ι] [BEq χ] [Item ι χ] [Grid γ ι χ] [LawfulGrid γ]
  {rows : List (Nat × List ι)}

/-- The number of the option that the row at a place is given for. -/
def numbering (rows : List (Nat × List ι)) (k : Nat) : Nat := ((rows.map (·.1))[k]?).getD 0

/-- Rows whose items do not repeat are all added. -/
theorem exists_ofRows (hrows : ∀ row ∈ rows, Unrepeated row.2) :
    ∃ grid : γ, ofRows rows = .ok (close grid) ∧
      LawfulGrid.Carries grid (rows.map (·.2)) (numbering rows) := by
  have hadd : ∀ (rest done : List (Nat × List ι)) (grid : γ), rows = done ++ rest →
      LawfulGrid.Carries grid (done.map (·.2)) (numbering rows) → isSealed grid = false →
        ∃ grid' : γ, rest.foldlM (fun grid row => addRow grid row.1 row.2) grid = .ok grid' ∧
          LawfulGrid.Carries grid' (rows.map (·.2)) (numbering rows) := by
    intro rest
    induction rest with
    | nil =>
      intro done grid hsplit hcarries _
      rw [List.append_nil] at hsplit
      exact ⟨grid, rfl, hsplit ▸ hcarries⟩
    | cons row rest ih =>
      intro done grid hsplit hcarries hopen
      have hnumber : numbering rows (done.map (·.2)).length = row.1 := by
        simp [numbering, hsplit]
      obtain ⟨grid', hgrid', hcarries', hopen'⟩ :=
        LawfulGrid.exists_addRow hcarries (hrows row (by simp [hsplit])) hopen
      rw [hnumber] at hgrid'
      obtain ⟨last, hlast, hcarries⟩ :=
        ih (done ++ [row]) grid' (by simp [hsplit]) (by simpa using hcarries') hopen'
      refine ⟨last, ?_, hcarries⟩
      rw [List.foldlM_cons, hgrid']
      exact hlast
  obtain ⟨grid, hgrid, hcarries⟩ :=
    hadd rows [] empty rfl LawfulGrid.carries_empty LawfulGrid.isSealed_empty
  refine ⟨grid, ?_, hcarries⟩
  rw [ofRows, hgrid]
  rfl

/-- The mesh of a closed grid is at rest. -/
theorem exists_rests [EquivBEq χ] {grid : γ} {rows : List (List ι)} {numbering : Nat → Nat}
    (h : LawfulGrid.Carries grid rows numbering) :
    ∃ L, (board (close grid)).mesh.Charts (board (close grid)).columns L rows numbering ∧
      Rests (withMesh (close grid)) (board (close grid)).columns L (board (close grid)).mesh := by
  obtain ⟨L, hcharts, hclosed⟩ := (LawfulGrid.presents_close h).holds
  refine ⟨L, hcharts, ⟨⟨LawfulGrid.board_withMesh grid, ?_⟩, hcharts.proper, hcharts.header,
    hcharts.atRest.displays hclosed⟩⟩
  exact fun move => LawfulGrid.step_withMesh move grid

end Grid

section Kinds

variable {ι χ : Type} [BEq ι] [EquivBEq ι] [BEq χ] [LawfulBEq χ] [Item ι χ]
  {rows : List (Nat × List ι)}

/-- Where equal colors are identical, undoing moves latest first restores a lawful grid exactly. -/
theorem Grid.exists_reversible {γ : Type} [Grid γ ι χ] [LawfulGrid γ]
    (hrows : ∀ row ∈ rows, firstRepeat? row.2 = none) :
    ∃ start : γ, ofRows rows = .ok start ∧ Reversible start := by
  obtain ⟨grid, hgrid, hcarries⟩ := exists_ofRows (γ := γ) fun row hrow =>
    firstRepeat?_eq_none_iff.mp (hrows row hrow)
  obtain ⟨L, -, hrests⟩ := exists_rests hcarries
  have hreversible := hrests.reversible
  rw [LawfulGrid.withMesh_mesh] at hreversible
  exact ⟨close grid, hgrid, hreversible⟩

/-- Two moves can be made one after the other if they are permitted. -/
theorem Grid.exists_nested_pair {γ : Type} [Grid γ ι χ] [LawfulGrid γ] {start : γ}
    (hrows : ∀ row ∈ rows, firstRepeat? row.2 = none) (hstart : ofRows rows = .ok start)
    (first second : Move) (hpermits : ∀ start ∈ (ofRows rows : Except StateError γ).toOption,
      (board start).Permits [] first ∧ ∀ before ∈ (forth start first).toOption,
        (board before).Permits (settled [(first, start)]) second) :
    ∃ before grid, Nested start before [(first, start)] ∧
      Nested start grid [(second, before), (first, start)] := by
  obtain ⟨start', hstart', hreversible⟩ := exists_reversible (γ := γ) hrows
  obtain rfl := Except.ok.inj (hstart.symm.trans hstart')
  obtain ⟨hfirst, hsecond⟩ := hpermits start (by rw [hstart]; rfl)
  obtain ⟨before, hbefore⟩ := hreversible.exists_forth .start hfirst
  have hnested : Nested start before [(first, start)] := .forth .start hfirst hbefore
  have hpermitted := hsecond before (by rw [hbefore]; rfl)
  obtain ⟨grid, hgrid⟩ := hreversible.exists_forth hnested hpermitted
  exact ⟨before, grid, hnested, hnested.forth hpermitted hgrid⟩

/-- Both kinds of grids can be made from rows whose items do not repeat. On them every permitted
move can be made, and undoing moves latest first restores every link, count, paint and tint. -/
theorem Grid.reversible_ofRows (hrows : ∀ row ∈ rows, firstRepeat? row.2 = none) :
    (∃ start : Woven ι χ, ofRows rows = .ok start ∧ Reversible start) ∧
      ∃ start : Packed ι χ, ofRows rows = .ok start ∧ Reversible start :=
  ⟨exists_reversible hrows, exists_reversible hrows⟩

/-- Choosing a row restricts a column to a color, which is undone. -/
theorem Grid.reversible_ofRows_of_colored :
    let rows : List (Nat × List (Constraint Nat Nat)) :=
      [(0, [.primary 0, .secondary 1 (some 7)]), (1, [.primary 2, .secondary 1 (some 7)]),
        (2, [.primary 2, .secondary 1 (some 8)])]
    (∃ start before grid : Woven (Constraint Nat Nat) Nat, ofRows rows = .ok start ∧
      Nested start grid [(.commitRow 4, before), (.cover 2, start)] ∧
        back grid (.commitRow 4) = .ok before ∧ back before (.cover 2) = .ok start) ∧
      ∃ start before grid : Packed (Constraint Nat Nat) Nat, ofRows rows = .ok start ∧
        Nested start grid [(.commitRow 6, before), (.cover 2, start)] ∧
          back grid (.commitRow 6) = .ok before ∧ back before (.cover 2) = .ok start := by
  intro rows
  have hrows : ∀ row ∈ rows, firstRepeat? row.2 = none := by decide
  obtain ⟨⟨start, hstart, hreversible⟩, start', hstart', hreversible'⟩ :=
    reversible_ofRows hrows
  constructor
  · obtain ⟨before, grid, hfirst, hsecond⟩ := exists_nested_pair hrows hstart
      (.cover 2) (.commitRow 4) (by decide +kernel)
    exact ⟨start, before, grid, hstart, hsecond, hreversible.back_eq hsecond,
      hreversible.back_eq hfirst⟩
  · obtain ⟨before, grid, hfirst, hsecond⟩ := exists_nested_pair hrows hstart'
      (.cover 2) (.commitRow 6) (by decide +kernel)
    exact ⟨start', before, grid, hstart', hsecond, hreversible'.back_eq hsecond,
      hreversible'.back_eq hfirst⟩

end Kinds

end ExactCover
