import ExactCover.Proofs.Settled

/-!
# Meshes at rest and how they grow

While nothing is settled, every column shows all of its cells and all columns are in their rings.
A mesh comes to be by adding positions one after another, and none of the additions disturbs what
is there already: a header goes to the end of its ring, a cell to the bottom of its column, and
a spacer is linked to nothing. So a layout grows in step with the mesh, and the mesh stays at rest.

Whether the walks around a row close is a matter of its own, since the row that is being added has
no end yet. It is dealt with for each way of holding rows together: in the linked style when the
circle is closed, in the spaced style when the spacer behind the row is set.
-/

set_option autoImplicit false

namespace ExactCover

variable {n : Nat} {χ : Type}

namespace Layout

/-- Adds a position that is neither listed as a header nor as a cell. -/
def push (L : Layout n χ) (role : Role) (owner : Fin (n + 1)) (paint : Paint χ) :
    Layout (n + 1) χ where
  style := L.style
  primaryHead := L.primaryHead.castSucc
  secondaryHead := L.secondaryHead.castSucc
  roles := L.roles.push role
  owner := L.owner.push owner
  paint := Fin.lastCases paint L.paint
  rows := L.rows.map (List.map Fin.castSucc)
  primary := L.primary.map Fin.castSucc
  secondary := L.secondary.map Fin.castSucc

/-- Adds the header of a column. -/
def pushHeader (L : Layout n χ) (isPrimary : Bool) : Layout (n + 1) χ :=
  let grown := L.push .header (Fin.last n) .uncolored
  if isPrimary then { grown with primary := grown.primary ++ [Fin.last n] }
  else { grown with secondary := grown.secondary ++ [Fin.last n] }

/-- Adds a cell at the end of the last row. -/
def pushCell (L : Layout n χ) (c : Fin n) (option : Nat) (paint : Paint χ) : Layout (n + 1) χ :=
  let grown := L.push (.cell option) c.castSucc paint
  { grown with rows := grown.rows.dropLast ++ [grown.rows.getLastD [] ++ [Fin.last n]] }

/-- Begins a row. -/
def startRow (L : Layout n χ) : Layout n χ := { L with rows := L.rows ++ [[]] }

variable (L : Layout n χ) (role : Role) (owner : Fin (n + 1)) (paint : Paint χ)

@[simp]
theorem cells_startRow : L.startRow.cells = L.cells := by
  simp [cells, startRow]

theorem cells_push : (L.push role owner paint).cells = L.cells.map Fin.castSucc := by
  simp [cells, push, List.map_flatten]

theorem headers_push : (L.push role owner paint).headers = L.headers.map Fin.castSucc := by
  simp [headers, push]

@[simp]
theorem columnOf_push_castSucc (p : Fin n) :
    (L.push role owner paint).columnOf p.castSucc = (L.columnOf p).castSucc :=
  Arrows.target_push_castSucc ..

@[simp]
theorem columnOf_push_last : (L.push role owner paint).columnOf (Fin.last n) = owner :=
  Arrows.target_push_last ..

@[simp]
theorem paint_push_castSucc (p : Fin n) :
    (L.push role owner paint).paint p.castSucc = L.paint p := by
  simp [push]

@[simp]
theorem paint_push_last : (L.push role owner paint).paint (Fin.last n) = paint := by
  simp [push]

@[simp]
theorem role_push_castSucc (p : Fin n) :
    (L.push role owner paint).role p.castSucc = L.role p := by
  simp [push, Frame.role, Vector.getElem_push_lt]

@[simp]
theorem role_push_last : (L.push role owner paint).role (Fin.last n) = role := by
  simp [push, Frame.role]

theorem column_push (c : Fin n) :
    (L.push role owner paint).column c.castSucc = (L.column c).map Fin.castSucc := by
  simp [column, cells_push, List.filter_map, Function.comp_def]

variable {L}

/-- Old positions keep their order when one is added. -/
theorem sorted_map_castSucc {ps : List (Fin n)} (h : ps.Pairwise (· < ·)) :
    (ps.map Fin.castSucc).Pairwise (· < ·) := by
  rw [List.pairwise_map]
  exact h

/-- A new position comes after the old ones. -/
theorem sorted_concat_last {ps : List (Fin n)} (h : ps.Pairwise (· < ·)) :
    (ps.map Fin.castSucc ++ [Fin.last n]).Pairwise (· < ·) := by
  rw [List.pairwise_append]
  refine ⟨sorted_map_castSucc h, List.pairwise_singleton _ _, fun p hp q hq => ?_⟩
  obtain ⟨p, -, rfl⟩ := List.mem_map.mp hp
  rw [List.mem_singleton.mp hq]
  exact Fin.castSucc_lt_last p

theorem Sound.startRow (hL : L.Sound) : L.startRow.Sound := by
  have hcells := L.cells_startRow
  refine { hL with
    role_cell := ?_
    cells_sorted := ?_
    columnOf_mem := ?_
    isPurified_paint := ?_ }
  · rw [hcells]
    exact hL.role_cell
  · rw [hcells]
    exact hL.cells_sorted
  · rw [hcells]
    exact hL.columnOf_mem
  · rw [hcells]
    exact hL.isPurified_paint

theorem Sound.push (hL : L.Sound) : (L.push role owner paint).Sound where
  heads_ne := by
    intro h
    exact hL.heads_ne (Fin.castSucc_injective n h)
  role_primaryHead := (role_push_castSucc ..).trans hL.role_primaryHead
  role_secondaryHead := (role_push_castSucc ..).trans hL.role_secondaryHead
  role_header := by
    intro c hc
    rw [headers_push] at hc
    obtain ⟨d, hd, rfl⟩ := List.mem_map.mp hc
    exact (role_push_castSucc ..).trans (hL.role_header d hd)
  role_cell := by
    intro p hp
    rw [cells_push] at hp
    obtain ⟨q, hq, rfl⟩ := List.mem_map.mp hp
    rw [role_push_castSucc]
    exact hL.role_cell q hq
  headers_nodup := by
    rw [headers_push]
    exact hL.headers_nodup.map (Fin.castSucc_injective n)
  primary_sorted := sorted_map_castSucc hL.primary_sorted
  secondary_sorted := sorted_map_castSucc hL.secondary_sorted
  cells_sorted := by
    rw [cells_push]
    exact sorted_map_castSucc hL.cells_sorted
  columnOf_mem := by
    intro p hp
    rw [cells_push] at hp
    obtain ⟨q, hq, rfl⟩ := List.mem_map.mp hp
    rw [headers_push, columnOf_push_castSucc]
    exact List.mem_map_of_mem (hL.columnOf_mem q hq)
  isPurified_paint := by
    intro p hp
    rw [cells_push] at hp
    obtain ⟨q, hq, rfl⟩ := List.mem_map.mp hp
    rw [paint_push_castSucc]
    exact hL.isPurified_paint q hq

theorem last_not_mem_map (ps : List (Fin n)) : Fin.last n ∉ ps.map Fin.castSucc := by
  intro h
  obtain ⟨p, -, hp⟩ := List.mem_map.mp h
  exact Fin.castSucc_ne_last p hp

theorem mem_headers_pushHeader {isPrimary : Bool} {c : Fin (n + 1)} :
    c ∈ (L.pushHeader isPrimary).headers ↔ c ∈ L.headers.map Fin.castSucc ∨ c = Fin.last n := by
  cases isPrimary <;> simp only [pushHeader, headers, push] <;> grind

theorem rows_pushHeader (isPrimary : Bool) :
    (L.pushHeader isPrimary).rows = L.rows.map (List.map Fin.castSucc) := by
  cases isPrimary <;> rfl

theorem cells_pushHeader (isPrimary : Bool) :
    (L.pushHeader isPrimary).cells = L.cells.map Fin.castSucc := by
  rw [cells, rows_pushHeader, cells, List.map_flatten]

@[simp]
theorem role_pushHeader_last (isPrimary : Bool) :
    (L.pushHeader isPrimary).role (Fin.last n) = .header := by
  cases isPrimary <;> exact role_push_last L .header (Fin.last n) .uncolored

@[simp]
theorem columnOf_pushHeader (isPrimary : Bool) (p : Fin n) :
    (L.pushHeader isPrimary).columnOf p.castSucc = (L.columnOf p).castSucc := by
  cases isPrimary <;> exact columnOf_push_castSucc L .header (Fin.last n) .uncolored p

@[simp]
theorem paint_pushHeader (isPrimary : Bool) (p : Fin n) :
    (L.pushHeader isPrimary).paint p.castSucc = L.paint p := by
  cases isPrimary <;> exact paint_push_castSucc L .header (Fin.last n) .uncolored p

@[simp]
theorem role_pushHeader (isPrimary : Bool) (p : Fin n) :
    (L.pushHeader isPrimary).role p.castSucc = L.role p := by
  cases isPrimary <;> exact role_push_castSucc L .header (Fin.last n) .uncolored p

theorem Sound.pushHeader (hL : L.Sound) (isPrimary : Bool) : (L.pushHeader isPrimary).Sound := by
  have hgrown := hL.push .header (Fin.last n) .uncolored
  have hrole : ∀ c ∈ (L.pushHeader isPrimary).headers,
      (L.push .header (Fin.last n) .uncolored).role c = .header := by
    intro c hc
    rcases mem_headers_pushHeader.mp hc with hc | rfl
    · exact hgrown.role_header c (by rwa [headers_push])
    · exact role_push_last ..
  have hnodup : (L.pushHeader isPrimary).headers.Nodup := by
    have hlast := last_not_mem_map L.headers
    have hold := hL.headers_nodup.map (Fin.castSucc_injective n)
    cases isPrimary <;> simp only [Layout.pushHeader, headers, Layout.push] at hlast hold ⊢ <;>
      grind
  have hmem : ∀ p ∈ (L.push .header (Fin.last n) .uncolored).cells,
      (L.push .header (Fin.last n) .uncolored).columnOf p ∈ (L.pushHeader isPrimary).headers := by
    intro p hp
    have hold := hgrown.columnOf_mem p hp
    rw [headers_push] at hold
    exact mem_headers_pushHeader.mpr (.inl hold)
  cases isPrimary with
  | true =>
    exact { hgrown with
      role_header := hrole
      headers_nodup := hnodup
      primary_sorted := sorted_concat_last hL.primary_sorted
      columnOf_mem := hmem }
  | false =>
    exact { hgrown with
      role_header := hrole
      headers_nodup := hnodup
      secondary_sorted := sorted_concat_last hL.secondary_sorted
      columnOf_mem := hmem }

section Cell

variable {done : List (List (Fin n))} {pending : List (Fin n)} {c : Fin n} {option : Nat}
  {paint : Paint χ}

/-- The cells of the last row are in no other row. -/
theorem Sound.not_mem_pending (hL : L.Sound) (hrows : L.rows = done ++ [pending])
    {row : List (Fin n)} (hrow : row ∈ done) {p : Fin n} (hp : p ∈ row) : p ∉ pending := by
  have hnodup := hL.cells_nodup
  rw [cells, hrows, List.flatten_append, List.flatten_singleton] at hnodup
  intro hpending
  exact (List.nodup_append.mp hnodup).2.2 p (List.mem_flatten.mpr ⟨row, hrow, hp⟩) p hpending rfl

theorem rows_pushCell (hrows : L.rows = done ++ [pending]) :
    (L.pushCell c option paint).rows =
      done.map (List.map Fin.castSucc) ++ [pending.map Fin.castSucc ++ [Fin.last n]] := by
  simp [pushCell, push, hrows]

@[simp]
theorem columnOf_pushCell_castSucc (p : Fin n) :
    (L.pushCell c option paint).columnOf p.castSucc = (L.columnOf p).castSucc :=
  columnOf_push_castSucc L (.cell option) c.castSucc paint p

@[simp]
theorem columnOf_pushCell_last :
    (L.pushCell c option paint).columnOf (Fin.last n) = c.castSucc :=
  columnOf_push_last L (.cell option) c.castSucc paint

@[simp]
theorem paint_pushCell_castSucc (p : Fin n) :
    (L.pushCell c option paint).paint p.castSucc = L.paint p :=
  paint_push_castSucc L (.cell option) c.castSucc paint p

@[simp]
theorem paint_pushCell_last : (L.pushCell c option paint).paint (Fin.last n) = paint :=
  paint_push_last L (.cell option) c.castSucc paint

@[simp]
theorem role_pushCell_castSucc (p : Fin n) :
    (L.pushCell c option paint).role p.castSucc = L.role p :=
  role_push_castSucc L (.cell option) c.castSucc paint p

@[simp]
theorem role_pushCell_last :
    (L.pushCell c option paint).role (Fin.last n) = .cell option :=
  role_push_last L (.cell option) c.castSucc paint

theorem cells_pushCell (hrows : L.rows = done ++ [pending]) :
    (L.pushCell c option paint).cells = L.cells.map Fin.castSucc ++ [Fin.last n] := by
  simp [cells, rows_pushCell hrows, hrows, List.map_flatten]

theorem column_pushCell (hrows : L.rows = done ++ [pending]) (d : Fin n) :
    (L.pushCell c option paint).column d.castSucc =
      (L.column d).map Fin.castSucc ++ if d = c then [Fin.last n] else [] := by
  have hlast : (L.pushCell c option paint).columnOf (Fin.last n) = c.castSucc :=
    columnOf_pushCell_last
  rw [← column_push L (.cell option) c.castSucc paint, column, column, cells_pushCell hrows,
    cells_push, List.filter_append]
  apply congrArg _
  by_cases hd : d = c
  · rw [if_pos hd, List.filter_cons_of_pos (by simp [hlast, hd])]
    rfl
  · have hne : c.castSucc ≠ d.castSucc := fun h => hd (Fin.castSucc_injective n h).symm
    rw [if_neg hd, List.filter_cons_of_neg (by simpa [hlast] using hne)]
    rfl

theorem Sound.pushCell (hL : L.Sound) (hrows : L.rows = done ++ [pending]) (hc : c ∈ L.headers)
    (hpaint : paint.isPurified = false) :
    (L.pushCell c option paint).Sound := by
  have hgrown := hL.push (.cell option) c.castSucc paint
  have hcells : ∀ p, p ∈ (L.pushCell c option paint).cells ↔
      p ∈ (L.push (.cell option) c.castSucc paint).cells ∨ p = Fin.last n := by
    intro p
    rw [cells_pushCell hrows, cells_push, List.mem_append, List.mem_singleton]
  have hheaders : (L.pushCell c option paint).headers = L.headers.map Fin.castSucc :=
    headers_push L (.cell option) c.castSucc paint
  refine { hgrown with
    role_cell := ?_
    cells_sorted := ?_
    columnOf_mem := ?_
    isPurified_paint := ?_ }
  · intro p hp
    rcases (hcells p).mp hp with hp | rfl
    · exact hgrown.role_cell p hp
    · exact congrArg Role.isCell (role_push_last L (.cell option) c.castSucc paint)
  · rw [cells_pushCell hrows]
    exact sorted_concat_last hL.cells_sorted
  · intro p hp
    rcases (hcells p).mp hp with hp | rfl
    · exact hgrown.columnOf_mem p hp
    · rw [hheaders]
      exact (columnOf_push_last L (.cell option) c.castSucc paint).symm ▸ List.mem_map_of_mem hc
  · intro p hp
    rcases (hcells p).mp hp with hp | rfl
    · exact hgrown.isPurified_paint p hp
    · exact (congrArg Paint.isPurified (paint_push_last L (.cell option) c.castSucc paint)).trans
        hpaint

end Cell

end Layout

/-! ## Meshes grow -/

namespace Mesh

/-- Nothing is settled: the columns show all of their cells and are in their rings. -/
structure AtRest [BEq χ] (m : Mesh n χ) (L : Layout n χ) : Prop where
  frame : m.toFrame = L.toFrame
  column : ∀ c ∈ L.headers, m.down.IsRing c (L.column c)
  count : ∀ c ∈ L.headers, m.count c = (L.column c).length
  paint : ∀ p ∈ L.cells, (L.paint p).Alike (m.paint p)
  tint : ∀ c ∈ L.headers, m.tint c = none
  primary : m.across.IsRing L.primaryHead L.primary
  secondary : m.across.IsRing L.secondaryHead L.secondary

section Push

variable (m : Mesh n χ) (role : Role) (owner : Fin (n + 1)) (paint : Paint χ) (p : Fin n)

@[simp]
theorem role_push_castSucc : (m.push role owner paint).role p.castSucc = m.role p := by
  simp [Frame.role, push, Vector.getElem_push_lt]

@[simp]
theorem count_push_castSucc : (m.push role owner paint).count p.castSucc = m.count p := by
  simp [count, push, Vector.getElem_push_lt]

@[simp]
theorem paint_push_castSucc : (m.push role owner paint).paint p.castSucc = m.paint p := by
  simp [Mesh.paint, push, Vector.getElem_push_lt]

@[simp]
theorem tint_push_castSucc : (m.push role owner paint).tint p.castSucc = m.tint p := by
  simp [tint, push, Vector.getElem_push_lt]

/-- A step to the right leads where it led when a position is added. -/
theorem right_push_castSucc {q : Fin n} (hpq : m.right p = .ok q) :
    (m.push role owner paint).right p.castSucc = .ok q.castSucc := by
  cases hstyle : m.style with
  | linked =>
    have hstyle' : (m.push role owner paint).style = .linked := hstyle
    simp only [right, hstyle] at hpq
    simp only [right, hstyle', ← Except.ok.inj hpq]
    exact congrArg Except.ok (Links.next_push_castSucc ..)
  | spaced =>
    have hstyle' : (m.push role owner paint).style = .spaced := hstyle
    simp only [right, hstyle] at hpq
    split at hpq
    · next hlt =>
      have hrole := m.role_push_castSucc role owner paint ⟨p.val + 1, hlt⟩
      have habove : (m.push role owner paint).above (⟨p.val + 1, hlt⟩ : Fin n).castSucc =
          (m.above ⟨p.val + 1, hlt⟩).castSucc := Links.prev_push_castSucc ..
      simp only [Fin.castSucc_mk] at hrole habove
      simp only [right, hstyle', Fin.val_castSucc, Nat.lt_succ_of_lt hlt, dite_true, hrole, habove]
      split at hpq
      · next hspacer => rw [if_pos hspacer, ← Except.ok.inj hpq]
      · next hspacer =>
        rw [if_neg hspacer, ← Except.ok.inj hpq]
        rfl
    · contradiction

/-- A step to the left leads where it led when a position is added. -/
theorem left_push_castSucc {q : Fin n} (hpq : m.left p = .ok q) :
    (m.push role owner paint).left p.castSucc = .ok q.castSucc := by
  cases hstyle : m.style with
  | linked =>
    have hstyle' : (m.push role owner paint).style = .linked := hstyle
    simp only [left, hstyle] at hpq
    simp only [left, hstyle', ← Except.ok.inj hpq]
    exact congrArg Except.ok (Links.prev_push_castSucc ..)
  | spaced =>
    have hstyle' : (m.push role owner paint).style = .spaced := hstyle
    simp only [left, hstyle] at hpq
    split at hpq
    · next hpos =>
      have hbound : p.val - 1 < n := Nat.lt_of_le_of_lt (Nat.sub_le _ _) p.isLt
      have hrole := m.role_push_castSucc role owner paint ⟨p.val - 1, hbound⟩
      have hbelow : (m.push role owner paint).below (⟨p.val - 1, hbound⟩ : Fin n).castSucc =
          (m.below ⟨p.val - 1, hbound⟩).castSucc := Links.next_push_castSucc ..
      simp only [Fin.castSucc_mk] at hrole hbelow
      simp only [left, hstyle', Fin.val_castSucc, hpos, if_true, hrole, hbelow]
      split at hpq
      · next hspacer => rw [if_pos hspacer, ← Except.ok.inj hpq]
      · next hspacer =>
        rw [if_neg hspacer, ← Except.ok.inj hpq]
        rfl
    · contradiction

/-- Walks around rows that close go on closing when a position is added. -/
theorem ClosesRow.push {m : Mesh n χ} {row : List (Fin n)} (hcloses : m.ClosesRow row) :
    (m.push role owner paint).ClosesRow (row.map Fin.castSucc) := by
  rw [ClosesRow, ← List.map_take, ← List.map_append]
  apply List.isChain_map_of_isChain Fin.castSucc _ hcloses
  intro p q hpq
  exact ⟨right_push_castSucc m role owner paint p hpq.1,
    left_push_castSucc m role owner paint q hpq.2⟩

end Push

/-- A circle closes a linked row. -/
theorem closesRow_circle {m : Mesh n χ} {L : Layout n χ}
    {done : List (List (Fin n))} {pending : List (Fin n)} (hL : L.Sound)
    (hstyle : m.style = .linked)
    (hrows : L.rows = done ++ [pending]) (hdone : ∀ row ∈ done, m.ClosesRow row) :
    ∀ row ∈ L.rows, ({ m with across := m.across.circle pending } : Mesh n χ).ClosesRow row := by
  have hpending : pending ∈ L.rows := by simp [hrows]
  have hnodup := hL.row_nodup hpending
  intro row hrow
  rw [hrows, List.mem_append, List.mem_singleton] at hrow
  rcases hrow with hrow | rfl
  · refine (hdone row hrow).congr_of_neighbors rfl (fun p hp => ?_) (fun _ _ _ _ _ => rfl)
      fun _ _ _ _ _ => rfl
    exact m.across.next_prev_circle_of_not_mem hnodup (hL.not_mem_pending hrows hrow hp)
  · cases row with
    | nil => exact .nil
    | cons p rest =>
      have hring := Links.isRing_circle m.across hnodup
      refine hring.chain.imp fun q r hqr => ⟨?_, ?_⟩
      · simp only [right, hstyle]
        exact congrArg Except.ok hqr.1
      · simp only [left, hstyle]
        exact congrArg Except.ok hqr.2

namespace AtRest

variable [BEq χ] {m : Mesh n χ} {L : Layout n χ}

theorem role_eq (h : m.AtRest L) (p : Fin n) : m.role p = L.role p := by
  simp only [Frame.role, h.frame]

theorem isCell (h : m.AtRest L) (hL : L.Sound) {p : Fin n} (hp : p ∈ L.cells) :
    (m.role p).isCell := by
  rw [h.role_eq]
  exact hL.role_cell p hp

/-- At rest a mesh shows that nothing is settled. -/
theorem shows (h : m.AtRest L) : m.Shows L (L.picture []) := by
  have hhangs : (L.picture []).hangs = fun _ => true := by
    funext p
    exact Layout.hangs_picture_nil p
  have hopen : (L.picture []).isOpen = fun _ => true := rfl
  refine ⟨h.frame, fun c hc => ?_, fun c hc => ?_, fun p hp => ?_, fun c hc => ?_, ?_, ?_⟩
  · rw [hhangs, List.filter_true]
    exact h.column c hc
  · rw [hhangs, List.filter_true]
    exact h.count c hc
  · rw [Layout.paint_picture (by simp)]
    exact h.paint p hp
  · rw [h.tint c hc]
    exact .none
  · rw [hopen, List.filter_true]
    exact h.primary
  · rw [hopen, List.filter_true]
    exact h.secondary

/-- A mesh at rest displays its layout if its rows can be walked around. -/
theorem displays (h : m.AtRest L) (hclosed : ∀ row ∈ L.rows, m.ClosesRow row) :
    m.Displays L (L.picture []) :=
  ⟨h.shows, hclosed⟩

theorem startRow (h : m.AtRest L) : m.AtRest L.startRow := by
  have hcolumn : ∀ c, L.startRow.column c = L.column c := by
    intro c
    rw [Layout.column, Layout.cells_startRow]
    rfl
  refine { h with column := ?_, count := ?_, paint := ?_ }
  · intro c hc
    rw [hcolumn]
    exact h.column c hc
  · intro c hc
    rw [hcolumn]
    exact h.count c hc
  · rw [Layout.cells_startRow]
    exact h.paint

/-- A new position that is not listed leaves the others at rest. -/
theorem push (h : m.AtRest L) (role : Role) (owner : Fin (n + 1)) (paint : Paint χ) :
    (m.push role owner paint).AtRest (L.push role owner paint) where
  frame := by
    have hframe := h.frame
    simp only [Frame.ext_iff] at hframe
    simp [Mesh.push, Layout.push, hframe]
  column := by
    intro c hc
    rw [Layout.headers_push] at hc
    obtain ⟨d, hd, rfl⟩ := List.mem_map.mp hc
    rw [Layout.column_push]
    exact (h.column d hd).push
  count := by
    intro c hc
    rw [Layout.headers_push] at hc
    obtain ⟨d, hd, rfl⟩ := List.mem_map.mp hc
    rw [Layout.column_push, count_push_castSucc, List.length_map]
    exact h.count d hd
  paint := by
    intro p hp
    rw [Layout.cells_push] at hp
    obtain ⟨q, hq, rfl⟩ := List.mem_map.mp hp
    rw [Layout.paint_push_castSucc, paint_push_castSucc]
    exact h.paint q hq
  tint := by
    intro c hc
    rw [Layout.headers_push] at hc
    obtain ⟨d, hd, rfl⟩ := List.mem_map.mp hc
    rw [tint_push_castSucc]
    exact h.tint d hd
  primary := h.primary.push
  secondary := h.secondary.push

/-- A new header stands at the end of its ring and has no cells. -/
theorem pushHeader (h : m.AtRest L) (hL : L.Sound) (isPrimary : Bool) :
    (m.pushHeader isPrimary).AtRest (L.pushHeader isPrimary) := by
  have hgrown := h.push .header (Fin.last n) .uncolored
  have hnone : (L.push .header (Fin.last n) .uncolored).column (Fin.last n) = [] := by
    rw [Layout.column, Layout.cells_push, List.filter_eq_nil_iff]
    intro p hp
    obtain ⟨q, -, rfl⟩ := List.mem_map.mp hp
    simp
  have hheaders : ∀ c ∈ (L.pushHeader isPrimary).headers,
      c ∈ (L.push .header (Fin.last n) .uncolored).headers ∨ c = Fin.last n := by
    intro c hc
    rw [Layout.headers_push]
    exact Layout.mem_headers_pushHeader.mp hc
  have hcolumn : ∀ c ∈ (L.pushHeader isPrimary).headers,
      m.down.push.IsRing c ((L.push .header (Fin.last n) .uncolored).column c) := by
    intro c hc
    rcases hheaders c hc with hc | rfl
    · exact hgrown.column c hc
    · rw [hnone]
      exact Links.isRing_nil (Links.next_push_last _) (Links.prev_push_last _)
  have hcount : ∀ c ∈ (L.pushHeader isPrimary).headers,
      (m.push .header (Fin.last n) .uncolored).count c =
        ((L.push .header (Fin.last n) .uncolored).column c).length := by
    intro c hc
    rcases hheaders c hc with hc | rfl
    · exact hgrown.count c hc
    · rw [hnone]
      simp [Mesh.count, Mesh.push]
  have htint : ∀ c ∈ (L.pushHeader isPrimary).headers,
      (m.push .header (Fin.last n) .uncolored).tint c = none := by
    intro c hc
    rcases hheaders c hc with hc | rfl
    · exact hgrown.tint c hc
    · simp [Mesh.tint, Mesh.push]
  have hapart := (hL.push .header (Fin.last n) .uncolored).rings_disjoint
  have hprimary : Fin.last n ∉ L.primaryHead.castSucc :: L.primary.map Fin.castSucc := by
    rw [← List.map_cons]
    exact Layout.last_not_mem_map _
  have hsecondary : Fin.last n ∉ L.secondaryHead.castSucc :: L.secondary.map Fin.castSucc := by
    rw [← List.map_cons]
    exact Layout.last_not_mem_map _
  cases isPrimary with
  | true =>
    have hhead : (m.push .header (Fin.last n) .uncolored).primaryHead = L.primaryHead.castSucc :=
      congrArg Frame.primaryHead hgrown.frame
    refine ⟨hgrown.frame, hcolumn, hcount, hgrown.paint, htint, ?_, ?_⟩
    · simp only [Mesh.pushHeader, if_true, hhead]
      exact hgrown.primary.insertBefore hprimary
    · simp only [Mesh.pushHeader, if_true, hhead]
      exact hgrown.primary.insertBefore_of_disjoint hgrown.secondary hsecondary hapart
  | false =>
    have hhead : (m.push .header (Fin.last n) .uncolored).secondaryHead =
        L.secondaryHead.castSucc :=
      congrArg Frame.secondaryHead hgrown.frame
    refine ⟨hgrown.frame, hcolumn, hcount, hgrown.paint, htint, ?_, ?_⟩
    · simp only [Mesh.pushHeader, Bool.false_eq_true, if_false, hhead]
      exact hgrown.secondary.insertBefore_of_disjoint hgrown.primary hprimary hapart.symm
    · simp only [Mesh.pushHeader, Bool.false_eq_true, if_false, hhead]
      exact hgrown.secondary.insertBefore hsecondary

variable {done : List (List (Fin n))} {pending : List (Fin n)} {c : Fin n} {option : Nat}
  {paint : Paint χ}

/-- A new cell hangs at the bottom of its column. -/
theorem pushCell [ReflBEq χ] (h : m.AtRest L) (hL : L.Sound) (hrows : L.rows = done ++ [pending])
    (hc : c ∈ L.headers) : (m.pushCell c option paint).AtRest (L.pushCell c option paint) := by
  have hgrown := h.push (.cell option) c.castSucc paint
  have hheaders : (L.pushCell c option paint).headers = L.headers.map Fin.castSucc :=
    Layout.headers_push L (.cell option) c.castSucc paint
  have hring : ∀ d ∈ L.headers, m.down.push.IsRing d.castSucc ((L.column d).map Fin.castSucc) :=
    fun d hd => (h.column d hd).push
  have hlast : ∀ d : Fin n, Fin.last n ∉ d.castSucc :: (L.column d).map Fin.castSucc := by
    intro d
    rw [← List.map_cons]
    exact Layout.last_not_mem_map _
  have hapart : ∀ d ∈ L.headers, d ≠ c →
      (c.castSucc :: (L.column c).map Fin.castSucc).Disjoint
        (d.castSucc :: (L.column d).map Fin.castSucc) := by
    intro d hd hdc
    rw [← List.map_cons, ← List.map_cons]
    exact (hL.column_disjoint hc hd (Ne.symm hdc)).map (Fin.castSucc_injective n)
  refine ⟨hgrown.frame, fun d' hd' => ?_, fun d' hd' => ?_, fun p hp => ?_, fun d' hd' => ?_,
    hgrown.primary, hgrown.secondary⟩
  · rw [hheaders] at hd'
    obtain ⟨d, hd, rfl⟩ := List.mem_map.mp hd'
    change (m.down.push.insertBefore c.castSucc (Fin.last n)).IsRing d.castSucc _
    rw [Layout.column_pushCell hrows]
    by_cases hdc : d = c
    · rw [if_pos hdc, hdc]
      exact (hring c hc).insertBefore (hlast c)
    · rw [if_neg hdc, List.append_nil]
      exact (hring c hc).insertBefore_of_disjoint (hring d hd) (hlast d) (hapart d hd hdc)
  · rw [hheaders] at hd'
    obtain ⟨d, hd, rfl⟩ := List.mem_map.mp hd'
    have hcount : ∀ e : Fin n, ({ m.push (.cell option) c.castSucc paint with
        down := m.down.push.insertBefore c.castSucc (Fin.last n) } : Mesh (n + 1) χ).count
          e.castSucc = m.count e :=
      fun e => m.count_push_castSucc (.cell option) c.castSucc paint e
    rw [Layout.column_pushCell hrows]
    change (Mesh.setCount _ _ _).count d.castSucc = _
    rw [count_setCount, List.length_append, List.length_map]
    by_cases hdc : d = c
    · rw [if_pos (congrArg _ hdc), if_pos hdc, hdc]
      exact congrArg (· + 1) ((hcount c).trans (h.count c hc))
    · rw [if_neg fun heq => hdc (Fin.castSucc_injective n heq), if_neg hdc]
      exact (hcount d).trans (h.count d hd)
  · rw [Layout.cells_pushCell hrows, List.mem_append, List.mem_singleton] at hp
    rcases hp with hp | rfl
    · rw [← Layout.cells_push L (.cell option) c.castSucc paint] at hp
      exact hgrown.paint p hp
    · have hnew : (m.pushCell c option paint).paint (Fin.last n) = paint := by
        simp [Mesh.pushCell, Mesh.push, Mesh.paint, setCount]
      rw [Layout.paint_pushCell_last, hnew]
      exact .refl paint
  · rw [hheaders] at hd'
    obtain ⟨d, hd, rfl⟩ := List.mem_map.mp hd'
    exact (m.tint_push_castSucc (.cell option) c.castSucc paint d).trans (h.tint d hd)

theorem circle (h : m.AtRest L) (hL : L.Sound) (hrows : L.rows = done ++ [pending]) :
    ({ m with across := m.across.circle pending } : Mesh n χ).AtRest L := by
  have hpending : pending ∈ L.rows := by simp [hrows]
  have hring : ∀ head cs, m.across.IsRing head cs →
      (∀ p ∈ head :: cs, (L.role p).isCell = false) →
        (m.across.circle pending).IsRing head cs := by
    intro head cs hring hcell
    have hfar : ∀ p ∈ head :: cs, p ∉ pending := by
      intro p hp hmem
      have hpCell := hL.role_cell p (Layout.mem_cells_of_mem_row hpending hmem)
      rw [hcell p hp] at hpCell
      exact Bool.false_ne_true hpCell
    have hlinks := fun p hp =>
      m.across.next_prev_circle_of_not_mem (hL.row_nodup hpending) (hfar p hp)
    exact hring.congr (fun p hp => (hlinks p hp).1) fun p hp => (hlinks p hp).2
  exact ⟨h.frame, h.column, h.count, h.paint, h.tint,
    hring _ _ h.primary fun p hp => hL.isCell_eq_false_of_mem_ring (.inl hp),
    hring _ _ h.secondary fun p hp => hL.isCell_eq_false_of_mem_ring (.inr hp)⟩

theorem bracket (h : m.AtRest L) (hL : L.Sound) {front behind : Fin n} (first last : Fin n)
    (hfront : m.role front = .spacer) (hbehind : m.role behind = .spacer) :
    ({ m with down := m.down.bracket front first last behind } : Mesh n χ).AtRest L := by
  refine ⟨h.frame, fun c hc => ?_, h.count, h.paint, h.tint, h.primary, h.secondary⟩
  have hne : ∀ p ∈ c :: L.column c, m.role p ≠ .spacer := by
    intro p hp
    rw [h.role_eq]
    exact hL.role_ne_spacer hc hp
  refine (h.column c hc).congr (fun p hp => ?_) fun p hp => ?_
  · exact Arrows.target_aim_of_ne _ _ fun heq => hne p hp (heq ▸ hfront)
  · exact Arrows.target_aim_of_ne _ _ fun heq => hne p hp (heq ▸ hbehind)

/-- A spacer behind a spaced row closes it. -/
theorem closesRow_bracket (h : m.AtRest L) (hL : L.Sound) (hstyle : m.style = .spaced)
    {front first last behind : Fin n} (hfront : m.role front = .spacer)
    (hbehind : m.role behind = .spacer) (hrows : L.rows = done ++ [pending])
    (hdone : ∀ row ∈ done, m.ClosesRow row)
    (hlie : List.IsChain (fun p q : Fin n => q.val = p.val + 1) (front :: (pending ++ [behind])))
    (hfirst : pending.head? = some first) (hlast : pending.getLast? = some last) :
    ∀ row ∈ L.rows,
      ({ m with down := m.down.bracket front first last behind } : Mesh n χ).ClosesRow row := by
  intro row hrow
  rw [hrows, List.mem_append, List.mem_singleton] at hrow
  rcases hrow with hrow | rfl
  · have hends : first.val = front.val + 1 ∧ behind.val = last.val + 1 := by
      obtain ⟨tail, rfl⟩ : ∃ tail, pending = first :: tail := by
        cases pending with
        | nil => simp at hfirst
        | cons p tail => exact ⟨tail, by simpa using hfirst⟩
      rw [List.cons_append, List.isChain_cons_cons, ← List.cons_append, List.isChain_append] at hlie
      exact ⟨hlie.1, hlie.2.2.2 _ hlast _ rfl⟩
    refine (hdone row hrow).congr_of_neighbors rfl (fun _ _ => ⟨rfl, rfl⟩)
      (fun p hp q _ hq => ?_) fun p hp q _ hq => ?_
    · apply Arrows.target_aim_of_ne _ _
      rintro rfl
      have hpLast : p = last := Fin.ext (by omega)
      exact hL.not_mem_pending hrows hrow hp (hpLast ▸ List.mem_of_getLast? hlast)
    · apply Arrows.target_aim_of_ne _ _
      rintro rfl
      have hpFirst : p = first := Fin.ext (by omega)
      exact hL.not_mem_pending hrows hrow hp (hpFirst ▸ List.mem_of_head? hfirst)
  · refine closesRow_of_spacers hstyle (fun p hp hspacer => ?_) hfront hbehind hlie ?_ ?_
    · have hcell := h.isCell hL (Layout.mem_cells_of_mem_row (by simp [hrows]) hp)
      change m.role p = .spacer at hspacer
      rw [hspacer] at hcell
      contradiction
    · rw [hfirst]
      exact congrArg some (Arrows.target_aim_self ..).symm
    · rw [hlast]
      exact congrArg some (Arrows.target_aim_self ..).symm

end AtRest

end Mesh

end ExactCover
