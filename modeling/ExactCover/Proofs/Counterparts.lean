import ExactCover.Proofs.Mirrored
import ExactCover.Proofs.Views

/-!
# Meshes with the same rows

A mesh *arranges* some rows if it plots them, its rows can be walked around, and the items have
columns in the order in which they first appear in the rows. Two meshes that arrange the same rows
have the same layout but for the numbers of their positions, and they mirror each other
(`Mesh.Arranges.mirrors`).

Meshes that mirror each other show the same: the walks around the ring of the columns that must be
covered and the walks down columns meet counterparts, and the check of the links finds the same.
-/

set_option autoImplicit false

namespace ExactCover

variable {n n' : Nat} {χ : Type}

section Arranges

variable {ι : Type} [BEq ι] [BEq χ] [Item ι χ]

namespace Mesh

/-- The mesh plots the rows, the walks around them close, and the columns of either ring come in
the order in which their items appear in the rows. -/
structure Arranges (m : Mesh n χ) (labels : List (ι × Nat)) (L : Layout n χ)
    (rows : List (List ι)) (numbering : Nat → Nat) : Prop
    extends m.Plots labels L rows numbering where
  closed : ∀ row ∈ L.rows, m.ClosesRow row
  primary_order : (labels.map (·.1)).filter isPrimaryItem =
    (ExactCover.distinct rows.flatten).filter isPrimaryItem
  secondary_order : (labels.map (·.1)).filter (!isPrimaryItem ·) =
    (ExactCover.distinct rows.flatten).filter (!isPrimaryItem ·)

end Mesh

theorem Board.Lays.exists_arranges {b : Board ι χ} {rows : List (List ι)} {numbering : Nat → Nat}
    (h : b.Lays rows numbering) : ∃ L, b.mesh.Arranges b.columns L rows numbering := by
  obtain ⟨L, hplots, hclosed⟩ := h.bears
  exact ⟨L, ⟨hplots, hclosed, h.primary, h.secondary⟩⟩

namespace Mesh.Arranges

variable {m : Mesh n χ} {m' : Mesh n' χ} {labels labels' : List (ι × Nat)} {L : Layout n χ}
  {L' : Layout n' χ} {rows : List (List ι)} {numbering : Nat → Nat} {p c : Fin n} {p' c' : Fin n'}

/-- The items of the columns, first those that must be covered. -/
theorem header_labels (h : m.Arranges labels L rows numbering) :
    List.Forall₂ (fun c x => (x, c.val) ∈ labels) L.headers
      ((distinct rows.flatten).filter isPrimaryItem ++
        (distinct rows.flatten).filter (!isPrimaryItem ·)) := by
  rw [← h.primary_order, ← h.secondary_order]
  exact List.rel_append h.primary_labels h.secondary_labels

/-- The rows on the mesh are as long as the given ones. -/
theorem map_length_rows (h : m.Arranges labels L rows numbering) :
    L.rows.map List.length = rows.map List.length :=
  map_eq_of_forall₂ h.cells fun _ _ hrow => hrow.length_eq

/-- Cells at the same place stand for the same item. -/
theorem exists_item (h : m.Arranges labels L rows numbering)
    (h' : m'.Arranges labels' L' rows numbering) (hp : L.SameCell L' p p') :
    ∃ x, (Labels labels (L.columnOf p) x ∧ L.paint p = Board.paintOf x) ∧
      Labels labels' (L'.columnOf p') x ∧ L'.paint p' = Board.paintOf x :=
  hp.exists_common (List.rel_flatten h.cells) (List.rel_flatten h'.cells)

/-- Columns at the same place have the same item. -/
theorem exists_label (h : m.Arranges labels L rows numbering)
    (h' : m'.Arranges labels' L' rows numbering) (hc : L.SameColumn L' c c') :
    ∃ x, (x, c.val) ∈ labels ∧ (x, c'.val) ∈ labels' :=
  hc.exists_common h.header_labels h'.header_labels

variable [EquivBEq ι]

/-- Columns of equal items are at the same place. -/
theorem sameColumn_of_labels (h : m.Arranges labels L rows numbering)
    (h' : m'.Arranges labels' L' rows numbering) {x : ι} (hc : Labels labels c x)
    (hc' : Labels labels' c' x) : L.SameColumn L' c c' := by
  obtain ⟨d', y, hsame, hy, hy'⟩ :=
    Opposite.exists_of_mem h.header_labels h'.header_labels (h.mem_headers hc)
  have hyx : y == x := h.beq_of_labels ⟨y, hy, BEq.rfl⟩ hc
  obtain rfl : d' = c' := h'.eq_of_labels ⟨y, hy', BEq.rfl⟩ hc' hyx
  exact hsame

/-- Meshes that arrange the same rows are laid out alike. -/
theorem layouts_match (h : m.Arranges labels L rows numbering)
    (h' : m'.Arranges labels' L' rows numbering) : L.Matches L' where
  sound := h.sound
  sound' := h'.sound
  rows := h.map_length_rows.trans h'.map_length_rows.symm
  primary := by
    rw [h.primary_labels.length_eq, h'.primary_labels.length_eq, h.primary_order, h'.primary_order]
  secondary := by
    rw [h.secondary_labels.length_eq, h'.secondary_labels.length_eq, h.secondary_order,
      h'.secondary_order]
  columnOf hp := by
    obtain ⟨x, ⟨hx, -⟩, hx', -⟩ := h.exists_item h' hp
    exact h.sameColumn_of_labels h' hx hx'

/-- The links out of positions of the same columns lead to positions of the same columns. -/
theorem mirrors_down (h : m.Arranges labels L rows numbering)
    (h' : m'.Arranges labels' L' rows numbering) :
    Links.Mirrors (Opposite L.vertical L'.vertical) m.down m'.down := by
  have hL := h.layouts_match h'
  have hcolumn : ∀ {c c'}, L.SameColumn L' c c' → ∀ p p', p ∈ c :: L.column c →
      Opposite L.vertical L'.vertical p p' →
        Opposite L.vertical L'.vertical (m.down.next p) (m'.down.next p') ∧
          Opposite L.vertical L'.vertical (m.down.prev p) (m'.down.prev p') := by
    intro c c' hc p p' hp hpp'
    have hmembers := (hL.column_rel hc).imp fun _ _ hq => hL.vertical_of_cell hq
    exact (h.atRest.column c hc.mem_left).mirrors (h'.atRest.column c' hc.mem_right)
      hL.vertical_biUnique (Layout.Matches.vertical_of_column hc) hmembers hp hpp'
  intro p p' hp
  rcases hp.of_append hL.headers_length with hc | hcell
  · exact hcolumn hc p p' List.mem_cons_self hp
  · have hmem : p ∈ L.column (L.columnOf p) := Layout.mem_column.mpr ⟨hcell.mem_left, rfl⟩
    exact hcolumn (hL.columnOf hcell) p p' (List.mem_cons_of_mem _ hmem) hp

/-- The links out of positions of the same rings lead to positions of the same rings. -/
theorem mirrors_across (h : m.Arranges labels L rows numbering)
    (h' : m'.Arranges labels' L' rows numbering) :
    Links.Mirrors (Opposite L.horizontal L'.horizontal) m.across m'.across := by
  have hL := h.layouts_match h'
  have hprimary : List.Forall₂ (Opposite L.horizontal L'.horizontal) L.primary L'.primary :=
    (Opposite.forall₂ hL.primary).imp fun _ _ hc =>
      Layout.Matches.horizontal_of_column (hc.append_right _ _)
  have hsecondary : List.Forall₂ (Opposite L.horizontal L'.horizontal) L.secondary L'.secondary :=
    (Opposite.forall₂ hL.secondary).imp fun _ _ hc =>
      Layout.Matches.horizontal_of_column (hc.append_left hL.primary)
  intro p p' hp
  have hmem : p ∈ L.primaryHead :: L.primary ∨ p ∈ L.secondaryHead :: L.secondary := by
    have hmem := hp.mem_left
    rw [Layout.horizontal, Layout.headers] at hmem
    grind
  rcases hmem with hmem | hmem
  · exact h.atRest.primary.mirrors h'.atRest.primary hL.horizontal_biUnique ⟨0, rfl, rfl⟩ hprimary
      hmem hp
  · exact h.atRest.secondary.mirrors h'.atRest.secondary hL.horizontal_biUnique ⟨1, rfl, rfl⟩
      hsecondary hmem hp

/-- Meshes that arrange the same rows mirror each other. -/
theorem mirrors [EquivBEq χ] (h : m.Arranges labels L rows numbering)
    (h' : m'.Arranges labels' L' rows numbering) : m.Mirrors m' L L' where
  orderly := h.atRest.orderly h.sound h.closed
  orderly' := h'.atRest.orderly h'.sound h'.closed
  down := h.mirrors_down h'
  across := h.mirrors_across h'
  count hc := by
    rw [h.atRest.count _ hc.mem_left, h'.atRest.count _ hc.mem_right]
    exact ((h.layouts_match h').column_rel hc).length_eq
  paint hp := by
    obtain ⟨x, ⟨-, hx⟩, -, hx'⟩ := h.exists_item h' hp
    have hpaint := h'.atRest.paint _ hp.mem_right
    rw [hx', ← hx] at hpaint
    exact (h.atRest.paint _ hp.mem_left).symm.trans hpaint
  tint hc := by
    rw [h.atRest.tint _ hc.mem_left, h'.atRest.tint _ hc.mem_right]
    exact .none

end Mesh.Arranges

end Arranges

namespace Mesh.Mirrors

variable [BEq χ] {L : Layout n χ} {L' : Layout n' χ} {m : Mesh n χ} {m' : Mesh n' χ} {c : Fin n}
  {c' : Fin n'}

/-- The rings of the columns that must be covered, as lists of links. -/
theorem parallel_primary (h : m.Mirrors m' L L') (hL : L.Matches L') :
    Links.Parallel (Opposite L.horizontal L'.horizontal) m.across m'.across m.primaryHead
      m'.primaryHead L.primary L'.primary := by
  have hhead : m.primaryHead = L.primaryHead := congrArg Frame.primaryHead h.orderly.frame
  have hhead' : m'.primaryHead = L'.primaryHead := congrArg Frame.primaryHead h.orderly'.frame
  rw [hhead, hhead']
  exact ⟨hL.horizontal_biUnique, h.across, h.orderly.primary, h.orderly'.primary, 0, rfl, rfl⟩

/-- The rings of the columns that may be covered, as lists of links. -/
theorem parallel_secondary (h : m.Mirrors m' L L') (hL : L.Matches L') :
    Links.Parallel (Opposite L.horizontal L'.horizontal) m.across m'.across m.secondaryHead
      m'.secondaryHead L.secondary L'.secondary := by
  have hhead : m.secondaryHead = L.secondaryHead := congrArg Frame.secondaryHead h.orderly.frame
  have hhead' : m'.secondaryHead = L'.secondaryHead :=
    congrArg Frame.secondaryHead h.orderly'.frame
  rw [hhead, hhead']
  exact ⟨hL.horizontal_biUnique, h.across, h.orderly.secondary, h.orderly'.secondary, 1, rfl, rfl⟩

/-- The walks around the rings of the columns that must be covered end and meet counterparts. -/
theorem exists_primaryColumns (h : m.Mirrors m' L L') (hL : L.Matches L') :
    ∃ cs cs', m.primaryColumns = .ok cs ∧ m'.primaryColumns = .ok cs' ∧
      List.Forall₂ (L.SameColumn L') cs cs' := by
  obtain ⟨cs, cs', hcs, hcs', hrel⟩ := (h.parallel_primary hL).exists_members
  refine ⟨cs, cs', hcs, hcs', hrel.imp fun c c' ⟨hc, hmem, _⟩ => ?_⟩
  exact hL.column_of_horizontal hc (List.mem_append_left _ hmem)

/-- The walks down two columns that are counterparts end and meet counterparts. -/
theorem exists_cells (h : m.Mirrors m' L L') (hL : L.Matches L') (hc : L.SameColumn L' c c') :
    ∃ ps ps', m.cells c = .ok ps ∧ m'.cells c' = .ok ps' ∧
      List.Forall₂ (L.SameCell L') ps ps' := by
  obtain ⟨ps, ps', hps, hps', hrel⟩ := (h.parallel_down hL hc).exists_members
  refine ⟨ps, ps', hps, hps', hrel.imp fun p p' ⟨hp, hmem, _⟩ => ?_⟩
  exact hL.cell_of_vertical hp (Layout.mem_column.mp hmem).1

/-- Two columns that are counterparts are both intact or both not. -/
theorem exists_isColumnIntact (h : m.Mirrors m' L L') (hL : L.Matches L')
    (hc : L.SameColumn L' c c') :
    ∃ intact, m.isColumnIntact c = .ok intact ∧ m'.isColumnIntact c' = .ok intact := by
  have hadmitted : ∀ p ∈ L.column c, ((m.role p).isCell && m.column p == c) = true := by
    intro p hp
    obtain ⟨hcell, hcolumn⟩ := Layout.mem_column.mp hp
    simp [h.orderly.isCell hL.sound hcell, h.orderly.column_eq, hcolumn]
  have hadmitted' : ∀ p ∈ L'.column c', ((m'.role p).isCell && m'.column p == c') = true := by
    intro p hp
    obtain ⟨hcell, hcolumn⟩ := Layout.mem_column.mp hp
    simp [h.orderly'.isCell hL.sound' hcell, h.orderly'.column_eq, hcolumn]
  obtain ⟨met, hmet, hmet'⟩ : ∃ met,
      m.down.circuit? (fun _ p => (m.role p).isCell && m.column p == c) c = .ok met ∧
        m'.down.circuit? (fun _ p => (m'.role p).isCell && m'.column p == c') c' = .ok met :=
    (h.parallel_down hL hc).exists_circuit? fun _ p p' _ hp hp' =>
      (hadmitted p hp).trans (hadmitted' p' hp').symm
  rw [Mesh.isColumnIntact, Mesh.isColumnIntact, hmet, hmet', h.count hc, (h.tint hc).isNone_eq]
  exact ⟨_, rfl, rfl⟩

variable (hheader : ∀ c : Fin n, L.role c = .header → c ∈ L.headers)
  (hheader' : ∀ c' : Fin n', L'.role c' = .header → c' ∈ L'.headers)

include hheader hheader'

theorem numColumns_eq (h : m.Mirrors m' L L') (hL : L.Matches L') :
    m.numColumns = m'.numColumns := by
  rw [numColumns, numColumns, (hL.sound.headers_perm h.orderly.frame hheader).length_eq,
    (hL.sound'.headers_perm h.orderly'.frame hheader').length_eq, hL.headers_length]

/-- Either all columns of both meshes are intact or in both some column is not. -/
theorem exists_allM_isColumnIntact (h : m.Mirrors m' L L') (hL : L.Matches L') :
    ∃ intact, m.headers.allM m.isColumnIntact = .ok intact ∧
      m'.headers.allM m'.isColumnIntact = .ok intact := by
  have hperm := hL.sound.headers_perm h.orderly.frame hheader
  have hperm' := hL.sound'.headers_perm h.orderly'.frame hheader'
  have hrel := Opposite.forall₂ hL.headers_length
  let passes (c : Fin n) : Bool := (m.isColumnIntact c).toOption.getD false
  let passes' (c' : Fin n') : Bool := (m'.isColumnIntact c').toOption.getD false
  have hpasses : ∀ {c c'}, L.SameColumn L' c c' → m.isColumnIntact c = .ok (passes c) ∧
      m'.isColumnIntact c' = .ok (passes' c') ∧ passes c = passes' c' := by
    intro c c' hc
    obtain ⟨intact, hintact, hintact'⟩ := h.exists_isColumnIntact hL hc
    simp [passes, passes', hintact, hintact', Except.toOption]
  refine ⟨L.headers.all passes, ?_, ?_⟩
  · rw [← hperm.all_eq]
    refine allM_eq_ok fun c hc => ?_
    obtain ⟨c', -, hsame⟩ := exists_of_forall₂ hrel (hperm.mem_iff.mp hc)
    exact (hpasses hsame).1
  · have hmap := map_eq_of_forall₂ hrel fun c c' hc => (hpasses hc).2.2
    have hall : L.headers.all passes = L'.headers.all passes' := by
      rw [← Function.id_comp passes, ← List.all_map, hmap, List.all_map, Function.id_comp]
    rw [hall, ← hperm'.all_eq]
    refine allM_eq_ok fun c' hc' => ?_
    obtain ⟨c, -, hsame⟩ := exists_of_forall₂ hrel.flip (hperm'.mem_iff.mp hc')
    exact (hpasses hsame).2.1

/-- The checks of the links end and find the same. -/
theorem exists_isIntact (h : m.Mirrors m' L L') (hL : L.Matches L') :
    ∃ intact, m.isIntact = .ok intact ∧ m'.isIntact = .ok intact := by
  have hnum := h.numColumns_eq hheader hheader' hL
  obtain ⟨columns, hcolumns, hcolumns'⟩ := h.exists_allM_isColumnIntact hheader hheader' hL
  obtain ⟨primary, hprimary, hprimary'⟩ : ∃ primary,
      m.ringLength? m.primaryHead = .ok primary ∧ m'.ringLength? m'.primaryHead = .ok primary :=
    (h.parallel_primary hL).exists_circuit? fun _ _ _ _ _ _ => by rw [hnum]
  obtain ⟨secondary, hsecondary, hsecondary'⟩ : ∃ secondary,
      m.ringLength? m.secondaryHead = .ok secondary ∧
        m'.ringLength? m'.secondaryHead = .ok secondary :=
    (h.parallel_secondary hL).exists_circuit? fun _ _ _ _ _ _ => by rw [hnum]
  have hintact : m.isIntact = m'.isIntact := by
    rw [Mesh.isIntact, Mesh.isIntact, hcolumns, hcolumns', hprimary, hprimary', hsecondary,
      hsecondary', hnum]
  obtain ⟨intact, hfound⟩ : ∃ intact, m.isIntact = .ok intact := by
    rw [Mesh.isIntact, hcolumns, hprimary, hsecondary]
    cases primary <;> cases secondary <;> exact ⟨_, rfl⟩
  exact ⟨intact, hfound, hintact ▸ hfound⟩

end Mesh.Mirrors

end ExactCover
