import ExactCover.Proofs.Presented
import ExactCover.Proofs.Settled
import ExactCover.Proofs.Tracking

/-!
# Pre-selected items

Before a search starts, the columns of the items that the pre-selected options list are covered, in
the order in which the items are met. A board finds these columns unless one of the items is listed
by no row; which item it names then depends on the rows alone. After covering them, the mesh and
the search on lists agree for the first time (`tracks_start`): no row is chosen and the items are
taken.
-/

set_option autoImplicit false

namespace ExactCover

variable {ι χ : Type} [BEq ι] [BEq χ] [Item ι χ]

/-- The first of the taken items that no row lists. -/
def Naive.Problem.missing? (problem : Naive.Problem ι) : Option ι :=
  (distinct problem.taken).find? fun item => !lists problem.rows.flatten item

namespace Board.Presents

variable {b : Board ι χ} {rows : List (List ι)} {numbering : Nat → Nat}
  {problem : Naive.Problem ι} {item : ι}

/-- The labels are the items that the rows list. -/
theorem mem_labels (h : b.Presents rows numbering) :
    item ∈ b.columns.map (·.1) ↔ item ∈ distinct rows.flatten := by
  cases hitem : isPrimaryItem item with
  | true =>
    have hmem : item ∈ (b.columns.map (·.1)).filter isPrimaryItem ↔
        item ∈ (distinct rows.flatten).filter isPrimaryItem := by rw [h.primary]
    simpa only [List.mem_filter, hitem, and_true] using hmem
  | false =>
    have hmem : item ∈ (b.columns.map (·.1)).filter (!isPrimaryItem ·) ↔
        item ∈ (distinct rows.flatten).filter (!isPrimaryItem ·) := by rw [h.secondary]
    simpa only [List.mem_filter, hitem, Bool.not_false, and_true] using hmem

variable [EquivBEq ι]

/-- Exactly the items that some row lists have a column. -/
theorem isSome_column? (h : b.Presents rows numbering) (item : ι) :
    (b.column? item).isSome = Naive.lists rows.flatten item := by
  rw [Board.isSome_column? h.holds.bears, Bool.eq_iff_iff, List.contains_iff_exists_mem_beq,
    Naive.lists_iff]
  constructor
  · intro ⟨x, hx, hxitem⟩
    exact ⟨x, distinct_subset (h.mem_labels.mp hx), BEq.symm hxitem⟩
  · intro ⟨x, hx, hxitem⟩
    obtain ⟨y, hy, hxy⟩ := exists_mem_distinct hx
    exact ⟨y, h.mem_labels.mpr hy, BEq.trans (BEq.symm hxitem) hxy⟩

/-- A board names the first item that has no column, as the search on lists does. -/
theorem columnsOf_eq_error (h : b.Presents problem.rows) (hmissing : problem.missing? = some item) :
    b.columnsOf problem.taken = .error item := by
  rw [Naive.Problem.missing?] at hmissing
  rw [columnsOf]
  generalize distinct problem.taken = items at hmissing
  induction items with
  | nil => contradiction
  | cons x rest ih =>
    have hsome := h.isSome_column? x
    rw [List.mapM_cons]
    cases hlists : Naive.lists problem.rows.flatten x with
    | false =>
      rw [hlists, Option.isSome_eq_false_iff, Option.isNone_iff_eq_none] at hsome
      rw [List.find?_cons_of_pos (by simp [hlists]), Option.some.injEq] at hmissing
      rw [hsome, hmissing]
      rfl
    | true =>
      rw [hlists] at hsome
      obtain ⟨c, hc⟩ := Option.isSome_iff_exists.mp hsome
      rw [List.find?_cons_of_neg (by simp [hlists])] at hmissing
      rw [hc, ih hmissing]
      rfl

/-- If all items are listed by some row, a board finds their columns. -/
theorem exists_columnsOf (h : b.Presents problem.rows) (hmissing : problem.missing? = none) :
    ∃ cs, b.columnsOf problem.taken = .ok cs ∧
      List.Forall₂ (fun c item => b.column? item = some c) cs (distinct problem.taken) := by
  rw [Naive.Problem.missing?] at hmissing
  rw [columnsOf]
  generalize distinct problem.taken = items at hmissing
  induction items with
  | nil => exact ⟨[], rfl, .nil⟩
  | cons x rest ih =>
    rw [List.find?_eq_none] at hmissing
    have hsome := h.isSome_column? x
    have hlists := hmissing x (by simp)
    rw [Bool.not_eq_true', Bool.not_eq_false] at hlists
    rw [hlists] at hsome
    obtain ⟨c, hc⟩ := Option.isSome_iff_exists.mp hsome
    obtain ⟨cs, hrest, hcs⟩ := ih (List.find?_eq_none.mpr fun y hy =>
      hmissing y (List.mem_cons_of_mem _ hy))
    refine ⟨c :: cs, ?_, .cons hc hcs⟩
    rw [List.mapM_cons, hc, hrest]
    rfl

end Board.Presents

section Start

variable {n : Nat} {m : Mesh n χ} {L : Layout n χ}

/-- Covering columns one after another settles them, and uncovering them in the opposite order
leads back. -/
theorem Mesh.Displays.exists_coverAll [EquivBEq χ] (hL : L.Proper) {cs : List (Fin n)}
    {settled : List (Fin n × Option χ)} (hm : m.Displays L (L.picture settled))
    (hheaders : ∀ c ∈ cs, c ∈ L.headers) (hnodup : cs.Nodup)
    (hopen : ∀ c ∈ cs, c ∉ settled.map (·.1)) :
    ∃ m', RoundTrip (fun m => m.coverAll cs) (fun m => m.uncoverAll cs) m m' ∧
      m'.Displays L (L.picture (settled ++ cs.map (·, none))) := by
  induction cs generalizing m settled with
  | nil =>
    rw [List.map_nil, List.append_nil]
    exact ⟨m, .refl m, hm⟩
  | cons c cs ih =>
    obtain ⟨hnew, hnodup⟩ := List.nodup_cons.mp hnodup
    obtain ⟨m₁, hfirst, hm₁⟩ := hm.exists_settle hL (hheaders c (by simp)) (hopen c (by simp)) .none
    have hrest : ∀ d ∈ cs, d ∉ (settled ++ [(c, (none : Option χ))]).map (·.1) := by
      intro d hd
      simp only [List.map_append, List.mem_append, List.map_singleton, List.mem_singleton, not_or]
      exact ⟨hopen d (List.mem_cons_of_mem _ hd), fun heq => hnew (heq ▸ hd)⟩
    obtain ⟨m', htrip, hm'⟩ := ih hm₁ (fun d hd => hheaders d (List.mem_cons_of_mem _ hd))
      hnodup hrest
    refine ⟨m', ?_, ?_⟩
    · have hback : (fun m : Mesh n χ => m.uncoverAll (c :: cs)) =
          fun m => m.uncoverAll cs >>= Mesh.unsettle c none := by
        funext m
        simp [uncoverAll, List.foldlM_append, unsettle]
      rw [hback]
      exact hfirst.trans htrip
    · rw [List.map_cons]
      simpa using hm'

variable {columns : List (ι × Nat)} {problem : Naive.Problem ι} {cs : List (Fin n)}

/-- The columns of items that do not repeat do not repeat either. -/
theorem Mesh.Charts.nodup_of_labels [EquivBEq ι] {rows : List (List ι)}
    (h : m.Charts columns L rows) {items : List ι} (hcs : List.Forall₂ (Labels columns) cs items)
    (hitems : Unrepeated items) : cs.Nodup := by
  induction hcs with
  | nil => exact .nil
  | @cons c item cs items hc hcs ih =>
    obtain ⟨hnew, hitems⟩ := List.pairwise_cons.mp hitems
    refine List.nodup_cons.mpr ⟨fun hmem => ?_, ih hitems⟩
    obtain ⟨x, hx, hlabel⟩ := exists_of_forall₂ hcs hmem
    have hsame := h.beq_of_labels hc hlabel
    rw [hnew x hx] at hsame
    exact Bool.false_ne_true hsame

/-- The columns of the taken items are those that are labelled with a taken item. -/
theorem Mesh.Charts.mem_iff_lists_taken [EquivBEq ι] {rows : List (List ι)}
    (h : m.Charts columns L rows)
    (hcs : List.Forall₂ (Labels columns) cs (ExactCover.distinct problem.taken)) {c : Fin n}
    {item : ι} (hlabel : Labels columns c item) : c ∈ cs ↔ Naive.lists problem.taken item := by
  rw [Naive.lists_iff]
  constructor
  · intro hc
    obtain ⟨x, hx, hlabel'⟩ := exists_of_forall₂ hcs hc
    exact ⟨x, distinct_subset hx, h.beq_of_labels hlabel' hlabel⟩
  · intro ⟨x, hx, hxitem⟩
    obtain ⟨y, hy, hxy⟩ := exists_mem_distinct hx
    obtain ⟨d, hd, hlabel'⟩ := exists_of_forall₂ hcs.flip hy
    rw [h.eq_of_labels hlabel hlabel' (BEq.trans (BEq.symm hxitem) hxy)]
    exact hd

/-- With the columns of the taken items covered and nothing chosen, the mesh and the search on
lists agree. -/
theorem tracks_start [EquivBEq ι] (h : m.Charts columns L problem.rows)
    (hcs : List.Forall₂ (Labels columns) cs (distinct problem.taken)) :
    Tracks columns L problem (cs.map fun c => (c, (none : Option χ))) [] where
  taken := by
    intro c x hx
    rw [List.map_map, ← h.mem_iff_lists_taken hcs ⟨x, hx, BEq.rfl⟩]
    simp [Function.comp_def]
  fits := by
    intro k row hrow p hp
    have hcells := h.row_cells hrow
    have hrowOf := h.proper.rowOf_eq (List.mem_of_getElem? hrow) hp
    rw [Bool.eq_iff_iff, Layout.fits_eq_true_iff, hrowOf, Naive.Problem.isLive]
    simp only [List.mem_map, List.all_nil, Bool.and_true, List.all_eq_true, Bool.not_eq_true']
    constructor
    · intro hall item hitem
      obtain ⟨q, hq, hlabel, -⟩ := exists_of_forall₂ hcells.flip hitem
      rw [← Bool.not_eq_true, ← h.mem_iff_lists_taken hcs hlabel]
      intro hmem
      have hmatch := hall q hq _ ⟨L.columnOf q, hmem, rfl⟩ rfl
      rw [Paint.matchesTint_none] at hmatch
      contradiction
    · rintro hall q hq x ⟨c, hc, rfl⟩ rfl
      obtain ⟨item, hitem, hlabel, -⟩ := exists_of_forall₂ hcells hq
      have hlists := (h.mem_iff_lists_taken hcs hlabel).mp hc
      rw [hall item hitem] at hlists
      contradiction
  covered := by
    intro x hx _
    obtain ⟨c, -, rfl⟩ := List.mem_map.mp hx
    rfl

end Start

end ExactCover
