import ExactCover.Constraint
import ExactCover.Naive
import ExactCover.Proofs.Boards

/-!
# Settled columns and chosen rows

The search on lists knows which rows were chosen, the mesh which columns were settled. `Tracks`
says that the two agree: the columns that are settled are those of the items that are taken or
covered, and the rows that fit the settled columns are the live ones. Choosing a row on both sides
preserves the agreement (`Tracks.choose`), and as long as it holds both sides branch on the same
item and find the same rows to try, in the same order.
-/

set_option autoImplicit false

namespace ExactCover

/-- Item types whose equality is an equivalence and tells which items have to be covered. -/
class LawfulItem (ι : Type) {χ : outParam Type} [BEq ι] [Item ι χ] : Prop
    extends EquivBEq ι where
  isPrimary_eq : ∀ {a b : ι}, a == b → isPrimaryItem a = isPrimaryItem b

instance {ι χ : Type} [BEq ι] [LawfulBEq ι] [Item ι χ] : LawfulItem ι where
  isPrimary_eq h := by rw [eq_of_beq h]

instance {α χ : Type} [BEq α] [EquivBEq α] : LawfulItem (Constraint α χ) where
  rfl := by
    intro a
    cases a with
    | primary label => exact BEq.refl label
    | secondary label _ => exact BEq.refl label
  symm := by
    intro a b h
    cases a <;> cases b <;> first | contradiction | exact BEq.symm (α := α) h
  trans := by
    intro a b c h h'
    cases a <;> cases b <;> cases c <;> first | contradiction | exact BEq.trans (α := α) h h'
  isPrimary_eq := by
    intro a b h
    cases a <;> cases b <;> first | contradiction | rfl

/-- The least elements of lists that correspond do so as well. -/
theorem leastBy?_rel {α β : Type} {R : α → β → Prop} {f : α → Nat} {g : β → Nat} {as : List α}
    {bs : List β} (h : List.Forall₂ R as bs) (hmeasure : ∀ a b, R a b → f a = g b) :
    Option.Rel R (leastBy? f as) (leastBy? g bs) := by
  induction h with
  | nil => exact .none
  | @cons a b as bs hab hrest ih =>
    simp only [leastBy?]
    cases has : leastBy? f as with
    | none =>
      rw [has] at ih
      cases hbs : leastBy? g bs with
      | none => exact .some hab
      | some b' =>
        rw [hbs] at ih
        contradiction
    | some a' =>
      rw [has] at ih
      cases hbs : leastBy? g bs with
      | none =>
        rw [hbs] at ih
        contradiction
      | some b' =>
        rw [hbs] at ih
        cases ih with
        | some hab' =>
          simp only [hmeasure a b hab, hmeasure a' b' hab']
          split
          · exact .some hab'
          · exact .some hab

variable {n : Nat} {ι χ : Type} [BEq ι] [BEq χ] [Item ι χ]

/-- No item that has to be covered is given a color by any row. Which items have to be covered is
decided where they first appear. -/
def Naive.Unmixed (rows : List (List ι)) : Prop :=
  ∀ x ∈ distinct rows.flatten, isPrimaryItem x → ∀ y ∈ rows.flatten, x == y →
    (Item.kind y).color? = none

instance (rows : List (List ι)) : Decidable (Naive.Unmixed rows) :=
  inferInstanceAs (Decidable (∀ x ∈ distinct rows.flatten, isPrimaryItem x →
    ∀ y ∈ rows.flatten, x == y → (Item.kind y).color? = none))

/-- No cell of a column that must be covered has a color. -/
def Layout.Unmixed (L : Layout n χ) : Prop :=
  ∀ p ∈ L.cells, L.columnOf p ∈ L.primary → L.paint p = .uncolored

omit [BEq χ] in
/-- An equality that tells which items have to be covered does not mix them with others. -/
theorem Naive.unmixed [LawfulItem ι] (rows : List (List ι)) : Unmixed rows := by
  intro x _ hx y _ hxy
  rw [LawfulItem.isPrimary_eq hxy] at hx
  cases hkind : Item.kind y with
  | primary => rfl
  | secondary color => simp [isPrimaryItem, hkind, Kind.isPrimary] at hx

omit [BEq ι] [BEq χ] [Item ι χ] in
theorem Naive.Problem.mem_flatten_of_mem_row {problem : Naive.Problem ι} {item : ι} {k : Nat}
    (h : item ∈ problem.row k) : item ∈ problem.rows.flatten := by
  rw [row, List.getD_eq_getElem?_getD] at h
  cases hrow : problem.rows[k]? with
  | none =>
    rw [hrow] at h
    contradiction
  | some row =>
    rw [hrow] at h
    exact List.mem_flatten.mpr ⟨row, List.mem_of_getElem? hrow, h⟩

/-- The settled columns are those of the items that are taken or covered, and the rows that fit
them are the live ones. -/
structure Tracks (columns : List (ι × Nat)) (L : Layout n χ) (problem : Naive.Problem ι)
    (settled : List (Fin n × Option χ)) (chosen : List Nat) : Prop where
  taken : ∀ (c : Fin n) (x : ι), (x, c.val) ∈ columns → (c ∈ settled.map (·.1) ↔
    Naive.lists problem.taken x ∨ ∃ k ∈ chosen, Naive.lists (problem.row k) x)
  fits : ∀ (k : Nat) (row : List (Fin n)), L.rows[k]? = some row →
    ∀ p ∈ row, L.fits settled p = problem.isLive chosen k
  covered : ∀ x ∈ settled, x.1 ∈ L.primary → x.2 = none

section Rows

variable {m : Mesh n χ} {columns : List (ι × Nat)} {L : Layout n χ} {problem : Naive.Problem ι}
  {numbering : Nat → Nat}

/-- The cells of a row stand for its items. -/
theorem Mesh.Charts.row_cells (h : m.Charts columns L problem.rows numbering) {k : Nat}
    {row : List (Fin n)} (hrow : L.rows[k]? = some row) :
    List.Forall₂ (fun p item => Labels columns (L.columnOf p) item ∧ L.paint p = Board.paintOf item)
      row (problem.row k) := by
  obtain ⟨hlt, -⟩ := List.getElem?_eq_some_iff.mp hrow
  have hitems := List.getElem?_eq_getElem (h.cells.length_eq ▸ hlt)
  rw [Naive.Problem.row, List.getD_eq_getElem?_getD, hitems]
  exact rel_of_getElem? h.cells hrow hitems

theorem Mesh.Charts.exists_row (h : m.Charts columns L problem.rows numbering) {p : Fin n}
    (hp : p ∈ L.cells) : ∃ k, L.rows[k]? = some (L.rowOf p) ∧ k < problem.rows.length := by
  obtain ⟨k, hk⟩ := List.mem_iff_getElem?.mp (h.proper.rowOf_mem hp).1
  obtain ⟨hlt, -⟩ := List.getElem?_eq_some_iff.mp hk
  exact ⟨k, hk, h.cells.length_eq ▸ hlt⟩

variable [EquivBEq ι]

/-- A row lists an item exactly if it has a cell in the column of the item. -/
theorem Mesh.Charts.lists_row_iff (h : m.Charts columns L problem.rows numbering) {k : Nat}
    {row : List (Fin n)} (hrow : L.rows[k]? = some row) {c : Fin n} {x : ι}
    (hx : (x, c.val) ∈ columns) :
    Naive.lists (problem.row k) x ↔ ∃ p ∈ row, L.columnOf p = c := by
  have hcells := h.row_cells hrow
  have hlabel : Labels columns c x := ⟨x, hx, BEq.rfl⟩
  rw [Naive.lists, List.any_eq_true]
  constructor
  · rintro ⟨item, hitem, heq⟩
    obtain ⟨p, hp, hpItem, -⟩ := exists_of_forall₂ hcells.flip hitem
    exact ⟨p, hp, h.eq_of_labels hpItem hlabel heq⟩
  · rintro ⟨p, hp, rfl⟩
    obtain ⟨item, hitem, hpItem, -⟩ := exists_of_forall₂ hcells hp
    exact ⟨item, hitem, h.beq_of_labels hpItem hlabel⟩

omit [BEq ι] [EquivBEq ι] in
/-- What a use of an item asks for is what the color of the other use offers. -/
theorem matchesTint_paintOf [PartialEquivBEq χ] (a b : ι) :
    (Board.paintOf b : Paint χ).matchesTint (Board.paintOf a).tint? = Naive.agrees a b := by
  rw [Board.paintOf, Board.paintOf, Naive.agrees]
  cases (Item.kind a).color? with
  | none => simp [Paint.tint?]
  | some color =>
    cases (Item.kind b).color? with
    | none => rfl
    | some other => exact BEq.comm

/-- Two rows are compatible exactly if their cells agree on the columns that they share. -/
theorem Mesh.Charts.compatible_iff [PartialEquivBEq χ]
    (h : m.Charts columns L problem.rows numbering) {j k : Nat} {row row' : List (Fin n)}
    (hrow : L.rows[j]? = some row) (hrow' : L.rows[k]? = some row') :
    Naive.compatible (problem.row j) (problem.row k) ↔ ∀ r ∈ row, ∀ s ∈ row',
      L.columnOf s = L.columnOf r → (L.paint s).matchesTint (L.paint r).tint? := by
  have hcells := h.row_cells hrow
  have hcells' := h.row_cells hrow'
  simp only [Naive.compatible, List.all_eq_true, Bool.or_eq_true, Bool.not_eq_true']
  constructor
  · intro hall r hr s hs hcolumn
    obtain ⟨a, ha, hra, hpaint⟩ := exists_of_forall₂ hcells hr
    obtain ⟨b, hb, hsb, hpaint'⟩ := exists_of_forall₂ hcells' hs
    rw [hcolumn] at hsb
    have hab := h.beq_of_labels hra hsb
    rcases hall a ha b hb with hne | hagrees
    · rw [hab] at hne
      contradiction
    · rw [hpaint, hpaint', matchesTint_paintOf]
      exact hagrees
  · intro hall a ha b hb
    cases hab : a == b with
    | false => exact .inl rfl
    | true =>
      obtain ⟨r, hr, hra, hpaint⟩ := exists_of_forall₂ hcells.flip ha
      obtain ⟨s, hs, hsb, hpaint'⟩ := exists_of_forall₂ hcells'.flip hb
      have hmatch := hall r hr s hs (h.eq_of_labels hra hsb hab).symm
      rw [hpaint, hpaint', matchesTint_paintOf] at hmatch
      exact .inr hmatch

omit [EquivBEq ι] in
/-- The headers of the columns that must be covered, with their items. -/
theorem Mesh.Charts.primary_rel (h : m.Charts columns L problem.rows numbering) :
    List.Forall₂ (fun c x => c ∈ L.primary ∧ (x, c.val) ∈ columns) L.primary
      ((columns.map (·.1)).filter isPrimaryItem) :=
  (List.forall₂_and_left _ _).mpr ⟨fun _ hc => hc, h.primary_labels⟩

/-- A row that is kept has one cell in the column of an item that it lists, and every other row
has none that is kept. -/
theorem Mesh.Charts.row_rel (h : m.Charts columns L problem.rows numbering) {c : Fin n} {x : ι}
    (hx : (x, c.val) ∈ columns) {keeps : Fin n → Bool} {kept : Nat → Bool} {k : Nat}
    {row : List (Fin n)} (hrow : L.rows[k]? = some row) (hkeeps : ∀ p ∈ row, keeps p = kept k) :
    List.Forall₂ (fun p k => p ∈ L.column c ∧ keeps p ∧ L.rows[k]? = some (L.rowOf p))
      (row.filter fun p => L.columnOf p = c && keeps p)
      ([k].filter fun k => Naive.lists (problem.row k) x && kept k) := by
  have hmem : row ∈ L.rows := List.mem_of_getElem? hrow
  rw [List.filter_cons, List.filter_nil]
  by_cases hkept : (Naive.lists (problem.row k) x && kept k) = true
  · rw [if_pos hkept]
    rw [Bool.and_eq_true, h.lists_row_iff hrow hx] at hkept
    obtain ⟨⟨p, hp, hpc⟩, hkept⟩ := hkept
    have hpCell := Layout.mem_cells_of_mem_row hmem hp
    have hpRow := h.proper.rowOf_eq hmem hp
    have hpKeeps := (hkeeps p hp).trans hkept
    have hone : (row.filter fun p => L.columnOf p = c && keeps p) = [p] := by
      rw [← List.perm_singleton]
      refine (List.perm_ext_iff_of_nodup ((h.proper.row_nodup hmem).filter _)
        (List.nodup_singleton p)).mpr fun q => ?_
      simp only [List.mem_filter, Bool.and_eq_true, decide_eq_true_eq, List.mem_singleton]
      constructor
      · intro hq
        exact h.proper.eq_of_columnOf_eq hpCell (hpRow ▸ hq.1) (hq.2.1.trans hpc.symm)
      · rintro rfl
        exact ⟨hp, hpc, hpKeeps⟩
    rw [hone]
    exact .cons ⟨Layout.mem_column.mpr ⟨hpCell, hpc⟩, hpKeeps, hpRow ▸ hrow⟩ .nil
  · rw [if_neg hkept]
    have hnone : (row.filter fun p => L.columnOf p = c && keeps p) = [] := by
      rw [List.filter_eq_nil_iff]
      intro p hp hpc
      rw [Bool.and_eq_true, decide_eq_true_eq, hkeeps p hp] at hpc
      apply hkept
      rw [Bool.and_eq_true, h.lists_row_iff hrow hx]
      exact ⟨⟨p, hp, hpc.1⟩, hpc.2⟩
    rw [hnone]
    exact .nil

/-- The cells of a column that are kept belong to the rows that are kept and list its item. -/
theorem Mesh.Charts.column_rel (h : m.Charts columns L problem.rows numbering) {c : Fin n} {x : ι}
    (hx : (x, c.val) ∈ columns) {keeps : Fin n → Bool} {kept : Nat → Bool}
    (hkeeps : ∀ (k : Nat) (row : List (Fin n)), L.rows[k]? = some row →
      ∀ p ∈ row, keeps p = kept k) :
    List.Forall₂ (fun p k => p ∈ L.column c ∧ keeps p ∧ L.rows[k]? = some (L.rowOf p))
      ((L.column c).filter keeps) ((List.range problem.rows.length).filter fun k =>
        Naive.lists (problem.row k) x && kept k) := by
  have hprefix : ∀ j ≤ L.rows.length, List.Forall₂
      (fun p k => p ∈ L.column c ∧ keeps p ∧ L.rows[k]? = some (L.rowOf p))
      ((L.rows.take j).flatten.filter fun p => L.columnOf p = c && keeps p)
      ((List.range j).filter fun k => Naive.lists (problem.row k) x && kept k) := by
    intro j
    induction j with
    | zero => exact fun _ => .nil
    | succ j ih =>
      intro hj
      have hrow := List.getElem?_eq_getElem hj
      rw [← List.take_append_getElem hj, List.flatten_append, List.flatten_singleton,
        List.filter_append, List.range_succ, List.filter_append]
      exact List.rel_append (ih (Nat.le_of_succ_le hj)) (h.row_rel hx hrow (hkeeps j _ hrow))
  have hall := hprefix L.rows.length (Nat.le_refl _)
  rw [List.take_length] at hall
  rw [Layout.column, List.filter_filter, ← h.cells.length_eq]
  have hswap : (fun p => keeps p && decide (L.columnOf p = c)) =
      fun p => decide (L.columnOf p = c) && keeps p := by
    funext p
    exact Bool.and_comm _ _
  rw [hswap]
  exact hall

end Rows

section Unmixed

variable [EquivBEq ι] [PartialEquivBEq χ] {m : Mesh n χ} {columns : List (ι × Nat)}
  {L : Layout n χ} {problem : Naive.Problem ι} {numbering : Nat → Nat}
  {settled : List (Fin n × Option χ)} {chosen : List Nat}

omit [EquivBEq ι] [PartialEquivBEq χ] in
/-- Where no item that has to be covered is given a color, no cell of its column has one. -/
theorem Mesh.Charts.unmixed (h : m.Charts columns L problem.rows numbering)
    (horder : (columns.map (·.1)).filter isPrimaryItem =
      (ExactCover.distinct problem.rows.flatten).filter isPrimaryItem)
    (hrows : Naive.Unmixed problem.rows) : L.Unmixed := by
  intro p hp hprimary
  obtain ⟨k, hrow, -⟩ := h.exists_row hp
  obtain ⟨item, hitem, ⟨x, hx, hxitem⟩, hpaint⟩ :=
    exists_of_forall₂ (h.row_cells hrow) (h.proper.rowOf_mem hp).2
  have hxPrimary := (h.isPrimaryItem_iff hx).mpr hprimary
  have hfirst : x ∈ (ExactCover.distinct problem.rows.flatten).filter isPrimaryItem := by
    rw [← horder]
    exact List.mem_filter.mpr ⟨List.mem_map_of_mem hx, hxPrimary⟩
  rw [hpaint, Board.paintOf,
    hrows x (List.mem_filter.mp hfirst).1 hxPrimary item
      (Naive.Problem.mem_flatten_of_mem_row hitem) hxitem]

/-- Choosing a row settles the columns of its items and leaves the rows that are compatible. -/
theorem Tracks.choose (ht : Tracks columns L problem settled chosen)
    (h : m.Charts columns L problem.rows numbering) {k : Nat} {p : Fin n} (hp : p ∈ L.cells)
    (hrow : L.rows[k]? = some (L.rowOf p)) (hunmixed : L.Unmixed)
    (hprimary : L.columnOf p ∈ L.primary) (hfits : L.fits settled p) :
    Tracks columns L problem (L.choose settled p) (chosen ++ [k]) where
  taken := by
    intro c x hx
    rw [Layout.mem_map_fst_choose h.proper hp, ht.taken c x hx, ← h.lists_row_iff hrow hx]
    simp only [List.mem_append, List.mem_singleton]
    constructor
    · rintro ((htaken | ⟨j, hj, hlists⟩) | hlists)
      · exact .inl htaken
      · exact .inr ⟨j, .inl hj, hlists⟩
      · exact .inr ⟨k, .inr rfl, hlists⟩
    · rintro (htaken | ⟨j, hj | rfl, hlists⟩)
      · exact .inl (.inl htaken)
      · exact .inl (.inr ⟨j, hj, hlists⟩)
      · exact .inr hlists
  fits := by
    intro j row hrow' q hq
    have hqCell : q ∈ L.cells := Layout.mem_cells_of_mem_row (List.mem_of_getElem? hrow') hq
    have hqRow : L.rowOf q = row := h.proper.rowOf_eq (List.mem_of_getElem? hrow') hq
    have hlive : problem.isLive (chosen ++ [k]) j =
        (problem.isLive chosen j && Naive.compatible (problem.row k) (problem.row j)) := by
      simp [Naive.Problem.isLive, Bool.and_assoc]
    rw [Bool.eq_iff_iff, hlive, Bool.and_eq_true, ← ht.fits j row hrow' q hq,
      h.compatible_iff hrow hrow', ← hqRow]
    exact Layout.fits_choose h.proper hp (hunmixed p hp hprimary) hfits
  covered := by
    intro x hx hxPrimary
    rcases List.mem_append.mp hx with hx | hx
    · exact ht.covered x hx hxPrimary
    · rcases List.mem_cons.mp hx with rfl | hx
      · rfl
      · obtain ⟨q, hq, rfl⟩ := List.mem_map.mp hx
        have hqRow := ((h.proper.mem_around hp).mp (List.mem_of_mem_filter hq)).1
        have hqCell := (h.proper.rowOf_eq_of_mem hp hqRow).1
        rw [hunmixed q hqCell hxPrimary]
        rfl

omit [EquivBEq ι] [PartialEquivBEq χ] in
/-- A column that must be covered is in its ring exactly if it is not settled. -/
theorem Tracks.isOpen_eq (ht : Tracks columns L problem settled chosen) {c : Fin n}
    (hc : c ∈ L.primary) : (L.picture settled).isOpen c = (c ∉ settled.map (·.1) : Bool) := by
  rw [Bool.eq_iff_iff, decide_eq_true_eq]
  simp only [Layout.picture, Bool.not_eq_true', List.any_eq_false, decide_eq_true_eq,
    Bool.and_eq_true, not_and]
  constructor
  · intro hnone hmem
    obtain ⟨x, hx, rfl⟩ := List.mem_map.mp hmem
    have hcovered := ht.covered x hx hc
    exact hnone x hx rfl (by simp [hcovered])
  · intro hnot x hx hxc
    exact absurd (hxc ▸ List.mem_map_of_mem hx) hnot

omit [PartialEquivBEq χ] in
/-- The rows that can be tried in a column are the live rows that list its item. -/
theorem Tracks.candidates_rel (ht : Tracks columns L problem settled chosen)
    (h : m.Charts columns L problem.rows numbering) {c : Fin n} {x : ι}
    (hx : (x, c.val) ∈ columns) :
    List.Forall₂ (fun p k => p ∈ L.column c ∧ L.fits settled p ∧ L.rows[k]? = some (L.rowOf p))
      ((L.column c).filter (L.fits settled)) (problem.candidates chosen x) :=
  h.column_rel hx ht.fits

omit [EquivBEq ι] [PartialEquivBEq χ] in
/-- The open columns that must be covered are those of the open items. -/
theorem Tracks.open_rel (ht : Tracks columns L problem settled chosen)
    (h : m.Charts columns L problem.rows numbering)
    (horder : (columns.map (·.1)).filter isPrimaryItem =
      (distinct problem.rows.flatten).filter isPrimaryItem) :
    List.Forall₂ (fun c x => c ∈ L.primary ∧ c ∉ settled.map (·.1) ∧ (x, c.val) ∈ columns)
      (L.primary.filter (L.picture settled).isOpen) (problem.openItems chosen) := by
  have hopen : problem.openItems chosen =
      ((columns.map (·.1)).filter isPrimaryItem).filter fun x =>
        !Naive.lists problem.taken x && !chosen.any fun k => Naive.lists (problem.row k) x := by
    rw [horder, List.filter_filter, Naive.Problem.openItems]
    apply List.filter_congr
    intro x _
    rw [Bool.and_assoc, Bool.and_comm]
  rw [hopen]
  have hfilter := List.rel_filter (R := fun c x => c ∈ L.primary ∧ (x, c.val) ∈ columns)
    (p := (L.picture settled).isOpen) (q := fun x =>
      !Naive.lists problem.taken x && !chosen.any fun k => Naive.lists (problem.row k) x)
    (fun c x hcx => ?_) h.primary_rel
  · have hmem : ∀ c ∈ L.primary.filter (L.picture settled).isOpen, c ∉ settled.map (·.1) := by
      intro c hc
      obtain ⟨hc, hcOpen⟩ := List.mem_filter.mp hc
      rw [ht.isOpen_eq hc] at hcOpen
      simpa using hcOpen
    refine List.Forall₂.imp ?_ ((List.forall₂_and_left _ _).mpr ⟨hmem, hfilter⟩)
    intro c x hcx
    exact ⟨hcx.2.1, hcx.1, hcx.2.2⟩
  · show (L.picture settled).isOpen c = true ↔ (!Naive.lists problem.taken x &&
      !chosen.any fun k => Naive.lists (problem.row k) x) = true
    rw [ht.isOpen_eq hcx.1, decide_eq_true_eq, ht.taken c x hcx.2]
    simp

omit [PartialEquivBEq χ] in
/-- Both sides branch on the same item. -/
theorem Tracks.branch_rel (ht : Tracks columns L problem settled chosen)
    (h : m.Charts columns L problem.rows numbering)
    (horder : (columns.map (·.1)).filter isPrimaryItem =
      (distinct problem.rows.flatten).filter isPrimaryItem)
    {m' : Mesh n χ} (hm' : m'.Displays L (L.picture settled)) :
    Option.Rel (fun c x => c ∈ L.primary ∧ c ∉ settled.map (·.1) ∧ (x, c.val) ∈ columns)
      (leastBy? m'.count (L.primary.filter (L.picture settled).isOpen))
      (problem.branchItem? chosen) := by
  refine leastBy?_rel (ht.open_rel h horder) fun c x ⟨hc, hcOpen, hx⟩ => ?_
  rw [hm'.count c (List.mem_append_left _ hc), Layout.filter_hangs_picture hcOpen]
  exact (ht.candidates_rel h hx).length_eq

end Unmixed

end ExactCover
