import ExactCover.Proofs.Boards
import ExactCover.Proofs.Parallel

/-!
# Meshes that mirror each other

Two meshes with the same rows have their positions in different orders, and they may hold rows
together in different styles. Which positions correspond is fixed by the order in which rows and
columns were added. The meshes *mirror* each other if both are orderly, the links out of positions
that correspond lead to positions that correspond, and counts, paints and tints agree (`Mirrors`).
No order of the links is presumed beyond the one that no step can destroy.

Every step does the same to meshes that mirror each other: both results are meshes that mirror each
other, or both are the same fault, and the only faults that come up are those of a column from which
more rows are taken than are counted and of a column that is to be unrestricted and is not
restricted (`Agree`). In particular, no walk goes on for ever.
-/

set_option autoImplicit false

namespace ExactCover

variable {n n' : Nat} {χ : Type}

/-- In lists whose elements correspond, so do those before the first that is not wanted. -/
theorem forall₂_takeWhile {α β : Type} {R : α → β → Prop} {as : List α} {bs : List β}
    {f : α → Bool} {g : β → Bool} (h : List.Forall₂ R as bs) (hfg : ∀ a b, R a b → f a = g b) :
    List.Forall₂ R (as.takeWhile f) (bs.takeWhile g) := by
  induction h with
  | nil => exact .nil
  | @cons a b as bs hab _ ih =>
    rw [List.takeWhile_cons, List.takeWhile_cons, hfg a b hab]
    split
    · exact .cons hab ih
    · exact .nil

/-- In lists whose elements correspond, so do those from the first on that is not wanted. -/
theorem forall₂_dropWhile {α β : Type} {R : α → β → Prop} {as : List α} {bs : List β}
    {f : α → Bool} {g : β → Bool} (h : List.Forall₂ R as bs) (hfg : ∀ a b, R a b → f a = g b) :
    List.Forall₂ R (as.dropWhile f) (bs.dropWhile g) := by
  induction h with
  | nil => exact .nil
  | @cons a b as bs hab hrest ih =>
    rw [List.dropWhile_cons, List.dropWhile_cons, hfg a b hab]
    split
    · exact ih
    · exact .cons hab hrest

namespace Layout

/-- The positions of the columns. -/
def vertical (L : Layout n χ) : List (Fin n) := L.headers ++ L.cells

/-- The positions of the rings. -/
def horizontal (L : Layout n χ) : List (Fin n) := L.primaryHead :: L.secondaryHead :: L.headers

/-- Two cells stand at the same place in the order of their layouts. -/
abbrev SameCell (L : Layout n χ) (L' : Layout n' χ) : Fin n → Fin n' → Prop :=
  Opposite L.cells L'.cells

/-- Two headers stand at the same place in the order of their layouts. -/
abbrev SameColumn (L : Layout n χ) (L' : Layout n' χ) : Fin n → Fin n' → Prop :=
  Opposite L.headers L'.headers

/-- Two layouts have the same columns and rows of the same lengths, and cells at the same places
belong to the same columns. -/
structure Matches (L : Layout n χ) (L' : Layout n' χ) : Prop where
  sound : L.Sound
  sound' : L'.Sound
  rows : L.rows.map List.length = L'.rows.map List.length
  primary : L.primary.length = L'.primary.length
  secondary : L.secondary.length = L'.secondary.length
  columnOf : ∀ {p : Fin n} {p' : Fin n'}, L.SameCell L' p p' →
    L.SameColumn L' (L.columnOf p) (L'.columnOf p')

theorem Sound.vertical_nodup {L : Layout n χ} (hL : L.Sound) : L.vertical.Nodup := by
  rw [vertical, List.nodup_append]
  refine ⟨hL.headers_nodup, hL.cells_nodup, ?_⟩
  rintro c hc p hp rfl
  exact hL.not_mem_headers hp hc

theorem Sound.horizontal_nodup {L : Layout n χ} (hL : L.Sound) : L.horizontal.Nodup := by
  have hhead : ∀ head, L.role head = .ringHead → head ∉ L.headers := by
    intro head hrole hmem
    rw [hL.role_header head hmem] at hrole
    cases hrole
  rw [horizontal, List.nodup_cons, List.nodup_cons, List.mem_cons, not_or]
  exact ⟨⟨hL.heads_ne, hhead _ hL.role_primaryHead⟩, hhead _ hL.role_secondaryHead,
    hL.headers_nodup⟩

namespace Matches

variable {L : Layout n χ} {L' : Layout n' χ} {p c : Fin n} {p' c' : Fin n'}

theorem cells_length (h : L.Matches L') : L.cells.length = L'.cells.length := by
  rw [cells, cells, List.length_flatten, List.length_flatten, h.rows]

theorem headers_length (h : L.Matches L') : L.headers.length = L'.headers.length := by
  rw [headers, headers, List.length_append, List.length_append, h.primary, h.secondary]

theorem cell_biUnique (h : L.Matches L') : Relator.BiUnique (L.SameCell L') :=
  Opposite.biUnique h.sound.cells_nodup h.sound'.cells_nodup

theorem column_biUnique (h : L.Matches L') : Relator.BiUnique (L.SameColumn L') :=
  Opposite.biUnique h.sound.headers_nodup h.sound'.headers_nodup

theorem vertical_biUnique (h : L.Matches L') :
    Relator.BiUnique (Opposite L.vertical L'.vertical) :=
  Opposite.biUnique h.sound.vertical_nodup h.sound'.vertical_nodup

theorem horizontal_biUnique (h : L.Matches L') :
    Relator.BiUnique (Opposite L.horizontal L'.horizontal) :=
  Opposite.biUnique h.sound.horizontal_nodup h.sound'.horizontal_nodup

theorem vertical_of_cell (h : L.Matches L') (hp : L.SameCell L' p p') :
    Opposite L.vertical L'.vertical p p' :=
  hp.append_left h.headers_length

theorem vertical_of_column (hc : L.SameColumn L' c c') : Opposite L.vertical L'.vertical c c' :=
  hc.append_right _ _

theorem horizontal_of_column (hc : L.SameColumn L' c c') :
    Opposite L.horizontal L'.horizontal c c' := by
  show Opposite ([L.primaryHead, L.secondaryHead] ++ L.headers)
    ([L'.primaryHead, L'.secondaryHead] ++ L'.headers) c c'
  exact hc.append_left rfl

/-- Cells can only be opposite to cells. -/
theorem cell_of_vertical (h : L.Matches L') (hp : Opposite L.vertical L'.vertical p p')
    (hcell : p ∈ L.cells) : L.SameCell L' p p' :=
  (hp.of_append h.headers_length).resolve_left fun hc =>
    h.sound.not_mem_headers hcell hc.mem_left

/-- Headers can only be opposite to headers. -/
theorem column_of_horizontal (h : L.Matches L') (hc : Opposite L.horizontal L'.horizontal c c')
    (hheader : c ∈ L.headers) : L.SameColumn L' c c' := by
  have hheads : c ∉ [L.primaryHead, L.secondaryHead] := by
    intro hmem
    have hnodup := h.sound.horizontal_nodup
    rw [horizontal, List.nodup_cons, List.nodup_cons, List.mem_cons, not_or] at hnodup
    rcases List.mem_cons.mp hmem with rfl | hmem
    · exact hnodup.1.2 hheader
    · obtain rfl := List.mem_singleton.mp hmem
      exact hnodup.2.1 hheader
  have hlength : [L.primaryHead, L.secondaryHead].length =
    [L'.primaryHead, L'.secondaryHead].length := rfl
  exact (Opposite.of_append hlength hc).resolve_left fun hhead => hheads hhead.mem_left

/-- Cells of the same rows, in order. -/
theorem rows_rel (h : L.Matches L') : List.Forall₂ (List.Forall₂ (L.SameCell L')) L.rows L'.rows :=
  Opposite.forall₂_flatten h.rows

/-- Cells of the same columns, in order. -/
theorem column_rel (h : L.Matches L') (hc : L.SameColumn L' c c') :
    List.Forall₂ (L.SameCell L') (L.column c) (L'.column c') := by
  refine List.rel_filter (fun p p' hp => ?_) (Opposite.forall₂ h.cells_length)
  simp only [decide_eq_true_eq]
  exact Relator.rel_eq h.column_biUnique (h.columnOf hp) hc

/-- The other cells of the same rows, in order. -/
theorem around_rel (h : L.Matches L') (hp : L.SameCell L' p p') :
    List.Forall₂ (L.SameCell L') (L.around p) (L'.around p') := by
  obtain ⟨hrow, hmem⟩ := h.sound.rowOf_mem hp.mem_left
  obtain ⟨row', hrow', hrel⟩ := exists_of_forall₂ h.rows_rel hrow
  obtain ⟨q', hq', hpq'⟩ := exists_of_forall₂ hrel hmem
  obtain rfl := h.cell_biUnique.2 hp hpq'
  rw [← h.sound'.rowOf_eq hrow' hq'] at hrel
  have hsame : ∀ q q', L.SameCell L' q q' → decide (q ≠ p) = decide (q' ≠ p') := by
    intro q q' hq
    rw [decide_eq_decide]
    exact not_congr (Relator.rel_eq h.cell_biUnique hq hp)
  rw [around, around, ← List.drop_one, ← List.drop_one]
  exact List.rel_append (List.forall₂_drop 1 (forall₂_dropWhile hrel hsame))
    (forall₂_takeWhile hrel hsame)

end Matches

end Layout

/-! ## Meshes that mirror each other -/

variable [BEq χ]

namespace Mesh

/-- The meshes are orderly, the links out of positions that correspond lead to positions that
correspond, and counts, paints and tints agree. -/
structure Mirrors (m : Mesh n χ) (m' : Mesh n' χ) (L : Layout n χ) (L' : Layout n' χ) :
    Prop where
  orderly : m.Orderly L
  orderly' : m'.Orderly L'
  down : Links.Mirrors (Opposite L.vertical L'.vertical) m.down m'.down
  across : Links.Mirrors (Opposite L.horizontal L'.horizontal) m.across m'.across
  count : ∀ {c : Fin n} {c' : Fin n'}, L.SameColumn L' c c' → m.count c = m'.count c'
  paint : ∀ {p : Fin n} {p' : Fin n'}, L.SameCell L' p p' → (m.paint p).Alike (m'.paint p')
  tint : ∀ {c : Fin n} {c' : Fin n'}, L.SameColumn L' c c' → TintAlike (m.tint c) (m'.tint c')

/-- Both results are meshes that mirror each other, or both are the same fault, and it is one that
misuse can lead to. -/
inductive Agree (L : Layout n χ) (L' : Layout n' χ) :
    Except Fault (Mesh n χ) → Except Fault (Mesh n' χ) → Prop where
  | ok {m : Mesh n χ} {m' : Mesh n' χ} (h : m.Mirrors m' L L') : Agree L L' (.ok m) (.ok m')
  | error {fault : Fault} (h : fault = .countUnderflow ∨ fault = .notPurified) :
    Agree L L' (.error fault) (.error fault)

variable {L : Layout n χ} {L' : Layout n' χ} {m : Mesh n χ} {m' : Mesh n' χ} {p c : Fin n}
  {p' c' : Fin n'}

theorem Agree.bind {result : Except Fault (Mesh n χ)} {result' : Except Fault (Mesh n' χ)}
    {f : Mesh n χ → Except Fault (Mesh n χ)} {f' : Mesh n' χ → Except Fault (Mesh n' χ)}
    (h : Agree L L' result result')
    (hf : ∀ {m m'}, m.Mirrors m' L L' → Agree L L' (f m) (f' m')) :
    Agree L L' (result >>= f) (result' >>= f') := by
  cases h with
  | ok h => exact hf h
  | error h => exact .error h

omit [BEq χ] in
/-- A sweep that is home is done. -/
theorem sweep_go_home (step : Mesh n χ → Fin n → Except Fault (Fin n))
    (visit : Fin n → Mesh n χ → Except Fault (Mesh n χ)) (home : Fin n) (fuel : Nat)
    (m : Mesh n χ) : sweep.go step visit home fuel home m = .ok m := by
  cases fuel <;> rw [sweep.go, if_pos rfl]

namespace Mirrors

theorem setCount (h : m.Mirrors m' L L') (hL : L.Matches L') (hc : L.SameColumn L' c c') (k : Nat) :
    (m.setCount c k).Mirrors (m'.setCount c' k) L L' where
  orderly := h.orderly.congr rfl rfl rfl
  orderly' := h.orderly'.congr rfl rfl rfl
  down := h.down
  across := h.across
  count hd := by
    rw [count_setCount, count_setCount, h.count hd]
    simp only [Relator.rel_eq hL.column_biUnique hd hc]
  paint := h.paint
  tint := h.tint

theorem setPaint (h : m.Mirrors m' L L') (hL : L.Matches L') (hp : L.SameCell L' p p')
    {paint paint' : Paint χ} (hpaint : paint.Alike paint') :
    (m.setPaint p paint).Mirrors (m'.setPaint p' paint') L L' where
  orderly := h.orderly.congr rfl rfl rfl
  orderly' := h.orderly'.congr rfl rfl rfl
  down := h.down
  across := h.across
  count := h.count
  paint hq := by
    rw [paint_setPaint, paint_setPaint]
    simp only [Relator.rel_eq hL.cell_biUnique hq hp]
    split
    · exact hpaint
    · exact h.paint hq
  tint := h.tint

theorem setTint (h : m.Mirrors m' L L') (hL : L.Matches L') (hc : L.SameColumn L' c c')
    {tint tint' : Option χ} (htint : TintAlike tint tint') :
    (m.setTint c tint).Mirrors (m'.setTint c' tint') L L' where
  orderly := h.orderly.congr rfl rfl rfl
  orderly' := h.orderly'.congr rfl rfl rfl
  down := h.down
  across := h.across
  count := h.count
  paint := h.paint
  tint hd := by
    rw [tint_setTint, tint_setTint]
    simp only [Relator.rel_eq hL.column_biUnique hd hc]
    split
    · exact htint
    · exact h.tint hd

theorem unlink_down (h : m.Mirrors m' L L') (hL : L.Matches L') (hp : L.SameCell L' p p') :
    ({ m with down := m.down.unlink p } : Mesh n χ).Mirrors
      { m' with down := m'.down.unlink p' } L L' :=
  { h with
    orderly := h.orderly.unlink_down hL.sound hp.mem_left
    orderly' := h.orderly'.unlink_down hL.sound' hp.mem_right
    down := h.down.unlink hL.vertical_biUnique (hL.vertical_of_cell hp) }

theorem relink_down (h : m.Mirrors m' L L') (hL : L.Matches L') (hp : L.SameCell L' p p') :
    ({ m with down := m.down.relink p } : Mesh n χ).Mirrors
      { m' with down := m'.down.relink p' } L L' :=
  { h with
    orderly := h.orderly.relink_down hL.sound hp.mem_left
    orderly' := h.orderly'.relink_down hL.sound' hp.mem_right
    down := h.down.relink hL.vertical_biUnique (hL.vertical_of_cell hp) }

theorem unlink_across (h : m.Mirrors m' L L') (hL : L.Matches L') (hc : L.SameColumn L' c c') :
    ({ m with across := m.across.unlink c } : Mesh n χ).Mirrors
      { m' with across := m'.across.unlink c' } L L' :=
  { h with
    orderly := h.orderly.unlink_across hL.sound hc.mem_left
    orderly' := h.orderly'.unlink_across hL.sound' hc.mem_right
    across := h.across.unlink hL.horizontal_biUnique (Layout.Matches.horizontal_of_column hc) }

theorem relink_across (h : m.Mirrors m' L L') (hL : L.Matches L') (hc : L.SameColumn L' c c') :
    ({ m with across := m.across.relink c } : Mesh n χ).Mirrors
      { m' with across := m'.across.relink c' } L L' :=
  { h with
    orderly := h.orderly.relink_across hL.sound hc.mem_left
    orderly' := h.orderly'.relink_across hL.sound' hc.mem_right
    across := h.across.relink hL.horizontal_biUnique (Layout.Matches.horizontal_of_column hc) }

theorem column_rel (h : m.Mirrors m' L L') (hL : L.Matches L') (hp : L.SameCell L' p p') :
    L.SameColumn L' (m.column p) (m'.column p') := by
  rw [h.orderly.column_eq, h.orderly'.column_eq]
  exact hL.columnOf hp

/-- The walks down or up two columns that are opposite, as lists of links. -/
theorem parallel_down (h : m.Mirrors m' L L') (hL : L.Matches L') (hc : L.SameColumn L' c c') :
    Links.Parallel (Opposite L.vertical L'.vertical) m.down m'.down c c' (L.column c)
      (L'.column c') where
  biUnique := hL.vertical_biUnique
  mirrors := h.down
  rises := h.orderly.column c hc.mem_left
  rises' := h.orderly'.column c' hc.mem_right
  homes := Layout.Matches.vertical_of_column hc

variable {visit : Fin n → Mesh n χ → Except Fault (Mesh n χ)}
  {visit' : Fin n' → Mesh n' χ → Except Fault (Mesh n' χ)}

/-- A step along two columns that are opposite leads back to the headers, or to cells that are
opposite and of lower rank. -/
def Descends (L : Layout n χ) (L' : Layout n' χ) (rank : Fin n → Nat) (rank' : Fin n' → Nat)
    (c : Fin n) (c' : Fin n') (p : Fin n) (p' : Fin n') (q : Fin n) (q' : Fin n') : Prop :=
  (q = c ∧ q' = c') ∨ (Opposite L.vertical L'.vertical q q' ∧
    (q ≠ c ∧ q ∈ L.column c ∧ (p = c ∨ rank q < rank p)) ∧
      (q' ≠ c' ∧ q' ∈ L'.column c' ∧ (p' = c' ∨ rank' q' < rank' p')))

/-- Sweeps along two columns that are opposite agree if the visits do and every step descends. The
rank bounds the number of visits that are left. -/
theorem sweep_along (h : m.Mirrors m' L L') (hL : L.Matches L') (hc : L.SameColumn L' c c')
    {step : Mesh n χ → Fin n → Fin n} {step' : Mesh n' χ → Fin n' → Fin n'}
    (rank : Fin n → Nat) (rank' : Fin n' → Nat) (hrank : ∀ p, 0 < rank p ∧ rank p ≤ n)
    (hrank' : ∀ p', 0 < rank' p' ∧ rank' p' ≤ n')
    (hstep : ∀ {m m' p p'}, m.Mirrors m' L L' → Opposite L.vertical L'.vertical p p' →
      p ∈ c :: L.column c → p' ∈ c' :: L'.column c' →
        Descends L L' rank rank' c c' p p' (step m p) (step' m' p'))
    (hvisit : ∀ {m m' p p'}, m.Mirrors m' L L' → L.SameCell L' p p' →
      Agree L L' (visit p m) (visit' p' m')) :
    Agree L L' (m.sweep (fun m p => .ok (step m p)) visit c)
      (m'.sweep (fun m p => .ok (step' m p)) visit' c') := by
  have hgo : ∀ (fuel fuel' : Nat) (p : Fin n) (p' : Fin n') (m : Mesh n χ) (m' : Mesh n' χ),
      m.Mirrors m' L L' → (p = c ∧ p' = c') ∨ (Opposite L.vertical L'.vertical p p' ∧
        (p ≠ c ∧ p ∈ L.column c ∧ rank p ≤ fuel) ∧
          (p' ≠ c' ∧ p' ∈ L'.column c' ∧ rank' p' ≤ fuel')) →
      Agree L L' (sweep.go (fun m p => .ok (step m p)) visit c fuel p m)
        (sweep.go (fun m p => .ok (step' m p)) visit' c' fuel' p' m') := by
    intro fuel
    induction fuel with
    | zero =>
      rintro fuel' p p' m m' h (⟨rfl, rfl⟩ | ⟨-, ⟨-, -, hfuel⟩, -⟩)
      · rw [sweep_go_home, sweep_go_home]
        exact .ok h
      · have hpos := (hrank p).1
        omega
    | succ fuel ih =>
      rintro fuel' p p' m m' h (⟨rfl, rfl⟩ | ⟨hR, ⟨hne, hp, hfuel⟩, hne', hp', hfuel'⟩)
      · rw [sweep_go_home, sweep_go_home]
        exact .ok h
      · have hpos := (hrank' p').1
        obtain ⟨fuel', rfl⟩ : ∃ k, fuel' = k + 1 := Nat.exists_eq_add_one.mpr (by omega)
        have hcell := hL.cell_of_vertical hR (Layout.mem_column.mp hp).1
        rw [sweep.go, if_neg hne, sweep.go, if_neg hne']
        refine (hvisit h hcell).bind fun h₁ => ih _ _ _ _ _ h₁ ?_
        rcases hstep h₁ hR (List.mem_cons_of_mem _ hp) (List.mem_cons_of_mem _ hp') with
          hhome | ⟨hR, ⟨hq, hmem, hlt⟩, hq', hmem', hlt'⟩
        · exact .inl hhome
        · have hlower := hlt.resolve_left hne
          have hlower' := hlt'.resolve_left hne'
          exact .inr ⟨hR, ⟨hq, hmem, by omega⟩, hq', hmem', by omega⟩
  apply hgo n n' _ _ m m' h
  rcases hstep h (Layout.Matches.vertical_of_column hc) List.mem_cons_self List.mem_cons_self with
    hhome | ⟨hR, ⟨hq, hmem, -⟩, hq', hmem', -⟩
  · exact .inl hhome
  · exact .inr ⟨hR, ⟨hq, hmem, (hrank _).2⟩, hq', hmem', (hrank' _).2⟩

/-- Sweeps down two columns that are opposite agree if the visits do. -/
theorem sweepDown (h : m.Mirrors m' L L') (hL : L.Matches L') (hc : L.SameColumn L' c c')
    (hvisit : ∀ {m m' p p'}, m.Mirrors m' L L' → L.SameCell L' p p' →
      Agree L L' (visit p m) (visit' p' m')) :
    Agree L L' (m.sweepDown visit c) (m'.sweepDown visit' c') := by
  refine h.sweep_along hL hc (fun p => n - p.val) (fun p' => n' - p'.val)
    (fun p => by omega) (fun p' => by omega) (fun h hR hp hp' => ?_) hvisit
  exact ((h.parallel_down hL hc).next_cases hR hp hp').imp_right
    fun ⟨hR, ⟨hq, hmem, hlt⟩, hq', hmem', hlt'⟩ =>
      ⟨hR, ⟨hq, hmem, hlt.imp_right fun hlt => by simp only [below]; omega⟩,
        hq', hmem', hlt'.imp_right fun hlt' => by simp only [below]; omega⟩

/-- Sweeps up two columns that are opposite agree if the visits do. -/
theorem sweepUp (h : m.Mirrors m' L L') (hL : L.Matches L') (hc : L.SameColumn L' c c')
    (hvisit : ∀ {m m' p p'}, m.Mirrors m' L L' → L.SameCell L' p p' →
      Agree L L' (visit p m) (visit' p' m')) :
    Agree L L' (m.sweepUp visit c) (m'.sweepUp visit' c') := by
  refine h.sweep_along hL hc (fun p => p.val + 1) (fun p' => p'.val + 1)
    (fun p => by omega) (fun p' => by omega) (fun h hR hp hp' => ?_) hvisit
  exact ((h.parallel_down hL hc).prev_cases hR hp hp').imp_right
    fun ⟨hR, ⟨hq, hmem, hlt⟩, hq', hmem', hlt'⟩ =>
      ⟨hR, ⟨hq, hmem, hlt.imp_right fun hlt => by simp only [above]; omega⟩,
        hq', hmem', hlt'.imp_right fun hlt' => by simp only [above]; omega⟩

section Routes

variable {step : Mesh n χ → Fin n → Except Fault (Fin n)}
  {step' : Mesh n' χ → Fin n' → Except Fault (Fin n')} {route : List (Fin n)}
  {route' : List (Fin n')}
  (hleads : ∀ {m : Mesh n χ} {m' : Mesh n' χ}, m.Mirrors m' L L' →
    m.Leads step p route ∧ m'.Leads step' p' route')
  (hvisit : ∀ {m : Mesh n χ} {m' : Mesh n' χ} {p : Fin n} {p' : Fin n'}, m.Mirrors m' L L' →
    L.SameCell L' p p' → Agree L L' (visit p m) (visit' p' m'))

include hleads hvisit

/-- Sweeps that have passed a part of their routes go on with what is left of them. -/
private theorem sweep_go_route {ps : List (Fin n)} {ps' : List (Fin n')}
    (hrel : List.Forall₂ (L.SameCell L') ps ps') {past : List (Fin n)} {past' : List (Fin n')}
    (hroute : route = past ++ ps) (hroute' : route' = past' ++ ps') {q : Fin n} {q' : Fin n'}
    {rear : List (Fin n)} {rear' : List (Fin n')} (hq : ps ++ [p] = q :: rear)
    (hq' : ps' ++ [p'] = q' :: rear') {fuel fuel' : Nat} (hfuel : ps.length ≤ fuel)
    (hfuel' : ps'.length ≤ fuel') {m : Mesh n χ} {m' : Mesh n' χ} (h : m.Mirrors m' L L') :
    Agree L L' (sweep.go step visit p fuel q m) (sweep.go step' visit' p' fuel' q' m') := by
  induction hrel generalizing past past' q q' rear rear' fuel fuel' m m' with
  | nil =>
    obtain ⟨rfl, -⟩ := List.cons.inj hq
    obtain ⟨rfl, -⟩ := List.cons.inj hq'
    rw [sweep_go_home, sweep_go_home]
    exact .ok h
  | @cons r r' ps ps' hr _ ih =>
    obtain ⟨rfl, -⟩ := List.cons.inj hq
    obtain ⟨rfl, -⟩ := List.cons.inj hq'
    rw [List.length_cons] at hfuel hfuel'
    obtain ⟨fuel, rfl⟩ : ∃ k, fuel = k + 1 := Nat.exists_eq_add_one.mpr (by omega)
    obtain ⟨fuel', rfl⟩ : ∃ k, fuel' = k + 1 := Nat.exists_eq_add_one.mpr (by omega)
    have hne : r ≠ p := by
      rintro rfl
      exact (List.nodup_cons.mp (hleads h).1.nodup).1 (by simp [hroute])
    have hne' : r' ≠ p' := by
      rintro rfl
      exact (List.nodup_cons.mp (hleads h).2.nodup).1 (by simp [hroute'])
    obtain ⟨s, rest, hs⟩ : ∃ s rest, ps ++ [p] = s :: rest :=
      List.exists_cons_of_ne_nil (by simp)
    obtain ⟨s', rest', hs'⟩ : ∃ s rest, ps' ++ [p'] = s :: rest :=
      List.exists_cons_of_ne_nil (by simp)
    rw [sweep.go, if_neg hne, sweep.go, if_neg hne']
    refine (hvisit h hr).bind fun {m₁ m₁'} h₁ => ?_
    rw [(hleads h₁).1.step_eq hroute hs, (hleads h₁).2.step_eq hroute' hs']
    have hpast : route = (past ++ [r]) ++ ps := by simp [hroute]
    have hpast' : route' = (past' ++ [r']) ++ ps' := by simp [hroute']
    exact ih hpast hpast' hs hs' (by omega) (by omega) h₁

/-- Sweeps along two routes that stay agree if the visits to positions that are opposite do. -/
theorem sweep_route (h : m.Mirrors m' L L') (hroute : List.Forall₂ (L.SameCell L') route route') :
    Agree L L' (m.sweep step visit p) (m'.sweep step' visit' p') := by
  obtain ⟨hleadsHere, hleadsHere'⟩ := hleads h
  obtain ⟨q, rear, hq⟩ : ∃ q rear, route ++ [p] = q :: rear :=
    List.exists_cons_of_ne_nil (by simp)
  obtain ⟨q', rear', hq'⟩ : ∃ q rear, route' ++ [p'] = q :: rear :=
    List.exists_cons_of_ne_nil (by simp)
  rw [sweep, sweep, hleadsHere.start_eq hq, hleadsHere'.start_eq hq']
  exact sweep_go_route hleads hvisit hroute (List.nil_append _).symm (List.nil_append _).symm hq hq'
    hleadsHere.length_le hleadsHere'.length_le h

end Routes

/-- Sweeps to the right around two rows that are opposite agree if the visits do. -/
theorem sweepRight (h : m.Mirrors m' L L') (hL : L.Matches L') (hp : L.SameCell L' p p')
    (hvisit : ∀ {m m' p p'}, m.Mirrors m' L L' → L.SameCell L' p p' →
      Agree L L' (visit p m) (visit' p' m')) :
    Agree L L' (m.sweepRight visit p) (m'.sweepRight visit' p') :=
  sweep_route (fun h => ⟨(h.orderly.leads_around hL.sound hp.mem_left).1,
    (h.orderly'.leads_around hL.sound' hp.mem_right).1⟩) hvisit h (hL.around_rel hp)

/-- Sweeps to the left around two rows that are opposite agree if the visits do. -/
theorem sweepLeft (h : m.Mirrors m' L L') (hL : L.Matches L') (hp : L.SameCell L' p p')
    (hvisit : ∀ {m m' p p'}, m.Mirrors m' L L' → L.SameCell L' p p' →
      Agree L L' (visit p m) (visit' p' m')) :
    Agree L L' (m.sweepLeft visit p) (m'.sweepLeft visit' p') :=
  sweep_route (fun h => ⟨(h.orderly.leads_around hL.sound hp.mem_left).2,
    (h.orderly'.leads_around hL.sound' hp.mem_right).2⟩) hvisit h
    (List.rel_reverse (hL.around_rel hp))

theorem detach (h : m.Mirrors m' L L') (hL : L.Matches L') (hp : L.SameCell L' p p') :
    Agree L L' (Mesh.detach p m) (Mesh.detach p' m') := by
  have hcell := h.orderly.isCell hL.sound hp.mem_left
  have hcell' := h.orderly'.isCell hL.sound' hp.mem_right
  have hcolumn := h.column_rel hL hp
  rw [Mesh.detach, Mesh.detach]
  simp only [hcell, hcell', (h.paint hp).isPurified_eq, h.count hcolumn]
  cases (m.paint p).isPurified with
  | true => exact .ok h
  | false =>
    cases m'.count (m'.column p') with
    | zero => exact .error (.inl rfl)
    | succ k => exact .ok ((h.unlink_down hL hp).setCount hL hcolumn k)

theorem attach (h : m.Mirrors m' L L') (hL : L.Matches L') (hp : L.SameCell L' p p') :
    Agree L L' (Mesh.attach p m) (Mesh.attach p' m') := by
  have hcell := h.orderly.isCell hL.sound hp.mem_left
  have hcell' := h.orderly'.isCell hL.sound' hp.mem_right
  have hcolumn := h.column_rel hL hp
  rw [Mesh.attach, Mesh.attach]
  simp only [hcell, hcell', (h.paint hp).isPurified_eq, h.count hcolumn]
  cases (m.paint p).isPurified with
  | true => exact .ok h
  | false => exact .ok ((h.relink_down hL hp).setCount hL hcolumn _)

theorem hide (h : m.Mirrors m' L L') (hL : L.Matches L') (hp : L.SameCell L' p p') :
    Agree L L' (Mesh.hide p m) (Mesh.hide p' m') :=
  h.sweepRight hL hp fun h hp => h.detach hL hp

theorem unhide (h : m.Mirrors m' L L') (hL : L.Matches L') (hp : L.SameCell L' p p') :
    Agree L L' (Mesh.unhide p m) (Mesh.unhide p' m') :=
  h.sweepLeft hL hp fun h hp => h.attach hL hp

theorem cover (h : m.Mirrors m' L L') (hL : L.Matches L') (hc : L.SameColumn L' c c') :
    Agree L L' (Mesh.cover c m) (Mesh.cover c' m') :=
  (h.sweepDown hL hc fun h hp => h.hide hL hp).bind fun h => .ok (h.unlink_across hL hc)

theorem uncover (h : m.Mirrors m' L L') (hL : L.Matches L') (hc : L.SameColumn L' c c') :
    Agree L L' (Mesh.uncover c m) (Mesh.uncover c' m') :=
  (h.relink_across hL hc).sweepUp hL hc fun h hp => h.unhide hL hp

variable [EquivBEq χ] {color color' : χ}

theorem restrict (h : m.Mirrors m' L L') (hL : L.Matches L') (hp : L.SameCell L' p p')
    (hcolor : color == color') :
    Agree L L' (Mesh.purify.restrict color p m) (Mesh.purify.restrict color' p' m') := by
  have halike := h.paint hp
  rw [Mesh.purify.restrict, Mesh.purify.restrict]
  cases hpaint : m.paint p with
  | uncolored =>
    rw [hpaint] at halike
    generalize m'.paint p' = paint' at halike
    cases halike
    exact h.hide hL hp
  | purified =>
    rw [hpaint] at halike
    generalize m'.paint p' = paint' at halike
    cases halike
    exact h.hide hL hp
  | colored other =>
    rw [hpaint] at halike
    generalize m'.paint p' = paint' at halike
    cases halike with
    | @colored _ other' hother =>
      have hsame : (other == color) = (other' == color') := by
        rw [BEq.congr_left hother, BEq.congr_right hcolor]
      simp only [hsame]
      split
      · exact .ok (h.setPaint hL hp .purified)
      · exact h.hide hL hp

theorem purify (h : m.Mirrors m' L L') (hL : L.Matches L') (hc : L.SameColumn L' c c')
    (hcolor : color == color') :
    Agree L L' (Mesh.purify c color m) (Mesh.purify c' color' m') :=
  (h.sweepDown hL hc fun h hp => h.restrict hL hp hcolor).bind fun h =>
    .ok (h.setTint hL hc (.some hcolor))

omit [EquivBEq χ] in
theorem release (h : m.Mirrors m' L L') (hL : L.Matches L') (hp : L.SameCell L' p p')
    (hcolor : color == color') :
    Agree L L' (Mesh.unpurify.release color p m) (Mesh.unpurify.release color' p' m') := by
  rw [Mesh.unpurify.release, Mesh.unpurify.release, (h.paint hp).isPurified_eq]
  split
  · exact .ok (h.setPaint hL hp (.colored hcolor))
  · exact h.unhide hL hp

omit [EquivBEq χ] in
theorem unpurify (h : m.Mirrors m' L L') (hL : L.Matches L') (hc : L.SameColumn L' c c') :
    Agree L L' (Mesh.unpurify c m) (Mesh.unpurify c' m') := by
  have htint := h.tint hc
  rw [Mesh.unpurify, Mesh.unpurify]
  generalize m.tint c = tint at htint
  generalize m'.tint c' = tint' at htint
  cases htint with
  | none => exact .error (.inr rfl)
  | some hcolor =>
    exact (h.setTint hL hc .none).sweepUp hL hc fun h hp => h.release hL hp hcolor

theorem commit (h : m.Mirrors m' L L') (hL : L.Matches L') (hp : L.SameCell L' p p') :
    Agree L L' (Mesh.commit p m) (Mesh.commit p' m') := by
  have hcell := h.orderly.isCell hL.sound hp.mem_left
  have hcell' := h.orderly'.isCell hL.sound' hp.mem_right
  have hcolumn := h.column_rel hL hp
  have halike := h.paint hp
  rw [Mesh.commit, Mesh.commit]
  simp only [hcell, hcell']
  generalize m.paint p = paint at halike
  generalize m'.paint p' = paint' at halike
  cases halike with
  | uncolored => exact h.cover hL hcolumn
  | colored hcolor => exact h.purify hL hcolumn hcolor
  | purified => exact .ok h

omit [EquivBEq χ] in
theorem uncommit (h : m.Mirrors m' L L') (hL : L.Matches L') (hp : L.SameCell L' p p') :
    Agree L L' (Mesh.uncommit p m) (Mesh.uncommit p' m') := by
  have hcell := h.orderly.isCell hL.sound hp.mem_left
  have hcell' := h.orderly'.isCell hL.sound' hp.mem_right
  have hcolumn := h.column_rel hL hp
  have halike := h.paint hp
  rw [Mesh.uncommit, Mesh.uncommit]
  simp only [hcell, hcell']
  generalize m.paint p = paint at halike
  generalize m'.paint p' = paint' at halike
  cases halike with
  | uncolored => exact h.uncover hL hcolumn
  | colored _ => exact h.unpurify hL hcolumn
  | purified => exact .ok h

theorem commitRow (h : m.Mirrors m' L L') (hL : L.Matches L') (hp : L.SameCell L' p p') :
    Agree L L' (Mesh.commitRow p m) (Mesh.commitRow p' m') :=
  h.sweepRight hL hp fun h hp => h.commit hL hp

omit [EquivBEq χ] in
theorem uncommitRow (h : m.Mirrors m' L L') (hL : L.Matches L') (hp : L.SameCell L' p p') :
    Agree L L' (Mesh.uncommitRow p m) (Mesh.uncommitRow p' m') :=
  h.sweepLeft hL hp fun h hp => h.uncommit hL hp

end Mirrors

end Mesh

end ExactCover
