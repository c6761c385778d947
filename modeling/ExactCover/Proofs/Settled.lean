import ExactCover.Proofs.Settle
import Mathlib.Data.List.TakeWhile

/-!
# What a mesh shows after columns were settled

The columns that were settled since a mesh was at rest, in order and each with the color that it
was restricted to, determine its picture. A row *fits* some settled columns if it has no cell in
those that were covered and agrees with the colors of the others. A column that is not settled
shows the rows that fit all settled columns. A settled column still shows the rows that fitted the
columns settled before it, since none of them has been touched again.

So settling one column more leads from one such picture to the next (`exists_settle`), and so does
committing a row, which settles all columns of the row that are not settled yet
(`exists_commitRow_of_covered`).
-/

set_option autoImplicit false

namespace ExactCover

variable {n : Nat} {χ : Type}

/-- The color that a cell restricts its column to, if any. -/
def Paint.tint? : Paint χ → Option χ
  | .colored color => some color
  | _ => none

namespace Layout

variable {settled : List (Fin n × Option χ)} {c : Fin n}

/-- The part of the settled columns that was settled before a column was. -/
def settledBefore (settled : List (Fin n × Option χ)) (c : Fin n) : List (Fin n × Option χ) :=
  settled.takeWhile fun x => x.1 ≠ c

theorem settledBefore_subset : settledBefore settled c ⊆ settled :=
  (List.takeWhile_prefix _).subset

theorem settledBefore_eq_self (hc : c ∉ settled.map (·.1)) : settledBefore settled c = settled := by
  rw [settledBefore, List.takeWhile_eq_self_iff]
  intro x hx
  simpa using fun heq : x.1 = c => hc (heq ▸ List.mem_map_of_mem hx)

theorem settledBefore_append {settled' : List (Fin n × Option χ)} (hc : c ∈ settled.map (·.1)) :
    settledBefore (settled ++ settled') c = settledBefore settled c := by
  obtain ⟨x, hx, rfl⟩ := List.mem_map.mp hc
  induction settled with
  | nil => simp at hx
  | cons y settled ih =>
    by_cases hy : y.1 = x.1
    · simp [settledBefore, hy]
    · have hx' : x ∈ settled := (List.mem_cons.mp hx).resolve_left fun heq => hy (heq ▸ rfl)
      rw [settledBefore, settledBefore, List.cons_append,
        List.takeWhile_cons_of_pos (by simpa using hy),
        List.takeWhile_cons_of_pos (by simpa using hy)]
      exact congrArg _ (ih hx' (List.mem_map_of_mem hx'))

theorem settledBefore_concat (hc : c ∉ settled.map (·.1)) (tint : Option χ) :
    settledBefore (settled ++ [(c, tint)]) c = settled := by
  rw [settledBefore, List.takeWhile_append_of_pos, List.takeWhile_cons_of_neg (by simp),
    List.append_nil]
  intro x hx
  simpa using fun heq : x.1 = c => hc (heq ▸ List.mem_map_of_mem hx)

theorem any_settled_eq_false {f : Fin n × Option χ → Bool} (hc : c ∉ settled.map (·.1)) :
    (settled.any fun x => x.1 = c && f x) = false := by
  rw [List.any_eq_false]
  intro x hx
  simp [show x.1 ≠ c from fun heq => hc (heq ▸ List.mem_map_of_mem hx)]

variable (L : Layout n χ)

/-- What cells settle of the columns that are not settled. -/
def claims (settled : List (Fin n × Option χ)) (qs : List (Fin n)) : List (Fin n × Option χ) :=
  (qs.filter fun q => !(settled.map (·.1)).contains (L.columnOf q)).map fun q =>
    (L.columnOf q, (L.paint q).tint?)

/-- The columns that are settled once a row was chosen from the column of one of its cells. -/
def choose (settled : List (Fin n × Option χ)) (p : Fin n) : List (Fin n × Option χ) :=
  settled ++ (L.columnOf p, none) :: L.claims settled (L.around p)

variable {L}

theorem map_fst_claims (qs : List (Fin n)) :
    (L.claims settled qs).map (·.1) =
      (qs.map L.columnOf).filter fun c => c ∉ settled.map (·.1) := by
  simp [claims, List.filter_map, Function.comp_def]

theorem claims_concat (qs : List (Fin n)) (q : Fin n) :
    L.claims settled (qs ++ [q]) = L.claims settled qs ++
      if L.columnOf q ∈ settled.map (·.1) then [] else [(L.columnOf q, (L.paint q).tint?)] := by
  rw [claims, claims, List.filter_append, List.map_append]
  by_cases hq : L.columnOf q ∈ settled.map (·.1)
  · rw [if_pos hq, List.filter_cons_of_neg (by simpa using hq)]
    rfl
  · rw [if_neg hq, List.filter_cons_of_pos (by simpa using hq)]
    rfl

theorem mem_map_fst_choose (hL : L.Proper) {p : Fin n} (hp : p ∈ L.cells) :
    c ∈ (L.choose settled p).map (·.1) ↔
      c ∈ settled.map (·.1) ∨ ∃ q ∈ L.rowOf p, L.columnOf q = c := by
  have hpRow := (hL.rowOf_mem hp).2
  rw [choose, List.map_append, List.map_cons, map_fst_claims, List.mem_append]
  constructor
  · intro h
    rcases h with h | h
    · exact .inl h
    · rcases List.mem_cons.mp h with rfl | h
      · exact .inr ⟨p, hpRow, rfl⟩
      · obtain ⟨q, hq, hqc⟩ := List.mem_map.mp (List.mem_of_mem_filter h)
        exact .inr ⟨q, ((hL.mem_around hp).mp hq).1, hqc⟩
  · intro h
    by_cases hmem : c ∈ settled.map (·.1)
    · exact .inl hmem
    · obtain ⟨q, hq, rfl⟩ := h.resolve_left hmem
      refine .inr (List.mem_cons.mpr ?_)
      by_cases hqp : q = p
      · exact .inl (congrArg _ hqp)
      · refine .inr (List.mem_filter.mpr ⟨?_, by simpa using hmem⟩)
        exact List.mem_map_of_mem ((hL.mem_around hp).mpr ⟨hq, hqp⟩)

variable [BEq χ] (L)

/-- Whether a cell can stay when a column is settled: it is in another column, or the column is
restricted to a color that the cell has. -/
def accepts (x : Fin n × Option χ) (p : Fin n) : Bool :=
  L.columnOf p ≠ x.1 || (L.paint p).matchesTint x.2

/-- Whether all cells of the row of a cell can stay when columns are settled. -/
def fits (settled : List (Fin n × Option χ)) (p : Fin n) : Bool :=
  (L.rowOf p).all fun q => settled.all fun x => L.accepts x q

/-- What a mesh looks like once columns have been settled. -/
def picture (settled : List (Fin n × Option χ)) : Picture n χ where
  hangs p := L.fits (settledBefore settled (L.columnOf p)) p
  paint p :=
    if L.fits (settledBefore settled (L.columnOf p)) p &&
      settled.any fun x => x.1 = L.columnOf p && (L.paint p).matchesTint x.2
    then .purified else L.paint p
  tint c := (settled.find? fun x => x.1 = c).bind (·.2)
  isOpen c := !settled.any fun x => x.1 = c && x.2.isNone

variable {L} {tint : Option χ}

theorem fits_eq_true_iff {p : Fin n} :
    L.fits settled p ↔ ∀ q ∈ L.rowOf p, ∀ x ∈ settled, L.columnOf q = x.1 →
      (L.paint q).matchesTint x.2 := by
  simp only [fits, accepts, List.all_eq_true, Bool.or_eq_true, decide_eq_true_eq]
  apply forall₄_congr
  intro q _ x _
  tauto

/-- The cells of a row fit together. -/
theorem Proper.fits_eq (hL : L.Proper) {p q : Fin n} (hp : p ∈ L.cells) (hq : q ∈ L.rowOf p) :
    L.fits settled q = L.fits settled p := by
  rw [fits, fits, (hL.rowOf_eq_of_mem hp hq).2]

/-- A row that fits more columns fits fewer. -/
theorem fits_of_subset {settled' : List (Fin n × Option χ)} {p : Fin n} (h : L.fits settled p)
    (hsub : settled' ⊆ settled) : L.fits settled' p := by
  rw [fits_eq_true_iff] at h ⊢
  exact fun q hq x hx => h q hq x (hsub hx)

theorem fits_concat {x : Fin n × Option χ} {p : Fin n} :
    L.fits (settled ++ [x]) p = (L.fits settled p && (L.rowOf p).all (L.accepts x)) := by
  rw [Bool.eq_iff_iff]
  simp only [fits, List.all_eq_true, Bool.and_eq_true, List.mem_append, List.mem_singleton]
  grind

/-- A row with a cell in a covered column fits nothing any more. -/
theorem Proper.fits_eq_false_of_covered (hL : L.Proper) {p q : Fin n} (hp : p ∈ L.cells)
    (hq : q ∈ L.rowOf p) (hcovered : (L.columnOf p, none) ∈ settled) :
    L.fits settled q = false := by
  rw [Bool.eq_false_iff]
  intro hfits
  have hpRow : p ∈ L.rowOf q := by
    rw [(hL.rowOf_eq_of_mem hp hq).2]
    exact (hL.rowOf_mem hp).2
  have hmatch := fits_eq_true_iff.mp hfits p hpRow (L.columnOf p, none) hcovered rfl
  simp at hmatch

omit [BEq χ] in
/-- What the first cells on the way around a row settle is not the column of the next one. -/
theorem Proper.not_mem_claims (hL : L.Proper) {p q : Fin n} {done rest : List (Fin n)}
    (hp : p ∈ L.cells) (hnodup : (p :: L.around p).Nodup) (hroute : L.around p = done ++ q :: rest)
    (hsettled : L.columnOf q ∉ settled.map (·.1)) :
    L.columnOf q ∉ (settled ++ L.claims settled done).map (·.1) := by
  have hq := (hL.mem_around hp).mp (show q ∈ L.around p by simp [hroute])
  intro hmem
  rw [List.map_append, map_fst_claims, List.mem_append] at hmem
  obtain ⟨r, hr, hcolumn⟩ :=
    List.mem_map.mp (List.mem_of_mem_filter (hmem.resolve_left hsettled))
  have hrRow := (hL.mem_around hp).mp (hroute ▸ List.mem_append_left _ hr)
  obtain ⟨hrCell, hrow⟩ := hL.rowOf_eq_of_mem hp hrRow.1
  obtain rfl := hL.eq_of_columnOf_eq hrCell (hrow ▸ hq.1) hcolumn.symm
  rw [hroute] at hnodup
  exact (List.nodup_append.mp (List.nodup_cons.mp hnodup).2).2.2 q hr q (by simp) rfl

omit [BEq χ] in
/-- A column that a row has a cell in and that was settled otherwise makes no difference to what
the other cells of the row settle. -/
theorem Proper.claims_concat_self (hL : L.Proper) {p : Fin n} (hp : p ∈ L.cells)
    (tint : Option χ) :
    L.claims (settled ++ [(L.columnOf p, tint)]) (L.around p) = L.claims settled (L.around p) := by
  rw [claims, claims]
  congr 1
  apply List.filter_congr
  intro q hq
  obtain ⟨hqRow, hqp⟩ := (hL.mem_around hp).mp hq
  have hne : L.columnOf q ≠ L.columnOf p := fun heq => hqp (hL.eq_of_columnOf_eq hp hqRow heq)
  simp [hne]

/-- At rest all cells hang in their columns. -/
theorem hangs_picture_nil (p : Fin n) : (L.picture []).hangs p := by
  simp [picture, settledBefore, fits]

/-- The cells of a column that is not settled ask for what they ask for at rest. -/
theorem paint_picture {p : Fin n} (hp : L.columnOf p ∉ settled.map (·.1)) :
    (L.picture settled).paint p = L.paint p := by
  simp [picture, any_settled_eq_false hp]

/-- When a column is settled, those of its cells are marked that have the color and whose row fits.
-/
theorem paint_picture_concat {p : Fin n} (hopen : L.columnOf p ∉ settled.map (·.1)) :
    (L.picture (settled ++ [(L.columnOf p, tint)])).paint p =
      if L.fits settled p && (L.paint p).matchesTint tint then .purified else L.paint p := by
  simp only [picture, List.any_append, any_settled_eq_false hopen, settledBefore_concat hopen]
  simp

/-- In a column that is not settled hang the rows that fit. -/
theorem hangs_picture {p : Fin n} (hp : L.columnOf p ∉ settled.map (·.1)) :
    (L.picture settled).hangs p = L.fits settled p := by
  simp only [picture, settledBefore_eq_self hp]

/-- A column that is not settled shows the rows that fit. -/
theorem filter_hangs_picture (hc : c ∉ settled.map (·.1)) :
    (L.column c).filter (L.picture settled).hangs = (L.column c).filter (L.fits settled) :=
  List.filter_congr fun _ hp => hangs_picture ((mem_column.mp hp).2 ▸ hc)

/-- A cell in a settled column is marked if its row fits. -/
theorem Proper.isPurified_picture_of_fits (hL : L.Proper) {p : Fin n} (hp : p ∈ L.cells)
    (hfits : L.fits settled p) (hmem : L.columnOf p ∈ settled.map (·.1)) :
    ((L.picture settled).paint p).isPurified := by
  obtain ⟨x, hx, hxp⟩ := List.mem_map.mp hmem
  have hmatch := fits_eq_true_iff.mp hfits p (hL.rowOf_mem hp).2 x hx hxp.symm
  have hany : (settled.any fun x => x.1 = L.columnOf p && (L.paint p).matchesTint x.2) = true :=
    List.any_eq_true.mpr ⟨x, hx, by simp [hxp, hmatch]⟩
  have hbefore : L.fits (settledBefore settled (L.columnOf p)) p = true :=
    fits_of_subset hfits settledBefore_subset
  simp only [picture, hbefore, hany, Bool.and_self, if_true, Paint.isPurified_purified]

/-- A cell that is marked stays so when more columns are settled. -/
theorem Proper.isPurified_picture_append (hL : L.Proper) {p : Fin n} (hp : p ∈ L.cells)
    (hmarked : ((L.picture settled).paint p).isPurified) (later : List (Fin n × Option χ)) :
    ((L.picture (settled ++ later)).paint p).isPurified := by
  by_cases hmem : L.columnOf p ∈ settled.map (·.1)
  · simp only [picture] at hmarked
    split at hmarked
    · next hcond =>
      rw [Bool.and_eq_true] at hcond
      simp only [picture, settledBefore_append hmem, List.any_append, hcond.1, hcond.2,
        Bool.true_or, Bool.and_self, if_true, Paint.isPurified_purified]
    · rw [hL.isPurified_paint p hp] at hmarked
      contradiction
  · rw [paint_picture hmem, hL.isPurified_paint p hp] at hmarked
    contradiction

/-- What is not settled yet can be settled. -/
theorem Proper.canSettle (hL : L.Proper) (hc : c ∉ settled.map (·.1)) :
    (L.picture settled).CanSettle L c where
  isPurified_paint p hp := by
    obtain ⟨hpCell, rfl⟩ := mem_column.mp hp
    rw [paint_picture hc]
    exact hL.isPurified_paint p hpCell
  hangs p hp hhangs q hq _ := by
    obtain ⟨hpCell, rfl⟩ := mem_column.mp hp
    simp only [picture, settledBefore_eq_self hc] at hhangs ⊢
    rw [← hL.fits_eq hpCell hq] at hhangs
    exact fits_of_subset hhangs settledBefore_subset

/-- A column that is settled shows what it showed when others are settled. -/
theorem hangs_sift_picture_of_settled (hL : L.Proper) (hc : c ∉ settled.map (·.1)) {q : Fin n}
    (hq : q ∈ L.cells) (hsettled : L.columnOf q ∈ settled.map (·.1)) :
    ((L.picture settled).sift L tint ((L.column c).filter (L.picture settled).hangs)).hangs q ↔
      (L.picture (settled ++ [(c, tint)])).hangs q := by
  have hsame : (L.picture (settled ++ [(c, tint)])).hangs q = (L.picture settled).hangs q := by
    simp only [picture, settledBefore_append hsettled]
  rw [Picture.hangs_sift_iff, hsame]
  refine ⟨fun h => h.1, fun h => ⟨h, ?_⟩⟩
  by_cases hmarked : ((L.picture settled).paint q).isPurified
  · exact .inl hmarked
  · apply Or.inr
    intro p hp
    right
    -- A row that hangs in the column fits the settled ones, so its cell there would be marked.
    intro hqp
    obtain ⟨hpColumn, hphangs⟩ := List.mem_filter.mp hp
    obtain ⟨hpCell, rfl⟩ := mem_column.mp hpColumn
    rw [hangs_picture hc, ← hL.fits_eq hpCell hqp] at hphangs
    obtain ⟨x, hx, hxq⟩ := List.mem_map.mp hsettled
    have hmatch := fits_eq_true_iff.mp hphangs q (hL.rowOf_mem hq).2 x hx hxq.symm
    have hany : (settled.any fun x => x.1 = L.columnOf q && (L.paint q).matchesTint x.2) = true :=
      List.any_eq_true.mpr ⟨x, hx, by simp [hxq, hmatch]⟩
    have hfits : L.fits (settledBefore settled (L.columnOf q)) q := h
    apply hmarked
    simp only [picture, hfits, hany, Bool.and_self, if_true, Paint.isPurified_purified]

/-- Settling a column leaves its own cells where they hang. -/
theorem hangs_sift_picture_self (hL : L.Proper) {q : Fin n}
    (hc : L.columnOf q ∉ settled.map (·.1)) :
    ((L.picture settled).sift L tint
        ((L.column (L.columnOf q)).filter (L.picture settled).hangs)).hangs q ↔
      (L.picture (settled ++ [(L.columnOf q, tint)])).hangs q := by
  have hsame : (L.picture (settled ++ [(L.columnOf q, tint)])).hangs q = L.fits settled q := by
    simp only [picture, settledBefore_concat hc]
  rw [Picture.hangs_sift_iff, hsame, hangs_picture hc]
  refine ⟨fun h => h.1, fun h => ⟨h, .inr fun p hp => ?_⟩⟩
  obtain ⟨hpCell, hpq⟩ := mem_column.mp (List.mem_filter.mp hp).1
  by_cases hqp : q ∈ L.rowOf p
  · exact .inl (.inr (hL.eq_of_columnOf_eq hpCell hqp hpq.symm))
  · exact .inr hqp

/-- Settling a column takes the rows that do not fit it out of the columns that stay open. -/
theorem hangs_sift_picture_of_open (hL : L.Proper) (hc : c ∉ settled.map (·.1)) {q : Fin n}
    (hq : q ∈ L.cells) (hsettled : L.columnOf q ∉ settled.map (·.1)) (hqc : L.columnOf q ≠ c) :
    ((L.picture settled).sift L tint ((L.column c).filter (L.picture settled).hangs)).hangs q ↔
      (L.picture (settled ++ [(c, tint)])).hangs q := by
  have hopen : L.columnOf q ∉ (settled ++ [(c, tint)]).map (·.1) := by
    simpa [hqc] using hsettled
  rw [Picture.hangs_sift_iff, paint_picture hsettled, hL.isPurified_paint q hq,
    hangs_picture hsettled, hangs_picture hopen, fits_concat, Bool.and_eq_true, List.all_eq_true]
  apply and_congr_right
  intro hfits
  simp only [Bool.false_eq_true, false_or, accepts, Bool.or_eq_true, decide_eq_true_eq]
  constructor
  · intro h r hr
    by_cases hrc : L.columnOf r = c
    · obtain ⟨hrCell, hrow⟩ := hL.rowOf_eq_of_mem hq hr
      have hrOpen : L.columnOf r ∉ settled.map (·.1) := hrc ▸ hc
      have hrhangs : (L.picture settled).hangs r := by
        rw [hangs_picture hrOpen, hL.fits_eq hq hr, hfits]
      have hrColumn : r ∈ L.column c := mem_column.mpr ⟨hrCell, hrc⟩
      rcases h r (List.mem_filter.mpr ⟨hrColumn, hrhangs⟩) with (hmatch | rfl) | hqr
      · rw [paint_picture hrOpen] at hmatch
        exact .inr hmatch
      · exact absurd hrc hqc
      · exact absurd (hrow ▸ (hL.rowOf_mem hq).2) hqr
    · exact .inl hrc
  · intro h p hp
    obtain ⟨hpCell, hpc⟩ := mem_column.mp (List.mem_filter.mp hp).1
    by_cases hqp : q ∈ L.rowOf p
    · have hpRow : p ∈ L.rowOf q := by
        rw [(hL.rowOf_eq_of_mem hpCell hqp).2]
        exact (hL.rowOf_mem hpCell).2
      rcases h p hpRow with hne | hmatch
      · exact absurd hpc hne
      · rw [paint_picture (hpc ▸ hc)]
        exact .inl (.inl hmatch)
    · exact .inr hqp

/-- Settling a column hides the rows that no longer fit. -/
theorem hangs_sift_picture (hL : L.Proper) (hc : c ∉ settled.map (·.1)) {q : Fin n}
    (hq : q ∈ L.cells) :
    ((L.picture settled).sift L tint ((L.column c).filter (L.picture settled).hangs)).hangs q =
      (L.picture (settled ++ [(c, tint)])).hangs q := by
  rw [Bool.eq_iff_iff]
  by_cases hsettled : L.columnOf q ∈ settled.map (·.1)
  · exact hangs_sift_picture_of_settled hL hc hq hsettled
  · by_cases hqc : L.columnOf q = c
    · subst hqc
      exact hangs_sift_picture_self hL hc
    · exact hangs_sift_picture_of_open hL hc hq hsettled hqc

/-- Settling a column marks the cells that hang in it and have the color. -/
theorem paint_sift_picture (hc : c ∉ settled.map (·.1)) {q : Fin n} (hq : q ∈ L.cells) :
    ((L.picture settled).sift L tint ((L.column c).filter (L.picture settled).hangs)).paint q =
      (L.picture (settled ++ [(c, tint)])).paint q := by
  by_cases hqc : L.columnOf q = c
  · have hopen : L.columnOf q ∉ settled.map (·.1) := hqc ▸ hc
    rw [← hqc, paint_picture_concat hopen]
    simp [Picture.sift, hq, paint_picture hopen, hangs_picture hopen]
  · have hsame : (L.picture (settled ++ [(c, tint)])).paint q = (L.picture settled).paint q := by
      by_cases hsettled : L.columnOf q ∈ settled.map (·.1)
      · have hany : ((settled ++ [(c, tint)]).any fun x =>
            x.1 = L.columnOf q && (L.paint q).matchesTint x.2) =
            settled.any fun x => x.1 = L.columnOf q && (L.paint q).matchesTint x.2 := by
          simp [Ne.symm hqc]
        simp only [picture, hany, settledBefore_append hsettled]
      · rw [paint_picture hsettled, paint_picture (by simpa [hqc] using hsettled)]
    rw [hsame]
    simp [Picture.sift, hqc]

/-! ## Choosing a row -/

/-- Cells that have the color of a column agree with each other. -/
theorem matchesTint_tint? [PartialEquivBEq χ] {a b : Paint χ} (ha : a.matchesTint tint)
    (hb : b.matchesTint tint) : b.matchesTint a.tint? := by
  cases a with
  | colored color =>
    cases b with
    | colored other =>
      cases tint with
      | some given => exact BEq.trans hb (BEq.symm ha)
      | none => simp at ha
    | _ => cases tint <;> simp [Paint.matchesTint] at hb
  | _ => cases tint <;> simp [Paint.matchesTint] at ha

/-- The rows that fit after a row was chosen are those that fitted before and agree with the chosen
row on the columns that they share. -/
theorem fits_choose [PartialEquivBEq χ] (hL : L.Proper) {p q : Fin n} (hp : p ∈ L.cells)
    (hpaint : L.paint p = .uncolored) (hfits : L.fits settled p) :
    L.fits (L.choose settled p) q ↔ L.fits settled q ∧ ∀ r ∈ L.rowOf p, ∀ s ∈ L.rowOf q,
      L.columnOf s = L.columnOf r → (L.paint s).matchesTint (L.paint r).tint? := by
  have hpRow := (hL.rowOf_mem hp).2
  rw [fits_eq_true_iff] at hfits
  rw [fits_eq_true_iff, fits_eq_true_iff]
  constructor
  · intro h
    have hold : ∀ s ∈ L.rowOf q, ∀ x ∈ settled, L.columnOf s = x.1 →
        (L.paint s).matchesTint x.2 :=
      fun s hs x hx => h s hs x (List.mem_append_left _ hx)
    refine ⟨hold, fun r hr s hs hcolumn => ?_⟩
    by_cases hsettled : L.columnOf r ∈ settled.map (·.1)
    · -- The chosen row fitted, so both rows have the color that the column was restricted to.
      obtain ⟨x, hx, hxr⟩ := List.mem_map.mp hsettled
      exact matchesTint_tint? (hfits r hr x hx hxr.symm) (hold s hs x hx (hcolumn.trans hxr.symm))
    · have hnew : (L.columnOf r, (L.paint r).tint?) ∈ L.choose settled p := by
        rw [choose, List.mem_append, List.mem_cons]
        by_cases hrp : r = p
        · exact .inr (.inl (by rw [hrp, hpaint]; rfl))
        · refine .inr (.inr (List.mem_map.mpr ⟨r, List.mem_filter.mpr ⟨?_, ?_⟩, rfl⟩))
          · exact (hL.mem_around hp).mpr ⟨hr, hrp⟩
          · simpa using hsettled
      exact h s hs _ hnew hcolumn
  · rintro ⟨hold, hagree⟩ s hs x hx hcolumn
    rcases List.mem_append.mp hx with hx | hx
    · exact hold s hs x hx hcolumn
    · rcases List.mem_cons.mp hx with rfl | hx
      · have hmatch := hagree p hpRow s hs hcolumn
        rwa [hpaint] at hmatch
      · obtain ⟨r, hr, rfl⟩ := List.mem_map.mp hx
        have hrRow := ((hL.mem_around hp).mp (List.mem_of_mem_filter hr)).1
        exact hagree r hrRow s hs hcolumn

end Layout

namespace Mesh

/-- Settles a column: covers it or restricts it to a color. -/
def settle [BEq χ] (c : Fin n) : Option χ → Mesh n χ → Except Fault (Mesh n χ)
  | none => cover c
  | some color => purify c color

/-- Reverses `settle`. -/
def unsettle (c : Fin n) : Option χ → Mesh n χ → Except Fault (Mesh n χ)
  | none => uncover c
  | some _ => unpurify c

namespace Displays

variable [BEq χ] [EquivBEq χ] {m : Mesh n χ} {L : Layout n χ}
  {settled : List (Fin n × Option χ)} {c : Fin n}

/-- Settling a column that is not settled yet is undone by its reverse. The color may be given by
an equal one. -/
theorem exists_settle (h : m.Displays L (L.picture settled)) (hL : L.Proper) (hc : c ∈ L.headers)
    (hopen : c ∉ settled.map (·.1)) {tint given : Option χ} (hgiven : TintAlike given tint) :
    ∃ m', RoundTrip (settle c tint) (unsettle c tint) m m' ∧
      m'.Displays L (L.picture (settled ++ [(c, given)])) := by
  have hcan := hL.canSettle hopen
  have hnone : ∀ x ∈ settled, x.1 ≠ c := fun x hx heq => hopen (heq ▸ List.mem_map_of_mem hx)
  have hfind : settled.find? (fun x => x.1 = c) = none := by
    rw [List.find?_eq_none]
    intro x hx
    simpa using hnone x hx
  cases hgiven with
  | none =>
    have hring : (L.picture settled).isOpen c := by
      simp only [Layout.picture, Layout.any_settled_eq_false hopen, Bool.not_false]
    obtain ⟨m', htrip, hm'⟩ := h.exists_cover hL hc hring hcan
    refine ⟨m', htrip, hm'.congr (fun q hq => ?_) (fun q hq => ?_) (fun d _ => ?_) fun d _ => ?_⟩
    · exact (Layout.hangs_sift_picture hL hopen hq).symm
    · exact (Layout.paint_sift_picture hopen hq).symm
    · by_cases hdc : d = c
      · simp [Layout.picture, Picture.cover, Picture.sift, hdc, hfind]
      · simp [Layout.picture, Picture.cover, Picture.sift, Ne.symm hdc]
    · by_cases hdc : d = c
      · simp [Layout.picture, Picture.cover, hdc]
      · simp [Layout.picture, Picture.cover, hdc, Ne.symm hdc]
  | @some given color hcolor =>
    have htint : (L.picture settled).tint c = none := by
      simp [Layout.picture, hfind]
    obtain ⟨m', htrip, hm'⟩ := h.exists_purify hL hc htint hcan hcolor
    refine ⟨m', htrip, hm'.congr (fun q hq => ?_) (fun q hq => ?_) (fun d _ => ?_) fun d _ => ?_⟩
    · exact (Layout.hangs_sift_picture hL hopen hq).symm
    · exact (Layout.paint_sift_picture hopen hq).symm
    · by_cases hdc : d = c
      · simp [Layout.picture, Picture.purify, hdc, hfind]
      · simp [Layout.picture, Picture.purify, hdc, Ne.symm hdc]
    · simp [Layout.picture, Picture.purify, Picture.sift]

/-- Committing a cell settles its column. -/
theorem exists_commit_settles (h : m.Displays L (L.picture settled)) (hL : L.Proper) {p : Fin n}
    (hp : p ∈ L.cells) (hopen : L.columnOf p ∉ settled.map (·.1)) :
    ∃ m', RoundTrip (commit p) (unsettle (L.columnOf p) (L.paint p).tint?) m m' ∧
      m'.Displays L (L.picture (settled ++ [(L.columnOf p, (L.paint p).tint?)])) := by
  have hcell : (m.role p).isCell := h.isCell hL hp
  have hcolumn : m.column p = L.columnOf p := h.column_eq p
  have hplain : (L.paint p).isPurified = false := hL.isPurified_paint p hp
  have hpaint : (L.paint p).Alike (m.paint p) := by
    have halike := h.paint p hp
    rwa [Layout.paint_picture hopen] at halike
  have hheader : L.columnOf p ∈ L.headers := hL.columnOf_mem p hp
  generalize hb : m.paint p = b at hpaint
  generalize L.paint p = a at hpaint hplain
  cases hpaint with
  | uncolored =>
    obtain ⟨m', htrip, hm'⟩ := h.exists_settle hL hheader hopen .none
    refine ⟨m', ⟨?_, htrip.exists_back⟩, hm'⟩
    rw [← htrip.forth_eq]
    simp [commit, settle, hcell, hb, hcolumn]
  | colored hcolor =>
    obtain ⟨m', htrip, hm'⟩ := h.exists_settle hL hheader hopen (.some hcolor)
    refine ⟨m', ⟨?_, htrip.exists_back⟩, hm'⟩
    rw [← htrip.forth_eq]
    simp [commit, settle, hcell, hb, hcolumn]
  | purified => simp at hplain

/-- Committing a cell that has no color or is out of its column is undone by its reverse. The paint
of the cell tells the reverse what was done, since such a cell is not marked. -/
theorem exists_commit (h : m.Displays L (L.picture settled)) (hL : L.Proper) {p : Fin n}
    (hp : p ∈ L.cells) (hopen : L.columnOf p ∉ settled.map (·.1))
    (hstays : L.fits settled p → L.paint p = .uncolored) :
    ∃ m', RoundTrip (commit p) (uncommit p) m m' ∧
      m'.Displays L (L.picture (settled ++ [(L.columnOf p, (L.paint p).tint?)])) := by
  obtain ⟨m', htrip, hm'⟩ := h.exists_commit_settles hL hp hopen
  refine ⟨m', ⟨htrip.forth_eq, fun m₁ halike => ?_⟩, hm'⟩
  obtain ⟨m₂, hback, hm₂⟩ := htrip.exists_back m₁ halike
  have hm₁ := hm'.of_alike halike
  have hcell : (m₁.role p).isCell := hm₁.isCell hL hp
  have hcolumn : m₁.column p = L.columnOf p := hm₁.column_eq p
  have hplain : ¬(L.fits settled p && (L.paint p).matchesTint (L.paint p).tint?) := by
    rw [Bool.and_eq_true]
    rintro ⟨hfits, hmatch⟩
    simp [hstays hfits, Paint.matchesTint] at hmatch
  have hpaint := hm₁.paint p hp
  rw [Layout.paint_picture_concat hopen, if_neg hplain] at hpaint
  refine ⟨m₂, ?_, hm₂⟩
  rw [← hback]
  have hunmarked := hL.isPurified_paint p hp
  generalize hb : m₁.paint p = b at hpaint
  generalize L.paint p = a at hpaint hunmarked
  cases hpaint with
  | uncolored => simp [uncommit, unsettle, Paint.tint?, hcell, hb, hcolumn]
  | colored hcolor => simp [uncommit, unsettle, Paint.tint?, hcell, hb, hcolumn]
  | purified => simp at hunmarked

omit [EquivBEq χ] in
/-- A cell that is marked is passed over on both ways. -/
theorem commit_eq_self (h : m.Displays L (L.picture settled)) (hL : L.Proper) {p : Fin n}
    (hp : p ∈ L.cells) (hmarked : ((L.picture settled).paint p).isPurified) :
    commit p m = .ok m ∧ uncommit p m = .ok m := by
  have hcell : (m.role p).isCell := h.isCell hL hp
  have hpaint : m.paint p = .purified := by
    have hpaint := h.isPurified_eq hp
    rw [hmarked] at hpaint
    cases hb : m.paint p with
    | purified => rfl
    | _ => simp [hb, Paint.isPurified] at hpaint
  simp [commit, uncommit, hcell, hpaint]

theorem roundTrip_commit_of_isPurified (h : m.Displays L (L.picture settled)) (hL : L.Proper)
    {p : Fin n} (hp : p ∈ L.cells) (hmarked : ((L.picture settled).paint p).isPurified) :
    RoundTrip (commit p) (uncommit p) m m where
  forth_eq := (h.commit_eq_self hL hp hmarked).1
  exists_back m₁ halike := ⟨m₁, ((h.of_alike halike).commit_eq_self hL hp hmarked).2, halike⟩

/-- Committing some cells of a row one after another settles their columns, and committing them is
undone by its reverse. Cells in settled columns have to be marked, and the others must not be marked
when they are committed. -/
theorem exists_visits_commit (hL : L.Proper) {p : Fin n} (hp : p ∈ L.cells) {done ps : List (Fin n)}
    (hroute : L.around p = done ++ ps)
    (h : m.Displays L (L.picture (settled ++ L.claims settled done)))
    (hmarked : ∀ q ∈ ps, L.columnOf q ∈ settled.map (·.1) →
      ((L.picture settled).paint q).isPurified)
    (hstays : ∀ before q rest, ps = before ++ q :: rest → L.columnOf q ∉ settled.map (·.1) →
      L.fits (settled ++ L.claims settled (done ++ before)) q → L.paint q = .uncolored) :
    ∃ m', Visits right commit p (L.around p) ps m m' ∧
      (∀ m₁, m'.Alike m₁ →
        ∃ m₂, Visits left uncommit p (L.around p).reverse ps.reverse m₁ m₂ ∧ m.Alike m₂) ∧
      m'.Displays L (L.picture (settled ++ L.claims settled (done ++ ps))) := by
  refine exists_visits (fun done m =>
      m.Displays L (L.picture (settled ++ L.claims settled done)))
    (fun q halike => halike.left_eq q) (fun done m hm => hm.leads_around hL hp) ?_ h
  intro before q rest m hsplit hm
  have hqAround : q ∈ L.around p := by simp [hroute, hsplit]
  have hqRow := ((hL.mem_around hp).mp hqAround).1
  have hqCell : q ∈ L.cells := (hL.rowOf_eq_of_mem hp hqRow).1
  by_cases hsettled : L.columnOf q ∈ settled.map (·.1)
  · rw [Layout.claims_concat, if_pos hsettled, List.append_nil]
    have hstill := hL.isPurified_picture_append hqCell (hmarked q (by simp [hsplit]) hsettled)
      (L.claims settled (done ++ before))
    exact ⟨m, hm.roundTrip_commit_of_isPurified hL hqCell hstill, hm⟩
  · have hroute' : L.around p = (done ++ before) ++ q :: rest := by simp [hroute, hsplit]
    have hunsettled :=
      hL.not_mem_claims hp (hm.leads_around hL hp).1.nodup hroute' hsettled
    rw [Layout.claims_concat, if_neg hsettled, ← List.append_assoc settled]
    exact hm.exists_commit hL hqCell hunsettled (hstays before q rest hsplit hsettled)

/-- Committing the row of a cell in a covered column settles the columns of the row that are not
settled yet, and is undone by its reverse. Cells in settled columns have to be marked. -/
theorem exists_commitRow_of_covered (hL : L.Proper) {p : Fin n} (hp : p ∈ L.cells)
    (h : m.Displays L (L.picture settled)) (hcovered : (L.columnOf p, none) ∈ settled)
    (hmarked : ∀ q ∈ L.around p, L.columnOf q ∈ settled.map (·.1) →
      ((L.picture settled).paint q).isPurified) :
    ∃ m', RoundTrip (commitRow p) (uncommitRow p) m m' ∧
      m'.Displays L (L.picture (settled ++ L.claims settled (L.around p))) := by
  have hstays : ∀ before q rest, L.around p = before ++ q :: rest →
      L.columnOf q ∉ settled.map (·.1) → L.fits (settled ++ L.claims settled ([] ++ before)) q →
        L.paint q = .uncolored := by
    intro before q rest hroute _ hfits
    have hqRow := ((hL.mem_around hp).mp (show q ∈ L.around p by simp [hroute])).1
    rw [hL.fits_eq_false_of_covered hp hqRow (List.mem_append_left _ hcovered)] at hfits
    contradiction
  obtain ⟨m', hforth, hback, hm'⟩ := exists_visits_commit hL hp (List.nil_append _).symm
    (by simpa [Layout.claims] using h) hmarked hstays
  refine ⟨m', ⟨hforth.sweep_eq, fun m₁ hm₁ => ?_⟩, hm'⟩
  obtain ⟨m₂, hvisits, hm₂⟩ := hback m₁ hm₁
  exact ⟨m₂, hvisits.sweep_eq, hm₂⟩

/-- Committing the row of a cell whose column was just covered settles all columns of the row, and
is undone by its reverse. -/
theorem exists_commitRow (hL : L.Proper) {p : Fin n} (hp : p ∈ L.cells)
    (h : m.Displays L (L.picture (settled ++ [(L.columnOf p, none)]))) (hfits : L.fits settled p) :
    ∃ m', RoundTrip (commitRow p) (uncommitRow p) m m' ∧
      m'.Displays L (L.picture (L.choose settled p)) := by
  have hmarked : ∀ q ∈ L.around p,
      L.columnOf q ∈ (settled ++ [(L.columnOf p, (none : Option χ))]).map (·.1) →
        ((L.picture (settled ++ [(L.columnOf p, none)])).paint q).isPurified := by
    intro q hq hmem
    rw [List.map_append, List.mem_append] at hmem
    obtain ⟨hqRow, hqp⟩ := (hL.mem_around hp).mp hq
    have hqCell : q ∈ L.cells := (hL.rowOf_eq_of_mem hp hqRow).1
    have hne : L.columnOf q ≠ L.columnOf p := fun heq => hqp (hL.eq_of_columnOf_eq hp hqRow heq)
    have hsettled := hmem.resolve_right (by simpa using hne)
    rw [← hL.fits_eq hp hqRow] at hfits
    exact hL.isPurified_picture_append hqCell
      (hL.isPurified_picture_of_fits hqCell hfits hsettled) _
  obtain ⟨m', htrip, hm'⟩ := exists_commitRow_of_covered hL hp h (by simp) hmarked
  rw [hL.claims_concat_self hp, List.append_assoc] at hm'
  exact ⟨m', htrip, hm'⟩

end Displays

end Mesh

end ExactCover
