import ExactCover.Proofs.Layout

/-!
# Settling a column

Covering a column and restricting it to a color are one operation with two outcomes for the rows
of the column. A row whose cell there matches the color stays and its cell is marked. Every other
row is taken out of all the columns that are not settled yet. Without a color no row stays.

`Picture.sift` is the picture after some rows of the column were dealt with, whichever they are.
The walk down the column leaves the column itself as it is, because a row has one cell in it, and
so the walk up the column meets the same cells in the opposite order. Hence covering and uncovering
make a round trip, and so do restricting and releasing (`exists_cover`, `exists_purify`).
-/

set_option autoImplicit false

namespace ExactCover

variable {n : Nat} {χ : Type}

/-- The picture after the row of a cell was taken out of all columns but that of the cell, those
where it is marked excepted. -/
def Picture.hideRow (L : Layout n χ) (v : Picture n χ) (p : Fin n) : Picture n χ :=
  { v with hangs := fun q => v.hangs q && ((v.paint q).isPurified || q = p || q ∉ L.rowOf p) }

/-- The picture after some cells were taken out of their columns, unless they are marked. -/
def Picture.dropped (v : Picture n χ) (done : List (Fin n)) : Picture n χ :=
  { v with hangs := fun q => v.hangs q && ((v.paint q).isPurified || q ∉ done) }

/-- The picture after the rows of some cells of a column were dealt with: cells that match the
color are marked, and the rows of the others are taken out of the other columns. -/
def Picture.sift [BEq χ] (L : Layout n χ) (v : Picture n χ) (tint : Option χ)
    (done : List (Fin n)) : Picture n χ :=
  { v with
    hangs := fun q => v.hangs q && ((v.paint q).isPurified ||
      done.all fun p => (v.paint p).matchesTint tint || q = p || q ∉ L.rowOf p)
    paint := fun q => if q ∈ done ∧ (v.paint q).matchesTint tint then .purified else v.paint q }

/-- The picture after a column was covered. -/
def Picture.cover [BEq χ] (L : Layout n χ) (v : Picture n χ) (c : Fin n) : Picture n χ :=
  { v.sift L none ((L.column c).filter v.hangs) with isOpen := fun d => v.isOpen d && d ≠ c }

/-- The picture after a column was restricted to a color. -/
def Picture.purify [BEq χ] (L : Layout n χ) (v : Picture n χ) (c : Fin n) (color : χ) :
    Picture n χ :=
  { v.sift L (some color) ((L.column c).filter v.hangs) with
    tint := fun d => if d = c then some color else v.tint d }

/-- A column can be settled: none of its cells is marked yet, and the rows that hang in it hang in
all the other columns in which they are not marked. -/
structure Picture.CanSettle (L : Layout n χ) (v : Picture n χ) (c : Fin n) : Prop where
  isPurified_paint : ∀ p ∈ L.column c, (v.paint p).isPurified = false
  hangs : ∀ p ∈ L.column c, v.hangs p → ∀ q ∈ L.rowOf p, (v.paint q).isPurified = false → v.hangs q

@[simp]
theorem Paint.isPurified_purified : (.purified : Paint χ).isPurified = true := rfl

@[simp]
theorem Paint.matchesTint_none [BEq χ] (a : Paint χ) : a.matchesTint none = false := by
  cases a <;> rfl

/-- A cell is the only one of its row in its column. -/
theorem Layout.Proper.eq_of_mem_column {L : Layout n χ} (hL : L.Proper) {c p q : Fin n}
    (hp : p ∈ L.column c) (hq : q ∈ L.column c) (hrow : q ∈ L.rowOf p) : q = p := by
  rw [Layout.mem_column] at hp hq
  exact hL.eq_of_columnOf_eq hp.1 hrow (hq.2.trans hp.2.symm)

/-- What still hangs after the rows of some cells were dealt with. -/
theorem Picture.hangs_sift_iff [BEq χ] {L : Layout n χ} {v : Picture n χ} {tint : Option χ}
    {done : List (Fin n)} {q : Fin n} :
    (v.sift L tint done).hangs q ↔ v.hangs q ∧ ((v.paint q).isPurified ∨
      ∀ p ∈ done, ((v.paint p).matchesTint tint ∨ q = p) ∨ q ∉ L.rowOf p) := by
  simp only [sift, Bool.and_eq_true, Bool.or_eq_true, List.all_eq_true, decide_eq_true_eq]

/-- Dealing with the rows of a column leaves the column itself as it is. -/
theorem Picture.column_sift [BEq χ] {L : Layout n χ} {v : Picture n χ} {c : Fin n}
    (hL : L.Proper) {tint : Option χ} {done : List (Fin n)} (hdone : ∀ p ∈ done, p ∈ L.column c) :
    (L.column c).filter (v.sift L tint done).hangs = (L.column c).filter v.hangs := by
  apply List.filter_congr
  intro q hq
  have hall : (done.all fun p =>
      (v.paint p).matchesTint tint || q = p || q ∉ L.rowOf p) = true := by
    rw [List.all_eq_true]
    intro p hp
    have hother : q ∈ L.rowOf p → q = p := hL.eq_of_mem_column (hdone p hp) hq
    simp only [Bool.or_eq_true, decide_eq_true_eq]
    tauto
  simp only [Picture.sift, hall, Bool.or_true, Bool.and_true]

/-- Equal colors match the same cells. -/
theorem Paint.matchesTint_congr [BEq χ] [PartialEquivBEq χ] {a : Paint χ} {c d : χ}
    (h : c == d) : a.matchesTint (some c) = a.matchesTint (some d) := by
  cases a with
  | colored other => exact BEq.congr_right h
  | _ => rfl

theorem Picture.sift_congr [BEq χ] [PartialEquivBEq χ] {L : Layout n χ} {v : Picture n χ}
    {c d : χ} {done : List (Fin n)} (h : c == d) :
    v.sift L (some c) done = v.sift L (some d) done := by
  simp only [sift, Paint.matchesTint_congr h]

theorem Paint.matchesTint_some_iff [BEq χ] {a : Paint χ} {color : χ} :
    a.matchesTint (some color) ↔ ∃ own, a = .colored own ∧ own == color := by
  cases a <;> simp [matchesTint]

theorem Paint.Alike.matchesTint_eq [BEq χ] [PartialEquivBEq χ] {a b : Paint χ} {tint : Option χ}
    (h : a.Alike b) : b.matchesTint tint = a.matchesTint tint := by
  cases h with
  | uncolored => rfl
  | purified => rfl
  | colored h =>
    cases tint with
    | none => rfl
    | some color => exact BEq.congr_left (BEq.symm h)

namespace Mesh

variable [BEq χ] {m m' : Mesh n χ} {p : Fin n} {color color' : χ}

/-- A visit to a cell that has the color marks it, and the visit that releases it gives it back an
equal color. -/
theorem roundTrip_mark [EquivBEq χ] {own : χ} (hown : m.paint p = .colored own)
    (heq : own == color) (hcolor : color == color') :
    RoundTrip (purify.restrict color p) (unpurify.release color' p) m
      (m.setPaint p .purified) where
  forth_eq := by simp [purify.restrict, hown, heq]
  exists_back := by
    intro m₁ hm₁
    have hmarked : (m₁.paint p).isPurified := by
      rw [hm₁.isPurified_eq, paint_setPaint, if_pos rfl, Paint.isPurified_purified]
    refine ⟨m₁.setPaint p (.colored color'), by simp [unpurify.release, hmarked], hm₁.frame,
      hm₁.across, hm₁.down, hm₁.counts, fun q => ?_, hm₁.tint⟩
    have hq := hm₁.paint q
    rw [paint_setPaint] at hq ⊢
    by_cases hqp : q = p
    · rw [if_pos hqp, hqp, hown]
      exact .colored (BEq.trans heq hcolor)
    · rwa [if_neg hqp] at hq ⊢

/-- A visit to a cell that does not have the color hides its row. -/
theorem RoundTrip.restrict (h : RoundTrip (hide p) (unhide p) m m')
    (hmatch : (m.paint p).matchesTint (some color) = false)
    (hplain : (m'.paint p).isPurified = false) :
    RoundTrip (purify.restrict color p) (unpurify.release color' p) m m' where
  forth_eq := by
    rw [← h.forth_eq, purify.restrict]
    split
    · next other hother =>
      rw [hother, Paint.matchesTint] at hmatch
      rw [if_neg (Bool.eq_false_iff.mp hmatch)]
    · rfl
  exists_back := by
    intro m₁ hm₁
    obtain ⟨m₂, hback, hm₂⟩ := h.exists_back m₁ hm₁
    have hplain₁ : (m₁.paint p).isPurified = false := by
      rw [hm₁.isPurified_eq, hplain]
    exact ⟨m₂, by simp [unpurify.release, hplain₁, hback], hm₂⟩

end Mesh

namespace Mesh.Displays

variable [BEq χ] {m : Mesh n χ} {L : Layout n χ} {v : Picture n χ} {c : Fin n}

/-- A column in its ring can be taken out of it and put back, if it stands in the ring it is listed
in and the other ring is not touched. -/
private theorem close_aux (h : m.Displays L v) (hL : L.Proper) {head head' : Fin n}
    {cs ds : List (Fin n)} (hring : m.across.IsRing head (cs.filter v.isOpen))
    (hother : m.across.IsRing head' (ds.filter v.isOpen))
    (hapart : (head :: cs).Disjoint (head' :: ds))
    (hcell : ∀ p ∈ head :: cs, (L.role p).isCell = false) (hc : c ∈ cs)
    (hd : c ∉ ds) (hopen : v.isOpen c) :
    RoundTrip (fun m => .ok { m with across := m.across.unlink c })
        (fun m => .ok { m with across := m.across.relink c }) m
        { m with across := m.across.unlink c } ∧
      (m.across.unlink c).IsRing head (cs.filter fun d => v.isOpen d && d ≠ c) ∧
      (m.across.unlink c).IsRing head' (ds.filter fun d => v.isOpen d && d ≠ c) ∧
      ∀ row ∈ L.rows, ({ m with across := m.across.unlink c } : Mesh n χ).ClosesRow row := by
  have hmem : c ∈ cs.filter v.isOpen := by simp [hc, hopen]
  refine ⟨⟨rfl, fun m₁ halike => ⟨_, rfl, halike.frame, ?_, halike.down, halike.counts,
    halike.paint, halike.tint⟩⟩, ?_, ?_, fun row hrow => ?_⟩
  · change m₁.across.relink c = m.across
    rw [halike.across]
    exact hring.relink_unlink hmem
  · have hsame : (cs.filter fun d => v.isOpen d && d ≠ c) = (cs.filter v.isOpen).erase c := by
      rw [hring.members_nodup.erase_eq_filter, List.filter_filter]
      apply List.filter_congr
      intro d _
      by_cases hdc : d = c <;> simp [hdc]
    rw [hsame]
    exact hring.unlink_erase hmem
  · have hsame : (ds.filter fun d => v.isOpen d && d ≠ c) = ds.filter v.isOpen := by
      apply List.filter_congr
      intro d hdmem
      have hne : d ≠ c := fun heq => hd (heq ▸ hdmem)
      simp [hne]
    rw [hsame]
    exact hring.unlink_of_disjoint hmem hother (disjoint_cons_filter hapart v.isOpen)
  · refine (h.closed row hrow).congr
      (fun q hq => h.isCell hL (Layout.mem_cells_of_mem_row hrow hq)) rfl (fun q hq => ?_)
      fun q _ => ⟨rfl, rfl⟩
    have hfar : ∀ p ∈ head :: cs.filter v.isOpen, q ≠ p := by
      rintro p hp rfl
      rw [h.role_eq, hcell q (List.cons_subset_cons head List.filter_sublist.subset hp)] at hq
      exact Bool.false_ne_true hq
    constructor
    · change (m.across.unlink c).next q = m.across.next q
      rw [Links.next_unlink, if_neg (hfar _ (hring.prev_mem hmem).1)]
    · change (m.across.unlink c).prev q = m.across.prev q
      rw [Links.prev_unlink, if_neg (hfar _ (hring.next_mem hmem).1)]

/-- A column in its ring can be taken out of it and put back. -/
theorem roundTrip_close (h : m.Displays L v) (hL : L.Proper) (hc : c ∈ L.headers)
    (hopen : v.isOpen c) :
    RoundTrip (fun m => .ok { m with across := m.across.unlink c })
        (fun m => .ok { m with across := m.across.relink c }) m
        { m with across := m.across.unlink c } ∧
      ({ m with across := m.across.unlink c } : Mesh n χ).Displays L
        { v with isOpen := fun d => v.isOpen d && d ≠ c } := by
  have hnodup := List.nodup_append.mp hL.headers_nodup
  rcases List.mem_append.mp hc with hc | hc
  · have hd : c ∉ L.secondary := fun hd => hnodup.2.2 c hc c hd rfl
    obtain ⟨htrip, hprimary, hsecondary, hclosed⟩ := h.close_aux hL h.primary h.secondary
      hL.rings_disjoint (fun p hp => hL.isCell_eq_false_of_mem_ring (.inl hp)) hc hd hopen
    exact ⟨htrip, ⟨h.frame, h.column, h.count, h.paint, h.tint, hprimary, hsecondary⟩, hclosed⟩
  · have hd : c ∉ L.primary := fun hd => hnodup.2.2 c hd c hc rfl
    obtain ⟨htrip, hsecondary, hprimary, hclosed⟩ := h.close_aux hL h.secondary h.primary
      hL.rings_disjoint.symm (fun p hp => hL.isCell_eq_false_of_mem_ring (.inr hp)) hc hd hopen
    exact ⟨htrip, ⟨h.frame, h.column, h.count, h.paint, h.tint, hprimary, hsecondary⟩, hclosed⟩

variable [EquivBEq χ]

/-- A marked cell is passed over on both ways. -/
theorem roundTrip_detach_of_isPurified (h : m.Displays L v) (hL : L.Proper) {p : Fin n}
    (hp : p ∈ L.cells) (hpaint : (v.paint p).isPurified) :
    RoundTrip (detach p) (attach p) m m := by
  have hpass : ∀ m₁ : Mesh n χ, m.Alike m₁ → detach p m₁ = .ok m₁ ∧ attach p m₁ = .ok m₁ := by
    intro m₁ halike
    have hcell : (m₁.role p).isCell := by
      rw [halike.role_eq]
      exact h.isCell hL hp
    have hpaint₁ : (m₁.paint p).isPurified := by
      rw [halike.isPurified_eq, h.isPurified_eq hp]
      exact hpaint
    simp [detach, attach, hcell, hpaint₁]
  exact ⟨(hpass m (.refl m)).1, fun m₁ halike => ⟨m₁, (hpass m₁ halike).2, halike⟩⟩

/-- The other cells of a row can be taken out of their columns and put back. -/
theorem exists_hide (h : m.Displays L v) (hL : L.Proper) {p : Fin n} (hp : p ∈ L.cells)
    (hhangs : ∀ q ∈ L.rowOf p, q ≠ p → (v.paint q).isPurified = false → v.hangs q) :
    ∃ m', RoundTrip (hide p) (unhide p) m m' ∧ m'.Displays L (v.hideRow L p) := by
  have hstart : m.Displays L (v.dropped []) :=
    h.congr (by simp [Picture.dropped]) (by simp [Picture.dropped]) (by simp [Picture.dropped])
      (by simp [Picture.dropped])
  have hleads : ∀ done (m : Mesh n χ), m.Displays L (v.dropped done) →
      m.Leads right p (L.around p) ∧ m.Leads left p (L.around p).reverse :=
    fun done m hm => hm.leads_around hL hp
  have hvisit : ∀ done q rest (m : Mesh n χ), L.around p = done ++ q :: rest →
      m.Displays L (v.dropped done) →
        ∃ m', RoundTrip (detach q) (attach q) m m' ∧ m'.Displays L (v.dropped (done ++ [q])) := by
    intro done q rest m hroute hm
    have hq : q ∈ L.rowOf p ∧ q ≠ p := (hL.mem_around hp).mp (by simp [hroute])
    have hqCell : q ∈ L.cells := (hL.rowOf_eq_of_mem hp hq.1).1
    have hqDone : q ∉ done := by
      have hnodup := (hleads done m hm).1.nodup
      rw [hroute] at hnodup
      grind
    cases hpaint : (v.paint q).isPurified with
    | true =>
      exact ⟨m, hm.roundTrip_detach_of_isPurified hL hqCell hpaint,
        hm.congr (by simp [Picture.dropped]; grind) (fun _ _ => rfl) (fun _ _ => rfl)
          fun _ _ => rfl⟩
    | false =>
      have hhangs' : (v.dropped done).hangs q := by
        simp [Picture.dropped, hqDone, hhangs q hq.1 hq.2 hpaint]
      obtain ⟨m', htrip, hm'⟩ := hm.exists_detach hL hqCell hhangs' hpaint
      exact ⟨m', htrip, hm'.congr (by simp [Picture.dropped]; grind) (fun _ _ => rfl)
        (fun _ _ => rfl) fun _ _ => rfl⟩
  obtain ⟨m', htrip, hm'⟩ := exists_roundTrip_sweep (L.around p) detach attach
    (fun q halike => halike.left_eq q) (fun done m => m.Displays L (v.dropped done)) hleads hvisit
    hstart
  refine ⟨m', htrip, hm'.congr (fun q _ => ?_) (fun _ _ => rfl) (fun _ _ => rfl) fun _ _ => rfl⟩
  have hmem := hL.mem_around (q := q) hp
  by_cases hqp : q = p <;> by_cases hqRow : q ∈ L.rowOf p <;>
    simp_all [Picture.hideRow, Picture.dropped]

/-- What a cell asks can be changed in the picture as it is in the mesh. -/
theorem setPaint (h : m.Displays L v) (p : Fin n) (a : Paint χ) :
    (m.setPaint p a).Displays L { v with paint := fun q => if q = p then a else v.paint q } := by
  refine ⟨⟨h.frame, h.column, h.count, fun q hq => ?_, h.tint, h.primary, h.secondary⟩, h.closed⟩
  rw [paint_setPaint]
  dsimp only
  split
  · exact .refl a
  · exact h.paint q hq

/-- Dealing with a row that does not match means taking it out of the other columns. -/
theorem exists_sift_hide {tint : Option χ} {done : List (Fin n)} {p : Fin n}
    (h : m.Displays L (v.sift L tint done)) (hL : L.Proper) (hcan : v.CanSettle L c)
    (hdone : ∀ q ∈ done, q ∈ L.column c) (hp : p ∈ L.column c) (hpDone : p ∉ done)
    (hhangs : v.hangs p) (hmatch : (v.paint p).matchesTint tint = false) :
    ∃ m', RoundTrip (hide p) (unhide p) m m' ∧ m'.Displays L (v.sift L tint (done ++ [p])) := by
  have hpCell := (Layout.mem_column.mp hp).1
  have hqDone : ∀ q ∈ L.rowOf p, q ∈ done → q = p := fun q hq hqDone =>
    hL.eq_of_mem_column hp (hdone q hqDone) hq
  have hrows : ∀ q ∈ L.rowOf p, ∀ r ∈ done, q ∈ L.rowOf r → False := fun q hq r hr hqRow => by
    have hrCell := (Layout.mem_column.mp (hdone r hr)).1
    have hsame : L.rowOf p = L.rowOf r :=
      (hL.rowOf_eq_of_mem hpCell hq).2.symm.trans (hL.rowOf_eq_of_mem hrCell hqRow).2
    have hpr : p = r := hL.eq_of_mem_column (hdone r hr) hp (hsame ▸ (hL.rowOf_mem hpCell).2)
    exact hpDone (hpr ▸ hr)
  obtain ⟨m', htrip, hm'⟩ := h.exists_hide hL hpCell fun q hq hqp hpaint => by
    have hqNot : q ∉ done := fun hmem => hqp (hqDone q hq hmem)
    simp only [Picture.sift, hqNot, false_and, if_false] at hpaint
    have hvq := hcan.hangs p hp hhangs q hq hpaint
    simp only [Picture.sift, hvq, hpaint, Bool.false_or, Bool.true_and, List.all_eq_true]
    intro r hr
    have hqr : q ∉ L.rowOf r := fun hqRow => hrows q hq r hr hqRow
    simp [hqr]
  refine ⟨m', htrip, hm'.congr (fun q _ => ?_) (fun q _ => ?_) (fun _ _ => rfl) fun _ _ => rfl⟩
  · simp only [Picture.sift, Picture.hideRow, List.all_append, List.all_cons, List.all_nil, hmatch,
      Bool.false_or, Bool.and_true]
    by_cases hqDone' : q ∈ done ∧ (v.paint q).matchesTint tint
    · -- A cell that was marked on the way is in the column, so it is in no row but its own.
      have hqp : q = p ∨ q ∉ L.rowOf p := by
        by_contra hcontra
        rw [not_or, not_not] at hcontra
        exact hcontra.1 (hqDone q hcontra.2 hqDone'.1)
      rw [if_pos hqDone', Paint.isPurified_purified]
      rcases hqp with hqp | hqp <;> simp [hqp]
    · rw [if_neg hqDone']
      cases (v.paint q).isPurified <;> simp [Bool.and_assoc]
  · simp only [Picture.sift, Picture.hideRow, List.mem_append, List.mem_singleton]
    by_cases hqp : q = p
    · simp [hqp, hmatch]
    · simp [hqp]

/-- Dealing with a row that matches means marking its cell. -/
theorem sift_mark {tint : Option χ} {done : List (Fin n)} {p : Fin n}
    (h : m.Displays L (v.sift L tint done)) (hmatch : (v.paint p).matchesTint tint) :
    (m.setPaint p .purified).Displays L (v.sift L tint (done ++ [p])) := by
  refine (h.setPaint p .purified).congr (fun q _ => ?_) (fun q _ => ?_) (fun _ _ => rfl)
    fun _ _ => rfl
  · simp [Picture.sift, hmatch]
  · simp only [Picture.sift, List.mem_append, List.mem_singleton]
    by_cases hqp : q = p
    · simp [hqp, hmatch]
    · simp [hqp]

/-- The walk down a column deals with all rows that hang in it, provided a visit deals with one. -/
theorem exists_sift (h : m.Displays L v) (tint : Option χ)
    (forth back : Fin n → Mesh n χ → Except Fault (Mesh n χ)) (hL : L.Proper) (hc : c ∈ L.headers)
    (hvisit : ∀ done p (m : Mesh n χ), (∀ q ∈ done, q ∈ L.column c) → p ∈ L.column c →
      p ∉ done → v.hangs p → m.Displays L (v.sift L tint done) →
        ∃ m', RoundTrip (forth p) (back p) m m' ∧ m'.Displays L (v.sift L tint (done ++ [p]))) :
    ∃ m', RoundTrip (sweepDown forth c) (sweepUp back c) m m' ∧
      m'.Displays L (v.sift L tint ((L.column c).filter v.hangs)) := by
  have hstart : (∀ q ∈ ([] : List (Fin n)), q ∈ L.column c) ∧ m.Displays L (v.sift L tint []) :=
    ⟨by simp, h.congr (by simp [Picture.sift]) (by simp [Picture.sift]) (fun _ _ => rfl)
      fun _ _ => rfl⟩
  have hnodup : ((L.column c).filter v.hangs).Nodup := (hL.column_nodup c).filter _
  obtain ⟨m', htrip, -, hm'⟩ := exists_roundTrip_sweep ((L.column c).filter v.hangs) forth back
    (fun p halike => congrArg Except.ok (halike.above_eq p))
    (fun done m => (∀ q ∈ done, q ∈ L.column c) ∧ m.Displays L (v.sift L tint done))
    (fun done m hm => by
      have hring := hm.2.column c hc
      rw [Picture.column_sift hL hm.1] at hring
      exact leads_of_isRing hring)
    (fun done p rest m hroute hm => by
      have hmem : p ∈ (L.column c).filter v.hangs := by simp [hroute]
      rw [List.mem_filter] at hmem
      rw [hroute] at hnodup
      have hpDone : p ∉ done := fun hp => (List.nodup_append.mp hnodup).2.2 p hp p (by simp) rfl
      obtain ⟨m', htrip, hm'⟩ := hvisit done p m hm.1 hmem.1 hpDone hmem.2 hm.2
      refine ⟨m', htrip, fun q hq => ?_, hm'⟩
      rcases List.mem_append.mp hq with hq | hq
      · exact hm.1 q hq
      · exact List.mem_singleton.mp hq ▸ hmem.1)
    hstart
  exact ⟨m', htrip, hm'⟩

/-- Covering a column is undone by uncovering it. -/
theorem exists_cover (h : m.Displays L v) (hL : L.Proper) (hc : c ∈ L.headers)
    (hopen : v.isOpen c) (hcan : v.CanSettle L c) :
    ∃ m', RoundTrip (cover c) (uncover c) m m' ∧ m'.Displays L (v.cover L c) := by
  obtain ⟨m₁, hsweep, hm₁⟩ := h.exists_sift none hide unhide hL hc
    fun done p m hdone hp hpDone hhangs hm =>
      hm.exists_sift_hide hL hcan hdone hp hpDone hhangs (Paint.matchesTint_none _)
  obtain ⟨hclose, hm'⟩ := hm₁.roundTrip_close hL hc hopen
  exact ⟨_, hsweep.trans hclose, hm'⟩

/-- A visit to a cell of a column that is restricted to a color is undone by the visit that
releases it, also if that one gives back a color that is merely equal. -/
theorem exists_restrict {done : List (Fin n)} {p : Fin n} {color color' : χ}
    (h : m.Displays L (v.sift L (some color) done)) (hL : L.Proper) (hcan : v.CanSettle L c)
    (hcolor : color == color') (hdone : ∀ q ∈ done, q ∈ L.column c) (hp : p ∈ L.column c)
    (hpDone : p ∉ done) (hhangs : v.hangs p) :
    ∃ m', RoundTrip (purify.restrict color p) (unpurify.release color' p) m m' ∧
      m'.Displays L (v.sift L (some color) (done ++ [p])) := by
  have hpCell := (Layout.mem_column.mp hp).1
  have halike : (v.paint p).Alike (m.paint p) := by
    have halike := h.paint p hpCell
    simpa [Picture.sift, hpDone] using halike
  cases hmatch : (v.paint p).matchesTint (some color) with
  | true =>
    rw [← halike.matchesTint_eq] at hmatch
    obtain ⟨own, hown, heq⟩ := Paint.matchesTint_some_iff.mp hmatch
    rw [halike.matchesTint_eq] at hmatch
    exact ⟨_, roundTrip_mark hown heq hcolor, h.sift_mark hmatch⟩
  | false =>
    obtain ⟨m', htrip, hm'⟩ := h.exists_sift_hide hL hcan hdone hp hpDone hhangs hmatch
    have hplain : (m'.paint p).isPurified = false := by
      rw [hm'.isPurified_eq hpCell]
      simp [Picture.sift, hmatch, hcan.isPurified_paint p hp]
    rw [← halike.matchesTint_eq] at hmatch
    exact ⟨m', htrip.restrict hmatch hplain, hm'⟩

/-- Restricting a column to a color is undone by releasing it. An equal color does the same. -/
theorem exists_purify {color : χ} (h : m.Displays L v) (hL : L.Proper) (hc : c ∈ L.headers)
    (htint : v.tint c = none) (hcan : v.CanSettle L c) {given : χ} (hgiven : given == color) :
    ∃ m', RoundTrip (purify c color) (unpurify c) m m' ∧ m'.Displays L (v.purify L c given) := by
  have hsift := fun color' (hcolor : (color == color') = true) =>
    h.exists_sift (some color) (purify.restrict color) (unpurify.release color') hL hc
      fun done p m hdone hp hpDone hhangs hm =>
        hm.exists_restrict hL hcan hcolor hdone hp hpDone hhangs
  obtain ⟨m', htrip, hm'⟩ := hsift color BEq.rfl
  have htint' : m'.tint c = none := by
    have halike := hm'.tint c hc
    rw [show (v.sift L (some color) _).tint c = none from htint] at halike
    generalize m'.tint c = t at halike
    cases halike
    rfl
  rw [← Picture.sift_congr hgiven] at hm'
  refine ⟨m'.setTint c (some color), ⟨?_, fun m₁ hm₁ => ?_⟩,
    ⟨⟨hm'.frame, hm'.column, hm'.count, hm'.paint, fun d hd => ?_, hm'.primary, hm'.secondary⟩,
      hm'.closed⟩⟩
  · rw [purify, htrip.forth_eq]
    rfl
  · -- What is released is the color on record, which is equal to the one restricted to.
    obtain ⟨color', hrecord, hcolor⟩ : ∃ color', m₁.tint c = some color' ∧ color == color' := by
      have halike := hm₁.tint c
      rw [tint_setTint, if_pos rfl] at halike
      generalize m₁.tint c = t at halike
      cases halike with
      | some hcolor => exact ⟨_, rfl, hcolor⟩
    obtain ⟨m'', htrip', -⟩ := hsift color' hcolor
    obtain rfl : m' = m'' := Except.ok.inj (htrip.forth_eq.symm.trans htrip'.forth_eq)
    have halike : m'.Alike (m₁.setTint c none) := by
      refine ⟨hm₁.frame, hm₁.across, hm₁.down, hm₁.counts, hm₁.paint, fun d => ?_⟩
      have hd := hm₁.tint d
      rw [tint_setTint] at hd ⊢
      by_cases hdc : d = c
      · rw [if_pos hdc, hdc, htint']
        exact .none
      · rwa [if_neg hdc] at hd ⊢
    obtain ⟨m₂, hback, hm₂⟩ := htrip'.exists_back _ halike
    exact ⟨m₂, by simp only [unpurify, hrecord, hback], hm₂⟩
  · rw [tint_setTint]
    dsimp only [Picture.purify]
    by_cases hdc : d = c
    · rw [if_pos hdc, if_pos hdc]
      exact .some hgiven
    · rw [if_neg hdc, if_neg hdc]
      exact hm'.tint d hd

end Mesh.Displays

end ExactCover
