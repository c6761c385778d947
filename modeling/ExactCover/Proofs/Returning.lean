import ExactCover.Proofs.Bisimilar
import ExactCover.Proofs.Orderly
import ExactCover.Proofs.Writes

/-!
# Every walk comes home

Steps can be taken on a grid that it is in no state for: columns are covered twice, rows are brought
back that were never taken out, and what was done first is undone first. The grids that come up in
this way are the *misused* ones (`Grid.Misused`), and among them are those that are met in the
middle of a step, between any two of its writes.

The lists of a misused grid need not be lists any more. What is left of them is their order. Every
link down leads to the header or to a cell of the same column that was added later, every link up to
one that was added earlier, and the links of the two rings keep the order in which columns were
added (`Board.LeadsOnward`). Hence no walk along the links goes on for ever, and no step does
(`Board.Returns`).
-/

set_option autoImplicit false

namespace ExactCover

/-- If every step that is not home lowers a rank, home is reached. -/
theorem exists_iterate_eq {α : Type} {f : α → α} {home : α} {members : List α} (rank : α → Nat)
    (hstep : ∀ p ∈ members, f p = home ∨ f p ∈ members ∧ (p = home ∨ rank (f p) < rank p))
    {p : α} (hp : p ∈ members) : ∃ k ≤ rank p + 1, f^[k] p = home := by
  induction hrank : rank p using Nat.strong_induction_on generalizing p with
  | _ r ih =>
    subst hrank
    rcases hstep p hp with hhome | ⟨hmem, rfl | hlt⟩
    · exact ⟨1, by omega, hhome⟩
    · exact ⟨0, by omega, rfl⟩
    · obtain ⟨k, hk, hhome⟩ := ih _ hlt hmem rfl
      exact ⟨k + 1, by omega, hhome⟩

namespace Links.Rises

variable {n : Nat} {links : Links n} {home p : Fin n} {members : List (Fin n)}

theorem next_cases (h : links.Rises home members) (hp : p ∈ members) (hne : p ≠ home) :
    links.next p = home ∨ links.next p ∈ members ∧ p < links.next p :=
  (h.next p (List.mem_cons_of_mem _ hp)).imp_right fun ⟨hmem, hlt⟩ =>
    ⟨hmem, hlt.resolve_left hne⟩

theorem prev_cases (h : links.Rises home members) (hp : p ∈ members) (hne : p ≠ home) :
    links.prev p = home ∨ links.prev p ∈ members ∧ links.prev p < p :=
  (h.prev p (List.mem_cons_of_mem _ hp)).imp_right fun ⟨hmem, hlt⟩ =>
    ⟨hmem, hlt.resolve_left hne⟩

theorem exists_iterate_next (h : links.Rises home members) (hp : p ∈ home :: members) :
    ∃ k ≤ n, links.next^[k] p = home := by
  obtain ⟨k, hk, hhome⟩ := exists_iterate_eq (fun p : Fin n => n - 1 - p.val)
    (fun q hq => (h.next q hq).imp_right fun ⟨hmem, hlt⟩ =>
      ⟨List.mem_cons_of_mem _ hmem, hlt.imp_right fun hlt => by omega⟩) hp
  exact ⟨k, by omega, hhome⟩

theorem exists_iterate_prev (h : links.Rises home members) (hp : p ∈ home :: members) :
    ∃ k ≤ n, links.prev^[k] p = home := by
  obtain ⟨k, hk, hhome⟩ := exists_iterate_eq (fun p : Fin n => p.val)
    (fun q hq => (h.prev q hq).imp_right fun ⟨hmem, hlt⟩ =>
      ⟨List.mem_cons_of_mem _ hmem, hlt⟩) hp
  exact ⟨k, by omega, hhome⟩

end Links.Rises

namespace Mesh

variable {n : Nat} {χ : Type} {m m' : Mesh n χ} {L : Layout n χ} {c p : Fin n}

section Steps

variable [BEq χ] [EquivBEq χ]

/-- A step is over after so many visits as there are positions, unless a count or the lack of a
color stops it before. -/
theorem Orderly.fault_of_run {step : Step χ} (h : m.Orderly L) (hL : L.Sound)
    (hfits : step.Fits L p) {fault : Fault} (hrun : step.run p m = .error fault) :
    fault = .countUnderflow ∨ fault = .notPurified := by
  have hself := h.mirrors_self hL
  have hagree : Agree L L (step.run p m) (step.run p m) := by
    cases step with
    | cover => exact hself.cover hL.matches_self (.refl hfits)
    | uncover => exact hself.uncover hL.matches_self (.refl hfits)
    | purify color => exact hself.purify hL.matches_self (.refl hfits) BEq.rfl
    | unpurify => exact hself.unpurify hL.matches_self (.refl hfits)
    | commitRow => exact hself.commitRow hL.matches_self (.refl hfits)
    | uncommitRow => exact hself.uncommitRow hL.matches_self (.refl hfits)
  rw [hrun] at hagree
  cases hagree with
  | error hfault => exact hfault

omit [BEq χ] [EquivBEq χ] in
/-- Where a step is taken at a position of its kind, it fits. -/
theorem Step.fits_of_isAt {step : Step χ} (hheader : ∀ c, L.role c = .header → c ∈ L.headers)
    (hcell : ∀ p, (L.role p).isCell → p ∈ L.cells) (hat : step.isAt (L.role p)) :
    step.Fits L p := by
  cases step with
  | cover | uncover | purify color | unpurify => exact hheader p (of_decide_eq_true hat)
  | commitRow | uncommitRow => exact hcell p hat

end Steps

end Mesh

namespace Board

variable {ι χ : Type} [Item ι χ]

/-- The columns of the items that must be covered or of those that may be, in the order in which
they were added. -/
def kin (b : Board ι χ) (isPrimary : Bool) : List (Fin b.size) :=
  b.mesh.headers.filter fun c => (b.item? c).any fun item => isPrimaryItem item == isPrimary

/-- The head of the ring of these columns. -/
def head (b : Board ι χ) (isPrimary : Bool) : Fin b.size :=
  if isPrimary then b.mesh.primaryHead else b.mesh.secondaryHead

/-- Walks along the links come home, wherever they start, and steps end. -/
structure Returns [BEq χ] (b : Board ι χ) : Prop where
  /-- The walk down from a cell comes to the header of its column. -/
  below : ∀ p ∈ b.entries, ∃ k ≤ b.size, b.mesh.below^[k] p = b.mesh.column p
  /-- So does the walk up. -/
  above : ∀ p ∈ b.entries, ∃ k ≤ b.size, b.mesh.above^[k] p = b.mesh.column p
  /-- The walk down from the header of a column comes back to it. -/
  cells : ∀ c, b.mesh.role c = .header → ∃ ps, b.mesh.cells c = .ok ps
  /-- The walk to the right from a column comes to the head of its own ring. From a column that must
  be covered it goes on as the walk around the primary ring does. From any other column it is a
  walk of the secondary ring, and meets no column that must be covered. -/
  next : ∀ isPrimary, ∀ c ∈ b.kin isPrimary,
    ∃ k ≤ b.size, b.mesh.across.next^[k] c = b.head isPrimary
  /-- So does the walk to the left. -/
  prev : ∀ isPrimary, ∀ c ∈ b.kin isPrimary,
    ∃ k ≤ b.size, b.mesh.across.prev^[k] c = b.head isPrimary
  /-- The walk around the primary ring comes back to its head. It asks for the first open column that
  must be covered, and then for the one that follows, until there is none. -/
  primaryColumns : ∃ cs, b.mesh.primaryColumns = .ok cs
  /-- No walk of a step goes on for ever or leaves its column or row. -/
  run : ∀ (step : Mesh.Step χ) (p : Fin b.size), step.isAt (b.mesh.role p) →
    ∀ fault, step.run p b.mesh = .error fault → fault = .countUnderflow ∨ fault = .notPurified

end Board

namespace Mesh.Arranges

variable {ι χ : Type} [BEq ι] [EquivBEq ι] [BEq χ] [Item ι χ] {n : Nat} {rest m : Mesh n χ}
  {labels : List (ι × Nat)} {L : Layout n χ} {rows : List (Nat × List ι)} {c p : Fin n}

omit [EquivBEq ι] in
/-- A column is in the ring that the kind of its item asks for. -/
theorem mem_ring_iff (h : rest.Arranges labels L (rows.map (·.2)) (Grid.numbering rows))
    (hc : c ∈ L.headers) {item : ι} (hitem : (item, c.val) ∈ labels) (isPrimary : Bool) :
    (c ∈ if isPrimary then L.primary else L.secondary) ↔ isPrimaryItem item = isPrimary := by
  have hprimary := h.isPrimaryItem_iff hitem
  have hapart := (List.nodup_append.mp h.sound.headers_nodup).2.2
  cases isPrimary with
  | true => exact hprimary.symm
  | false =>
    rw [if_neg Bool.false_ne_true, ← Bool.not_eq_true, hprimary]
    constructor
    · intro hmem hmem'
      exact hapart c hmem' c hmem rfl
    · exact (List.mem_append.mp hc).resolve_left

omit [EquivBEq ι] in
/-- The columns of a kind are those of a ring of the layout. -/
theorem kin_eq (h : rest.Arranges labels L (rows.map (·.2)) (Grid.numbering rows))
    (hframe : m.toFrame = L.toFrame) (isPrimary : Bool) :
    (⟨n, m, labels⟩ : Board ι χ).kin isPrimary = if isPrimary then L.primary else L.secondary := by
  have hsorted : (if isPrimary then L.primary else L.secondary).Pairwise (· < ·) := by
    split
    · exact h.sound.primary_sorted
    · exact h.sound.secondary_sorted
  have hheaders : ∀ c ∈ if isPrimary then L.primary else L.secondary, c ∈ L.headers := by
    split
    · exact fun c => List.mem_append_left _
    · exact fun c => List.mem_append_right _
  refine (((List.pairwise_lt_finRange n).filter _).filter _).eq_of_mem_iff hsorted fun c => ?_
  have hfound : ∀ c ∈ L.headers, ((⟨n, m, labels⟩ : Board ι χ).item? c).any
      (fun item => isPrimaryItem item == isPrimary) ↔
        c ∈ if isPrimary then L.primary else L.secondary := by
    intro c hc
    obtain ⟨x, -, hx⟩ := exists_of_forall₂ h.header_labels hc
    rw [h.item?_eq_some m hx, h.mem_ring_iff hc hx, Option.any_some, beq_iff_eq]
  rw [List.mem_filter]
  change c ∈ m.headers ∧ _ ↔ _
  rw [(h.sound.headers_perm hframe h.header).mem_iff]
  constructor
  · intro hc
    exact (hfound c hc.1).mp hc.2
  · intro hc
    exact ⟨hheaders c hc, (hfound c (hheaders c hc)).mpr hc⟩

variable (h : rest.Arranges labels L (rows.map (·.2)) (Grid.numbering rows)) (hm : m.Orderly L)

include h hm

omit [EquivBEq ι] in
/-- The links of a ring keep to the columns of its kind. -/
theorem rises_head (isPrimary : Bool) :
    m.across.Rises ((⟨n, m, labels⟩ : Board ι χ).head isPrimary)
      ((⟨n, m, labels⟩ : Board ι χ).kin isPrimary) ∧
        ∀ c ∈ (⟨n, m, labels⟩ : Board ι χ).kin isPrimary,
          c ≠ (⟨n, m, labels⟩ : Board ι χ).head isPrimary := by
  have hne : ∀ c ∈ L.headers, ∀ head, L.role head = .ringHead → c ≠ head := by
    rintro c hc head hhead rfl
    rw [h.sound.role_header c hc] at hhead
    cases hhead
  rw [h.kin_eq hm.frame, Board.head]
  simp only [hm.frame]
  cases isPrimary with
  | true =>
    exact ⟨hm.primary, fun c hc =>
      hne c (List.mem_append_left _ hc) _ h.sound.role_primaryHead⟩
  | false =>
    exact ⟨hm.secondary, fun c hc =>
      hne c (List.mem_append_right _ hc) _ h.sound.role_secondaryHead⟩

omit [EquivBEq ι] in
/-- The links of a column keep to its cells. -/
theorem rises_column (hp : p ∈ (⟨n, m, labels⟩ : Board ι χ).entries) :
    m.down.Rises (m.column p) (L.column (m.column p)) ∧ p ∈ L.column (m.column p) ∧
      p ≠ m.column p := by
  rw [h.entries_eq hm.frame] at hp
  have hc : m.column p ∈ L.headers := hm.column_eq p ▸ h.sound.columnOf_mem p hp
  refine ⟨hm.column _ hc, Layout.mem_column.mpr ⟨hp, (hm.column_eq p).symm⟩, fun heq => ?_⟩
  exact h.sound.not_mem_headers hp (heq ▸ hc)

omit [EquivBEq ι] in
/-- On an orderly mesh every walk comes home. -/
theorem returns [EquivBEq χ] : (⟨n, m, labels⟩ : Board ι χ).Returns where
  below p hp := by
    obtain ⟨hrises, hmem, -⟩ := h.rises_column hm hp
    exact hrises.exists_iterate_next (List.mem_cons_of_mem _ hmem)
  above p hp := by
    obtain ⟨hrises, hmem, -⟩ := h.rises_column hm hp
    exact hrises.exists_iterate_prev (List.mem_cons_of_mem _ hmem)
  cells c hc := by
    have hheader : c ∈ L.headers := h.header c (by rwa [← hm.frame])
    obtain ⟨ps, -, hps, -⟩ :=
      (hm.mirrors_self h.sound).exists_cells h.sound.matches_self (.refl hheader)
    exact ⟨ps, hps⟩
  next isPrimary c hc :=
    (h.rises_head hm isPrimary).1.exists_iterate_next (List.mem_cons_of_mem _ hc)
  prev isPrimary c hc :=
    (h.rises_head hm isPrimary).1.exists_iterate_prev (List.mem_cons_of_mem _ hc)
  primaryColumns := by
    obtain ⟨cs, -, hcs, -⟩ := (hm.mirrors_self h.sound).exists_primaryColumns h.sound.matches_self
    exact ⟨cs, hcs⟩
  run step p hat fault hrun := by
    rw [hm.frame] at hat
    exact hm.fault_of_run h.sound (Step.fits_of_isAt h.header h.cell hat) hrun

end Mesh.Arranges

/-! ## Misused grids -/

namespace Grid

variable {γ ι χ : Type} [Grid γ ι χ] [BEq χ]

/-- Whether a step is taken at positions like the one with this number. -/
def isAt (grid : γ) (step : Mesh.Step χ) (p : Nat) : Bool :=
  ((board grid).position? p).any fun q => step.isAt ((board grid).mesh.role q)

/-- Takes a step, or as much of it as is done with the given number of writes. -/
def attempt (grid : γ) (step : Mesh.Step χ) (p : Nat) : Option Nat → Except Fault γ
  | none => Grid.step step.run grid p
  | some k => Grid.step (fun p m => .ok (m.writeAll ((step.writes p m).take k))) grid p

/-- The grids that come up when steps are taken at any columns and rows, in any order and any number
of times, and those that come up while a step is taken. A step that stops in the middle can be
followed by others. -/
inductive Misused (start : γ) : γ → Prop where
  | start : Misused start start
  | attempt {grid grid' : γ} {step : Mesh.Step χ} {p : Nat} {writes? : Option Nat}
      (h : Misused start grid) (hat : isAt grid step p)
      (hattempt : attempt grid step p writes? = .ok grid') : Misused start grid'

/-- Takes some steps or parts of steps, one after another. -/
def misuse (grid : γ) : List (Mesh.Step χ × Nat × Option Nat) → Except Fault γ
  | [] => .ok grid
  | (step, p, writes?) :: steps =>
    if isAt grid step p then do
      let grid ← attempt grid step p writes?
      misuse grid steps
    else .error .outOfRange

theorem Misused.misuse {start grid grid' : γ} {steps : List (Mesh.Step χ × Nat × Option Nat)}
    (h : Misused start grid) (hsteps : Grid.misuse grid steps = .ok grid') :
    Misused start grid' := by
  induction steps generalizing grid with
  | nil =>
    obtain rfl := Except.ok.inj hsteps
    exact h
  | cons latest steps ih =>
    obtain ⟨step, p, writes?⟩ := latest
    rw [Grid.misuse] at hsteps
    split at hsteps
    · next hat =>
      obtain ⟨next, hattempt, hrest⟩ := exists_of_bind_eq_ok hsteps
      exact ih (h.attempt hat hattempt) hrest
    · cases hsteps

section Mounted

variable {n : Nat} {mount : Mesh n χ → γ} {labels : List (ι × Nat)} {L : Layout n χ}
  {rest : Mesh n χ}

omit [BEq χ] in
/-- Where a step is taken on a grid with an orderly mesh, it fits. -/
theorem Mounts.exists_fits (h : Mounts mount labels) {m : Mesh n χ} (hm : m.Orderly L)
    (hheader : ∀ c, L.role c = .header → c ∈ L.headers)
    (hcell : ∀ p, (L.role p).isCell → p ∈ L.cells) {step : Mesh.Step χ} {p : Nat}
    (hat : isAt (mount m) step p) : ∃ q : Fin n, q.val = p ∧ step.Fits L q := by
  rw [isAt, h.board_eq, Option.any_eq_true] at hat
  obtain ⟨q, hq, hrole⟩ := hat
  obtain ⟨hlt, rfl⟩ : ∃ hlt : p < n, (⟨p, hlt⟩ : Fin n) = q := by simpa [Board.position?] using hq
  rw [hm.frame] at hrole
  exact ⟨_, rfl, Mesh.Step.fits_of_isAt hheader hcell hrole⟩

/-- Misused grids have orderly meshes. -/
theorem Misused.exists_orderly (h : Mounts mount labels) (hL : L.Sound)
    (hheader : ∀ c, L.role c = .header → c ∈ L.headers)
    (hcell : ∀ p, (L.role p).isCell → p ∈ L.cells) (hrest : rest.Orderly L) {grid : γ}
    (hmisused : Misused (mount rest) grid) : ∃ m, grid = mount m ∧ m.Orderly L := by
  induction hmisused with
  | start => exact ⟨rest, rfl, hrest⟩
  | @attempt _ grid' step p writes? _ hat hattempt ih =>
    obtain ⟨m, rfl, hm⟩ := ih
    obtain ⟨q, rfl, hfits⟩ := h.exists_fits hm hheader hcell hat
    cases writes? with
    | some k =>
      rw [Grid.attempt, h.step_eq] at hattempt
      exact ⟨_, (Except.ok.inj hattempt).symm, step.orderly_take hfits hL hm k⟩
    | none =>
      rw [Grid.attempt, h.step_eq] at hattempt
      cases hrun : step.run q m with
      | error fault =>
        rw [hrun] at hattempt
        cases hattempt
      | ok m' =>
        rw [hrun] at hattempt
        have hm' : m'.Orderly L := (step.performs hfits hL hm).orderly_of_eq_ok hrun
        exact ⟨m', (Except.ok.inj hattempt).symm, hm'⟩

end Mounted

/-- A misused grid with some rows differs in nothing but its mesh, and this is orderly. -/
theorem Shelters.exists_orderly {ι χ γ : Type} [Grid γ ι χ] [BEq ι] [BEq χ] [Item ι χ] {n : Nat}
    {mount : Mesh n χ → γ} {labels : List (ι × Nat)} {L : Layout n χ} {rest : Mesh n χ}
    {rows : List (Nat × List ι)} (h : Shelters mount labels L rest rows) {grid : γ}
    (hmisused : Misused (mount rest) grid) : ∃ m, grid = mount m ∧ m.Orderly L :=
  hmisused.exists_orderly h.toMounts h.arranges.sound h.arranges.header h.arranges.cell
    (h.arranges.atRest.orderly h.arranges.sound h.arranges.closed)

end Grid

end ExactCover
