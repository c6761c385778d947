import Mathlib.Algebra.Order.Field.Basic
import Mathlib.Data.Rat.Cast.Order
import Mathlib.Tactic.Linarith
import ExactCover.Proofs.Announced
import ExactCover.Proofs.Bookkeeping

/-!
# Estimates and shares

A level of a search has a share of the whole: it begins at the progress when the row at hand was
selected, and its length is one by the product of the level. If the numbers are fractions, every
report lies inside the share of the level at hand, and inside those of all levels around it
(`Attended.estimates_inside`).
-/

set_option autoImplicit false

namespace ExactCover

namespace Level

variable {outer level : Level ℚ} {rows row : Nat}

/-- The share of the first level lies in that of the second. -/
structure Within (level outer : Level ℚ) : Prop where
  le : outer.current ≤ level.current
  add_le : level.current + 1 / level.product ≤ outer.current + 1 / outer.product

theorem Within.refl (level : Level ℚ) : level.Within level :=
  ⟨le_refl _, le_refl _⟩

theorem Within.trans {inner : Level ℚ} (h : inner.Within level) (h' : level.Within outer) :
    inner.Within outer :=
  ⟨h'.le.trans h.le, h.add_le.trans h'.add_le⟩

/-- The level is that of a branch with so many rows in the share of `outer`, of which some have been
selected. -/
structure Splits (outer : Level ℚ) (rows row : Nat) (level : Level ℚ) : Prop where
  product : level.product = outer.product * rows
  initial : level.initial = outer.current
  row : level.row = row

theorem splits_nested (outer : Level ℚ) (rows : Nat) : outer.Splits rows 0 (outer.nested rows) :=
  ⟨rfl, rfl, rfl⟩

theorem Splits.nextRow (h : outer.Splits rows row level) :
    outer.Splits rows (row + 1) level.nextRow :=
  ⟨h.product, h.initial, congrArg (· + 1) h.row⟩

theorem Splits.product_pos (h : outer.Splits rows row level) (hpos : 0 < outer.product)
    (hrow : row < rows) : 0 < level.product := by
  rw [h.product]
  have hrows : (0 : ℚ) < rows := Nat.cast_pos.mpr (Nat.zero_lt_of_lt hrow)
  exact mul_pos hpos hrows

/-- The share of a row lies in that of the branch. -/
theorem Splits.within (h : outer.Splits rows row level) (hpos : 0 < outer.product)
    (hrow : row < rows) : level.nextRow.Within outer := by
  have hproduct := h.product_pos hpos hrow
  have hrows : ((row : ℚ) + 1) / level.product ≤ 1 / outer.product := by
    have hle : (row : ℚ) + 1 ≤ rows := by exact_mod_cast hrow
    rw [div_le_div_iff₀ hproduct hpos, h.product, one_mul, mul_comm outer.product]
    exact mul_le_mul_of_nonneg_right hle hpos.le
  have hcurrent : level.nextRow.current = outer.current + row / level.product := by
    rw [← h.initial, ← h.row]
    rfl
  have hshare : level.nextRow.product = level.product := rfl
  refine ⟨?_, ?_⟩
  · rw [hcurrent]
    have hstart : 0 ≤ (row : ℚ) / level.product := div_nonneg (Nat.cast_nonneg row) hproduct.le
    linarith
  · rw [hcurrent, hshare, add_assoc, ← add_div]
    linarith

/-- The estimate lies inside the share of every level around. -/
theorem Within.estimate_inside (h : level.Within outer) (hpos : 0 < level.product) :
    outer.current < level.estimate ∧ level.estimate < outer.current + 1 / outer.product := by
  have hestimate : level.estimate = level.current + 1 / 2 / level.product := by
    simp [estimate, Scale.ofCount]
  have hhalf : 1 / 2 / level.product = 1 / level.product / 2 := div_right_comm 1 2 _
  have hshare : 0 < 1 / level.product := one_div_pos.mpr hpos
  have hle := h.le
  have hadd := h.add_le
  rw [hestimate, hhalf]
  constructor <;> linarith

end Level

/-- There is a level, it has a share, and this share lies in that of every level around it. -/
structure Reporter.Nests (reporter : Reporter ℚ) (level : Level ℚ) : Prop where
  level_eq : reporter.level = some level
  product_pos : 0 < level.product
  within_root : level.Within .root
  within_stack : ∀ outer ∈ reporter.stack, 0 < outer.product ∧ level.Within outer

/-- The shares are nested whenever a row is selected. -/
def Ledger.InShares (ledger : Ledger ℚ) (notices : List Notice) : Prop :=
  ∀ moment ∈ trail .heed ledger notices, moment.1 = .rowSelected →
    ∃ level, moment.2.reporter.Nests level

namespace Ledger

variable {ledger : Ledger ℚ} {us vs : List Notice} {notice : Notice}

theorem inShares_append :
    ledger.InShares (us ++ vs) ↔ ledger.InShares us ∧ (us.foldl .heed ledger).InShares vs := by
  rw [InShares, trail_append, List.forall_mem_append]
  rfl

theorem inShares_cons :
    ledger.InShares (notice :: vs) ↔
      (notice = .rowSelected → ∃ level, (ledger.heed notice).reporter.Nests level) ∧
        (ledger.heed notice).InShares vs := by
  rw [InShares, trail, List.forall_mem_cons]
  rfl

theorem inShares_nil : ledger.InShares [] :=
  nofun

end Ledger

section Rounds

variable {ledger : Ledger ℚ} {level outer : Level ℚ}

/-- The rows of a branch split the share of the level around it. -/
theorem inShares_rows {tried : List (List Notice)} {rows row : Nat} {stack : List (Level ℚ)}
    (hrounds : ∀ round ∈ tried, Round Eq round)
    (ih : ∀ round ∈ tried, ∀ {ledger : Ledger ℚ} {level : Level ℚ},
      ledger.reporter.Nests level → ledger.InShares round)
    (hlevel : ledger.reporter.level = some level) (hstack : ledger.reporter.stack = outer :: stack)
    (hsplits : outer.Splits rows row level) (hpos : 0 < outer.product) (hroot : outer.Within .root)
    (houter : ∀ around ∈ stack, 0 < around.product ∧ outer.Within around)
    (hlength : row + tried.length ≤ rows) :
    ledger.InShares (tried.flatMap (.rowSelected :: ·)) := by
  induction tried generalizing ledger level row with
  | nil => exact Ledger.inShares_nil
  | cons round tried ihtried =>
    rw [List.forall_mem_cons] at hrounds ih
    rw [List.length_cons] at hlength
    have hrow : row < rows := by omega
    have hwithin := hsplits.within hpos hrow
    have hnests : (ledger.heed .rowSelected).reporter.Nests level.nextRow := by
      refine ⟨congrArg (Option.map _) hlevel, hsplits.product_pos hpos hrow,
        hwithin.trans hroot, ?_⟩
      show ∀ around ∈ ledger.reporter.stack, _
      rw [hstack, List.forall_mem_cons]
      exact ⟨⟨hpos, hwithin⟩, fun around haround =>
        ⟨(houter around haround).1, hwithin.trans (houter around haround).2⟩⟩
    -- The next row begins where this one began, since its own branches have ended by then.
    obtain ⟨hstack', hlevel'⟩ := hrounds.1.foldl_heed hnests.level_eq
    rw [List.flatMap_cons, List.cons_append, Ledger.inShares_cons, Ledger.inShares_append]
    exact ⟨fun _ => ⟨_, hnests⟩, ih.1 hnests, ihtried hrounds.2 ih.2 hlevel'
      (hstack'.trans hstack) hsplits.nextRow (by omega)⟩

/-- In a round all shares are nested if they are so at its beginning. -/
theorem Round.inShares {round : List Notice} (h : Round Eq round)
    (hnests : ledger.reporter.Nests level) : ledger.InShares round := by
  induction h generalizing ledger level with
  | quiet => exact Ledger.inShares_nil
  | @branch rows tried hrows hrounds ih =>
    have hentered : (ledger.heed (.entered rows)).reporter.level = some (level.nested rows) ∧
        (ledger.heed (.entered rows)).reporter.stack = level :: ledger.reporter.stack := by
      rw [Ledger.heed, Reporter.entered, hnests.level_eq]
      exact ⟨rfl, rfl⟩
    have hrows := inShares_rows hrounds ih hentered.1 hentered.2 (level.splits_nested rows)
      hnests.product_pos hnests.within_root hnests.within_stack (by omega)
    rw [Ledger.inShares_cons, Ledger.inShares_append, Ledger.inShares_cons]
    exact ⟨fun hrow => by contradiction, hrows, fun hrow => by contradiction, Ledger.inShares_nil⟩

theorem Session.inShares {notices : List Notice} (h : Session Eq notices) (ledger : Ledger ℚ) :
    ledger.InShares notices := by
  obtain ⟨round, hround, rfl⟩ := h
  have hpos : (0 : ℚ) < ((1 : Nat) : ℚ) := by norm_num
  have hnests : (ledger.heed .started).reporter.Nests .root :=
    ⟨rfl, hpos, Level.Within.refl _, nofun⟩
  rw [Ledger.inShares_cons]
  exact ⟨nofun, hround.inShares hnests⟩

/-- It does not matter what became of the searches before, since each of them starts with the whole
again. -/
theorem Sessions.inShares {heard : List Notice} (h : Sessions Eq heard) (interval : Nat) :
    (Ledger.start interval).InShares heard := by
  induction h with
  | nil => exact Ledger.inShares_nil
  | search _ hsession ih =>
    rw [Ledger.inShares_append]
    exact ⟨ih, (Ledger.inShares_append.mp (hsession.inShares _)).1⟩

end Rounds

/-- The report is an estimate strictly inside the whole and strictly inside the shares of all levels
that are open. -/
def Report.Inside (report : Report ℚ) (reporter : Reporter ℚ) : Prop :=
  ∃ estimate, report.progress = some estimate ∧ 0 < estimate ∧ estimate < 1 ∧
    ∀ level ∈ reporter.level.toList ++ reporter.stack,
      0 < level.product ∧ level.current < estimate ∧ estimate < level.current + 1 / level.product

theorem Reporter.Nests.inside {reporter : Reporter ℚ} {level : Level ℚ}
    (h : reporter.Nests level) (tried : Nat) :
    Report.Inside ⟨tried, reporter.progress⟩ reporter := by
  have hroot := h.within_root.estimate_inside h.product_pos
  have hself := (Level.Within.refl level).estimate_inside h.product_pos
  refine ⟨level.estimate, ?_, ?_, ?_, ?_⟩
  · rw [progress, h.level_eq]
    rfl
  · simpa [Level.root, Scale.ofCount] using hroot.1
  · simpa [Level.root, Scale.ofCount] using hroot.2
  · rw [h.level_eq, Option.toList_some, List.singleton_append, List.forall_mem_cons]
    exact ⟨⟨h.product_pos, hself⟩, fun outer houter => ⟨(h.within_stack outer houter).1,
      (h.within_stack outer houter).2.estimate_inside h.product_pos⟩⟩

/-- Every report was made at a moment when a row was selected. -/
theorem Ledger.exists_moment {α : Type} [Scale α] {interval : Nat} {heard : List Notice}
    {report : Report α} (h : report ∈ (Ledger.after interval heard : Ledger α).reports) :
    ∃ us vs, heard = us ++ .rowSelected :: vs ∧
      (Ledger.after interval (us ++ [.rowSelected]) : Ledger α).reports =
        (Ledger.after interval us : Ledger α).reports ++ [report] ∧
      report = ⟨(Ledger.after interval (us ++ [.rowSelected]) : Ledger α).reporter.tried,
        (Ledger.after interval (us ++ [.rowSelected]) : Ledger α).reporter.progress⟩ := by
  induction heard using List.reverseRecOn with
  | nil => contradiction
  | append_singleton heard notice ih =>
    have hreports := reports_heed (after interval heard : Ledger α) notice
    rw [← after_concat] at hreports
    rw [hreports, List.mem_append] at h
    rcases h with h | h
    · obtain ⟨us, vs, rfl, hmade, hreport⟩ := ih h
      exact ⟨us, vs ++ [notice], by simp, hmade, hreport⟩
    · split at h
      · next hdue =>
        obtain rfl := List.mem_singleton.mp h
        obtain rfl := hdue.1
        refine ⟨heard, [], rfl, ?_, rfl⟩
        rw [hreports, if_pos hdue]
      · contradiction

variable {interval : Nat} {history : List (Notice × Ledger ℚ)} {ledger : Ledger ℚ}

/-- Whatever searches a reporter is told about, and however they end, each of its reports is an
estimate strictly between zero and one. At the moment when it is made, it lies strictly inside the
share of every level that is open, and no such level has the product zero. -/
theorem Attended.estimates_inside (h : Attended LawfulSearch interval history ledger) :
    ∀ report ∈ ledger.reports, ∃ before now after,
      history = before ++ (.rowSelected, now) :: after ∧
      now.reports = (ledgerAt interval before).reports ++ [report] ∧
      report.Inside now.reporter := by
  obtain ⟨heard, hsessions, rfl, rfl⟩ := h.exists_sessions fun _ _ hsearch => hsearch.follows
  intro report hreport
  obtain ⟨us, vs, rfl, hmade, hmoment⟩ := Ledger.exists_moment hreport
  have hshares := (Ledger.inShares_append.mp (hsessions.inShares interval)).2
  obtain ⟨level, hnests⟩ := (Ledger.inShares_cons.mp hshares).1 rfl
  rw [Ledger.after_concat] at hmade hmoment
  refine ⟨_, _, _, trail_append us (.rowSelected :: vs), ?_, ?_⟩
  · rw [ledgerAt_trail]
    exact hmade
  · rw [hmoment]
    exact hnests.inside _

/-- Once the first option is taken, no row is left for the item `2`, so a column without rows is
entered. A report interrupts the first of two searches there. -/
theorem estimates_inside_of_interrupted :
    let requests : List (Request (List Nat) Unit Empty) :=
      [.addOptions [[0, 1], [0], [1, 2], [1, 2]]]
    let report : Report ℚ → Call Unit Unit Unit := fun due =>
      if due.tried = 2 then throw () else pure ()
    let callbacks : Ledger ℚ → Callbacks Unit (List Nat) Empty Unit := fun _ =>
      ⟨fun _ => pure (.ok ()), pure false⟩
    let first := ((Solver.woven id).after () requests).account report callbacks [] () (.start 1)
    let second := ((Solver.packed id).after () requests).accountOfAll report () first.ledger
    first.returned = false ∧
      first.sights.map (·.1) = [.started, .entered 2, .rowSelected, .entered 0, .ended,
        .rowSelected] ∧
      second.returned = true ∧
      second.ledger.reports.map (·.progress) = [some (1 / 4), some (3 / 4), some (1 / 4),
        some (3 / 4), some (5 / 8), some (7 / 8)] ∧
      ∀ report ∈ second.ledger.reports, ∃ before now after,
        first.sights ++ second.sights = before ++ (.rowSelected, now) :: after ∧
        now.reports = (ledgerAt 1 before).reports ++ [report] ∧ report.Inside now.reporter := by
  intro requests report callbacks first second
  have hfirst : LawfulSearch (.start 1) first :=
    .searchWith id requests () report callbacks [] ()
  have hsecond : LawfulSearch first.ledger second := .allSolutions id requests () report ()
  have hattended := (Attended.start.call hfirst).call hsecond
  rw [List.nil_append] at hattended
  refine ⟨?_, ?_, ?_, ?_, hattended.estimates_inside⟩
  all_goals decide +kernel

end ExactCover
