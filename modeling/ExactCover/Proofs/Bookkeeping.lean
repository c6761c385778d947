import Mathlib.Data.List.DropRight
import Mathlib.Data.List.Induction
import ExactCover.Proofs.Ledgers

/-!
# The books of a reporter

A reporter counts the rows of all searches that it is told about, and keeps a stack of levels for
the search at hand. An interrupted search leaves levels on the stack. The next search discards them,
while the count and the reports go on.

How many branches are open can be told from the notices since the last start (`openBranches`). If a
branch ends, the notices since it was entered are `Balanced`, so the reporter is back at the level
that was current before (`Balanced.foldl_heed`). All that is to be read in a ledger at any moment is
put together in `Books`, and `Attended.bookkeeping` says that the books are in order whatever is
searched and however the searches end.
-/

set_option autoImplicit false

namespace ExactCover

variable {α : Type}

/-- Whether a branch is entered. -/
def Notice.isEntered : Notice → Bool
  | .entered _ => true
  | _ => false

/-- The number of open branches after one more notice, if it can be told. -/
def nest : Option Nat → Notice → Option Nat
  | _, .started => some 0
  | some k, .entered _ => some (k + 1)
  | some k, .rowSelected => some k
  | some (k + 1), .ended => some k
  | _, _ => none

/-- The number of branches that are open after some notices. There is no such number before the
first search, nor if more branches have been ended than entered. -/
def openBranches (heard : List Notice) : Option Nat := heard.foldl nest none

/-- The ways in which it can be told how many branches are open. -/
theorem nest_eq_some {state : Option Nat} {notice : Notice} {k : Nat}
    (h : nest state notice = some k) :
    (notice = .started ∧ k = 0) ∨ ∃ j, state = some j ∧
      ((∃ rows, notice = .entered rows ∧ k = j + 1) ∨ (notice = .rowSelected ∧ k = j) ∨
        (notice = .ended ∧ j = k + 1)) := by
  cases notice with
  | started => exact .inl ⟨rfl, (Option.some.inj h).symm⟩
  | entered rows =>
    cases state with
    | none => contradiction
    | some j => exact .inr ⟨j, rfl, .inl ⟨rows, rfl, (Option.some.inj h).symm⟩⟩
  | rowSelected =>
    cases state with
    | none => contradiction
    | some j => exact .inr ⟨j, rfl, .inr (.inl ⟨rfl, (Option.some.inj h).symm⟩)⟩
  | ended =>
    match state with
    | none => contradiction
    | some 0 => contradiction
    | some (j + 1) => exact .inr ⟨j + 1, rfl, .inr (.inr ⟨rfl, congrArg _ (Option.some.inj h)⟩)⟩

@[simp]
theorem openBranches_concat (heard : List Notice) (notice : Notice) :
    openBranches (heard ++ [notice]) = nest (openBranches heard) notice := by
  rw [openBranches, List.foldl_concat, openBranches]

/-- Once it cannot be told how many branches are open, only a start will help. -/
theorem foldl_nest_none {notices : List Notice} (h : .started ∉ notices) :
    notices.foldl nest none = none := by
  induction notices with
  | nil => rfl
  | cons notice notices ih =>
    rw [List.mem_cons, not_or] at h
    cases notice with
    | started => exact absurd rfl h.1
    | _ => exact ih h.2

/-- A round ends all branches that it enters, and no others. -/
theorem Round.foldl_nest {fits : Nat → Nat → Prop} {round : List Notice} (h : Round fits round)
    (k : Nat) : round.foldl nest (some k) = some k := by
  induction h generalizing k with
  | quiet => rfl
  | @branch rows tried hfits h ih =>
    clear hfits h
    have hrows : (tried.flatMap (.rowSelected :: ·)).foldl nest (some (k + 1)) = some (k + 1) := by
      induction tried with
      | nil => rfl
      | cons row tried ih' =>
        rw [List.forall_mem_cons] at ih
        rw [List.flatMap_cons, List.foldl_append, List.foldl_cons]
        exact (congrArg (List.foldl nest · _) (ih.1 (k + 1))).trans (ih' ih.2)
    rw [List.foldl_cons, List.foldl_append]
    exact congrArg (nest · .ended) hrows

theorem Round.started_not_mem {fits : Nat → Nat → Prop} {round : List Notice}
    (h : Round fits round) : .started ∉ round := by
  induction h with
  | quiet => exact List.not_mem_nil
  | branch _ _ ih => simpa using ih

/-- During a search the number of open branches can be told. -/
theorem Session.exists_foldl_nest {fits : Nat → Nat → Prop} {notices rest : List Notice}
    (h : Session fits (notices ++ rest)) (hne : notices ≠ []) (state : Option Nat) :
    ∃ k, notices.foldl nest state = some k := by
  obtain ⟨round, hround, hnotices⟩ := h
  obtain ⟨first, heard, rfl⟩ := List.exists_cons_of_ne_nil hne
  obtain ⟨rfl, rfl⟩ := List.cons.inj hnotices
  have hend := hround.foldl_nest 0
  rw [List.append_eq, List.foldl_append] at hend
  cases hopen : heard.foldl nest (some 0) with
  | some k => exact ⟨k, hopen⟩
  | none =>
    have hrest : .started ∉ rest := fun hmem =>
      hround.started_not_mem (List.mem_append_right _ hmem)
    rw [hopen, foldl_nest_none hrest] at hend
    contradiction

theorem Sessions.exists_openBranches {fits : Nat → Nat → Prop} {heard : List Notice}
    (h : Sessions fits heard) (hne : heard ≠ []) : ∃ k, openBranches heard = some k := by
  induction h with
  | nil => contradiction
  | @search earlier notices rest _ hsession ih =>
    rw [openBranches, List.foldl_append]
    by_cases hnotices : notices = []
    · subst hnotices
      rw [List.append_nil] at hne
      exact ih hne
    · exact hsession.exists_foldl_nest hnotices _

/-- Notices among which every branch that is entered is ended, and no other. -/
inductive Balanced : List Notice → Prop where
  | nil : Balanced []
  | row {notices : List Notice} (h : Balanced notices) : Balanced (notices ++ [.rowSelected])
  | branch {notices inner : List Notice} {rows : Nat} (h : Balanced notices)
    (hinner : Balanced inner) : Balanced (notices ++ .entered rows :: (inner ++ [.ended]))

/-- If a branch is open, the innermost one was entered at some moment, and all that happened since
then is balanced. -/
theorem exists_entered {heard : List Notice} {k : Nat} (h : openBranches heard = some (k + 1)) :
    ∃ outer rows inner, heard = outer ++ .entered rows :: inner ∧
      openBranches outer = some k ∧ Balanced inner := by
  induction hlength : heard.length using Nat.strong_induction_on generalizing heard k with
  | h n ih =>
    subst hlength
    rcases List.eq_nil_or_concat' heard with rfl | ⟨heard, last, rfl⟩
    · contradiction
    have hshorter : heard.length < (heard ++ [last]).length := by simp
    rw [openBranches_concat] at h
    rcases nest_eq_some h with ⟨-, hk⟩ | ⟨j, hopen, hlast⟩
    · contradiction
    rcases hlast with ⟨rows, rfl, hk⟩ | ⟨rfl, rfl⟩ | ⟨rfl, rfl⟩
    · obtain rfl : k = j := Nat.succ.inj hk
      exact ⟨heard, rows, [], rfl, hopen, .nil⟩
    · obtain ⟨outer, rows, inner, rfl, houter, hinner⟩ := ih _ hshorter hopen rfl
      exact ⟨outer, rows, inner ++ [.rowSelected], by simp, houter, hinner.row⟩
    · -- The branch that ends here is the innermost one, and the one around it stays open.
      obtain ⟨outer', rows', inner', rfl, houter', hinner'⟩ := ih _ hshorter hopen rfl
      have hshorter' : outer'.length <
          ((outer' ++ Notice.entered rows' :: inner') ++ [Notice.ended]).length := by
        simp
      obtain ⟨outer, rows, inner, rfl, houter, hinner⟩ := ih _ hshorter' houter' rfl
      refine ⟨outer, rows, inner ++ .entered rows' :: (inner' ++ [.ended]), ?_, houter,
        hinner.branch hinner'⟩
      simp

/-! ## The notices of a search -/

/-- What has been heard since the last search started. -/
def sinceStart (heard : List Notice) : List Notice := heard.rtakeWhile (· ≠ .started)

@[simp]
theorem sinceStart_concat (heard : List Notice) (notice : Notice) :
    sinceStart (heard ++ [notice]) =
      if notice = .started then [] else sinceStart heard ++ [notice] := by
  rw [sinceStart, List.rtakeWhile_concat, sinceStart]
  cases notice <;> rfl

/-- The branches that are open are those that were entered and have not ended. -/
theorem openBranches_add_count {heard : List Notice} {k : Nat} (h : openBranches heard = some k) :
    k + (sinceStart heard).count .ended = (sinceStart heard).countP (·.isEntered) := by
  induction heard using List.reverseRecOn generalizing k with
  | nil => contradiction
  | append_singleton heard notice ih =>
    rw [openBranches_concat] at h
    rw [sinceStart_concat]
    rcases nest_eq_some h with ⟨rfl, rfl⟩ | ⟨j, hopen, hnotice⟩
    · rfl
    have hcount := ih hopen
    rcases hnotice with ⟨rows, rfl, rfl⟩ | ⟨rfl, rfl⟩ | ⟨rfl, rfl⟩
    all_goals rw [if_neg nofun, List.count_append, List.countP_append]
    · show j + 1 + (_ + 0) = _ + 1
      omega
    · exact hcount
    · show k + (_ + 1) = _ + 0
      omega

/-- A report is made when so many rows have been tried. -/
def Due (interval tried : Nat) : Prop := interval ≠ 0 ∧ tried % interval = 0

instance (interval tried : Nat) : Decidable (Due interval tried) :=
  inferInstanceAs (Decidable (_ ∧ _))

namespace Ledger

variable [Scale α] {interval : Nat} {heard : List Notice} {k : Nat}

/-- The ledger of a reporter that has had some notices. -/
def after (interval : Nat) (heard : List Notice) : Ledger α := heard.foldl heed (.start interval)

theorem after_concat (interval : Nat) (heard : List Notice) (notice : Notice) :
    (after interval (heard ++ [notice]) : Ledger α) = (after interval heard).heed notice := by
  rw [after, List.foldl_concat, after]

theorem after_append (interval : Nat) (us vs : List Notice) :
    (after interval (us ++ vs) : Ledger α) = vs.foldl heed (after interval us) := by
  rw [after, List.foldl_append, after]

theorem interval_heed (ledger : Ledger α) (notice : Notice) :
    (ledger.heed notice).reporter.interval = ledger.reporter.interval := by
  cases notice with
  | ended =>
    rw [heed, Reporter.ended]
    split <;> rfl
  | _ => rfl

theorem tried_heed (ledger : Ledger α) (notice : Notice) :
    (ledger.heed notice).reporter.tried =
      ledger.reporter.tried + if notice = .rowSelected then 1 else 0 := by
  cases notice with
  | ended =>
    rw [heed, Reporter.ended]
    split <;> rfl
  | _ => rfl

/-- The end of a branch takes the level around it off the stack. -/
theorem heed_ended {ledger : Ledger α} {parent : Level α} {rest : List (Level α)}
    (h : ledger.reporter.stack = parent :: rest) :
    (ledger.heed .ended).reporter.stack = rest ∧
      (ledger.heed .ended).reporter.level = some parent := by
  rw [heed, Reporter.ended, h]
  exact ⟨rfl, rfl⟩

/-- A report is made when a row is tried, if the number of rows says so. -/
theorem reports_heed (ledger : Ledger α) (notice : Notice) :
    (ledger.heed notice).reports = ledger.reports ++
      if notice = .rowSelected ∧
        Due ledger.reporter.interval (ledger.heed notice).reporter.tried
      then [⟨(ledger.heed notice).reporter.tried, (ledger.heed notice).reporter.progress⟩]
      else [] := by
  cases notice with
  | rowSelected =>
    rw [heed, Reporter.due?, apply_ite Option.toList]
    simp only [true_and]
    rfl
  | _ => exact (List.append_nil _).symm

theorem interval_after (interval : Nat) (heard : List Notice) :
    (after interval heard : Ledger α).reporter.interval = interval := by
  induction heard using List.reverseRecOn with
  | nil => rfl
  | append_singleton heard notice ih => rw [after_concat, interval_heed, ih]

/-- Rows are counted over all searches. -/
theorem tried_after (interval : Nat) (heard : List Notice) :
    (after interval heard : Ledger α).reporter.tried = heard.count .rowSelected := by
  induction heard using List.reverseRecOn with
  | nil => rfl
  | append_singleton heard notice ih =>
    rw [after_concat, tried_heed, ih, List.count_append, List.count_singleton]
    simp only [beq_iff_eq]

/-- Reports carry the multiples of the interval, each of them once and in their order. -/
theorem map_tried_reports_after (interval : Nat) (heard : List Notice) :
    (after interval heard : Ledger α).reports.map (·.tried) =
      (List.range' 1 (heard.count .rowSelected)).filter fun tried => Due interval tried := by
  induction heard using List.reverseRecOn with
  | nil => rfl
  | append_singleton heard notice ih =>
    rw [after_concat, reports_heed, tried_heed, tried_after, interval_after, List.map_append, ih,
      List.count_append, List.count_singleton]
    by_cases hnotice : notice = .rowSelected
    · subst hnotice
      simp only [true_and, beq_self_eq_true, if_true, List.range'_1_concat, List.filter_append,
        Nat.add_comm 1]
      by_cases hdue : Due interval (heard.count .rowSelected + 1)
      all_goals simp [hdue]
    · simp [hnotice]

/-- As many levels are kept as there are open branches, and there is a current one once a search has
started. -/
theorem stack_after (interval : Nat) (h : openBranches heard = some k) :
    (after interval heard : Ledger α).reporter.stack.length = k ∧
      (after interval heard : Ledger α).reporter.level.isSome := by
  induction heard using List.reverseRecOn generalizing k with
  | nil => contradiction
  | append_singleton heard notice ih =>
    rw [openBranches_concat] at h
    rw [after_concat]
    rcases nest_eq_some h with ⟨rfl, rfl⟩ | ⟨j, hopen, hnotice⟩
    · exact ⟨rfl, rfl⟩
    obtain ⟨hlength, hlevel⟩ := ih hopen
    rcases hnotice with ⟨rows, rfl, rfl⟩ | ⟨rfl, rfl⟩ | ⟨rfl, rfl⟩
    · exact ⟨congrArg (· + 1) hlength, rfl⟩
    · exact ⟨hlength, by rw [heed, Reporter.rowSelected, Option.isSome_map, hlevel]⟩
    · obtain ⟨parent, rest, hstack⟩ := List.exists_cons_of_length_eq_add_one hlength
      obtain ⟨hrest, hparent⟩ := heed_ended hstack
      rw [hrest, hparent]
      rw [hstack] at hlength
      exact ⟨Nat.succ.inj hlength, rfl⟩

end Ledger

section Restored

variable [Scale α] {interval : Nat}

/-- Whatever was entered in the meantime is off the stack again. -/
theorem Balanced.stack_foldl_heed {notices : List Notice} (h : Balanced notices)
    (ledger : Ledger α) : (notices.foldl .heed ledger).reporter.stack = ledger.reporter.stack := by
  induction h generalizing ledger with
  | nil => rfl
  | row _ ih =>
    rw [List.foldl_concat]
    exact ih ledger
  | @branch notices inner rows _ _ ih ihinner =>
    rw [List.foldl_append, List.foldl_cons, List.foldl_concat]
    exact (Ledger.heed_ended (ihinner _)).1.trans (ih ledger)

/-- When a branch ends, the level that was current before it is current again. -/
theorem Balanced.foldl_heed {inner : List Notice} (h : Balanced inner) (rows : Nat)
    {ledger : Ledger α} {level : Level α} (hlevel : ledger.reporter.level = some level) :
    let ended := (.entered rows :: (inner ++ [.ended])).foldl Ledger.heed ledger
    ended.reporter.stack = ledger.reporter.stack ∧ ended.reporter.level = some level := by
  intro ended
  have hended : ended = (inner.foldl .heed (ledger.heed (.entered rows))).heed .ended := by
    show (Notice.entered rows :: (inner ++ [.ended])).foldl Ledger.heed ledger = _
    rw [List.foldl_cons, List.foldl_concat]
  obtain ⟨hstack, hparent⟩ := Ledger.heed_ended (h.stack_foldl_heed (ledger.heed (.entered rows)))
  rw [hended, hstack, hparent, hlevel]
  exact ⟨rfl, rfl⟩

theorem Balanced.append_rows {us : List Notice} {tried : List (List Notice)} (hus : Balanced us)
    (h : ∀ row ∈ tried, ∀ us : List Notice, Balanced us → Balanced (us ++ row)) :
    Balanced (us ++ tried.flatMap (.rowSelected :: ·)) := by
  induction tried generalizing us with
  | nil =>
    rw [List.flatMap_nil, List.append_nil]
    exact hus
  | cons row tried ih =>
    rw [List.forall_mem_cons] at h
    have hrow := ih (h.1 _ hus.row) h.2
    rw [List.append_assoc, List.append_assoc] at hrow
    exact hrow

theorem Balanced.append_round {fits : Nat → Nat → Prop} {us round : List Notice}
    (hus : Balanced us) (h : Round fits round) : Balanced (us ++ round) := by
  induction h generalizing us with
  | quiet =>
    rw [List.append_nil]
    exact hus
  | branch _ _ ih =>
    exact hus.branch (Balanced.nil.append_rows fun row hrow _ hus => ih row hrow hus)

/-- A search that is not interrupted leaves the level that it started with. -/
theorem Round.foldl_heed {fits : Nat → Nat → Prop} {round : List Notice} (h : Round fits round)
    {ledger : Ledger α} {level : Level α} (hlevel : ledger.reporter.level = some level) :
    (round.foldl .heed ledger).reporter.stack = ledger.reporter.stack ∧
      (round.foldl .heed ledger).reporter.level = some level := by
  cases h with
  | quiet => exact ⟨rfl, hlevel⟩
  | @branch rows tried hfits h =>
    have hbalanced : Balanced (tried.flatMap (.rowSelected :: ·)) :=
      Balanced.nil.append_rows fun row hrow _ hus => hus.append_round (h row hrow)
    exact hbalanced.foldl_heed rows hlevel

end Restored

/-- An account of any call for a search. Nothing is asked of the solver, of the callbacks, or of the
code that receives reports. -/
inductive AnySearch [Scale α] (ledger : Ledger α) : Account α → Prop where
  /-- A search with callbacks and pre-selected options. -/
  | searchWith {γ ο ι χ ρ σ τ τ' ε : Type} [BEq ι] [BEq χ] [Describe ι] [Grid γ ι χ]
    (solver : Solver γ ο ι ρ τ') (report : Report α → Call σ τ Unit)
    (callbacks : Ledger α → Callbacks σ ο ε τ) (preSelected : List ο) (world : σ) :
    AnySearch ledger (solver.account report callbacks preSelected world ledger)
  /-- A search for the list of all solutions. -/
  | allSolutions {γ ο ι χ ρ σ τ τ' : Type} [BEq ι] [BEq χ] [Describe ι] [Grid γ ι χ]
    (solver : Solver γ ο ι ρ τ') (report : Report α → Call σ τ Unit) (world : σ) :
    AnySearch ledger (solver.accountOfAll report world ledger)

variable [Scale α] {interval : Nat} {history : List (Notice × Ledger α)} {ledger : Ledger α}

theorem AnySearch.follows {account : Account α} (h : AnySearch ledger account) :
    account.Follows (fun _ _ => True) ledger := by
  cases h with
  | searchWith solver report callbacks preSelected world =>
    exact Solver.account_follows (Solver.sighted (solver.reporting_tells report)
      (Callbacks.reading_spares callbacks) preSelected (world, ledger))
  | allSolutions solver report world =>
    exact Solver.accountOfAll_follows (Solver.sighted (solver.recording_tells report)
      Solver.collecting_spares [] ((world, ledger), []))

/-- The ledger after a part of a history. -/
def ledgerAt (interval : Nat) (history : List (Notice × Ledger α)) : Ledger α :=
  (history.getLast?.map (·.2)).getD (.start interval)

theorem ledgerAt_trail (interval : Nat) (heard : List Notice) :
    ledgerAt interval (trail .heed (.start interval) heard) =
      (Ledger.after interval heard : Ledger α) := by
  cases heard using List.reverseRecOn with
  | nil => rfl
  | append_singleton heard notice =>
    rw [ledgerAt, trail_append, Ledger.after_concat]
    simp [trail, Ledger.after]

/-- What is to be read in a ledger when a notice has just been heeded. -/
structure Books (interval : Nat) (before : List (Notice × Ledger α)) (notice : Notice)
    (now : Ledger α) : Prop where
  /-- All rows are counted that have ever been tried. -/
  tried : now.reporter.tried = (before.map (·.1) ++ [notice]).count .rowSelected
  /-- There is a new report if a row was tried and a report is due, and otherwise there is none. -/
  reports : now.reports = (ledgerAt interval before).reports ++
    if notice = .rowSelected ∧ Due interval now.reporter.tried
    then [⟨now.reporter.tried, now.reporter.progress⟩] else []
  /-- So the reports carry all numbers up to now at which one is due, each of them once. -/
  numbers : now.reports.map (·.tried) =
    (List.range' 1 now.reporter.tried).filter fun tried => Due interval tried
  /-- The levels on the stack are those that this search has entered and not ended. -/
  depth : now.reporter.stack.length +
      (sinceStart (before.map (·.1) ++ [notice])).count .ended =
    (sinceStart (before.map (·.1) ++ [notice])).countP (·.isEntered)
  /-- The end of a branch leads back to the level that was current when it was entered, and to the
  levels around that one. -/
  restored : notice = .ended → ∃ outer rows entered inner level,
    before = outer ++ (.entered rows, entered) :: inner ∧ Balanced (inner.map (·.1)) ∧
      (ledgerAt interval outer).reporter.level = some level ∧
      now.reporter.level = some level ∧
      now.reporter.stack = (ledgerAt interval outer).reporter.stack

/-- The books of a reporter are in order at every moment of a history, and so are they after one
more search that returns. -/
structure Bookkeeping (interval : Nat) (history : List (Notice × Ledger α)) (ledger : Ledger α) :
    Prop where
  last : ledger = ledgerAt interval history
  books : ∀ before notice now after, history = before ++ (notice, now) :: after →
    Books interval before notice now
  returned : ∀ account, AnySearch ledger account → account.returned = true →
    account.ledger.reporter.stack = [] ∧ account.ledger.reporter.level = some .root

theorem Sessions.books {fits : Nat → Nat → Prop} {heard : List Notice} {notice : Notice}
    (h : Sessions fits (heard ++ [notice])) (interval : Nat) :
    Books interval (trail .heed (.start interval) heard) notice
      (Ledger.after interval (heard ++ [notice]) : Ledger α) := by
  obtain ⟨k, hopen⟩ := h.exists_openBranches (by simp)
  obtain ⟨hlength, -⟩ := Ledger.stack_after (α := α) interval hopen
  refine ⟨?_, ?_, ?_, ?_, ?_⟩
  · rw [map_fst_trail, Ledger.tried_after]
  · rw [ledgerAt_trail, Ledger.after_concat, Ledger.reports_heed, Ledger.interval_after]
  · rw [Ledger.map_tried_reports_after, Ledger.tried_after]
  · rw [map_fst_trail, hlength, openBranches_add_count hopen]
  · rintro rfl
    rw [openBranches_concat] at hopen
    have hbefore : openBranches heard = some (k + 1) := by
      obtain ⟨hended, -⟩ | ⟨j, hj, ⟨rows, hended, -⟩ | ⟨hended, -⟩ | ⟨-, rfl⟩⟩ := nest_eq_some hopen
      · contradiction
      · contradiction
      · contradiction
      · exact hj
    obtain ⟨outer, rows, inner, rfl, houter, hinner⟩ := exists_entered hbefore
    obtain ⟨-, hlevel⟩ := Ledger.stack_after (α := α) interval houter
    obtain ⟨level, hlevel⟩ := Option.isSome_iff_exists.mp hlevel
    obtain ⟨hstack, hended⟩ := hinner.foldl_heed rows hlevel
    refine ⟨trail .heed (.start interval) outer, rows, _, trail .heed _ inner, level,
      trail_append _ _, ?_, ?_, ?_, ?_⟩
    · rw [map_fst_trail]
      exact hinner
    · rw [ledgerAt_trail, hlevel]
    · rw [List.append_assoc, Ledger.after_append]
      exact hended
    · rw [List.append_assoc, Ledger.after_append, ledgerAt_trail]
      exact hstack

/-- Whatever a reporter is told, and however the searches end, it keeps its books. -/
theorem Attended.bookkeeping (h : Attended AnySearch interval history ledger) :
    Bookkeeping interval history ledger := by
  obtain ⟨heard, hsessions, rfl, rfl⟩ := h.exists_sessions fun _ _ hsearch => hsearch.follows
  refine ⟨?_, ?_, ?_⟩
  · exact (ledgerAt_trail interval heard).symm
  · intro before notice now after hmoment
    obtain ⟨us, vs, rfl, rfl, rfl⟩ := exists_of_trail_eq hmoment
    rw [List.append_cons] at hsessions
    have hbooks := hsessions.of_append.books (α := α) interval
    rw [Ledger.after_concat] at hbooks
    exact hbooks
  · intro account hsearch hreturned
    obtain ⟨notices, -, -, hsession, -, hledger⟩ := hsearch.follows
    obtain ⟨round, hround, rfl⟩ := hsession hreturned
    rw [hledger]
    exact hround.foldl_heed rfl

/-- A report interrupts the first search at its second row. The next search of the reporter starts
anew, but the number of rows goes on. -/
theorem bookkeeping_of_interrupted :
    let items : Nat → List (Constraint Nat Nat) := fun _ => [.primary 0]
    let woven := ((Solver.woven items : Solver (Woven (Constraint Nat Nat) Nat) Nat _ Unit
      Empty).addOptions [1, 2, 3]).2
    let packed := ((Solver.packed items : Solver (Packed (Constraint Nat Nat) Nat) Nat _ Unit
      Empty).addOptions [1, 2]).2
    let report : Report Rat → Call Unit Unit Unit := fun due =>
      if due.tried = 2 then throw () else pure ()
    let callbacks : Ledger Rat → Callbacks Unit Nat Empty Unit := fun _ =>
      ⟨fun _ => pure (.ok ()), pure false⟩
    let first := woven.account report callbacks [] () (.start 2)
    let second := packed.accountOfAll report () first.ledger
    first.returned = false ∧
      first.sights.map (·.1) = [.started, .entered 3, .rowSelected, .rowSelected] ∧
      second.returned = true ∧
      second.sights.map (·.1) = [.started, .entered 2, .rowSelected, .rowSelected, .ended] ∧
      second.ledger.reports.map (·.tried) = [2, 4] ∧
      Bookkeeping 2 (first.sights ++ second.sights) second.ledger := by
  intro items woven packed report callbacks first second
  have hfirst : AnySearch (.start 2) first := .searchWith woven report callbacks [] ()
  have hsecond : AnySearch first.ledger second := .allSolutions packed report ()
  have hattended := (Attended.start.call hfirst).call hsecond
  rw [List.nil_append] at hattended
  refine ⟨?_, ?_, ?_, ?_, ?_, hattended.bookkeeping⟩
  all_goals decide +kernel

end ExactCover
