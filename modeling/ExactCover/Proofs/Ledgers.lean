import ExactCover.Progress
import ExactCover.Proofs.Exchanges
import ExactCover.Proofs.Notices

/-!
# One reporter for many searches

A `Ledger` is a reporter together with all that it has reported. It lies next to the world of the
caller, where the observer keeps it, and the callbacks of a search may read it but not change it. An
`Account` is what there is to be seen of a call for a search, whatever solver is asked: the
notices that the reporter had, each with the ledger after it, the ledger in the end, and whether the
call came back with success. A history of such calls is `Attended` by one reporter, which goes on
from one call to the next, whether or not the search has been interrupted.

What a ledger holds is settled by the notices (`Attended.exists_sessions`). They are those of one
session after another, each of which may have been left at any point.
-/

set_option autoImplicit false

namespace ExactCover

variable {α σ ρ τ τ' ε ο : Type}

/-- Fractions are added, multiplied and divided without rounding. -/
instance : Scale Rat where
  ofCount n := n

/-- What follows a call that returns goes on with its value. -/
theorem Call.run_bind_of_eq_ok {β : Type} {code : Call σ τ α} {f : α → Call σ τ β} {a : α}
    {world world' : σ} (h : code.run.run world = (.ok a, world')) :
    (code >>= f).run.run world = (f a).run.run world' := by
  rw [ExceptT.run_bind, StateT.run_bind, h]
  rfl

/-- A reporter together with its reports, the latest last. -/
structure Ledger (α : Type) where
  /-- The reporter. -/
  reporter : Reporter α
  /-- What the reporter has reported. -/
  reports : List (Report α)
  deriving Repr

namespace Ledger

variable [Scale α]

/-- The ledger of a reporter that has seen nothing. -/
def start (interval : Nat) : Ledger α := ⟨.start interval, []⟩

/-- What becomes of a ledger by a notice. -/
def heed (ledger : Ledger α) : Notice → Ledger α
  | .started => { ledger with reporter := ledger.reporter.started }
  | .entered rows => { ledger with reporter := ledger.reporter.entered rows }
  | .rowSelected =>
    ⟨ledger.reporter.rowSelected,
      ledger.reports ++ ledger.reporter.rowSelected.due?.toList⟩
  | .ended => { ledger with reporter := ledger.reporter.ended }

/-- The observer that keeps a ledger next to the world of the caller. A report that is due is passed
on, and it is taken note of even if the code that receives it throws. -/
def trace (report : Report α → Call σ τ Unit) : Trace (σ × Ledger α) τ :=
  Reporter.trace (·.2.reporter) (fun reporter world => (world.1, { world.2 with reporter }))
    fun due => Call.alongside (fun _ => report due) fun _ ledger =>
      { ledger with reports := ledger.reports ++ [due] }

/-- However a report is received, the ledger is as the notices say. -/
theorem trace_tells (report : Report α → Call σ τ Unit) : (trace report).Tells (·.2) heed where
  started _ := rfl
  entered _ _ := rfl
  rowSelected := by
    rintro ⟨world, ledger⟩
    have hmodify : ∀ (f : σ × Ledger α → σ × Ledger α) (world : σ × Ledger α),
        (modify f : Call _ τ Unit).run.run world = (.ok (), f world) := fun _ _ => rfl
    have hget : ∀ world : σ × Ledger α,
        (getThe (σ × Ledger α) : Call _ τ _).run.run world = (.ok world, world) := fun _ => rfl
    simp only [trace, Reporter.trace, heed]
    rw [Call.run_bind_of_eq_ok (hmodify _ _), Call.run_bind_of_eq_ok (hget _)]
    cases ledger.reporter.rowSelected.due? with
    | some due => rfl
    | none =>
      rw [Option.toList_none, List.append_nil]
      rfl
  ended _ := rfl

end Ledger

theorem Trace.Tells.widen {ν : Type} {trace : Trace σ τ} {view : σ → ν} {heed : ν → Notice → ν}
    (h : trace.Tells view heed) : (trace.widen ρ).Tells (fun world => view world.1) heed where
  started world := h.started world.1
  entered rows world := h.entered rows world.1
  rowSelected world := h.rowSelected world.1
  ended world := h.ended world.1

/-- Callbacks that may read a further part of the world, but leave it as it is. -/
def Callbacks.reading (callbacks : ρ → Callbacks σ ο ε τ) : Callbacks (σ × ρ) ο ε τ :=
  alongside callbacks fun _ rest => rest

theorem Callbacks.reading_spares (callbacks : ρ → Callbacks σ ο ε τ) :
    (reading callbacks).Spares (·.2) :=
  ⟨fun _ _ => rfl, fun _ => rfl⟩

/-- What there is to be seen of a call for a search. -/
structure Account (α : Type) where
  /-- The notices that the reporter had, each with the ledger after it. -/
  sights : List (Notice × Ledger α)
  /-- The ledger after the call. -/
  ledger : Ledger α
  /-- Whether the call came back with success. -/
  returned : Bool

/-- What is seen is settled by some notices. They are those of a session if the call came back with
success, and the beginning of one if the search was interrupted. A call that is refused gives none.
-/
def Account.Follows [Scale α] (fits : Nat → Nat → Prop) (ledger : Ledger α)
    (account : Account α) : Prop :=
  ∃ notices rest, (notices = [] ∨ Session fits (notices ++ rest)) ∧
    (account.returned = true → Session fits notices) ∧
    account.sights = trail .heed ledger notices ∧
    account.ledger = notices.foldl .heed ledger

theorem eq_ok_of_toBool {answer : Except ε Unit} (h : answer.toBool = true) : answer = .ok () := by
  cases answer with
  | ok _ => rfl
  | error _ => contradiction

namespace Solver

variable {γ ι χ : Type} [Scale α]

/-- The same solver with a reporter as its observer, whatever observer it had before. -/
def reporting (solver : Solver γ ο ι ρ τ') (report : Report α → Call σ τ Unit) :
    Solver γ ο ι (σ × Ledger α) τ :=
  { solver with trace := some (Ledger.trace report) }

theorem reporting_tells (solver : Solver γ ο ι ρ τ') (report : Report α → Call σ τ Unit) :
    ((solver.reporting report).trace.getD .silent).Tells (·.2) Ledger.heed :=
  Ledger.trace_tells report

theorem recording_tells (solver : Solver γ ο ι ρ τ') (report : Report α → Call σ τ Unit) :
    ((solver.reporting report).recording.trace.getD .silent).Tells (·.1.2) Ledger.heed :=
  (Ledger.trace_tells report).widen

omit [Scale α] in
theorem collecting_spares :
    (collecting : Callbacks ((σ × Ledger α) × List (List ο)) ο Empty τ).Spares (·.1.2) :=
  ⟨fun _ _ => rfl, fun _ => rfl⟩

variable [BEq ι] [BEq χ] [Describe ι] [Grid γ ι χ]

/-- What is seen of a search with callbacks and pre-selected options. -/
def account (solver : Solver γ ο ι ρ τ') (report : Report α → Call σ τ Unit)
    (callbacks : Ledger α → Callbacks σ ο ε τ) (preSelected : List ο) (world : σ)
    (ledger : Ledger α) : Account α :=
  let called :=
    (solver.reporting report).searchWith (.reading callbacks) preSelected (world, ledger)
  { sights :=
      (solver.reporting report).sights (·.2) (.reading callbacks) preSelected (world, ledger)
    ledger := called.2.2.2
    returned := called.1.toBool }

/-- What is seen of a search for the list of all solutions. -/
def accountOfAll (solver : Solver γ ο ι ρ τ') (report : Report α → Call σ τ Unit) (world : σ)
    (ledger : Ledger α) : Account α :=
  let listed := (solver.reporting report).allSolutions (world, ledger)
  { sights := (solver.reporting report).recording.sights (·.1.2) collecting [] ((world, ledger), [])
    ledger := listed.2.2.2
    returned := listed.1.toBool }

variable {fits : Nat → Nat → Prop} {solver : Solver γ ο ι ρ τ'} {report : Report α → Call σ τ Unit}
  {callbacks : Ledger α → Callbacks σ ο ε τ} {preSelected : List ο} {world : σ} {ledger : Ledger α}

theorem account_follows
    (h : Sighted fits (solver.reporting report) (·.2) Ledger.heed (.reading callbacks) preSelected
      (world, ledger)) :
    (solver.account report callbacks preSelected world ledger).Follows fits ledger := by
  obtain ⟨notices, rest, hsession, hreturned, hview, hwatched⟩ := h
  exact ⟨notices, rest, hsession, fun h => hreturned (eq_ok_of_toBool h),
    congrArg (·.2.2.2) hwatched, hview⟩

theorem accountOfAll_follows
    (h : Sighted fits (solver.reporting report).recording (·.1.2) Ledger.heed collecting []
      ((world, ledger), [])) :
    (solver.accountOfAll report world ledger).Follows fits ledger := by
  obtain ⟨notices, rest, hsession, hreturned, hview, hwatched⟩ := h
  refine ⟨notices, rest, hsession, fun h => hreturned (eq_ok_of_toBool ?_),
    congrArg (·.2.2.2) hwatched, hview⟩
  rw [accountOfAll, allSolutions_eq] at h
  cases hanswer : ((solver.reporting report).recording.searchWith collecting []
    ((world, ledger), [])).1 with
  | ok _ => rfl
  | error halt =>
    simp only [hanswer] at h
    contradiction

end Solver

/-- The notices of several searches, each of which may have been interrupted. -/
inductive Sessions (fits : Nat → Nat → Prop) : List Notice → Prop where
  /-- There was no search. -/
  | nil : Sessions fits []
  /-- After other searches, there was one that got at least this far. -/
  | search {earlier notices rest : List Notice} (hearlier : Sessions fits earlier)
    (hsession : Session fits (notices ++ rest)) : Sessions fits (earlier ++ notices)

/-- What has been heard up to some moment is a history too. -/
theorem Sessions.of_append {fits : Nat → Nat → Prop} {us vs : List Notice}
    (h : Sessions fits (us ++ vs)) : Sessions fits us := by
  generalize hword : us ++ vs = word at h
  induction h generalizing us vs with
  | nil =>
    rw [(List.append_eq_nil_iff.mp hword).1]
    exact .nil
  | search hearlier hsession ih =>
    rcases List.append_eq_append_iff.mp hword with ⟨as, rfl, rfl⟩ | ⟨as, rfl, rfl⟩
    · exact ih rfl
    · rw [List.append_assoc] at hsession
      exact .search hearlier hsession

/-- The sights of the calls that one reporter was told about, and its ledger after them. The
reporter goes on from each call to the next. -/
inductive Attended [Scale α] (Sees : Ledger α → Account α → Prop) (interval : Nat) :
    List (Notice × Ledger α) → Ledger α → Prop where
  /-- Nothing has been called yet. -/
  | start : Attended Sees interval [] (.start interval)
  /-- There was one more call. -/
  | call {history : List (Notice × Ledger α)} {ledger : Ledger α} {account : Account α}
    (h : Attended Sees interval history ledger) (hsees : Sees ledger account) :
    Attended Sees interval (history ++ account.sights) account.ledger

/-- What a reporter has seen is settled by the notices that it had. -/
theorem Attended.exists_sessions [Scale α] {Sees : Ledger α → Account α → Prop} {interval : Nat}
    {history : List (Notice × Ledger α)} {ledger : Ledger α} {fits : Nat → Nat → Prop}
    (hfollows : ∀ ledger account, Sees ledger account → account.Follows fits ledger)
    (h : Attended Sees interval history ledger) :
    ∃ notices, Sessions fits notices ∧ history = trail .heed (.start interval) notices ∧
      ledger = notices.foldl .heed (.start interval) := by
  induction h with
  | start => exact ⟨[], .nil, rfl, rfl⟩
  | @call history ledger account h hsees ih =>
    obtain ⟨earlier, hearlier, rfl, rfl⟩ := ih
    obtain ⟨notices, rest, hsession, -, hsights, hledger⟩ := hfollows _ _ hsees
    refine ⟨earlier ++ notices, ?_, ?_, ?_⟩
    · rcases hsession with rfl | hsession
      · rw [List.append_nil]
        exact hearlier
      · exact .search hearlier hsession
    · rw [hsights, trail_append]
    · rw [hledger, List.foldl_append]

end ExactCover
