import ExactCover.Proofs.Depth
import ExactCover.Solver

/-!
# What a search reports

Callbacks can do anything to the world of the caller, so what they are called with is recorded next
to that world (`Callbacks.recorded`). If no callback fails, throws or cancels, and the observer does
not throw either, a search reports the extensions of the choice that it starts from, in their order.
-/

set_option autoImplicit false

namespace ExactCover

variable {σ ο ε τ α β : Type}

/-- The code always returns the same value, whatever it does to the world. -/
def Call.Returns (code : Call σ τ α) (a : α) : Prop :=
  ∀ world, ∃ world', code.run.run world = (.ok a, world')

/-- The observer never throws. -/
structure Trace.Returns (trace : Trace σ τ) : Prop where
  started : trace.started.Returns ()
  entered : ∀ rows, (trace.entered rows).Returns ()
  rowSelected : trace.rowSelected.Returns ()
  ended : trace.ended.Returns ()

/-- The callbacks never fail, never throw and never cancel. -/
structure Callbacks.GoOn (callbacks : Callbacks σ ο ε τ) : Prop where
  solution : ∀ chosen, (callbacks.solution chosen).Returns (.ok ())
  cancel : callbacks.cancel.Returns false

/-- The same callbacks next to a record of the solutions that they were told about. -/
def Callbacks.recorded (callbacks : Callbacks σ ο ε τ) :
    Callbacks (σ × List (List ο)) ο ε τ where
  solution chosen := do
    modify fun (world, found) => (world, found ++ [chosen])
    (callbacks.solution chosen).widen _
  cancel := callbacks.cancel.widen _

namespace Search

/-- The same search with the solutions recorded. -/
def recorded (search : Search σ ο ε τ) : Search (σ × List (List ο)) ο ε τ :=
  ⟨search.options, search.trace.widen _, search.callbacks.recorded⟩

/-- The code acts on a world that ends with a list of reports, returns, and reports what it is said
to report. -/
def Logs {ρ : Type} (code : PlainM (σ × List ρ) ε τ Unit) (reports : List ρ) : Prop :=
  ∀ world found, ∃ world', code.run.run (world, found) = (.ok (), world', found ++ reports)

namespace Logs

variable {ρ : Type} {code code' : PlainM (σ × List ρ) ε τ Unit} {reports reports' : List ρ}

theorem pure : Logs (Pure.pure () : PlainM (σ × List ρ) ε τ Unit) [] := by
  intro world found
  exact ⟨world, by rw [List.append_nil]; rfl⟩

theorem bind (h : Logs code reports) (h' : Logs code' reports') :
    Logs (code >>= fun _ => code') (reports ++ reports') := by
  intro world found
  obtain ⟨world', hrun⟩ := h world found
  obtain ⟨world'', hrun'⟩ := h' world' (found ++ reports)
  refine ⟨world'', ?_⟩
  rw [ExceptT.run_bind, StateT.run_bind, hrun, ← List.append_assoc]
  exact hrun'

/-- Going through a list reports what is reported for its elements. -/
theorem forM {body : Nat → PlainM (σ × List ρ) ε τ Unit} {ks : List Nat} {each : Nat → List ρ}
    (h : ∀ k ∈ ks, Logs (body k) (each k)) : Logs (ForM.forM ks body) (ks.flatMap each) := by
  induction ks with
  | nil => exact Logs.pure
  | cons k ks ih =>
    rw [List.forM_cons, List.flatMap_cons]
    exact (h k (by simp)).bind (ih fun j hj => h j (List.mem_cons_of_mem _ hj))

theorem call_bind {call : Call σ τ α} {a : α} {f : α → PlainM (σ × List ρ) ε τ Unit}
    (hcall : call.Returns a) (h : Logs (f a) reports) :
    Logs (PlainM.call (call.widen _) >>= f) reports := by
  intro world found
  obtain ⟨world', hrun⟩ := hcall world
  obtain ⟨world'', hrun'⟩ := h world' found
  have hwiden : (PlainM.call (call.widen (List ρ)) : PlainM (σ × List ρ) ε τ α).run.run
      (world, found) = (.ok a, world', found) := by
    show (((call.run.run world).1).mapError Stop.thrown, (call.run.run world).2, found) = _
    rw [hrun]
    rfl
  refine ⟨world'', ?_⟩
  rw [ExceptT.run_bind, StateT.run_bind, hwiden]
  exact hrun'

end Logs

theorem announce_logs {search : Search σ ο ε τ} (h : search.callbacks.GoOn) (chosen : List ο) :
    Logs (search.recorded.announce chosen) [chosen] := by
  intro world found
  obtain ⟨world', hrun⟩ := h.solution chosen world
  refine ⟨world', ?_⟩
  have hcall : (PlainM.call (search.recorded.callbacks.solution chosen) :
      PlainM (σ × List (List ο)) ε τ _).run.run (world, found) =
        (.ok (.ok ()), world', found ++ [chosen]) := by
    show ((((search.callbacks.solution chosen).run.run world).1).mapError Stop.thrown,
      ((search.callbacks.solution chosen).run.run world).2, found ++ [chosen]) = _
    rw [hrun]
    rfl
  rw [announce, ExceptT.run_bind, StateT.run_bind, hcall]
  rfl

variable {ι χ : Type} [BEq ι] [BEq χ] [Item ι χ]

/-- A search that is not interfered with reports the extensions of its choice. -/
theorem explore_logs {search : Search σ ο ε τ} (htrace : search.trace.Returns)
    (hcallbacks : search.callbacks.GoOn) (problem : Naive.Problem ι) (preSelected : List ο)
    {depth : Nat} {chosen : List Nat} (h : (problem.openItems chosen).length ≤ depth) :
    Logs (search.recorded.explore problem preSelected (depth + 1) chosen)
      ((problem.extensions depth chosen).map fun found =>
        preSelected ++ search.optionsOf found) := by
  induction depth generalizing chosen with
  | zero =>
    have hnil : problem.openItems chosen = [] := List.eq_nil_of_length_eq_zero (Nat.le_zero.mp h)
    have hbranch : problem.branchItem? chosen = none :=
      Naive.Problem.branchItem?_eq_none hnil
    rw [explore, Naive.Problem.extensions, hbranch]
    apply Logs.call_bind hcallbacks.cancel
    exact announce_logs hcallbacks _
  | succ depth ih =>
    rw [explore, Naive.Problem.extensions]
    apply Logs.call_bind hcallbacks.cancel
    cases hbranch : problem.branchItem? chosen with
    | none => exact announce_logs hcallbacks _
    | some item =>
      have hloop : Logs (ForM.forM (problem.candidates chosen item) fun k => do
          PlainM.call search.recorded.trace.rowSelected
          search.recorded.explore problem preSelected (depth + 1) (chosen ++ [k]))
          ((problem.candidates chosen item).flatMap fun k =>
            (problem.extensions depth (chosen ++ [k])).map fun found =>
              preSelected ++ search.optionsOf found) := by
        apply Logs.forM
        intro k hk
        apply Logs.call_bind htrace.rowSelected
        apply ih
        have hlt := Naive.Problem.length_openItems_lt hbranch hk
        omega
      apply Logs.call_bind (htrace.entered _)
      rw [List.map_flatMap, ← List.append_nil (List.flatMap _ _)]
      apply hloop.bind
      rw [← bind_pure (PlainM.call _)]
      exact Logs.call_bind htrace.ended .pure

end Search

end ExactCover
