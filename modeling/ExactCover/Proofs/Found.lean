import ExactCover.Proofs.Calls
import ExactCover.Proofs.Covers
import ExactCover.Proofs.Reports

/-!
# What a search finds

A search that nobody interferes with reports the solutions of the search on lists, in their order
(`reports_eq_solutions`). As these are the covers, each of them once, the search is sound, complete
and free of repetitions (`reports_covers`). Both kinds of grids are treated at once: all that is
used is that they are lawful.
-/

set_option autoImplicit false

namespace ExactCover

namespace Solver

variable {γ ο ι χ σ ε τ : Type} [BEq ι] [BEq χ] [Item ι χ] [Describe ι] [Grid γ ι χ]

/-- The solver with an observer, or none, and with some options added. -/
def given (solver : Solver γ ο ι σ τ) (trace : Option (Trace σ τ)) (options : List ο) :
    Solver γ ο ι σ τ :=
  ({ solver with trace := trace }.addOptions options).2

/-- How a search ends, and the solutions that it reports, in their order. -/
def reports (solver : Solver γ ο ι σ τ) (callbacks : Callbacks σ ο ε τ) (preSelected : List ο)
    (world : σ) : Except (Halt ε τ) Unit × List (List ο) :=
  let (result, _, _, found) :=
    solver.recording.searchWith callbacks.recorded preSelected (world, [])
  (result, found)

omit [BEq ι] [BEq χ] [Item ι χ] [Describe ι] [Grid γ ι χ] in
theorem recording_searchFor_recorded (solver : Solver γ ο ι σ τ) (callbacks : Callbacks σ ο ε τ) :
    solver.recording.searchFor callbacks.recorded = (solver.searchFor callbacks).recorded := by
  show Search.mk _ ((solver.trace.map (·.widen _)).getD .silent) _ =
    Search.mk _ ((solver.trace.getD .silent).widen _) _
  cases solver.trace with
  | none => rfl
  | some trace => rfl

variable [LawfulGrid γ] {solver : Solver γ ο ι σ τ} {callbacks : Callbacks σ ο ε τ}
  {preSelected : List ο}

omit [Describe ι] in
/-- If all pre-selected items are listed by some row, none of them is missing. -/
theorem missing?_eq_none
    (hpre : ∀ chosen ∈ preSelected, ∀ item ∈ solver.items chosen,
      ∃ option ∈ solver.options, ∃ x ∈ solver.items option, x == item) :
    (solver.problem preSelected).missing? = none := by
  rw [Naive.Problem.missing?, List.find?_eq_none]
  intro item hitem
  obtain ⟨chosen, hchosen, hmem⟩ := List.mem_flatMap.mp (distinct_subset hitem)
  obtain ⟨option, hoption, x, hx, hxitem⟩ := hpre chosen hchosen item hmem
  have hlists : Naive.lists (solver.problem preSelected).rows.flatten item :=
    Naive.lists_iff.mpr
      ⟨x, List.mem_flatten.mpr ⟨_, List.mem_map_of_mem hoption, hx⟩, hxitem⟩
  rw [hlists]
  exact Bool.false_ne_true

omit [BEq ι] [BEq χ] [Item ι χ] [Describe ι] [Grid γ ι χ] [LawfulGrid γ] in
/-- If the observer of a solver never throws, or there is none, a search is not disturbed by it. -/
theorem returns_searchFor (htrace : ∀ trace ∈ solver.trace, trace.Returns)
    (callbacks : Callbacks σ ο ε τ) : (solver.searchFor callbacks).trace.Returns := by
  rw [searchFor]
  cases htraced : solver.trace with
  | none => exact ⟨fun world => ⟨world, rfl⟩, fun _ world => ⟨world, rfl⟩,
      fun world => ⟨world, rfl⟩, fun world => ⟨world, rfl⟩⟩
  | some trace => exact htrace trace htraced

variable [LawfulItem ι] [EquivBEq χ]

/-- A search that is not interfered with reports the solutions of the search on lists. -/
theorem Ready.reports_eq (h : solver.Ready) (htrace : ∀ trace ∈ solver.trace, trace.Returns)
    (hcallbacks : callbacks.GoOn) (hmissing : (solver.problem preSelected).missing? = none)
    (world : σ) : solver.reports callbacks preSelected world =
      (.ok (), (solver.problem preSelected).solutions.map fun chosen =>
        preSelected ++ chosen.filterMap fun k => solver.options[k]?) := by
  have hreturns := returns_searchFor htrace callbacks
  have hlogs : Search.Logs ((solver.searchFor callbacks).recorded.plain
      (solver.problem preSelected) preSelected) _ :=
    Search.Logs.call_bind hreturns.started
      (Search.explore_logs hreturns hcallbacks (solver.problem preSelected) preSelected
        (Nat.le_refl _))
  obtain ⟨world', hrun⟩ := hlogs world []
  have hready : solver.recording.Ready := ⟨h.phase, h.carries⟩
  rw [← recording_searchFor_recorded] at hrun
  obtain ⟨mesh, -, hcall⟩ :=
    hready.exists_searchWith_eq_ok (Naive.unmixed _) callbacks.recorded hmissing hrun
  rw [reports, hcall]
  rfl

section Given

variable (items : ο → List ι) {options : List ο} {trace : Option (Trace σ τ)}

theorem reports_given (hitems : ∀ option ∈ options, firstRepeat? (items option) = none)
    (hpre : ∀ chosen ∈ preSelected, ∀ item ∈ items chosen,
      ∃ option ∈ options, ∃ x ∈ items option, x == item)
    (htrace : ∀ observer ∈ trace, observer.Returns) (hcallbacks : callbacks.GoOn) (world : σ) :
    ((onGrid items : Solver γ ο ι σ τ).given trace options).reports callbacks preSelected world =
      (.ok (), (Naive.Problem.solutions ⟨options.map items, preSelected.flatMap items⟩).map
        fun chosen => preSelected ++ chosen.filterMap fun k => options[k]?) := by
  have hempty : Ready { (onGrid items : Solver γ ο ι σ τ) with trace := trace } :=
    ⟨rfl, LawfulGrid.carries_empty⟩
  obtain ⟨grid, hadd, hready⟩ := hempty.exists_addOptions_eq_ok LawfulGrid.isSealed_empty hitems
  rw [given, hadd]
  exact hready.reports_eq htrace hcallbacks (missing?_eq_none hpre) world

end Given

section Kinds

variable (items : ο → List ι) {options : List ο} {trace : Option (Trace σ τ)}

omit [Grid γ ι χ] [LawfulGrid γ] in
/-- An open and a sealed solver with the same options report the solutions of the search on lists,
in its order, if nobody interferes with the search. -/
theorem reports_eq_solutions (hitems : ∀ option ∈ options, firstRepeat? (items option) = none)
    (hpre : ∀ chosen ∈ preSelected, ∀ item ∈ items chosen,
      ∃ option ∈ options, ∃ x ∈ items option, x == item)
    (htrace : ∀ observer ∈ trace, observer.Returns) (hcallbacks : callbacks.GoOn) (world : σ) :
    let reported :=
      (Naive.Problem.completions ⟨options.map items, preSelected.flatMap items⟩ []).map
        fun chosen => preSelected ++ chosen.filterMap fun k => options[k]?
    ((woven items).given trace options).reports callbacks preSelected world = (.ok (), reported) ∧
      ((packed items).given trace options).reports callbacks preSelected world =
        (.ok (), reported) :=
  ⟨reports_given items hitems hpre htrace hcallbacks world,
    reports_given items hitems hpre htrace hcallbacks world⟩

/-- Two options that share a colored item, and a third that is pre-selected. -/
theorem reports_eq_solutions_of_colored :
    let options : List (List (Constraint Nat Nat)) :=
      [[.primary 0, .secondary 1 (some 7)], [.primary 2, .secondary 1 (some 7)], [.primary 3]]
    let callbacks : Callbacks Unit (List (Constraint Nat Nat)) Empty Empty :=
      ⟨fun _ => pure (.ok ()), pure false⟩
    let reported :=
      (Naive.Problem.completions ⟨options.map id, [[.primary 3]].flatMap id⟩ []).map
        fun chosen => [[.primary 3]] ++ chosen.filterMap fun k => options[k]?
    ((woven id).given none options).reports callbacks [[.primary 3]] () = (.ok (), reported) ∧
      ((packed id).given none options).reports callbacks [[.primary 3]] () = (.ok (), reported) :=
  reports_eq_solutions id (by decide) (by decide) (by simp)
    ⟨fun _ world => ⟨world, rfl⟩, fun world => ⟨world, rfl⟩⟩ ()

omit [Grid γ ι χ] [LawfulGrid γ] in
/-- An open and a sealed solver with the same options report every cover that extends the
pre-selected options, and report it once, if nobody interferes with the search. -/
theorem reports_covers (hitems : ∀ option ∈ options, firstRepeat? (items option) = none)
    (hpre : ∀ chosen ∈ preSelected, ∀ item ∈ items chosen,
      ∃ option ∈ options, ∃ x ∈ items option, x == item)
    (htrace : ∀ observer ∈ trace, observer.Returns) (hcallbacks : callbacks.GoOn) (world : σ) :
    ∃ found, Naive.Problem.Enumerates ⟨options.map items, preSelected.flatMap items⟩ found ∧
      ((woven items).given trace options).reports callbacks preSelected world =
        (.ok (), found.map fun chosen => preSelected ++ chosen.filterMap fun k => options[k]?) ∧
      ((packed items).given trace options).reports callbacks preSelected world =
        (.ok (), found.map fun chosen => preSelected ++ chosen.filterMap fun k => options[k]?) := by
  refine ⟨_, Naive.Problem.solutions_enumerate, ?_, ?_⟩
  · exact reports_given items hitems hpre htrace hcallbacks world
  · exact reports_given items hitems hpre htrace hcallbacks world

theorem reports_covers_of_colored :
    let options : List (List (Constraint Nat Nat)) :=
      [[.primary 0, .secondary 1 (some 7)], [.primary 2, .secondary 1 (some 7)], [.primary 3]]
    let callbacks : Callbacks Unit (List (Constraint Nat Nat)) Empty Empty :=
      ⟨fun _ => pure (.ok ()), pure false⟩
    ∃ found, Naive.Problem.Enumerates ⟨options.map id, [[.primary 3]].flatMap id⟩ found ∧
      ((woven id).given none options).reports callbacks [[.primary 3]] () =
        (.ok (), found.map fun chosen => [[.primary 3]] ++ chosen.filterMap fun k => options[k]?) ∧
      ((packed id).given none options).reports callbacks [[.primary 3]] () =
        (.ok (), found.map fun chosen => [[.primary 3]] ++ chosen.filterMap fun k => options[k]?) :=
  reports_covers id (by decide) (by decide) (by simp)
    ⟨fun _ world => ⟨world, rfl⟩, fun world => ⟨world, rfl⟩⟩ ()

end Kinds

end Solver

end ExactCover
