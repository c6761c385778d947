import ExactCover.Proofs.Ledgers
import ExactCover.Proofs.Levels

/-!
# The rows that are announced

When a search branches on a column, it tells its observer how many rows the column has. On a grid
that keeps the rows of its options, just that many rows are tried before the branch ends, unless the
search is interrupted (`Solver.Kept.sighted`). A row that the caller cancels counts as tried.

The notices of an observer are the events of the search without the calls of the callbacks, so what
is known about the scripts of searches carries over to them.
-/

set_option autoImplicit false

namespace ExactCover

variable {γ ο ι χ σ ε τ ν : Type}

/-- The notice of an event that the observer is told about. -/
def Event.notice? : Event ο → Option Notice
  | .started => some .started
  | .entered rows => some (.entered rows)
  | .rowSelected => some .rowSelected
  | .ended => some .ended
  | .polled _ => none
  | .solution _ => none

/-- The notices among some events. -/
def noticesOf (events : List (Event ο)) : List Notice := events.filterMap (·.notice?)

theorem noticesOf_cons (event : Event ο) (rest : List (Event ο)) :
    noticesOf (event :: rest) = noticesOf [event] ++ noticesOf rest := by
  rw [← List.singleton_append, noticesOf, List.filterMap_append, noticesOf, noticesOf]

/-- The notices of a visit are a round in which as many rows are tried as were announced. -/
theorem Visit.round {visit : List (Event ο)} (h : Visit visit) : Round Eq (noticesOf visit) := by
  induction h with
  | cancelled => exact .quiet
  | solved chosen => exact .quiet
  | branched rows _ ih =>
    have hrows : noticesOf (rows.flatMap (.rowSelected :: ·)) =
        (rows.map noticesOf).flatMap (.rowSelected :: ·) := by
      rw [noticesOf, List.filterMap_flatMap, List.flatMap_map]
      rfl
    have hbranch : Round Eq (.entered rows.length ::
        ((rows.map noticesOf).flatMap (.rowSelected :: ·) ++ [.ended])) :=
      .branch (List.length_map _).symm (List.forall_mem_map.mpr ih)
    rw [← hrows] at hbranch
    rw [noticesOf, List.filterMap_cons, List.filterMap_cons, List.filterMap_append]
    exact hbranch

/-- The listener adds a notice to the list that its world ends with for each call to the observer,
and it adds no other notices. -/
def Listener.Notices (listener : Listener (σ × List (Notice × ν)) ο ε τ) : Prop :=
  ∀ signal world sights answer, ((listener signal).run.run (world, sights)).2.2.map (·.1) =
    sights.map (·.1) ++ noticesOf [signal.event answer]

namespace Script

theorem exists_plays (script : Script ο) : ∃ full, script.Plays full := by
  induction script with
  | done => exact ⟨[], rfl⟩
  | say signal next ih =>
    obtain ⟨answer⟩ : Nonempty signal.Answer := by cases signal <;> exact ⟨default⟩
    obtain ⟨full, hfull⟩ := ih answer
    exact ⟨_, answer, full, rfl, hfull⟩

/-- The notices that are added during a play are those of a play that comes to its end, or the
beginning of these if a call fails. -/
theorem exists_plays_of_notices {listener : Listener (σ × List (Notice × ν)) ο ε τ}
    (h : listener.Notices) (script : Script ο) (world : σ) (sights : List (Notice × ν)) :
    ∃ full notices rest, script.Plays full ∧ noticesOf full = notices ++ rest ∧
      (script.play listener (world, sights)).2.2.2.map (·.1) = sights.map (·.1) ++ notices ∧
      ((script.play listener (world, sights)).2.1 = .ok () → rest = []) := by
  induction script generalizing world sights with
  | done => exact ⟨[], [], [], rfl, rfl, (List.append_nil _).symm, fun _ => rfl⟩
  | say signal next ih =>
    cases hcall : (listener signal).run.run (world, sights) with
    | mk result after =>
      obtain ⟨world', sights'⟩ := after
      have hsights := h signal world sights
      rw [hcall] at hsights
      cases result with
      | error stop =>
        obtain ⟨full, answer, rest, rfl, hrest⟩ := (say signal next).exists_plays
        rw [play_say_of_error hcall]
        exact ⟨_, noticesOf [signal.event (some answer)], noticesOf rest,
          ⟨answer, rest, rfl, hrest⟩, noticesOf_cons _ rest, hsights _, nofun⟩
      | ok answer =>
        obtain ⟨full, notices, rest, hfull, hnotices, hadded, hdone⟩ := ih answer world' sights'
        rw [play_say_of_ok hcall]
        refine ⟨_, noticesOf [signal.event (some answer)] ++ notices, rest,
          ⟨answer, full, rfl, hfull⟩, ?_, ?_, hdone⟩
        · rw [noticesOf_cons, List.append_assoc, hnotices]
        · rw [hadded, hsights (some answer), List.append_assoc]

end Script

/-- What becomes of a solution makes no difference to the world. -/
theorem Search.run_announce_snd (search : Search σ ο ε τ) (chosen : List ο) (world : σ) :
    ((search.announce chosen).run.run world).2 =
      ((search.callbacks.solution chosen).run.run world).2 := by
  rw [announce, ExceptT.run_bind, StateT.run_bind, PlainM.run_call]
  obtain ⟨result, world'⟩ := (search.callbacks.solution chosen).run.run world
  rcases result with value | (error | ⟨⟩) <;> rfl

/-- The observer and the callbacks of a search that is watched add its notices. -/
theorem Search.watched_notices (search : Search σ ο ε τ) (view : σ → ν) :
    (search.watched view).listener.Notices := by
  intro signal world sights answer
  have htold : ∀ (code : Call σ τ Unit) (notice : Notice),
      ((PlainM.call (code.watched view notice) : PlainM _ ε τ Unit).run.run
        (world, sights)).2.2.map (·.1) = sights.map (·.1) ++ [notice] := by
    intro code notice
    rw [PlainM.run_call]
    exact List.map_append
  cases signal with
  | started => exact htold _ _
  | entered rows => exact htold _ _
  | rowSelected => exact htold _ _
  | ended => exact htold _ _
  | poll => exact (List.append_nil _).symm
  | solution chosen =>
    rw [listener, run_announce_snd]
    exact (List.append_nil _).symm

namespace Solver

variable [BEq ι] [BEq χ] [Item ι χ]

/-- The notices that are added when the solver's script is played are those of a session in which
as many rows are tried as were announced, or the beginning of one if the play breaks off. -/
theorem exists_session_of_play (solver : Solver γ ο ι σ τ) (view : σ → ν)
    (callbacks : Callbacks σ ο ε τ) (preSelected : List ο) (world : σ) :
    let play := (solver.watched view).play (callbacks.widen _) preSelected (world, [])
    ∃ notices rest, Session Eq (notices ++ rest) ∧ play.2.2.2.map (·.1) = notices ∧
      (play.2.1 = .ok () → rest = []) := by
  obtain ⟨_, notices, rest, ⟨_, visit, rfl, hvisit⟩, hnotices, hadded, hdone⟩ :=
    Script.exists_plays_of_notices ((solver.searchFor callbacks).watched_notices view)
      (solver.script preSelected) world []
  obtain ⟨pruned, after, -, rfl, hafter⟩ := Tree.exists_prunes_of_plays _ _ _ hvisit
  refine ⟨notices, rest, ⟨_, pruned.visit_events.round, hnotices.symm.trans ?_⟩, hadded, hdone⟩
  rw [hafter, List.append_nil]
  rfl

variable [Describe ι] [Grid γ ι χ] [LawfulGrid γ] [LawfulItem ι] [EquivBEq χ]
  {solver : Solver γ ο ι σ τ}

/-- Before a search branches off, it announces as many rows as it is going to try, unless it is
interrupted. -/
theorem Kept.sighted {view : σ → ν} {heed : ν → Notice → ν} {callbacks : Callbacks σ ο ε τ}
    (h : solver.Kept) (htells : (solver.trace.getD .silent).Tells view heed)
    (hspares : callbacks.Spares view) (preSelected : List ο) (world : σ) :
    Sighted Eq solver view heed callbacks preSelected world := by
  -- What the notices are is known for any solver, so it is left to say which ones can be.
  obtain ⟨notices, -, -, -, hview, hwatched⟩ := Solver.sighted htells hspares preSelected world
  have hkept : (solver.watched view).Kept := h
  have hsights : ((solver.watched view).searchWith (callbacks.widen _) preSelected
      (world, [])).2.2.2.map (·.1) = notices := by
    rw [hwatched]
    exact map_fst_trail notices
  have hanswer : ((solver.watched view).searchWith (callbacks.widen _) preSelected
      (world, [])).1 = (solver.searchWith callbacks preSelected world).1 := by
    rw [hwatched]
  rcases hkept.searchWith_cases (callbacks.widen _) preSelected (world, []) with
    ⟨error, grid, -, hsearch⟩ | ⟨grid, -, -, hsearch⟩
  · rw [hsearch] at hsights hanswer
    refine ⟨notices, [], .inl hsights.symm, ?_, hview, hwatched⟩
    rw [← hanswer]
    exact nofun
  · rw [hsearch] at hsights hanswer
    obtain ⟨played, rest, hsession, hplayed, hdone⟩ :=
      solver.exists_session_of_play view callbacks preSelected world
    obtain rfl : played = notices := hplayed.symm.trans hsights
    refine ⟨played, rest, .inr hsession, fun hok => ?_, hview, hwatched⟩
    rw [hok] at hanswer
    cases hplay : ((solver.watched view).play (callbacks.widen _) preSelected
        (world, [])).2.1 with
    | error stop =>
      rw [hplay] at hanswer
      contradiction
    | ok _ =>
      rw [hdone hplay, List.append_nil] at hsession
      exact hsession

variable {α ρ τ' : Type} [Scale α] {solver : Solver γ ο ι ρ τ'}

theorem Kept.account_follows (h : solver.Kept) (report : Report α → Call σ τ Unit)
    (callbacks : Ledger α → Callbacks σ ο ε τ) (preSelected : List ο) (world : σ)
    (ledger : Ledger α) :
    (solver.account report callbacks preSelected world ledger).Follows Eq ledger := by
  have hkept : (solver.reporting report).Kept := h
  exact Solver.account_follows (hkept.sighted (solver.reporting_tells report)
    (Callbacks.reading_spares callbacks) preSelected (world, ledger))

theorem Kept.accountOfAll_follows (h : solver.Kept) (report : Report α → Call σ τ Unit)
    (world : σ) (ledger : Ledger α) :
    (solver.accountOfAll report world ledger).Follows Eq ledger := by
  have hkept : (solver.reporting report).recording.Kept := h
  exact Solver.accountOfAll_follows (hkept.sighted (solver.recording_tells report)
    Solver.collecting_spares [] ((world, ledger), []))

end Solver

/-- An account of a call for a search of a solver that was set up by some calls, on a grid that
keeps its rows. Nothing is asked of the callbacks and of the code that receives reports. -/
inductive LawfulSearch {α : Type} [Scale α] (ledger : Ledger α) : Account α → Prop where
  /-- A search with callbacks and pre-selected options. -/
  | searchWith {γ ο ι χ ρ σ τ τ' ε : Type} [BEq ι] [BEq χ] [Item ι χ] [Describe ι] [Grid γ ι χ]
    [LawfulGrid γ] [LawfulItem ι] [EquivBEq χ] (items : ο → List ι)
    (requests : List (Request ο ρ τ')) (start : ρ) (report : Report α → Call σ τ Unit)
    (callbacks : Ledger α → Callbacks σ ο ε τ) (preSelected : List ο) (world : σ) :
    LawfulSearch ledger (((Solver.onGrid items : Solver γ ο ι ρ τ').after start requests).account
      report callbacks preSelected world ledger)
  /-- A search for the list of all solutions. -/
  | allSolutions {γ ο ι χ ρ σ τ τ' : Type} [BEq ι] [BEq χ] [Item ι χ] [Describe ι] [Grid γ ι χ]
    [LawfulGrid γ] [LawfulItem ι] [EquivBEq χ] (items : ο → List ι)
    (requests : List (Request ο ρ τ')) (start : ρ) (report : Report α → Call σ τ Unit)
    (world : σ) :
    LawfulSearch ledger (((Solver.onGrid items : Solver γ ο ι ρ τ').after start
      requests).accountOfAll report world ledger)

theorem LawfulSearch.follows {α : Type} [Scale α] {ledger : Ledger α} {account : Account α}
    (h : LawfulSearch ledger account) : account.Follows Eq ledger := by
  cases h with
  | searchWith items requests start report callbacks preSelected world =>
    exact Solver.Kept.account_follows (Solver.kept_after_onGrid items requests start) report
      callbacks preSelected world ledger
  | allSolutions items requests start report world =>
    exact Solver.Kept.accountOfAll_follows (Solver.kept_after_onGrid items requests start) report
      world ledger

end ExactCover
