import ExactCover.Proofs.Calls
import ExactCover.Proofs.Reports
import ExactCover.Proofs.Tree

/-!
# What a search exchanges with foreign code

The observer and the callbacks of a search can be put next to a further part of the world, in which
each exchange is taken note of (`Trace.alongside`, `Callbacks.alongside`). So `Solver.exchanges` is
a record of all that happened between a search and foreign code, made by the search itself. Making
it changes nothing about the search (`Kept.searchWith_noted`).

The record is that of playing the script of the solver (`Kept.exchanges_eq_of_accepts`). The same
play tells how the search ends and what it leaves behind, unless the search is refused
(`Kept.searchWith_cases`). All this holds for every solver that keeps the rows of its options,
whatever the foreign code does.
-/

set_option autoImplicit false

namespace ExactCover

variable {γ ο ι χ σ ε τ α ρ : Type}

/-- A call that returns does so within a search. -/
theorem PlainM.run_call_of_eq_ok {code : Call σ τ α} {a : α} {world world' : σ}
    (h : code.run.run world = (.ok a, world')) :
    (PlainM.call code : PlainM σ ε τ α).run.run world = (.ok a, world') := by
  rw [run_call, h]
  rfl

theorem Search.run_announce_of_eq_ok {search : Search σ ο ε τ} {chosen : List ο} {world world' : σ}
    (h : (search.callbacks.solution chosen).run.run world = (.ok (.ok ()), world')) :
    (search.announce chosen).run.run world = (.ok (), world') := by
  rw [announce, ExceptT.run_bind, StateT.run_bind, PlainM.run_call_of_eq_ok h]
  rfl

/-- The foreign code that a search calls never fails and never throws. -/
structure Search.Returns (search : Search σ ο ε τ) : Prop where
  trace : search.trace.Returns
  solution : ∀ chosen, (search.callbacks.solution chosen).Returns (.ok ())
  cancel : ∀ world, ∃ answer world',
    search.callbacks.cancel.run.run world = (.ok answer, world')

/-- To such a search, foreign code is a listener that answers every call. -/
theorem Search.Returns.listener {search : Search σ ο ε τ} (h : search.Returns) :
    search.listener.Returns := by
  intro signal world
  have hreturns : ∀ {code : Call σ τ Unit}, code.Returns () → ∃ answer world',
      (PlainM.call code : PlainM σ ε τ Unit).run.run world = (.ok answer, world') := by
    intro code hcode
    obtain ⟨world', hrun⟩ := hcode world
    exact ⟨(), world', PlainM.run_call_of_eq_ok hrun⟩
  cases signal with
  | started => exact hreturns h.trace.started
  | entered rows => exact hreturns (h.trace.entered rows)
  | rowSelected => exact hreturns h.trace.rowSelected
  | ended => exact hreturns h.trace.ended
  | poll =>
    obtain ⟨answer, world', hrun⟩ := h.cancel world
    exact ⟨answer, world', PlainM.run_call_of_eq_ok hrun⟩
  | solution chosen =>
    obtain ⟨world', hrun⟩ := h.solution chosen world
    exact ⟨(), world', run_announce_of_eq_ok hrun⟩

/-- Code in a world with a further part. That part decides which code is run, and it takes note of
how the code ends. -/
def Call.alongside (code : ρ → Call σ τ α) (note : Except τ α → ρ → ρ) : Call (σ × ρ) τ α :=
  ExceptT.mk fun (world, rest) =>
    let (result, world) := (code rest).run.run world
    pure (result, world, note result rest)

theorem Call.run_alongside (code : ρ → Call σ τ α) (note : Except τ α → ρ → ρ) (world : σ)
    (rest : ρ) : (alongside code note).run.run (world, rest) =
      let called := (code rest).run.run world
      (called.1, called.2, note called.1 rest) :=
  rfl

/-- The way in which code that can only throw has failed, if it did. -/
def thrown? : Except τ α → Option (Stop ε τ)
  | .ok _ => none
  | .error value => some (.thrown value)

/-- The way in which a callback for solutions has failed, if it did. -/
def refused? : Except τ (Except ε Unit) → Option (Stop ε τ)
  | .ok (.ok ()) => none
  | .ok (.error error) => some (.failed error)
  | .error value => some (.thrown value)

/-- An observer in a world with a further part, which takes note of every exchange. -/
def Trace.alongside (trace : ρ → Trace σ τ) (note : Exchange ο ε τ → ρ → ρ) :
    Trace (σ × ρ) τ where
  started := Call.alongside (fun rest => (trace rest).started) fun result =>
    note ⟨.started, thrown? result⟩
  entered rows := Call.alongside (fun rest => (trace rest).entered rows) fun result =>
    note ⟨.entered rows, thrown? result⟩
  rowSelected := Call.alongside (fun rest => (trace rest).rowSelected) fun result =>
    note ⟨.rowSelected, thrown? result⟩
  ended := Call.alongside (fun rest => (trace rest).ended) fun result =>
    note ⟨.ended, thrown? result⟩

/-- Callbacks in a world with a further part, which takes note of every exchange. -/
def Callbacks.alongside (callbacks : ρ → Callbacks σ ο ε τ) (note : Exchange ο ε τ → ρ → ρ) :
    Callbacks (σ × ρ) ο ε τ where
  solution chosen := Call.alongside (fun rest => (callbacks rest).solution chosen) fun result =>
    note ⟨.solution chosen, refused? result⟩
  cancel := Call.alongside (fun rest => (callbacks rest).cancel) fun result =>
    note ⟨.polled result.toOption, thrown? result⟩

/-- Code that can only throw, with an answer that is a part of the event. -/
theorem PlainM.run_call_alongside (code : ρ → Call σ τ α) (note : Exchange ο ε τ → ρ → ρ)
    (event : Option α → Event ο) (world : σ) (rest : ρ) :
    (PlainM.call (Call.alongside code fun result =>
      note ⟨event result.toOption, thrown? result⟩)).run.run (world, rest) =
      let called := (PlainM.call (code rest) : PlainM σ ε τ α).run.run world
      (called.1, called.2, note ⟨event called.1.toOption, failure? called.1⟩ rest) := by
  rw [run_call, run_call, Call.run_alongside]
  obtain ⟨result, world'⟩ := (code rest).run.run world
  cases result <;> rfl

theorem Search.run_announce_alongside (options : List ο) (trace : ρ → Trace σ τ)
    (callbacks : ρ → Callbacks σ ο ε τ) (note : Exchange ο ε τ → ρ → ρ) (chosen : List ο)
    (world : σ) (rest : ρ) :
    ((Search.mk options (Trace.alongside trace note) (Callbacks.alongside callbacks note)).announce
      chosen).run.run (world, rest) =
      let called :=
        ((Search.mk options (trace rest) (callbacks rest)).announce chosen).run.run world
      (called.1, called.2, note ⟨.solution chosen, failure? called.1⟩ rest) := by
  rw [announce, announce, ExceptT.run_bind, ExceptT.run_bind, StateT.run_bind, StateT.run_bind,
    PlainM.run_call, PlainM.run_call, Callbacks.alongside, Call.run_alongside]
  obtain ⟨result, world'⟩ := ((callbacks rest).solution chosen).run.run world
  rcases result with value | (error | ⟨⟩) <;> rfl

/-- To the search, an observer and callbacks that take note are a listener that does so. -/
theorem Search.listener_alongside (options : List ο) (trace : ρ → Trace σ τ)
    (callbacks : ρ → Callbacks σ ο ε τ) (note : Exchange ο ε τ → ρ → ρ) :
    (Search.mk options (Trace.alongside trace note) (Callbacks.alongside callbacks note)).listener =
      Listener.alongside (fun rest => (Search.mk options (trace rest) (callbacks rest)).listener)
        note := by
  funext signal
  apply ExceptT.ext
  apply StateT.ext
  rintro ⟨world, rest⟩
  cases signal with
  | started =>
    exact PlainM.run_call_alongside (fun rest => (trace rest).started) note
      (Signal.event .started) world rest
  | entered rows =>
    exact PlainM.run_call_alongside (fun rest => (trace rest).entered rows) note
      (Signal.event (.entered rows)) world rest
  | rowSelected =>
    exact PlainM.run_call_alongside (fun rest => (trace rest).rowSelected) note
      (Signal.event .rowSelected) world rest
  | ended =>
    exact PlainM.run_call_alongside (fun rest => (trace rest).ended) note
      (Signal.event .ended) world rest
  | poll =>
    exact PlainM.run_call_alongside (fun rest => (callbacks rest).cancel) note
      (Signal.event .poll) world rest
  | solution chosen =>
    exact run_announce_alongside options trace callbacks note chosen world rest

/-- The same observer next to a list of what is to be kept of each exchange. -/
def Trace.noted (trace : Trace σ τ) (keep : Exchange ο ε τ → ρ) : Trace (σ × List ρ) τ :=
  alongside (fun _ => trace) fun exchange log => log ++ [keep exchange]

/-- The same callbacks next to a list of what is to be kept of each exchange. -/
def Callbacks.noted (callbacks : Callbacks σ ο ε τ) (keep : Exchange ο ε τ → ρ) :
    Callbacks (σ × List ρ) ο ε τ :=
  alongside (fun _ => callbacks) fun exchange log => log ++ [keep exchange]

/-- The same observer, except that another one is told about the call with the given number. -/
def Trace.mended (trace other : Trace σ τ) (k : Nat) : Trace (σ × Nat) τ :=
  alongside (fun count => if count = k then other else trace)
    fun (_ : Exchange Unit Empty τ) count => count + 1

/-- The same callbacks, except that others answer the call with the given number. -/
def Callbacks.mended (callbacks other : Callbacks σ ο ε τ) (k : Nat) :
    Callbacks (σ × Nat) ο ε τ :=
  alongside (fun count => if count = k then other else callbacks) fun _ count => count + 1

theorem Search.listener_noted (search : Search σ ο ε τ) (keep : Exchange ο ε τ → ρ) :
    (Search.mk search.options (search.trace.noted keep) (search.callbacks.noted keep)).listener =
      search.listener.noted keep :=
  listener_alongside search.options (fun _ => search.trace) (fun _ => search.callbacks) _

theorem Search.listener_mended (search : Search σ ο ε τ) (trace : Trace σ τ)
    (callbacks : Callbacks σ ο ε τ) (k : Nat) :
    (Search.mk search.options (search.trace.mended trace k)
      (search.callbacks.mended callbacks k)).listener =
      search.listener.mended (Search.mk search.options trace callbacks).listener k := by
  -- The choice between two observers and the one between two callbacks fall together.
  have hchoice : (fun count => (Search.mk search.options (if count = k then trace else search.trace)
      (if count = k then callbacks else search.callbacks)).listener) =
      fun count => if count = k then (Search.mk search.options trace callbacks).listener
        else search.listener := by
    funext count
    split <;> rfl
  rw [Listener.mended, ← hchoice]
  exact listener_alongside search.options (fun count => if count = k then trace else search.trace)
    (fun count => if count = k then callbacks else search.callbacks) fun _ count => count + 1

namespace Solver

variable [BEq ι] [BEq χ] [Item ι χ]

/-- The same solver, with an observer that takes note of every exchange. -/
def noted (solver : Solver γ ο ι σ τ) (keep : Exchange ο ε τ → ρ) :
    Solver γ ο ι (σ × List ρ) τ :=
  { solver with trace := some ((solver.trace.getD .silent).noted keep) }

/-- The same solver, except that another observer is told about the call with the given number. -/
def mended (solver : Solver γ ο ι σ τ) (other : Trace σ τ) (k : Nat) : Solver γ ο ι (σ × Nat) τ :=
  { solver with trace := some ((solver.trace.getD .silent).mended other k) }

/-- All that a search exchanges with foreign code, in its order. The observer that does nothing
stands in for none. -/
def exchanges [Describe ι] [Grid γ ι χ] (solver : Solver γ ο ι σ τ) (callbacks : Callbacks σ ο ε τ)
    (preSelected : List ο) (world : σ) : List (Exchange ο ε τ) :=
  ((solver.noted id).searchWith (callbacks.noted id) preSelected (world, [])).2.2.2

/-! ## Searches as plays -/

/-- The tree that a search goes through if nobody cancels it. -/
def tree (solver : Solver γ ο ι σ τ) (preSelected : List ο) : Tree Empty ο :=
  (solver.problem preSelected).tree
    (fun chosen => preSelected ++ chosen.filterMap fun k => solver.options[k]?)
    ((solver.problem preSelected).openItems []).length []

/-- What a search says to foreign code. -/
def script (solver : Solver γ ο ι σ τ) (preSelected : List ο) : Script ο :=
  .say .started fun _ => (solver.tree preSelected).script .done

/-- What a search exchanges with foreign code, how it ends, and what becomes of the world, worked
out on lists. -/
def play (solver : Solver γ ο ι σ τ) (callbacks : Callbacks σ ο ε τ) (preSelected : List ο)
    (world : σ) : List (Exchange ο ε τ) × Except (Stop ε τ) Unit × σ :=
  (solver.script preSelected).play (solver.searchFor callbacks).listener world

/-- A search with these options pre-selected is not refused. -/
structure Accepts (solver : Solver γ ο ι σ τ) (preSelected : List ο) : Prop where
  phase : solver.phase = .clean
  known : (solver.problem preSelected).missing? = none

variable {solver : Solver γ ο ι σ τ} {callbacks : Callbacks σ ο ε τ} {preSelected : List ο}
  {world : σ}

theorem run_plain_eq_play (solver : Solver γ ο ι σ τ) (callbacks : Callbacks σ ο ε τ)
    (preSelected : List ο) (world : σ) :
    ((solver.searchFor callbacks).plain (solver.problem preSelected) preSelected).run.run world =
      (solver.play callbacks preSelected world).2 := by
  -- The script of the tree goes on to nothing here, which is no more than the end of the search.
  have hexplore := (solver.searchFor callbacks).explore_bind_run (solver.problem preSelected)
    preSelected (Nat.le_refl ((solver.problem preSelected).openItems []).length) .done
  have hlast : ∀ x : PlainM σ ε τ Unit,
      (do x; Script.done.run (solver.searchFor callbacks).listener) = x := bind_pure
  rw [hlast] at hexplore
  rw [play, ← Script.run_eq_play, Search.plain, hexplore]
  rfl

/-- Whether a play ends early can be seen from its exchanges. -/
theorem any_play_eq (solver : Solver γ ο ι σ τ) (callbacks : Callbacks σ ο ε τ)
    (preSelected : List ο) (world : σ) :
    (solver.play callbacks preSelected world).1.any (·.stop?.isSome) =
      !(solver.play callbacks preSelected world).2.1.toBool := by
  cases hresult : (solver.play callbacks preSelected world).2.1 with
  | error stop =>
    obtain ⟨exchange, hmem, hstop⟩ := Script.exists_mem_play_iff.mpr hresult
    exact List.any_eq_true.mpr ⟨exchange, hmem, by rw [hstop]; rfl⟩
  | ok _ =>
    apply List.any_eq_false.mpr
    intro exchange hmem hsome
    obtain ⟨stop, hstop⟩ := Option.isSome_iff_exists.mp hsome
    have herror := Script.exists_mem_play_iff.mp ⟨exchange, hmem, hstop⟩
    rw [play] at hresult
    rw [hresult] at herror
    contradiction

section Outcome

variable [Describe ι]

/-- A search that is not refused ends as its play does. -/
theorem outcome_of_accepts (h : solver.Accepts preSelected) (callbacks : Callbacks σ ο ε τ)
    (world : σ) : solver.outcome callbacks preSelected world =
      ((solver.play callbacks preSelected world).2.1.mapError .ofStop,
        if (solver.play callbacks preSelected world).1.any (·.stop?.isSome) then .poisoned
        else solver.phase,
        (solver.play callbacks preSelected world).2.2) := by
  rw [any_play_eq, outcome]
  simp only [h.phase, Phase.ensureClean, h.known, run_plain_eq_play]
  obtain ⟨exchanges, result, world'⟩ := solver.play callbacks preSelected world
  cases result <;> rfl

/-- Why a search with these options pre-selected is refused, if it is. -/
def refusal? (solver : Solver γ ο ι σ τ) (preSelected : List ο) : Option (Error Empty) :=
  match solver.phase.ensureClean with
  | .error error => some (.state error)
  | .ok () => (solver.problem preSelected).missing?.map fun item => .unknownItem (describe item)

theorem exists_refusal_of_not_accepts (h : ¬ solver.Accepts preSelected) :
    ∃ error, solver.refusal? preSelected = some error := by
  rw [refusal?]
  cases hensure : solver.phase.ensureClean with
  | error error => exact ⟨.state error, rfl⟩
  | ok _ =>
    cases hmissing : (solver.problem preSelected).missing? with
    | none => exact absurd ⟨Phase.eq_clean hensure, hmissing⟩ h
    | some item => exact ⟨.unknownItem (describe item), rfl⟩

/-- A search that is refused does nothing. -/
theorem outcome_of_refusal {error : Error Empty} (h : solver.refusal? preSelected = some error)
    (callbacks : Callbacks σ ο ε τ) (world : σ) :
    solver.outcome callbacks preSelected world =
      (.error (.failed error.widen), solver.phase, world) := by
  rw [refusal?] at h
  rw [outcome]
  cases hensure : solver.phase.ensureClean with
  | error refused =>
    simp only [hensure, Option.some.injEq] at h
    rw [← h]
    rfl
  | ok _ =>
    simp only [hensure, Option.map_eq_some_iff] at h
    obtain ⟨item, hmissing, rfl⟩ := h
    simp only [hmissing]
    rfl

/-- Taking note of the exchanges makes no difference to how a search ends. -/
theorem outcome_noted_of_accepts (h : solver.Accepts preSelected) (callbacks : Callbacks σ ο ε τ)
    (keep : Exchange ο ε τ → ρ) (world : σ) :
    (solver.noted keep).outcome (callbacks.noted keep) preSelected (world, []) =
      let (result, phase, world') := solver.outcome callbacks preSelected world
      (result, phase, world', (solver.play callbacks preSelected world).1.map keep) := by
  have hnoted : (solver.noted keep).Accepts preSelected := ⟨h.phase, h.known⟩
  have hlistener : ((solver.noted keep).searchFor (callbacks.noted keep)).listener =
      (solver.searchFor callbacks).listener.noted keep :=
    (solver.searchFor callbacks).listener_noted keep
  have hplay : ((solver.noted keep).play (callbacks.noted keep) preSelected (world, [])).2 =
      let (log, result, world') := solver.play callbacks preSelected world
      (result, world', log.map keep) := by
    show ((solver.script preSelected).play _ (world, [])).2 = _
    rw [← Script.run_eq_play, hlistener, Script.run_noted]
    rfl
  rw [outcome_of_accepts hnoted, outcome_of_accepts h, any_play_eq, any_play_eq, hplay]
  rfl

variable [Grid γ ι χ] [LawfulGrid γ] [LawfulItem ι] [EquivBEq χ]

/-- The exchanges of a search are those of its play. -/
theorem Kept.exchanges_eq_of_accepts (h : solver.Kept) (haccepts : solver.Accepts preSelected)
    (callbacks : Callbacks σ ο ε τ) (world : σ) :
    solver.exchanges callbacks preSelected world =
      (solver.play callbacks preSelected world).1 := by
  have hnoted : (solver.noted (id : Exchange ο ε τ → _)).Kept := h
  obtain ⟨grid, hsearch, -⟩ :=
    hnoted.exists_searchWith_eq (callbacks.noted id) preSelected (world, [])
  rw [exchanges, hsearch, outcome_noted_of_accepts haccepts]
  exact List.map_id _

/-- There are no exchanges with a search that is refused. -/
theorem Kept.exchanges_eq_nil (h : solver.Kept) (hrefuses : ¬ solver.Accepts preSelected)
    (callbacks : Callbacks σ ο ε τ) (world : σ) :
    solver.exchanges callbacks preSelected world = [] := by
  have hnoted : (solver.noted (id : Exchange ο ε τ → _)).Kept := h
  obtain ⟨error, hrefusal⟩ := exists_refusal_of_not_accepts hrefuses
  have hrefused : (solver.noted (id : Exchange ο ε τ → _)).refusal? preSelected = some error :=
    hrefusal
  obtain ⟨grid, hsearch, -⟩ :=
    hnoted.exists_searchWith_eq (callbacks.noted id) preSelected (world, [])
  rw [exchanges, hsearch, outcome_of_refusal hrefused]

/-- A search is refused before anything happens, or it ends as its play does. -/
theorem Kept.searchWith_cases (h : solver.Kept) (callbacks : Callbacks σ ο ε τ)
    (preSelected : List ο) (world : σ) :
    (∃ error grid, solver.exchanges callbacks preSelected world = [] ∧
      solver.searchWith callbacks preSelected world =
        (.error (.failed (Error.widen error)), { solver with grid := grid }, world)) ∨
    ∃ grid, solver.Accepts preSelected ∧
      solver.exchanges callbacks preSelected world = (solver.play callbacks preSelected world).1 ∧
      solver.searchWith callbacks preSelected world =
        ((solver.play callbacks preSelected world).2.1.mapError .ofStop,
          { solver with
            grid := grid
            phase := if (solver.exchanges callbacks preSelected world).any (·.stop?.isSome)
              then .poisoned else solver.phase },
          (solver.play callbacks preSelected world).2.2) := by
  obtain ⟨grid, hsearch, -⟩ := h.exists_searchWith_eq callbacks preSelected world
  by_cases haccepts : solver.Accepts preSelected
  · have hexchanges := h.exchanges_eq_of_accepts haccepts callbacks world
    refine .inr ⟨grid, haccepts, hexchanges, ?_⟩
    rw [hsearch, hexchanges, outcome_of_accepts haccepts]
  · obtain ⟨error, hrefusal⟩ := exists_refusal_of_not_accepts haccepts
    refine .inl ⟨error, grid, h.exchanges_eq_nil haccepts callbacks world, ?_⟩
    rw [hsearch, outcome_of_refusal hrefusal]

/-- Whatever is kept of the exchanges, taking note of them makes no difference to a search. -/
theorem Kept.searchWith_noted (h : solver.Kept) (callbacks : Callbacks σ ο ε τ)
    (keep : Exchange ο ε τ → ρ) (preSelected : List ο) (world : σ) :
    let noted := (solver.noted keep).searchWith (callbacks.noted keep) preSelected (world, [])
    let plain := solver.searchWith callbacks preSelected world
    noted.1 = plain.1 ∧
      noted.2.2 = (plain.2.2, (solver.exchanges callbacks preSelected world).map keep) := by
  have hnoted : (solver.noted keep).Kept := h
  obtain ⟨grid, hsearch, -⟩ := h.exists_searchWith_eq callbacks preSelected world
  obtain ⟨grid', hsearch', -⟩ :=
    hnoted.exists_searchWith_eq (callbacks.noted keep) preSelected (world, [])
  rw [hsearch, hsearch']
  by_cases haccepts : solver.Accepts preSelected
  · rw [h.exchanges_eq_of_accepts haccepts, outcome_noted_of_accepts haccepts]
    exact ⟨rfl, rfl⟩
  · obtain ⟨error, hrefusal⟩ := exists_refusal_of_not_accepts haccepts
    have hrefused : (solver.noted keep).refusal? preSelected = some error := hrefusal
    rw [h.exchanges_eq_nil haccepts, outcome_of_refusal hrefusal, outcome_of_refusal hrefused]
    exact ⟨rfl, rfl⟩

/-- The events of a search are those of its exchanges. -/
theorem Kept.events_eq (h : solver.Kept) (callbacks : Callbacks σ ο ε τ) (preSelected : List ο)
    (world : σ) : solver.events callbacks preSelected world =
      (solver.exchanges callbacks preSelected world).map (·.event) :=
  congrArg Prod.snd (h.searchWith_noted callbacks (·.event) preSelected world).2

/-- A search that comes to its end goes through a tree that prunes the one of the problem. -/
theorem Kept.exists_prunes_of_ok (h : solver.Kept)
    (hanswer : (solver.searchWith callbacks preSelected world).1 = .ok ()) :
    ∃ pruned, (solver.tree preSelected).Prunes pruned ∧
      solver.events callbacks preSelected world = .started :: pruned.events := by
  rcases h.searchWith_cases callbacks preSelected world with
    ⟨error, grid, -, hsearch⟩ | ⟨grid, -, hexchanges, hsearch⟩
  · rw [hsearch] at hanswer
    contradiction
  rw [hsearch] at hanswer
  have hplay : (solver.play callbacks preSelected world).2.1 = .ok () := by
    cases hresult : (solver.play callbacks preSelected world).2.1 with
    | ok _ => rfl
    | error stop =>
      rw [hresult] at hanswer
      contradiction
  obtain ⟨_, rest, hevents, hrest⟩ := Script.plays_of_play hplay
  obtain ⟨pruned, after, hprunes, rfl, hdone⟩ := Tree.exists_prunes_of_plays _ _ _ hrest
  refine ⟨pruned, hprunes, ?_⟩
  rw [h.events_eq, hexchanges]
  refine hevents.trans ?_
  rw [hdone, List.append_nil]
  rfl

end Outcome

end Solver

end ExactCover
