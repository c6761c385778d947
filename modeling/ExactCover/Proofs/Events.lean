import ExactCover.Solver
import ExactCover.Woven
import ExactCover.Packed
import ExactCover.Constraint
import Mathlib.Data.List.Chain

/-!
# The calls that a search makes

The calls that a search makes into foreign code are logged as `Event`s, in their order and with
their arguments. The code that is called does what it always does, next to the log.

A search tells its caller about a solution only if it has just asked whether to cancel and was told
not to. This is a property of the program and holds on every grid, whatever is on it
(`Search.run_quiet`). So where a solution is reported after the caller has asked to cancel, the
caller was asked once more and declined (`solution_after_cancelling`), and cancelling is final as
long as the caller does not change its mind (`cancellingIsFinal_events`). A caller that does change
its mind is told about further solutions (`not_final_of_wavering`), because cancelling ends the
current branch only.
-/

set_option autoImplicit false

namespace ExactCover

variable {σ ο ε τ α β : Type}

/-- A call into foreign code during a search. -/
inductive Event (ο : Type) where
  /-- The observer was told that a search starts. -/
  | started
  /-- The observer was told that the search branches on a column with this many rows. -/
  | entered (rows : Nat)
  /-- The observer was told that a row is tried. -/
  | rowSelected
  /-- The observer was told that all rows of a column were tried. -/
  | ended
  /-- The caller was asked whether to cancel. It gave the answer unless it threw. -/
  | polled (answer : Option Bool)
  /-- The caller was told about a solution. -/
  | solution (chosen : List ο)
  deriving DecidableEq, Repr

/-- The same code next to a log of events. Which event the call is may depend on how it ends. -/
def Call.logged (code : Call σ τ α) (event : Except τ α → Event ο) :
    Call (σ × List (Event ο)) τ α :=
  ExceptT.mk fun (world, log) =>
    let (result, world) := code.run.run world
    pure (result, world, log ++ [event result])

/-- The same observer next to a log. -/
def Trace.logged (trace : Trace σ τ) : Trace (σ × List (Event ο)) τ where
  started := trace.started.logged fun _ => .started
  entered rows := (trace.entered rows).logged fun _ => .entered rows
  rowSelected := trace.rowSelected.logged fun _ => .rowSelected
  ended := trace.ended.logged fun _ => .ended

/-- The same callbacks next to a log. -/
def Callbacks.logged (callbacks : Callbacks σ ο ε τ) : Callbacks (σ × List (Event ο)) ο ε τ where
  solution chosen := (callbacks.solution chosen).logged fun _ => .solution chosen
  cancel := callbacks.cancel.logged fun answer => .polled answer.toOption

/-- The same search next to a log. -/
def Search.logged (search : Search σ ο ε τ) : Search (σ × List (Event ο)) ο ε τ :=
  ⟨search.options, search.trace.logged, search.callbacks.logged⟩

/-- A solution is reported only after the caller was polled and declined to cancel. -/
def Event.Allows (e e' : Event ο) : Prop :=
  ∀ chosen, e' = .solution chosen → e = .polled (some false)

/-- After the caller has asked to cancel, it is told about no solution. -/
def CancellingIsFinal (events : List (Event ο)) : Prop :=
  ∀ before after, events = before ++ .polled (some true) :: after →
    ∀ chosen, .solution chosen ∉ after

/-- A solution behind a poll that was answered with yes comes right behind one that was answered
with no. -/
theorem Event.exists_declined {e : Event ο} {before between after : List (Event ο)}
    {chosen : List ο} (h : List.IsChain Allows
      (e :: (before ++ .polled (some true) :: (between ++ .solution chosen :: after)))) :
    ∃ between', between = between' ++ [.polled (some false)] := by
  rcases List.eq_nil_or_concat' between with rfl | ⟨between', last, rfl⟩
  · have hpair : List.IsChain Allows [.polled (some true), .solution chosen] :=
      h.infix ⟨e :: before, after, by simp⟩
    cases List.isChain_pair.mp hpair chosen rfl
  · have hpair : List.IsChain Allows [last, .solution chosen] :=
      h.infix ⟨e :: before ++ .polled (some true) :: between', after, by simp⟩
    exact ⟨between', by rw [List.isChain_pair.mp hpair chosen rfl]⟩

namespace SearchM

variable {n : Nat} {χ : Type} {e : Event ο} {code : SearchM n χ σ ε τ α}
  {code' : SearchM n χ (σ × List (Event ο)) ε τ α} {f : α → SearchM n χ σ ε τ β}
  {f' : α → SearchM n χ (σ × List (Event ο)) ε τ β}

/-- The second code does what the first does, next to a log. Behind the given event, it logs events
that may follow one another. -/
def LoggedAs (e : Event ο) (code : SearchM n χ σ ε τ α)
    (code' : SearchM n χ (σ × List (Event ο)) ε τ α) : Prop :=
  ∀ mesh world log, ∃ more, List.IsChain Event.Allows (e :: more) ∧
    code'.run.run (mesh, world, log) =
      let (result, mesh, world) := code.run.run (mesh, world)
      (result, mesh, world, log ++ more)

/-- Code that does not begin with a solution, so it makes no difference what comes before. -/
abbrev Quiet (code : SearchM n χ σ ε τ α) (code' : SearchM n χ (σ × List (Event ο)) ε τ α) : Prop :=
  LoggedAs .started code code'

theorem Quiet.loggedAs (h : Quiet code code') (e : Event ο) : LoggedAs e code code' := by
  intro mesh world log
  obtain ⟨more, hchain, hrun⟩ := h mesh world log
  obtain ⟨hhead, hmore⟩ := List.isChain_cons.mp hchain
  refine ⟨more, List.isChain_cons.mpr ⟨fun e' he' chosen hchosen => ?_, hmore⟩, hrun⟩
  cases hhead e' he' chosen hchosen

/-- Code that leaves the log alone. -/
theorem quiet_of_eq (h : ∀ mesh world log, code'.run.run (mesh, world, log) =
    let (result, mesh, world) := code.run.run (mesh, world)
    (result, mesh, world, log)) : Quiet code code' := by
  intro mesh world log
  exact ⟨[], .singleton _, by rw [h, List.append_nil]⟩

theorem quiet_pure (a : α) :
    Quiet (Pure.pure a : SearchM n χ σ ε τ α)
      (Pure.pure a : SearchM n χ (σ × List (Event ο)) ε τ α) :=
  quiet_of_eq fun _ _ _ => rfl

theorem quiet_throw (stop : Stop ε τ) :
    Quiet (throw stop : SearchM n χ σ ε τ α)
      (throw stop : SearchM n χ (σ × List (Event ο)) ε τ α) :=
  quiet_of_eq fun _ _ _ => rfl

theorem quiet_step (move : Mesh n χ → Except Fault (Mesh n χ)) :
    Quiet (step move : SearchM n χ σ ε τ Unit)
      (step move : SearchM n χ (σ × List (Event ο)) ε τ Unit) := by
  apply quiet_of_eq
  intro mesh world log
  simp only [step, ExceptT.run_mk, StateT.run]
  cases move mesh <;> rfl

/-- What follows may not begin with a solution, because it is not known what it follows. -/
theorem LoggedAs.bind (h : LoggedAs e code code') (hnext : ∀ a, Quiet (f a) (f' a)) :
    LoggedAs e (code >>= f) (code' >>= f') := by
  intro mesh world log
  obtain ⟨more, hchain, hrun⟩ := h mesh world log
  simp only [ExceptT.run_bind, StateT.run_bind, hrun]
  obtain ⟨result, mesh, world⟩ := code.run.run (mesh, world)
  cases result with
  | error stop => exact ⟨more, hchain, rfl⟩
  | ok a =>
    obtain ⟨more', hchain', hrun'⟩ := hnext a mesh world (log ++ more)
    obtain ⟨hhead, hmore'⟩ := List.isChain_cons.mp hchain'
    refine ⟨more ++ more', ?_, hrun'.trans ?_⟩
    · refine List.IsChain.append hchain hmore' fun last _ e' he' chosen hchosen => ?_
      cases hhead e' he' chosen hchosen
    · rw [List.append_assoc]
      rfl

/-- What follows a look at the mesh comes behind what the look comes behind. -/
theorem loggedAs_look_bind {read : Mesh n χ → Except Fault α}
    (hnext : ∀ a, LoggedAs e (f a) (f' a)) :
    LoggedAs e (look read >>= f) (look read >>= f') := by
  intro mesh world log
  have hlook : (look read : SearchM n χ σ ε τ α).run.run (mesh, world) =
      ((read mesh).mapError .impossible, mesh, world) := rfl
  have hlook' : (look read : SearchM n χ (σ × List (Event ο)) ε τ α).run.run (mesh, world, log) =
      ((read mesh).mapError .impossible, mesh, world, log) := rfl
  simp only [ExceptT.run_bind, StateT.run_bind, hlook, hlook']
  cases read mesh with
  | error fault => exact ⟨[], .singleton _, by rw [List.append_nil]; rfl⟩
  | ok a => exact hnext a mesh world log

/-- What follows a call comes behind the event of the call. -/
theorem loggedAs_call_bind {foreign : Call σ τ α} {logged : Call (σ × List (Event ο)) τ α}
    (event : Except τ α → Event ο) (hlogged : logged = foreign.logged event)
    (hevent : ∀ result, e.Allows (event result))
    (hnext : ∀ a, LoggedAs (event (.ok a)) (f a) (f' a)) :
    LoggedAs e (call foreign >>= f) (call logged >>= f') := by
  intro mesh world log
  have hcall : (call foreign : SearchM n χ σ ε τ α).run.run (mesh, world) =
      ((foreign.run.run world).1.mapError .thrown, mesh, (foreign.run.run world).2) := rfl
  have hcall' : (call logged : SearchM n χ (σ × List (Event ο)) ε τ α).run.run
      (mesh, world, log) = ((foreign.run.run world).1.mapError .thrown, mesh,
        (foreign.run.run world).2, log ++ [event (foreign.run.run world).1]) := by
    rw [hlogged]
    rfl
  simp only [ExceptT.run_bind, StateT.run_bind, hcall, hcall']
  obtain ⟨result, world⟩ := foreign.run.run world
  cases result with
  | error value => exact ⟨[_], .cons_cons (hevent _) (.singleton _), rfl⟩
  | ok a =>
    obtain ⟨more, hchain, hrun⟩ := hnext a mesh world (log ++ [event (.ok a)])
    refine ⟨event (.ok a) :: more, .cons_cons (hevent _) hchain, hrun.trans ?_⟩
    rw [List.append_assoc]
    rfl

/-- A call that is logged as something else than a solution. -/
theorem quiet_call {foreign : Call σ τ α} {logged : Call (σ × List (Event ο)) τ α}
    (event : Event ο) (hlogged : logged = foreign.logged fun _ => event)
    (hevent : ∀ chosen, event ≠ .solution chosen) :
    Quiet (call foreign : SearchM n χ σ ε τ α)
      (call logged : SearchM n χ (σ × List (Event ο)) ε τ α) := by
  rw [← bind_pure (call foreign), ← bind_pure (call logged)]
  apply loggedAs_call_bind (fun _ => event) hlogged
  · exact fun _ chosen hchosen => absurd hchosen (hevent chosen)
  · exact fun a => (quiet_pure a).loggedAs event

end SearchM

namespace Search

open SearchM

variable {n : Nat} {χ : Type}

theorem report_loggedAs (search : Search σ ο ε τ) (chosen : List ο) :
    LoggedAs (.polled (some false)) (search.report chosen : SearchM n χ σ ε τ Unit)
      (search.logged.report chosen) := by
  apply loggedAs_call_bind (fun _ => .solution chosen) rfl (fun _ _ _ => rfl)
  rintro (error | ⟨⟩)
  · exact (quiet_throw _).loggedAs _
  · exact (quiet_pure ()).loggedAs _

theorem tryRows_quiet {attempt : Fin n → SearchM n χ σ ε τ Unit}
    {attempt' : Fin n → SearchM n χ (σ × List (Event ο)) ε τ Unit}
    (h : ∀ p, Quiet (attempt p) (attempt' p)) (c : Fin n) (fuel : Nat) (p : Fin n) :
    Quiet (tryRows attempt c fuel p) (tryRows attempt' c fuel p) := by
  induction fuel generalizing p with
  | zero =>
    rw [tryRows, tryRows]
    split
    · exact quiet_pure ()
    · exact quiet_throw _
  | succ fuel ih =>
    rw [tryRows, tryRows]
    split
    · exact quiet_pure ()
    · exact (h p).bind fun _ => loggedAs_look_bind ih

variable [BEq χ]

/-- Every level polls before anything else, and reports a solution only right after that. -/
theorem descend_quiet (search : Search σ ο ε τ) (depth : Nat) (chosen : List ο) :
    Quiet (search.descend depth chosen : SearchM n χ σ ε τ Unit)
      (search.logged.descend depth chosen) := by
  induction depth generalizing chosen with
  | zero => exact quiet_throw _
  | succ depth ih =>
    rw [descend, descend]
    apply loggedAs_call_bind (fun answer => .polled answer.toOption) rfl (fun _ _ => nofun)
    intro cancelled
    cases cancelled with
    | true => exact (quiet_pure ()).loggedAs _
    | false =>
      apply loggedAs_look_bind
      intro column
      cases column with
      | none => exact search.report_loggedAs chosen
      | some c =>
        apply loggedAs_look_bind
        intro rows
        apply Quiet.loggedAs
        apply (quiet_call (.entered rows) rfl nofun).bind
        intro _
        apply (quiet_step _).bind
        intro _
        apply loggedAs_look_bind
        intro top
        apply (tryRows_quiet ?_ c n top).bind
        · intro _
          exact (quiet_step _).bind fun _ => quiet_call .ended rfl nofun
        · intro p
          apply (quiet_call .rowSelected rfl nofun).bind
          intro _
          apply (quiet_step _).bind
          intro _
          apply loggedAs_look_bind
          intro option
          exact (ih _).bind fun _ => quiet_step _

theorem run_quiet (search : Search σ ο ε τ) (preSelected : List ο) :
    Quiet (search.run preSelected : SearchM n χ σ ε τ Unit) (search.logged.run preSelected) :=
  (quiet_call .started rfl nofun).bind fun _ => search.descend_quiet _ preSelected

end Search

namespace Solver

variable {γ ι χ : Type} [BEq ι] [BEq χ] [Describe ι] [Grid γ ι χ]

/-- The same solver next to a log. -/
def logged (solver : Solver γ ο ι σ τ) : Solver γ ο ι (σ × List (Event ο)) τ :=
  { solver with trace := some (solver.trace.getD .silent).logged }

/-- The calls into foreign code during a search, in their order. -/
def events (solver : Solver γ ο ι σ τ) (callbacks : Callbacks σ ο ε τ) (preSelected : List ο)
    (world : σ) : List (Event ο) :=
  (solver.logged.searchWith callbacks.logged preSelected (world, [])).2.2.2

/-- The log changes nothing about a search, and the events in it may follow one another. -/
theorem exists_searchWith_logged_eq (solver : Solver γ ο ι σ τ) (callbacks : Callbacks σ ο ε τ)
    (preSelected : List ο) (world : σ) :
    ∃ events, List.IsChain Event.Allows (.started :: events) ∧
      solver.logged.searchWith callbacks.logged preSelected (world, []) =
        let (result, searched, world) := solver.searchWith callbacks preSelected world
        (result, searched.logged, world, events) := by
  rw [searchWith, searchWith]
  cases hensure : solver.phase.ensureClean with
  | error error =>
    refine ⟨[], .singleton _, ?_⟩
    simp only [logged, hensure]
  | ok _ =>
    cases hcolumns : (Grid.board (Grid.close solver.grid)).columnsOf
        (preSelected.flatMap solver.items) with
    | error item =>
      refine ⟨[], .singleton _, ?_⟩
      simp only [logged, hensure, hcolumns]
    | ok columns =>
      cases hcover : (Grid.board (Grid.close solver.grid)).mesh.coverAll columns with
      | error fault =>
        refine ⟨[], .singleton _, ?_⟩
        simp only [logged, hensure, hcolumns, hcover]
      | ok mesh =>
        let search : Search σ ο ε τ := ⟨solver.options, solver.trace.getD .silent, callbacks⟩
        obtain ⟨events, hchain, hrun⟩ := search.run_quiet preSelected mesh world []
        refine ⟨events, hchain, ?_⟩
        cases hplain : (search.run preSelected).run.run (mesh, world) with
        | mk result after =>
          obtain ⟨mesh', world'⟩ := after
          rw [hplain, List.nil_append] at hrun
          simp only [search, Search.logged] at hrun hplain
          cases result with
          | error stop =>
            simp only [logged, hensure, hcolumns, hcover, Option.getD_some, hrun, hplain,
              interrupted]
          | ok _ =>
            cases hrestore : restore (Grid.close solver.grid) columns mesh' with
            | error fault =>
              simp only [logged, hensure, hcolumns, hcover, Option.getD_some, hrun, hplain,
                hrestore, interrupted]
            | ok grid =>
              simp only [logged, hensure, hcolumns, hcover, Option.getD_some, hrun, hplain,
                hrestore, finished]

theorem isChain_events (solver : Solver γ ο ι σ τ) (callbacks : Callbacks σ ο ε τ)
    (preSelected : List ο) (world : σ) :
    List.IsChain Event.Allows (.started :: solver.events callbacks preSelected world) := by
  obtain ⟨events, hchain, hsearch⟩ :=
    solver.exists_searchWith_logged_eq callbacks preSelected world
  rw [Solver.events, hsearch]
  exact hchain

/-- Cancelling is final if the caller never declines after that. -/
theorem cancellingIsFinal_events (solver : Solver γ ο ι σ τ) (callbacks : Callbacks σ ο ε τ)
    (preSelected : List ο) (world : σ)
    (hsteady : ∀ before after, solver.events callbacks preSelected world =
      before ++ .polled (some true) :: after → .polled (some false) ∉ after) :
    CancellingIsFinal (solver.events callbacks preSelected world) := by
  intro before after hevents chosen hmem
  obtain ⟨between, rest, rfl⟩ := List.append_of_mem hmem
  have hchain := solver.isChain_events callbacks preSelected world
  rw [hevents] at hchain
  obtain ⟨between', rfl⟩ := Event.exists_declined hchain
  exact hsteady before _ hevents (by simp)

/-- If a solution is reported after the caller has asked to cancel, the caller was asked again right
before the solution, and declined. -/
theorem solution_after_cancelling (solver : Solver γ ο ι σ τ) (callbacks : Callbacks σ ο ε τ)
    (preSelected : List ο) (world : σ) {before between after : List (Event ο)} {chosen : List ο}
    (h : solver.events callbacks preSelected world =
      before ++ .polled (some true) :: (between ++ .solution chosen :: after)) :
    ∃ between', between = between' ++ [.polled (some false)] := by
  have hchain := solver.isChain_events callbacks preSelected world
  rw [h] at hchain
  exact Event.exists_declined hchain

/-- Callbacks that count the polls and cancel at the second one only. -/
def wavering : Callbacks Nat Nat Empty Empty where
  solution _ := pure (.ok ())
  cancel := do
    modify (· + 1)
    return (← get) == 2

/-- Two options with the same item. The branch of the first is cancelled, and that of the second
gives a solution. -/
theorem solution_after_cancelling_of_wavering :
    let solver := ((woven fun _ => [.primary 0] : Solver (Woven (Constraint Nat Nat) Nat) Nat _
      Nat Empty).addOptions [1, 2]).2
    solver.events wavering [] 0 =
        [.started, .polled (some false), .entered 2, .rowSelected] ++ .polled (some true) ::
          ([.rowSelected, .polled (some false)] ++ .solution [2] :: [.ended]) ∧
      ∃ between', ([.rowSelected, .polled (some false)] : List (Event Nat)) =
        between' ++ [.polled (some false)] := by
  intro solver
  have hevents : solver.events wavering [] 0 =
      [.started, .polled (some false), .entered 2, .rowSelected] ++ .polled (some true) ::
        ([.rowSelected, .polled (some false)] ++ .solution [2] :: [.ended]) := by
    decide +kernel
  exact ⟨hevents, solver.solution_after_cancelling wavering [] 0 hevents⟩

/-- Cancelling is not final for callbacks that change their mind. -/
theorem not_final_of_wavering :
    let items : Nat → List (Constraint Nat Nat) := fun _ => [.primary 0]
    let woven : Solver (Woven (Constraint Nat Nat) Nat) Nat _ Nat Empty :=
      ((Solver.woven items).addOptions [1, 2]).2
    let packed : Solver (Packed (Constraint Nat Nat) Nat) Nat _ Nat Empty :=
      ((Solver.packed items).addOptions [1, 2]).2
    ¬ CancellingIsFinal (woven.events wavering [] 0) ∧
      ¬ CancellingIsFinal (packed.events wavering [] 0) := by
  have hnot : ∀ events : List (Event Nat),
      events = [.started, .polled (some false), .entered 2, .rowSelected] ++ .polled (some true) ::
        [.rowSelected, .polled (some false), .solution [2], .ended] → ¬ CancellingIsFinal events :=
    fun _ hevents hfinal => hfinal _ _ hevents [2] (by simp)
  exact ⟨hnot _ (by decide +kernel), hnot _ (by decide +kernel)⟩

end Solver

end ExactCover
