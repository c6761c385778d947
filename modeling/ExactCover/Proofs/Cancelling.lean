import ExactCover.Proofs.Exchanges
import ExactCover.Proofs.Found
import ExactCover.Proofs.Twins

/-!
# Cancelled searches

The tree of a search is there before anybody is asked whether to cancel. A caller who asks to cancel
cuts off what lies below one point of it, and after that the search goes on with the rest of the
tree as if the part that was cut off had been searched. So what a caller is told about is a pruned
tree, and the solutions are those at the leaves that remain. A caller who keeps asking to cancel is
told about the solutions that come before it asks for the first time (`Cancelled`).

Cancelling does not keep a search from putting the grid back as it was.
-/

set_option autoImplicit false

namespace ExactCover

variable {γ ο ι χ σ ε τ : Type}

/-- The same callbacks, except that they never cancel. -/
def Callbacks.uncancelled (callbacks : Callbacks σ ο ε τ) : Callbacks σ ο ε τ :=
  { callbacks with cancel := pure false }

theorem reportedIn_append (events events' : List (Event ο)) :
    reportedIn (events ++ events') = reportedIn events ++ reportedIn events' :=
  List.filterMap_append

/-- Where no solution is among some events, none is reported during them. -/
theorem reportedIn_eq_nil {events : List (Event ο)} (h : ∀ chosen, .solution chosen ∉ events) :
    reportedIn events = [] := by
  apply List.filterMap_eq_nil_iff.mpr
  intro event hmem
  cases event with
  | solution chosen => exact absurd hmem (h chosen)
  | _ => rfl

namespace Solver

variable [BEq ι] [BEq χ] [Item ι χ] {solver : Solver γ ο ι σ τ}
  {callbacks : Callbacks σ ο ε τ} {preSelected : List ο} {world : σ}

/-- Nothing but cancelling can get in the way of a search. -/
structure Unhindered (solver : Solver γ ο ι σ τ) (callbacks : Callbacks σ ο ε τ)
    (preSelected : List ο) : Prop where
  phase : solver.phase = .clean
  listed : ∀ chosen ∈ preSelected, ∀ item ∈ solver.items chosen,
    ∃ option ∈ solver.options, ∃ x ∈ solver.items option, x == item
  trace : ∀ trace ∈ solver.trace, trace.Returns
  solution : ∀ chosen, (callbacks.solution chosen).Returns (.ok ())
  cancel : ∀ world, ∃ answer world', callbacks.cancel.run.run world = (.ok answer, world')

namespace Unhindered

theorem uncancelled (h : Unhindered solver callbacks preSelected) :
    Unhindered solver callbacks.uncancelled preSelected :=
  ⟨h.phase, h.listed, h.trace, h.solution, fun world => ⟨false, world, rfl⟩⟩

theorem accepts (h : Unhindered solver callbacks preSelected) : solver.Accepts preSelected :=
  ⟨h.phase, missing?_eq_none h.listed⟩

theorem returns (h : Unhindered solver callbacks preSelected) :
    (solver.searchFor callbacks).Returns :=
  ⟨returns_searchFor h.trace callbacks, h.solution, h.cancel⟩

/-- All calls of the search return, so it comes to its end. -/
theorem play_eq (h : Unhindered solver callbacks preSelected) (world : σ) :
    (solver.play callbacks preSelected world).2.1 = .ok () :=
  Script.play_of_returns h.returns.listener _ world

end Unhindered

variable [Describe ι] [Grid γ ι χ]

/-- How a search is related to the one that is not cancelled, and what it leaves behind. -/
structure Cancelled (solver : Solver γ ο ι σ τ) (callbacks : Callbacks σ ο ε τ)
    (preSelected : List ο) (world : σ) : Prop where
  /-- The search that is not cancelled goes through the whole tree. -/
  whole : solver.events callbacks.uncancelled preSelected world =
    .started :: (solver.tree preSelected).events
  /-- This search goes through the tree without what lies below the points where the caller has
  asked to cancel. -/
  exists_prunes : ∃ pruned, (solver.tree preSelected).Prunes pruned ∧
    solver.events callbacks preSelected world = .started :: pruned.events ∧
    reportedIn (solver.events callbacks preSelected world) = pruned.solutions
  sublist : (reportedIn (solver.events callbacks preSelected world)).Sublist
    (reportedIn (solver.events callbacks.uncancelled preSelected world))
  declined : .polled (some true) ∉ solver.events callbacks preSelected world →
    solver.events callbacks preSelected world =
      solver.events callbacks.uncancelled preSelected world
  /-- A caller who does not change its mind is told about the solutions that come before it asks to
  cancel for the first time. -/
  steady : ∀ before after, .polled (some true) ∉ before → .polled (some false) ∉ after →
    solver.events callbacks preSelected world = before ++ .polled (some true) :: after →
      reportedIn (solver.events callbacks preSelected world) = reportedIn before ∧
      ∃ after', solver.events callbacks.uncancelled preSelected world =
        before ++ .polled (some false) :: after'
  /-- The solver is left clean, with its grid closed and every link, count and color in place. -/
  restores : ∃ mesh world', (Grid.board (Grid.close solver.grid)).mesh.Alike mesh ∧
    solver.searchWith callbacks preSelected world =
      (.ok (), { solver with
        grid := Grid.withMesh (Grid.close solver.grid) mesh, phase := .clean }, world')
  /-- Where equal colors are identical, the grid is the same one. -/
  closes : (∀ a b : χ, a == b → a = b) →
    (solver.searchWith callbacks preSelected world).2.1 = solver.closed

variable [LawfulGrid γ] [LawfulItem ι] [EquivBEq χ]

/-- A search that nothing but cancelling can get in the way of comes to its end and leaves a clean
solver. -/
theorem Kept.exists_searchWith_eq_ok (h : solver.Kept)
    (hunhindered : Unhindered solver callbacks preSelected) (world : σ) :
    ∃ mesh world', (Grid.board (Grid.close solver.grid)).mesh.Alike mesh ∧
      solver.searchWith callbacks preSelected world =
        (.ok (), { solver with
          grid := Grid.withMesh (Grid.close solver.grid) mesh, phase := .clean }, world') := by
  have hready : solver.Ready := ⟨hunhindered.phase, h hunhindered.phase⟩
  have hplain : ((solver.searchFor callbacks).plain (solver.problem preSelected)
      preSelected).run.run world = (.ok (), (solver.play callbacks preSelected world).2.2) := by
    rw [run_plain_eq_play, ← hunhindered.play_eq world]
  obtain ⟨mesh, halike, hsearch⟩ :=
    hready.exists_searchWith_eq_ok (Naive.unmixed _) callbacks hunhindered.accepts.known hplain
  refine ⟨mesh, (solver.play callbacks preSelected world).2.2, halike, ?_⟩
  rw [hsearch, closed, hunhindered.phase]

/-- Where equal colors are identical, all that such a search does to the solver is to close its
grid. -/
theorem Kept.searchWith_eq_closed (h : solver.Kept)
    (hunhindered : Unhindered solver callbacks preSelected) (hcolors : ∀ a b : χ, a == b → a = b)
    (world : σ) : (solver.searchWith callbacks preSelected world).2.1 = solver.closed := by
  have hlawful : LawfulBEq χ := { eq_of_beq := hcolors _ _ }
  have hready : solver.Ready := ⟨hunhindered.phase, h hunhindered.phase⟩
  obtain ⟨mesh, world', -, hsearch⟩ := h.exists_searchWith_eq_ok hunhindered world
  apply hready.searchWith_eq_closed callbacks preSelected world
  rw [hsearch]
  rfl

theorem Kept.events_eq_play (h : solver.Kept)
    (hunhindered : Unhindered solver callbacks preSelected) (world : σ) :
    solver.events callbacks preSelected world =
      (solver.play callbacks preSelected world).1.map (·.event) := by
  rw [h.events_eq, h.exchanges_eq_of_accepts hunhindered.accepts]

/-- A search that goes through a pruned tree. -/
theorem Kept.exists_prunes (h : solver.Kept)
    (hunhindered : Unhindered solver callbacks preSelected) (world : σ) :
    ∃ pruned, (solver.tree preSelected).Prunes pruned ∧
      solver.events callbacks preSelected world = .started :: pruned.events := by
  obtain ⟨mesh, world', -, hsearch⟩ := h.exists_searchWith_eq_ok hunhindered world
  apply h.exists_prunes_of_ok
  rw [hsearch]

/-- No poll of a search that is not cancelled is answered with yes. -/
theorem Kept.polled_not_mem_uncancelled (h : solver.Kept)
    (hunhindered : Unhindered solver callbacks preSelected) (world : σ) :
    .polled (some true) ∉ solver.events callbacks.uncancelled preSelected world := by
  rw [h.events_eq_play hunhindered.uncancelled]
  exact Script.polled_not_mem_play (fun _ => rfl) _ world

/-- A search that is not cancelled goes through the whole tree. -/
theorem Kept.events_uncancelled_eq (h : solver.Kept)
    (hunhindered : Unhindered solver callbacks preSelected) (world : σ) :
    solver.events callbacks.uncancelled preSelected world =
      .started :: (solver.tree preSelected).events := by
  obtain ⟨pruned, hprunes, hevents⟩ := h.exists_prunes hunhindered.uncancelled world
  have hnone := h.polled_not_mem_uncancelled hunhindered world
  rw [hevents, List.mem_cons, not_or] at hnone
  rw [hevents, hprunes.events_eq hnone.2]

/-- A search goes as one that is not cancelled up to the first poll that is answered with yes. -/
theorem Kept.exists_events_uncancelled_eq (h : solver.Kept)
    (hunhindered : Unhindered solver callbacks preSelected) {before after : List (Event ο)}
    (hfirst : .polled (some true) ∉ before)
    (hevents : solver.events callbacks preSelected world =
      before ++ .polled (some true) :: after) :
    ∃ after', solver.events callbacks.uncancelled preSelected world =
      before ++ .polled (some false) :: after' := by
  have hplays := Script.plays_of_play (hunhindered.play_eq world)
  have hfull := Script.plays_of_play (hunhindered.uncancelled.play_eq world)
  rw [← play, ← h.events_eq_play hunhindered, hevents] at hplays
  rw [← play, ← h.events_eq_play hunhindered.uncancelled] at hfull
  exact hplays.split hfirst hfull (h.polled_not_mem_uncancelled hunhindered world)

omit [Item ι χ] [LawfulGrid γ] [LawfulItem ι] [EquivBEq χ] in
/-- Nothing is reported behind a poll that is answered with yes if no later one is answered with
no. -/
theorem reportedIn_events_of_steady {before after : List (Event ο)}
    (hsteady : .polled (some false) ∉ after)
    (hevents : solver.events callbacks preSelected world =
      before ++ .polled (some true) :: after) :
    reportedIn (solver.events callbacks preSelected world) = reportedIn before := by
  have hnone : reportedIn after = [] := by
    apply reportedIn_eq_nil
    intro chosen hmem
    obtain ⟨between, rest, rfl⟩ := List.append_of_mem hmem
    -- The poll right before the solution was answered with no.
    have hchain := solver.isChain_events callbacks preSelected world
    rw [hevents] at hchain
    obtain ⟨between', rfl⟩ := Event.exists_declined hchain
    exact hsteady (by simp)
  rw [hevents, reportedIn_append]
  show reportedIn before ++ reportedIn after = _
  rw [hnone, List.append_nil]

theorem Kept.cancelled (h : solver.Kept) (hunhindered : Unhindered solver callbacks preSelected)
    (world : σ) : Cancelled solver callbacks preSelected world := by
  have hwhole := h.events_uncancelled_eq hunhindered world
  obtain ⟨pruned, hprunes, hevents⟩ := h.exists_prunes hunhindered world
  have hreported : reportedIn (solver.events callbacks preSelected world) = pruned.solutions := by
    rw [hevents]
    exact pruned.reportedIn_events
  constructor
  · exact hwhole
  · exact ⟨pruned, hprunes, hevents, hreported⟩
  · have hreported' := (solver.tree preSelected).reportedIn_events
    rw [hreported, hwhole]
    show pruned.solutions.Sublist (reportedIn (solver.tree preSelected).events)
    rw [hreported']
    exact hprunes.sublist
  · intro hnone
    rw [hevents, List.mem_cons, not_or] at hnone
    rw [hevents, hwhole, hprunes.events_eq hnone.2]
  · intro before after hfirst hsteady hbefore
    exact ⟨reportedIn_events_of_steady hsteady hbefore,
      h.exists_events_uncancelled_eq hunhindered hfirst hbefore⟩
  · exact h.exists_searchWith_eq_ok hunhindered world
  · exact fun hcolors => h.searchWith_eq_closed hunhindered hcolors world

section Kinds

omit [Grid γ ι χ] [LawfulGrid γ] in
/-- Whatever was done with an open or a sealed solver, a later search that nothing but cancelling
can get in the way of goes through a part of the tree that it would go through otherwise, and leaves
the grid as it was. -/
theorem cancelled_after (items : ο → List ι) (requests : List (Request ο σ τ)) (start : σ)
    (callbacks : Callbacks σ ο ε τ) (preSelected : List ο) (world : σ) :
    let woven := (woven items).after start requests
    let packed := (packed items).after start requests
    (Unhindered woven callbacks preSelected → Cancelled woven callbacks preSelected world) ∧
      (Unhindered packed callbacks preSelected → Cancelled packed callbacks preSelected world) := by
  intro woven packed
  have hwoven : woven.Kept := kept_after_onGrid items requests start
  have hpacked : packed.Kept := kept_after_onGrid items requests start
  exact ⟨fun hunhindered => hwoven.cancelled hunhindered world,
    fun hunhindered => hpacked.cancelled hunhindered world⟩

/-- Two options that cover what the pre-selected one leaves, and callbacks that cancel below the
first of them only. -/
theorem cancelled_after_of_wavering :
    let requests : List (Request Nat Nat Empty) := [.addOptions [0, 1, 3], .allSolutions]
    let items : Nat → List (Constraint Nat Nat) := fun option => [.primary (option % 2)]
    let woven := (woven items).after 0 requests
    let packed := (packed items).after 0 requests
    Unhindered woven wavering [0] ∧ Cancelled woven wavering [0] 0 ∧
      Unhindered packed wavering [0] ∧ Cancelled packed wavering [0] 0 := by
  intro requests items woven packed
  have hreturns : ∀ chosen, (wavering.solution chosen).Returns (.ok ()) :=
    fun _ world => ⟨world, rfl⟩
  have hcancel : ∀ world, ∃ answer world', wavering.cancel.run.run world = (.ok answer, world') :=
    fun _ => ⟨_, _, rfl⟩
  have hunobserved : ∀ {trace : Option (Trace Nat Empty)}, trace.isNone →
      ∀ observer ∈ trace, observer.Returns := by
    intro trace hnone observer hmem
    rw [Option.isNone_iff_eq_none.mp hnone] at hmem
    contradiction
  have hwoven : Unhindered woven wavering [0] :=
    ⟨by decide +kernel, by decide +kernel, hunobserved (by decide +kernel), hreturns, hcancel⟩
  have hpacked : Unhindered packed wavering [0] :=
    ⟨by decide +kernel, by decide +kernel, hunobserved (by decide +kernel), hreturns, hcancel⟩
  have hcancelled := cancelled_after items requests 0 wavering [0] 0
  exact ⟨hwoven, hcancelled.1 hwoven, hpacked, hcancelled.2 hpacked⟩

end Kinds

end Solver

end ExactCover
