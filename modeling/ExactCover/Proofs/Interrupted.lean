import ExactCover.Proofs.Exchanges
import ExactCover.Proofs.Twins

/-!
# Interrupted searches

A search is interrupted if a callback fails or throws, or if the observer does. The call in question
is then the last one that the search makes, and the caller gets the very error or value. What came
before does not depend on how that call ended: had other code answered it, the search would have
made the same calls with the same answers up to that point, and then this call (`StopsAt`). So an
interrupted search is the beginning of the one that was not interrupted.
-/

set_option autoImplicit false

namespace ExactCover

namespace Solver

variable {γ ο ι χ σ ε τ : Type} [BEq ι] [BEq χ] [Item ι χ] [Describe ι]

section Lawful

variable [Grid γ ι χ]

/-- Behind some exchanges, one call stops a search, which would have come to that call whoever
answered it. -/
structure StopsAt (solver : Solver γ ο ι σ τ) (callbacks : Callbacks σ ο ε τ) (preSelected : List ο)
    (world : σ) (before : List (Exchange ο ε τ)) (event : Event ο) (stop : Stop ε τ) : Prop where
  last : solver.exchanges callbacks preSelected world = before ++ [⟨event, some stop⟩]
  answer : (solver.searchWith callbacks preSelected world).1 = .error (.ofStop stop)
  options : (solver.searchWith callbacks preSelected world).2.1.options = solver.options
  /-- If another observer and other callbacks stand in for this call, the search goes as before up
  to it, and if they return, so does the call. -/
  resumed : ∀ (trace : Trace σ τ) (others : Callbacks σ ο ε τ), ∃ exchange after,
    exchange.event.signal = event.signal ∧
      ((Search.mk solver.options trace others).Returns → exchange.stop? = none) ∧
      (solver.mended trace before.length).exchanges (callbacks.mended others before.length)
        preSelected (world, 0) = before ++ exchange :: after

variable [LawfulGrid γ] [LawfulItem ι] [EquivBEq χ] {solver : Solver γ ο ι σ τ}
  {callbacks : Callbacks σ ο ε τ} {preSelected : List ο} {world : σ}
  {before after : List (Exchange ο ε τ)} {event : Event ο} {stop : Stop ε τ}

/-- If another observer and other callbacks stand in for one call, a search goes as before up to
that call, which is made all the same. -/
theorem Kept.exists_exchanges_mended (h : solver.Kept) (haccepts : solver.Accepts preSelected)
    {exchange : Exchange ο ε τ}
    (hlog : solver.exchanges callbacks preSelected world = before ++ exchange :: after)
    (trace : Trace σ τ) (others : Callbacks σ ο ε τ) :
    ∃ exchange' after', exchange'.event.signal = exchange.event.signal ∧
      ((Search.mk solver.options trace others).Returns → exchange'.stop? = none) ∧
      (solver.mended trace before.length).exchanges (callbacks.mended others before.length)
        preSelected (world, 0) = before ++ exchange' :: after' := by
  have hmended : (solver.mended trace before.length).Kept := h
  have haccepted : (solver.mended trace before.length).Accepts preSelected :=
    ⟨haccepts.phase, haccepts.known⟩
  have hlistener : ((solver.mended trace before.length).searchFor
      (callbacks.mended others before.length)).listener =
      (solver.searchFor callbacks).listener.mended
        (Search.mk solver.options trace others).listener before.length :=
    (solver.searchFor callbacks).listener_mended trace others before.length
  rw [h.exchanges_eq_of_accepts haccepts] at hlog
  obtain ⟨exchange', after', hsignal, hstop, hplay⟩ :=
    Script.exists_play_mended (Search.mk solver.options trace others).listener 0 hlog
  rw [Nat.zero_add] at hplay
  refine ⟨exchange', after', hsignal, fun hreturns => hstop hreturns.listener, ?_⟩
  rw [hmended.exchanges_eq_of_accepts haccepted, play, hlistener]
  exact hplay

/-- A search is stopped by the call that fails, and by nothing that came before. -/
theorem Kept.stopsAt (h : solver.Kept)
    (hlog : solver.exchanges callbacks preSelected world = before ++ ⟨event, some stop⟩ :: after) :
    StopsAt solver callbacks preSelected world before event stop := by
  rcases h.searchWith_cases callbacks preSelected world with
    ⟨error, grid, hexchanges, -⟩ | ⟨grid, haccepts, hexchanges, hsearch⟩
  · rw [hexchanges] at hlog
    simp at hlog
  have hresumed := h.exists_exchanges_mended haccepts hlog
  have hplay := hlog
  rw [hexchanges] at hplay
  obtain ⟨rfl, hresult⟩ := Script.play_of_stop hplay
  constructor
  · exact hlog
  · rw [hsearch]
    show (solver.play callbacks preSelected world).2.1.mapError Halt.ofStop = _
    rw [play, hresult]
    rfl
  · rw [hsearch]
  · exact hresumed

end Lawful

section Kinds

variable [LawfulItem ι] [EquivBEq χ]

/-- Whatever was done with an open or a sealed solver, a call that fails in a later search is the
last one of it, and the search comes to that call whoever answers it. -/
theorem stopsAt_after (items : ο → List ι) (requests : List (Request ο σ τ)) (start : σ)
    (callbacks : Callbacks σ ο ε τ) (preSelected : List ο) (world : σ)
    (before after : List (Exchange ο ε τ)) (event : Event ο) (stop : Stop ε τ) :
    let woven := (woven items).after start requests
    let packed := (packed items).after start requests
    (woven.exchanges callbacks preSelected world = before ++ ⟨event, some stop⟩ :: after →
      StopsAt woven callbacks preSelected world before event stop) ∧
    (packed.exchanges callbacks preSelected world = before ++ ⟨event, some stop⟩ :: after →
      StopsAt packed callbacks preSelected world before event stop) := by
  intro woven packed
  have hwoven : woven.Kept := kept_after_onGrid items requests start
  have hpacked : packed.Kept := kept_after_onGrid items requests start
  exact ⟨hwoven.stopsAt, hpacked.stopsAt⟩

/-- Callbacks that count the solutions and refuse the second one. -/
def refusing : Callbacks Nat Nat String Empty where
  solution _ := do
    modify (· + 1)
    return if (← get) = 2 then .error "enough" else .ok ()
  cancel := pure false

/-- Three options with the same item, so the search finds three solutions unless it is stopped. -/
theorem stopsAt_after_of_refusing :
    let requests : List (Request Nat Nat Empty) := [.addOption 1, .addOptions [2, 3]]
    let items : Nat → List (Constraint Nat Nat) := fun _ => [.primary 0]
    let before : List (Exchange Nat String Empty) :=
      [.started, .polled (some false), .entered 3, .rowSelected, .polled (some false),
        .solution [1], .rowSelected, .polled (some false)].map (⟨·, none⟩)
    let woven := (woven items).after 0 requests
    let packed := (packed items).after 0 requests
    woven.exchanges refusing [] 0 = before ++ [⟨.solution [2], some (.failed "enough")⟩] ∧
      StopsAt woven refusing [] 0 before (.solution [2]) (.failed "enough") ∧
      packed.exchanges refusing [] 0 = before ++ [⟨.solution [2], some (.failed "enough")⟩] ∧
      StopsAt packed refusing [] 0 before (.solution [2]) (.failed "enough") := by
  intro requests items before woven packed
  have hstops := stopsAt_after items requests 0 refusing [] 0 before [] (.solution [2])
    (.failed "enough")
  have hwoven : woven.exchanges refusing [] 0 =
      before ++ [⟨.solution [2], some (.failed "enough")⟩] := by
    decide +kernel
  have hpacked : packed.exchanges refusing [] 0 =
      before ++ [⟨.solution [2], some (.failed "enough")⟩] := by
    decide +kernel
  exact ⟨hwoven, hstops.1 hwoven, hpacked, hstops.2 hpacked⟩

end Kinds

end Solver

end ExactCover
