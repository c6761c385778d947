import ExactCover.Proofs.Calls

/-!
# Solvers without a past

Where equal colors are identical, a search that no foreign code stops puts the grid back exactly as
it was. So the grid of a solver depends on nothing but its options, and on whether a search has
closed it: `Restored` says that it is the grid of a fresh solver that was given the same options. It
is preserved by every call that no foreign code stops (`Restored.perform`), and hence by all
sequences of them.
-/

set_option autoImplicit false

namespace ExactCover

namespace Solver

variable {γ ο ι χ σ ε τ : Type} [BEq ι] [BEq χ] [Item ι χ] [Grid γ ι χ] [LawfulGrid γ]
  [Describe ι]

/-- The solver is as if it had only been given its options, in their order, and had its grid closed
if there was a search. -/
structure Restored (fresh solver : Solver γ ο ι σ τ) (searched : Bool) : Prop where
  phase : solver.phase = .clean
  exists_grid : ∃ grid, fresh.addOptions solver.options =
      (.ok (), { solver with grid := grid, trace := fresh.trace }) ∧
    LawfulGrid.Carries grid (solver.options.map solver.items) ∧ Grid.isSealed grid = false ∧
    solver.grid = if searched then Grid.close grid else grid

variable {fresh solver : Solver γ ο ι σ τ} {searched : Bool}

theorem restored_onGrid (items : ο → List ι) :
    Restored (onGrid items : Solver γ ο ι σ τ) (onGrid items) false :=
  ⟨rfl, Grid.empty, rfl, LawfulGrid.carries_empty, LawfulGrid.isSealed_empty, rfl⟩

theorem Restored.ready (h : Restored fresh solver searched) : solver.Ready := by
  obtain ⟨grid, -, hcarries, -, hgrid⟩ := h.exists_grid
  refine ⟨h.phase, ?_⟩
  rw [hgrid]
  split
  · exact LawfulGrid.carries_close hcarries
  · exact hcarries

theorem isUndisturbed_of_map {α β : Type} {answer : Except (Halt ε τ) α} {f : α → β}
    (h : isUndisturbed (answer.map f)) : isUndisturbed answer := by
  cases answer with
  | ok a => rfl
  | error halt =>
    cases halt with
    | failed error => cases error <;> exact h
    | thrown value => exact h
    | impossible fault => rfl

/-- An option that is added to a solver with an open grid is added to the grid that the fresh solver
would have. -/
theorem Restored.addOption [EquivBEq ι] (h : Restored fresh solver searched) {option : ο}
    {extended : Solver γ ο ι σ τ} (hadd : solver.addOption option = .ok extended) :
    Restored fresh extended searched := by
  obtain ⟨added, hrow, rfl, hopen, hitems⟩ := exists_of_addOption_eq_ok hadd
  obtain ⟨grid, hadded, hcarries, hopen', hgrid⟩ := h.exists_grid
  have hopened : ∀ g : γ, searched → Grid.close g = g := by
    intro g hsearched
    rcases LawfulGrid.closes (γ := γ) with hsame | hseals
    · exact hsame g
    · rw [Solver.isSealed, hgrid, if_pos hsearched, hseals grid] at hopen
      contradiction
  have hsame : solver.grid = grid := by
    rw [hgrid]
    split
    · next hsearched => exact hopened grid hsearched
    · rfl
  have hmid : Ready { solver with grid := grid, trace := fresh.trace } := ⟨h.phase, hcarries⟩
  obtain ⟨added', hrow', hadd', hready, hopen''⟩ := hmid.exists_addOption_eq_ok hopen' hitems
  rw [hsame] at hrow
  obtain rfl : added' = added := Except.ok.inj (hrow'.symm.trans hrow)
  refine ⟨h.phase, added', addOptions_concat hadded hadd', hready.carries, hopen'', ?_⟩
  show added' = _
  split
  · next hsearched => exact (hopened added' hsearched).symm
  · rfl

theorem Restored.addOptions [EquivBEq ι] (h : Restored fresh solver searched) (options : List ο) :
    Restored fresh (solver.addOptions options).2 searched := by
  induction options generalizing solver with
  | nil => exact h
  | cons option rest ih =>
    cases hadd : solver.addOption option with
    | error error =>
      rw [addOptions_cons_of_error hadd]
      exact h
    | ok extended =>
      rw [addOptions_cons_of_ok hadd]
      exact ih (h.addOption hadd)

/-- Closing the grid is all that a search leaves behind. -/
theorem Restored.closed (h : Restored fresh solver searched) :
    Restored fresh solver.closed true := by
  obtain ⟨grid, hadded, hcarries, hopen, hgrid⟩ := h.exists_grid
  refine ⟨h.phase, grid, hadded, hcarries, hopen, ?_⟩
  rw [Solver.closed, hgrid]
  cases searched with
  | true => exact LawfulGrid.close_close grid
  | false => rfl

variable [LawfulItem ι] [LawfulBEq χ]

theorem Restored.searchWith (h : Restored fresh solver searched) {callbacks : Callbacks σ ο ε τ}
    {preSelected : List ο} {world : σ}
    (hundisturbed : isUndisturbed (solver.searchWith callbacks preSelected world).1) :
    Restored fresh (solver.searchWith callbacks preSelected world).2.1 true := by
  rw [h.ready.searchWith_eq_closed callbacks preSelected world hundisturbed]
  exact h.closed

theorem Restored.allSolutions (h : Restored fresh solver searched) {world : σ}
    (hundisturbed : isUndisturbed (solver.allSolutions world).1) :
    Restored fresh (solver.allSolutions world).2.1 true := by
  have hrecording : solver.recording.Ready := ⟨h.phase, h.ready.carries⟩
  rw [allSolutions_eq] at hundisturbed ⊢
  have hsearch := hrecording.searchWith_eq_closed collecting [] (world, [])
    (isUndisturbed_of_map hundisturbed)
  rw [hsearch]
  exact h.closed

/-- A call that no foreign code stops leaves a solver that is as if it had no past. -/
theorem Restored.perform (h : Restored fresh solver searched) (request : Request ο σ τ)
    (world : σ) (hundisturbed : request.isUndisturbed (solver.perform world request).1) :
    Restored fresh (solver.perform world request).2.1 (searched || request.searches) := by
  cases request with
  | addOption option =>
    show Restored fresh _ (searched || false)
    rw [Bool.or_false, Solver.perform]
    cases hadd : solver.addOption option with
    | error error => exact h
    | ok extended => exact h.addOption hadd
  | addOptions options =>
    show Restored fresh _ (searched || false)
    rw [Bool.or_false]
    exact h.addOptions options
  | searchWith ε callbacks preSelected =>
    show Restored fresh _ (searched || true)
    rw [Bool.or_true]
    exact h.searchWith hundisturbed
  | search ε solution =>
    show Restored fresh _ (searched || true)
    rw [Bool.or_true]
    exact h.searchWith hundisturbed
  | allSolutions =>
    show Restored fresh _ (searched || true)
    rw [Bool.or_true]
    exact h.allSolutions hundisturbed
  | setTrace trace =>
    show Restored fresh _ (searched || false)
    rw [Bool.or_false]
    exact ⟨h.phase, h.exists_grid⟩
  | clearTrace =>
    show Restored fresh _ (searched || false)
    rw [Bool.or_false]
    exact ⟨h.phase, h.exists_grid⟩

/-- So do any number of such calls. -/
theorem Restored.after (h : Restored fresh solver searched) {requests : List (Request ο σ τ)}
    {world : σ} (hundisturbed : ∀ observation ∈ solver.transcript world requests,
      observation.isUndisturbed) :
    Restored fresh (solver.after world requests) (searched || requests.any (·.searches)) := by
  induction requests generalizing solver searched world with
  | nil =>
    rw [List.any_nil, Bool.or_false]
    exact h
  | cons request rest ih =>
    rw [transcript_cons] at hundisturbed
    have hperform := h.perform request world (hundisturbed _ (List.mem_cons_self ..))
    rw [after_cons, List.any_cons, ← Bool.or_assoc]
    apply ih hperform
    intro observation hmem
    exact hundisturbed observation (List.mem_cons_of_mem _ hmem)

omit [LawfulItem ι] [LawfulBEq χ] in
/-- A solver that has the grid of another one, or that grid closed, and does not differ from it in
anything else, searches as the other one does. -/
theorem Restored.searchWith_eq (h : Restored fresh solver searched) (callbacks : Callbacks σ ο ε τ)
    (preSelected : List ο) (world : σ) :
    solver.searchWith callbacks preSelected world =
      { (fresh.addOptions solver.options).2 with trace := solver.trace }.searchWith callbacks
        preSelected world := by
  obtain ⟨grid, hadded, hcarries, -, hgrid⟩ := h.exists_grid
  have hready : Ready { solver with grid := grid } := ⟨h.phase, hcarries⟩
  have hclosed := hready.searchWith_closed callbacks preSelected world
  rw [hadded]
  cases searched with
  | true =>
    rw [if_pos rfl] at hgrid
    have hsame : Solver.closed { solver with grid := grid } = solver := by
      show { solver with grid := Grid.close grid } = solver
      rw [← hgrid]
    rw [hsame] at hclosed
    exact hclosed
  | false =>
    rw [if_neg Bool.false_ne_true] at hgrid
    rw [← hgrid]

omit [LawfulGrid γ] [LawfulItem ι] [LawfulBEq χ] in
/-- The solver has the grid of the fresh one with the same options, closed if there was a search,
and searches as that one does. -/
structure LikeNew (fresh solver : Solver γ ο ι σ τ) (searched : Bool) : Prop where
  added : (fresh.addOptions solver.options).1 = .ok ()
  grid : solver.grid = if searched then Grid.close (fresh.addOptions solver.options).2.grid
    else (fresh.addOptions solver.options).2.grid
  searchWith_eq : ∀ (ε : Type) (callbacks : Callbacks σ ο ε τ) (preSelected : List ο) (world : σ),
    solver.searchWith callbacks preSelected world =
      { (fresh.addOptions solver.options).2 with trace := solver.trace }.searchWith callbacks
        preSelected world

omit [LawfulItem ι] [LawfulBEq χ] in
theorem Restored.likeNew (h : Restored fresh solver searched) : LikeNew fresh solver searched := by
  obtain ⟨grid, hadded, -, -, hgrid⟩ := h.exists_grid
  constructor
  · rw [hadded]
  · rw [hadded]
    exact hgrid
  · intro ε callbacks preSelected world
    exact h.searchWith_eq callbacks preSelected world

section Kinds

omit [Grid γ ι χ] [LawfulGrid γ] in
/-- Whatever was done with an open or a sealed solver, as long as no foreign code failed or threw,
it is like a new one with the same options. -/
theorem likeNew_after (items : ο → List ι) (requests : List (Request ο σ τ)) (world : σ) :
    ((∀ observation ∈ (woven items).transcript world requests, observation.isUndisturbed) →
      LikeNew (woven items) ((woven items).after world requests) (requests.any (·.searches))) ∧
    ((∀ observation ∈ (packed items).transcript world requests, observation.isUndisturbed) →
      LikeNew (packed items) ((packed items).after world requests)
        (requests.any (·.searches))) := by
  constructor
  · intro hundisturbed
    exact ((restored_onGrid items).after hundisturbed).likeNew
  · intro hundisturbed
    exact ((restored_onGrid items).after hundisturbed).likeNew

/-- A refused option, a cancelled search, an option that a sealed solver refuses, and a search to
the end. -/
theorem likeNew_after_of_colored :
    let requests : List (Request (List (Constraint Nat Nat)) Unit Empty) :=
      [.addOption [.primary 0, .secondary 1 (some 7)], .addOption [.primary 2, .primary 2],
        .addOption [.primary 2, .secondary 1 (some 8)],
        .searchWith Empty ⟨fun _ => pure (.ok ()), pure true⟩ [[.primary 2]],
        .addOption [.primary 2, .secondary 1 (some 7)], .allSolutions]
    (∀ observation ∈ (woven id).transcript () requests, observation.isUndisturbed) ∧
      LikeNew (woven id) ((woven id).after () requests) (requests.any (·.searches)) ∧
      (∀ observation ∈ (packed id).transcript () requests, observation.isUndisturbed) ∧
      LikeNew (packed id) ((packed id).after () requests) (requests.any (·.searches)) := by
  intro requests
  have hwoven : ∀ observation ∈ (woven id).transcript () requests, observation.isUndisturbed := by
    decide +kernel
  have hpacked : ∀ observation ∈ (packed id).transcript () requests, observation.isUndisturbed := by
    decide +kernel
  exact ⟨hwoven, (likeNew_after id requests ()).1 hwoven, hpacked,
    (likeNew_after id requests ()).2 hpacked⟩

end Kinds

end Solver

end ExactCover
