import ExactCover.Proofs.Twins

/-!
# Searches without faults

Each step on a mesh is safe only in a certain order of steps: a count is decremented only if the
column still has the row, the colors of a column are restored only if it was purified, a walk along
a row meets cells only. No function of the search checks this order. It holds because the search
takes a row or a column out once at most, and undoes the latest step first. So whatever a solver is
asked to do, and whatever the callbacks answer, no step of a search has a fault, every walk ends,
and the grid is consistent at the end (`fault?_of_mem_transcript`).
-/

set_option autoImplicit false

namespace ExactCover

variable {γ ο ι χ σ ε τ α : Type}

/-- The fault that a search stopped with. -/
def fault? : Except (Halt ε τ) α → Option Fault
  | .error (.impossible fault) => some fault
  | _ => none

theorem fault?_map {β : Type} (answer : Except (Halt ε τ) α) (f : α → β) :
    fault? (answer.map f) = fault? answer := by
  cases answer with
  | ok a => rfl
  | error halt => cases halt <;> rfl

/-- The fault that a call stopped with. Adding options to a grid walks along nothing. -/
def Request.fault? : (request : Request ο σ τ) → request.Answer → Option Fault
  | .searchWith _ _ _, answer => ExactCover.fault? answer
  | .search _ _, answer => ExactCover.fault? answer
  | .allSolutions, answer => ExactCover.fault? answer
  | .addOption _, _ => none
  | .addOptions _, _ => none
  | .setTrace _, _ => none
  | .clearTrace, _ => none

/-- The fault that the call stopped with. -/
def Observation.fault? (observation : Observation ο σ τ) : Option Fault :=
  observation.request.fault? observation.answer

namespace Solver

variable [BEq ι] [BEq χ] [Item ι χ] [Describe ι]

/-- The search on lists has no faults. -/
theorem fault?_outcome (solver : Solver γ ο ι σ τ) (callbacks : Callbacks σ ο ε τ)
    (preSelected : List ο) (world : σ) :
    fault? (solver.outcome callbacks preSelected world).1 = none := by
  rw [outcome]
  cases solver.phase.ensureClean with
  | error error => rfl
  | ok _ =>
    cases (solver.problem preSelected).missing? with
    | some item => rfl
    | none =>
      have hpossible := (solver.searchFor callbacks).plain_possible (solver.problem preSelected)
        preSelected world
      cases hplain : ((solver.searchFor callbacks).plain (solver.problem preSelected)
        preSelected).run.run world with
      | mk result world' =>
        rw [hplain] at hpossible
        cases result with
        | ok _ => rfl
        | error stop =>
          cases stop with
          | failed error => rfl
          | thrown value => rfl
          | impossible fault => exact absurd rfl (hpossible fault)

variable [Grid γ ι χ] [LawfulGrid γ] {solver : Solver γ ο ι σ τ}

section Calls

variable [LawfulItem ι] [EquivBEq χ]

theorem Kept.fault?_searchWith (h : solver.Kept) (callbacks : Callbacks σ ο ε τ)
    (preSelected : List ο) (world : σ) :
    fault? (solver.searchWith callbacks preSelected world).1 = none := by
  obtain ⟨grid, hsearch, -, -⟩ := h.exists_searchWith_eq callbacks preSelected world
  rw [hsearch]
  exact solver.fault?_outcome callbacks preSelected world

/-- No call has a fault. -/
theorem Kept.fault?_perform (h : solver.Kept) (request : Request ο σ τ) (world : σ) :
    request.fault? (solver.perform world request).1 = none := by
  cases request with
  | searchWith ε callbacks preSelected => exact h.fault?_searchWith callbacks preSelected world
  | search ε solution => exact h.fault?_searchWith ⟨solution, pure false⟩ [] world
  | allSolutions =>
    have hrecording : (solver.recording : Solver γ ο ι (σ × List (List ο)) τ).Kept := h
    have hsearch := hrecording.fault?_searchWith collecting [] (world, [])
    rw [← fault?_map] at hsearch
    exact hsearch
  | addOption option => rfl
  | addOptions options => rfl
  | setTrace trace => rfl
  | clearTrace => rfl

/-- No call of any sequence has a fault. -/
theorem Kept.fault?_transcript (h : solver.Kept) (requests : List (Request ο σ τ)) (world : σ) :
    ∀ observation ∈ solver.transcript world requests, observation.fault? = none := by
  induction requests generalizing solver world with
  | nil =>
    intro observation hmem
    cases hmem
  | cons request rest ih =>
    intro observation hmem
    rw [transcript_cons] at hmem
    rcases List.mem_cons.mp hmem with rfl | hmem
    · exact h.fault?_perform request world
    · exact ih (h.perform request world) _ observation hmem

end Calls

section Kinds

omit [Grid γ ι χ] [LawfulGrid γ]

variable [LawfulItem ι] [EquivBEq χ]

/-- Whatever an open or a sealed solver is asked to do, and whatever the callbacks and the observer
do meanwhile, no step of a search has a fault. -/
theorem fault?_of_mem_transcript (items : ο → List ι) (requests : List (Request ο σ τ))
    (world : σ) :
    (∀ observation ∈ (woven items).transcript world requests, observation.fault? = none) ∧
      ∀ observation ∈ (packed items).transcript world requests, observation.fault? = none := by
  have hwoven : (woven items : Solver (Woven ι χ) ο ι σ τ).Kept := kept_onGrid items
  have hpacked : (packed items : Solver (Packed ι χ) ο ι σ τ).Kept := kept_onGrid items
  exact ⟨hwoven.fault?_transcript requests world, hpacked.fault?_transcript requests world⟩

/-- Colored items that are shared across levels of the search, searched with a pre-selected option
and then without one. -/
theorem fault?_of_mem_transcript_of_colored :
    let requests : List (Request (List (Constraint Nat Nat)) Unit Empty) :=
      [.addOptions [[.primary 0, .secondary 1 (some 7)], [.primary 2, .secondary 1 (some 7)],
          [.primary 2, .secondary 1 (some 8)], [.primary 0, .secondary 1 none]],
        .searchWith Empty ⟨fun _ => pure (.ok ()), pure false⟩ [[.secondary 1 (some 8)]],
        .allSolutions]
    (∀ observation ∈ (woven id).transcript () requests, observation.fault? = none) ∧
      ∀ observation ∈ (packed id).transcript () requests, observation.fault? = none :=
  fault?_of_mem_transcript id _ ()

end Kinds

end Solver

end ExactCover
