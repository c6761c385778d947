import ExactCover.Proofs.Exchanges
import ExactCover.Proofs.Twins

/-!
# The life of a solver

Between two calls a solver is clean or poisoned. It is poisoned exactly if foreign code has failed
or thrown during one of its searches (`Kept.isPoisoned_after`), and the answer of a call says so
exactly if the call has poisoned the solver because a callback failed (`Kept.poisons_iff`). A
poisoned solver turns every later call away before it looks at the call (`turnsAway_of_poisoned`),
so it stays as it is. A sealed solver stays sealed and keeps the options that it has
(`Kept.perform_of_sealed`).

These are properties of single calls. `Lifecycle` puts together what follows from them for a solver
with any history and any future.
-/

set_option autoImplicit false

namespace ExactCover

variable {γ ο ι χ σ ε τ α : Type}

/-- A call without callbacks cannot poison a solver. -/
theorem Error.isPoisoning_eq_false (error : Error Empty) : error.isPoisoning = false := by
  cases error with
  | callback value => nomatch value
  | _ => rfl

@[simp]
theorem Error.isPoisoning_widen (error : Error Empty) :
    (error.widen : Error ε).isPoisoning = false := by
  cases error with
  | callback value => nomatch value
  | _ => rfl

/-- Whether a search ended with an error that is said to poison the solver. -/
def isPoisoning : Except (Halt ε τ) α → Bool
  | .error (.failed error) => error.isPoisoning
  | _ => false

theorem isPoisoning_map {β : Type} (answer : Except (Halt ε τ) α) (f : α → β) :
    isPoisoning (answer.map f) = isPoisoning answer := by
  cases answer with
  | ok a => rfl
  | error halt => cases halt <;> rfl

namespace Request

/-- The ways in which the callbacks of a call can fail. -/
def Failure : Request ο σ τ → Type
  | .searchWith ε _ _ => ε
  | .search ε _ => ε
  | _ => Empty

/-- Whether the call was answered with an error that is said to poison the solver. -/
def isPoisoning : (request : Request ο σ τ) → request.Answer → Bool
  | .addOption _, .error error => error.isPoisoning
  | .addOptions _, .error error => error.isPoisoning
  | .searchWith _ _ _, answer => ExactCover.isPoisoning answer
  | .search _ _, answer => ExactCover.isPoisoning answer
  | .allSolutions, answer => ExactCover.isPoisoning answer
  | _, _ => false

/-- The answer to a call that is turned away. There is nothing to turn away where no option is
added, and a change of the observer is always possible. -/
def refusal (reason : StateError) : (request : Request ο σ τ) → request.Answer
  | .addOption _ => .error (.state reason)
  | .addOptions [] => .ok ()
  | .addOptions (_ :: _) => .error (.state reason)
  | .searchWith _ _ _ => .error (.failed (.state reason))
  | .search _ _ => .error (.failed (.state reason))
  | .allSolutions => .error (.failed (.state reason))
  | .setTrace _ => ()
  | .clearTrace => ()

/-- A call that only adds options is never said to poison the solver. -/
theorem isPoisoning_of_adds {request : Request ο σ τ} (h : request.adds)
    (answer : request.Answer) : request.isPoisoning answer = false := by
  cases request with
  | addOption option =>
    cases answer with
    | ok _ => rfl
    | error error => exact error.isPoisoning_eq_false
  | addOptions options =>
    cases answer with
    | ok _ => rfl
    | error error => exact error.isPoisoning_eq_false
  | _ => contradiction

end Request

namespace Solver

variable [BEq ι] [BEq χ] [Describe ι] [Grid γ ι χ]

/-- All that a call exchanges with foreign code. -/
def exchangesOf (solver : Solver γ ο ι σ τ) (world : σ) :
    (request : Request ο σ τ) → List (Exchange ο request.Failure τ)
  | .searchWith _ callbacks preSelected => solver.exchanges callbacks preSelected world
  | .search _ solution => solver.exchanges ⟨solution, pure false⟩ [] world
  | .allSolutions => solver.recording.exchanges collecting [] (world, [])
  | .addOption _ => []
  | .addOptions _ => []
  | .setTrace _ => []
  | .clearTrace => []

/-- Whether foreign code fails or throws during some calls. -/
def isDisturbed (solver : Solver γ ο ι σ τ) (world : σ) : List (Request ο σ τ) → Bool
  | [] => false
  | request :: rest =>
    let (_, next, world') := solver.perform world request
    (solver.exchangesOf world request).any (·.stop?.isSome) || next.isDisturbed world' rest

theorem isDisturbed_cons (solver : Solver γ ο ι σ τ) (world : σ) (request : Request ο σ τ)
    (rest : List (Request ο σ τ)) :
    solver.isDisturbed world (request :: rest) =
      ((solver.exchangesOf world request).any (·.stop?.isSome) ||
        (solver.perform world request).2.1.isDisturbed (solver.perform world request).2.2 rest) :=
  rfl

variable {solver : Solver γ ο ι σ τ}

/-- The call is answered with a reason for turning it away. No foreign code is called, and nothing
becomes of the solver unless the call exchanges the observer. -/
structure TurnsAway (solver : Solver γ ο ι σ τ) (reason : StateError) (request : Request ο σ τ)
    (world : σ) : Prop where
  exchanges : solver.exchangesOf world request = []
  exists_trace : ∃ trace, solver.perform world request =
    (request.refusal reason, { solver with trace := trace }, world)

omit [BEq χ] in
theorem addOption_of_poisoned (h : solver.phase = .poisoned) (option : ο) :
    solver.addOption option = .error (.state .poisoned) := by
  rw [addOption, h]
  rfl

theorem searchWith_of_poisoned (h : solver.phase = .poisoned) (callbacks : Callbacks σ ο ε τ)
    (preSelected : List ο) (world : σ) :
    solver.searchWith callbacks preSelected world =
      (.error (.failed (.state .poisoned)), solver, world) := by
  rw [searchWith, h]
  rfl

theorem exchanges_of_poisoned (h : solver.phase = .poisoned) (callbacks : Callbacks σ ο ε τ)
    (preSelected : List ο) (world : σ) : solver.exchanges callbacks preSelected world = [] := by
  have hnoted : (solver.noted (id : Exchange ο ε τ → _)).phase = .poisoned := h
  rw [exchanges, searchWith_of_poisoned hnoted]

/-- A poisoned solver turns every call away. -/
theorem turnsAway_of_poisoned (h : solver.phase = .poisoned) (request : Request ο σ τ)
    (world : σ) : TurnsAway solver .poisoned request world := by
  have hrecording : (solver.recording : Solver γ ο ι (σ × List (List ο)) τ).phase = .poisoned := h
  cases request with
  | addOption option =>
    refine ⟨rfl, solver.trace, ?_⟩
    rw [perform, addOption_of_poisoned h]
    rfl
  | addOptions options =>
    refine ⟨rfl, solver.trace, ?_⟩
    cases options with
    | nil => rfl
    | cons option rest =>
      rw [perform, addOptions_cons_of_error (addOption_of_poisoned h option)]
      rfl
  | searchWith ε callbacks preSelected =>
    exact ⟨exchanges_of_poisoned h callbacks preSelected world, solver.trace,
      searchWith_of_poisoned h callbacks preSelected world⟩
  | search ε solution =>
    exact ⟨exchanges_of_poisoned h _ [] world, solver.trace, searchWith_of_poisoned h _ [] world⟩
  | allSolutions =>
    refine ⟨exchanges_of_poisoned hrecording collecting [] (world, []), solver.trace, ?_⟩
    rw [perform, allSolutions_eq, searchWith_of_poisoned hrecording]
    rfl
  | setTrace trace => exact ⟨rfl, some trace, rfl⟩
  | clearTrace => exact ⟨rfl, none, rfl⟩

/-- So nothing becomes of a poisoned solver any more, except that its observer is exchanged. -/
theorem exists_after_eq_of_poisoned (h : solver.phase = .poisoned)
    (requests : List (Request ο σ τ)) (world : σ) :
    ∃ trace, solver.after world requests = { solver with trace := trace } := by
  induction requests generalizing solver with
  | nil => exact ⟨solver.trace, rfl⟩
  | cons request rest ih =>
    obtain ⟨-, trace, hperform⟩ := turnsAway_of_poisoned h request world
    rw [after_cons, hperform]
    obtain ⟨trace', hafter⟩ := @ih { solver with trace := trace } h
    exact ⟨trace', hafter⟩

section Lawful

variable [Item ι χ] [LawfulGrid γ] [LawfulItem ι] [EquivBEq χ]

/-- A search poisons the solver exactly if one of its calls into foreign code fails. -/
theorem Kept.phase_searchWith (h : solver.Kept) (callbacks : Callbacks σ ο ε τ)
    (preSelected : List ο) (world : σ) :
    (solver.searchWith callbacks preSelected world).2.1.phase =
      if (solver.exchanges callbacks preSelected world).any (·.stop?.isSome) then .poisoned
      else solver.phase := by
  rcases h.searchWith_cases callbacks preSelected world with
    ⟨error, grid, hexchanges, hsearch⟩ | ⟨grid, -, -, hsearch⟩
  · rw [hsearch, hexchanges]
    rfl
  · rw [hsearch]

/-- A search answers that it has poisoned the solver exactly if a callback failed. -/
theorem Kept.isPoisoning_searchWith_iff (h : solver.Kept) (callbacks : Callbacks σ ο ε τ)
    (preSelected : List ο) (world : σ) :
    isPoisoning (solver.searchWith callbacks preSelected world).1 ↔
      ∃ exchange ∈ solver.exchanges callbacks preSelected world, ∃ error,
        exchange.stop? = some (.failed error) := by
  rcases h.searchWith_cases callbacks preSelected world with
    ⟨error, grid, hexchanges, hsearch⟩ | ⟨grid, -, hexchanges, hsearch⟩
  · rw [hsearch, hexchanges]
    simp [isPoisoning]
  · have hanswer : ∀ result : Except (Stop ε τ) Unit,
        isPoisoning (result.mapError Halt.ofStop) ↔ ∃ error, result = .error (.failed error) := by
      rintro ((error | value | fault) | ⟨⟩) <;>
        simp [Except.mapError, Halt.ofStop, isPoisoning, Error.isPoisoning]
    rw [hsearch, hexchanges, hanswer]
    constructor
    · rintro ⟨error, hresult⟩
      obtain ⟨exchange, hmem, hstop⟩ := Script.exists_mem_play_iff.mpr hresult
      exact ⟨exchange, hmem, error, hstop⟩
    · rintro ⟨exchange, hmem, error, hstop⟩
      exact ⟨error, Script.exists_mem_play_iff.mp ⟨exchange, hmem, hstop⟩⟩

/-- A call poisons the solver exactly if one of its calls into foreign code fails. -/
theorem Kept.phase_perform_eq (h : solver.Kept) (request : Request ο σ τ) (world : σ) :
    (solver.perform world request).2.1.phase =
      if (solver.exchangesOf world request).any (·.stop?.isSome) then .poisoned
      else solver.phase := by
  have hrecording : (solver.recording : Solver γ ο ι (σ × List (List ο)) τ).Kept := h
  cases request with
  | searchWith ε callbacks preSelected => exact h.phase_searchWith callbacks preSelected world
  | search ε solution => exact h.phase_searchWith ⟨solution, pure false⟩ [] world
  | allSolutions => exact hrecording.phase_searchWith collecting [] (world, [])
  | _ => exact phase_perform rfl world

/-- A call answers that it has poisoned the solver exactly if a callback failed. -/
theorem Kept.isPoisoning_perform_iff (h : solver.Kept) (request : Request ο σ τ) (world : σ) :
    request.isPoisoning (solver.perform world request).1 ↔
      ∃ exchange ∈ solver.exchangesOf world request, ∃ error,
        exchange.stop? = some (.failed error) := by
  have hrecording : (solver.recording : Solver γ ο ι (σ × List (List ο)) τ).Kept := h
  cases request with
  | addOption option =>
    rw [Request.isPoisoning_of_adds rfl]
    simp [exchangesOf]
  | addOptions options =>
    rw [Request.isPoisoning_of_adds rfl]
    simp [exchangesOf]
  | searchWith ε callbacks preSelected =>
    exact h.isPoisoning_searchWith_iff callbacks preSelected world
  | search ε solution => exact h.isPoisoning_searchWith_iff ⟨solution, pure false⟩ [] world
  | allSolutions =>
    have hanswer := hrecording.isPoisoning_searchWith_iff collecting [] (world, [])
    rw [← isPoisoning_map] at hanswer
    exact hanswer
  | setTrace trace => simp [exchangesOf, Request.isPoisoning]
  | clearTrace => simp [exchangesOf, Request.isPoisoning]

theorem Kept.isPoisoned_perform (h : solver.Kept) (request : Request ο σ τ) (world : σ) :
    (solver.perform world request).2.1.isPoisoned =
      (solver.isPoisoned || (solver.exchangesOf world request).any (·.stop?.isSome)) := by
  rw [isPoisoned, h.phase_perform_eq]
  split
  · next hstop =>
    rw [hstop, Bool.or_true]
    rfl
  · next hstop =>
    rw [Bool.eq_false_of_not_eq_true hstop, Bool.or_false]
    rfl

/-- A solver is poisoned exactly if foreign code has failed or thrown. -/
theorem Kept.isPoisoned_after (h : solver.Kept) (requests : List (Request ο σ τ)) (world : σ) :
    (solver.after world requests).isPoisoned =
      (solver.isPoisoned || solver.isDisturbed world requests) := by
  induction requests generalizing solver world with
  | nil => exact (Bool.or_false _).symm
  | cons request rest ih =>
    rw [after_cons, ih (h.perform request world), h.isPoisoned_perform, isDisturbed_cons,
      Bool.or_assoc]

/-- No call leaves a solver in the middle of a search. -/
theorem Kept.phase_perform_ne (h : solver.Kept) (hidle : solver.phase ≠ .searching)
    (request : Request ο σ τ) (world : σ) :
    (solver.perform world request).2.1.phase ≠ .searching := by
  rw [h.phase_perform_eq]
  split
  · exact nofun
  · exact hidle

theorem Kept.phase_after_ne (h : solver.Kept) (hidle : solver.phase ≠ .searching)
    (requests : List (Request ο σ τ)) (world : σ) :
    (solver.after world requests).phase ≠ .searching := by
  induction requests generalizing solver world with
  | nil => exact hidle
  | cons request rest ih => exact ih (h.perform request world) (h.phase_perform_ne hidle _ _) _

/-- A call can poison a solver that is clean, but no other one. -/
theorem Kept.poisons_iff (h : solver.Kept) (request : Request ο σ τ) (world : σ) :
    request.isPoisoning (solver.perform world request).1 ↔
      solver.isPoisoned = false ∧ (solver.perform world request).2.1.isPoisoned ∧
        ∃ exchange ∈ solver.exchangesOf world request, ∃ error,
          exchange.stop? = some (.failed error) := by
  rw [h.isPoisoning_perform_iff]
  constructor
  · rintro ⟨exchange, hmem, error, hstop⟩
    refine ⟨?_, ?_, exchange, hmem, error, hstop⟩
    · -- A poisoned solver would not have called any foreign code.
      rw [← Bool.not_eq_true]
      intro hpoisoned
      have hnone := (turnsAway_of_poisoned (beq_iff_eq.mp hpoisoned) request world).exchanges
      rw [hnone] at hmem
      contradiction
    · have hany : (solver.exchangesOf world request).any (·.stop?.isSome) :=
        List.any_eq_true.mpr ⟨exchange, hmem, by rw [hstop]; rfl⟩
      rw [h.isPoisoned_perform, hany, Bool.or_true]
  · exact fun hfailed => hfailed.2.2

/-! ## Sealed solvers -/

omit [LawfulItem ι] [EquivBEq χ] [LawfulGrid γ] [Item ι χ] [BEq χ] in
/-- A sealed solver takes no option, and if it is clean it says so. -/
theorem exists_addOption_of_sealed (hsealed : solver.isSealed) (option : ο) :
    ∃ error, solver.addOption option = .error error ∧
      (solver.phase = .clean → error = .state .sealed) := by
  rw [addOption]
  cases hensure : solver.phase.ensureClean with
  | error error =>
    refine ⟨.state error, rfl, fun hclean => ?_⟩
    rw [hclean] at hensure
    contradiction
  | ok _ => exact ⟨.state .sealed, by simp only [hsealed, if_true], fun _ => rfl⟩

omit [LawfulItem ι] [EquivBEq χ] [Describe ι] in
theorem isSealed_closed (hsealed : solver.isSealed) : solver.closed.isSealed := by
  rcases LawfulGrid.closes (γ := γ) with hsame | hseals
  · show Grid.isSealed (Grid.close solver.grid)
    rw [hsame]
    exact hsealed
  · exact hseals solver.grid

/-- A search does not open a sealed solver. -/
theorem Kept.searchWith_of_sealed (h : solver.Kept) (hsealed : solver.isSealed)
    (callbacks : Callbacks σ ο ε τ) (preSelected : List ο) (world : σ) :
    (solver.searchWith callbacks preSelected world).2.1.isSealed ∧
      (solver.searchWith callbacks preSelected world).2.1.options = solver.options := by
  obtain ⟨grid, hsearch, -, hgrid⟩ := h.exists_searchWith_eq callbacks preSelected world
  rw [hsearch]
  refine ⟨?_, rfl⟩
  show Grid.isSealed grid
  rw [hgrid]
  split
  · exact isSealed_closed hsealed
  · exact hsealed

/-- A sealed solver stays sealed and keeps its options. -/
theorem Kept.perform_of_sealed (h : solver.Kept) (hsealed : solver.isSealed)
    (request : Request ο σ τ) (world : σ) :
    (solver.perform world request).2.1.isSealed ∧
      (solver.perform world request).2.1.options = solver.options := by
  have hrecording : (solver.recording : Solver γ ο ι (σ × List (List ο)) τ).Kept := h
  cases request with
  | addOption option =>
    obtain ⟨error, hadd, -⟩ := exists_addOption_of_sealed hsealed option
    rw [Solver.perform, hadd]
    exact ⟨hsealed, rfl⟩
  | addOptions options =>
    cases options with
    | nil => exact ⟨hsealed, rfl⟩
    | cons option rest =>
      obtain ⟨error, hadd, -⟩ := exists_addOption_of_sealed hsealed option
      rw [Solver.perform, addOptions_cons_of_error hadd]
      exact ⟨hsealed, rfl⟩
  | searchWith ε callbacks preSelected =>
    exact h.searchWith_of_sealed hsealed callbacks preSelected world
  | search ε solution => exact h.searchWith_of_sealed hsealed ⟨solution, pure false⟩ [] world
  | allSolutions => exact hrecording.searchWith_of_sealed hsealed collecting [] (world, [])
  | setTrace trace => exact ⟨hsealed, rfl⟩
  | clearTrace => exact ⟨hsealed, rfl⟩

theorem Kept.after_of_sealed (h : solver.Kept) (hsealed : solver.isSealed)
    (requests : List (Request ο σ τ)) (world : σ) :
    (solver.after world requests).isSealed ∧
      (solver.after world requests).options = solver.options := by
  induction requests generalizing solver world with
  | nil => exact ⟨hsealed, rfl⟩
  | cons request rest ih =>
    obtain ⟨hsealed', hoptions⟩ := h.perform_of_sealed hsealed request world
    obtain ⟨hafter, hoptions'⟩ := ih (h.perform request world) hsealed' _
    exact ⟨hafter, hoptions'.trans hoptions⟩

omit [LawfulItem ι] [EquivBEq χ] [LawfulGrid γ] [Item ι χ] in
/-- What is to be relied on between two calls, whatever comes next. -/
structure Lifecycle (solver : Solver γ ο ι σ τ) : Prop where
  idle : solver.phase ≠ .searching
  /-- The answer to a call says that it has poisoned the solver exactly if it has done so because a
  callback failed. -/
  poisons_iff : ∀ (request : Request ο σ τ) (world : σ),
    request.isPoisoning (solver.perform world request).1 ↔
      solver.isPoisoned = false ∧ (solver.perform world request).2.1.isPoisoned ∧
        ∃ exchange ∈ solver.exchangesOf world request, ∃ error,
          exchange.stop? = some (.failed error)
  /-- A poisoned solver turns every call away, whatever items the options list. -/
  turnsAway : solver.isPoisoned → ∀ (items : ο → List ι) (request : Request ο σ τ) (world : σ),
    TurnsAway { solver with items := items } .poisoned request world
  staysPoisoned : solver.isPoisoned → ∀ (requests : List (Request ο σ τ)) (world : σ),
    ∃ trace, solver.after world requests = { solver with trace := trace }
  refuses : solver.isSealed → solver.phase = .clean → ∀ option,
    solver.addOption option = .error (.state .sealed)
  staysSealed : solver.isSealed → ∀ (requests : List (Request ο σ τ)) (world : σ),
    (solver.after world requests).isSealed ∧
      (solver.after world requests).options = solver.options

theorem Kept.lifecycle (h : solver.Kept) (hidle : solver.phase ≠ .searching) :
    Lifecycle solver where
  idle := hidle
  poisons_iff := h.poisons_iff
  turnsAway hpoisoned items request world := by
    have hphase : ({ solver with items := items } : Solver γ ο ι σ τ).phase = .poisoned :=
      beq_iff_eq.mp hpoisoned
    exact turnsAway_of_poisoned hphase request world
  staysPoisoned hpoisoned := exists_after_eq_of_poisoned (beq_iff_eq.mp hpoisoned)
  refuses hsealed hclean option := by
    obtain ⟨error, hadd, hreason⟩ := exists_addOption_of_sealed hsealed option
    rw [hadd, hreason hclean]
  staysSealed := h.after_of_sealed

end Lawful

section Kinds

variable [Item ι χ] [LawfulItem ι] [EquivBEq χ]

omit [Grid γ ι χ] in
/-- An open or a sealed solver with any history is poisoned exactly if foreign code has failed or
thrown, and lives on accordingly. -/
theorem lifecycle_after (items : ο → List ι) (requests : List (Request ο σ τ)) (world : σ) :
    ((woven items).after world requests).isPoisoned = (woven items).isDisturbed world requests ∧
      Lifecycle ((woven items).after world requests) ∧
      ((packed items).after world requests).isPoisoned =
        (packed items).isDisturbed world requests ∧
      Lifecycle ((packed items).after world requests) := by
  have hwoven : (woven items : Solver (Woven ι χ) ο ι σ τ).Kept := kept_onGrid items
  have hpacked : (packed items : Solver (Packed ι χ) ο ι σ τ).Kept := kept_onGrid items
  refine ⟨hwoven.isPoisoned_after requests world, ?_, hpacked.isPoisoned_after requests world, ?_⟩
  · exact (hwoven.after requests world).lifecycle (hwoven.phase_after_ne nofun requests world)
  · exact (hpacked.after requests world).lifecycle (hpacked.phase_after_ne nofun requests world)

/-- An option, a search to the end, another option, which only an open solver takes, and a search
whose observer throws. -/
theorem lifecycle_after_of_throwing :
    let throwing : Trace Unit String := { Trace.silent with ended := throw "enough" }
    let requests : List (Request Nat Unit String) :=
      [.addOption 1, .allSolutions, .addOption 2, .setTrace throwing,
        .search Empty fun _ => pure (.ok ())]
    let items : Nat → List (Constraint Nat Nat) := fun _ => [.primary 0]
    (woven items).isDisturbed () requests ∧
      ((woven items).after () requests).isPoisoned = (woven items).isDisturbed () requests ∧
      Lifecycle ((woven items).after () requests) ∧
      ((packed items).after () requests).isPoisoned = (packed items).isDisturbed () requests ∧
      Lifecycle ((packed items).after () requests) := by
  intro throwing requests items
  have hdisturbed : (woven items).isDisturbed () requests := by
    decide +kernel
  exact ⟨hdisturbed, lifecycle_after items requests ()⟩

end Kinds

end Solver

end ExactCover
