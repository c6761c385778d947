import ExactCover.Solver

/-!
# Sequences of calls

What can be done with a solver, as data. A `Request` is one call with all its arguments, which
include the code that is called back. A transcript lists what a caller learns from a sequence of
calls: the answer to each, how many and which options there are after it, whether the solver is
poisoned, and what has become of the caller's own world. As the callbacks act on that world in any
way whatsoever, two solvers with the same transcripts call them in the same order with the same
arguments.
-/

set_option autoImplicit false

namespace ExactCover

variable {γ ο ι χ σ τ : Type}

/-- A call to a solver with options from `ο`. The callbacks of a search fail with values of a type
of its own. -/
inductive Request (ο σ τ : Type) : Type 1 where
  /-- Adds an option. -/
  | addOption (option : ο)
  /-- Adds options up to the first that is refused. -/
  | addOptions (options : List ο)
  /-- Searches with callbacks and some options pre-selected. -/
  | searchWith (ε : Type) (callbacks : Callbacks σ ο ε τ) (preSelected : List ο)
  /-- Searches with a callback for solutions. -/
  | search (ε : Type) (solution : List ο → Call σ τ (Except ε Unit))
  /-- Asks for the list of all solutions. -/
  | allSolutions
  /-- Has later searches observed. -/
  | setTrace (trace : Trace σ τ)
  /-- Has later searches go unobserved. -/
  | clearTrace

namespace Request

/-- What a call answers. -/
def Answer : Request ο σ τ → Type
  | .addOption _ => Except (Error Empty) Unit
  | .addOptions _ => Except (Error Empty) Unit
  | .searchWith ε _ _ => Except (Halt ε τ) Unit
  | .search ε _ => Except (Halt ε τ) Unit
  | .allSolutions => Except (Halt Empty τ) (List (List ο))
  | .setTrace _ => Unit
  | .clearTrace => Unit

/-- Whether the call adds options. -/
def adds : Request ο σ τ → Bool
  | .addOption _ => true
  | .addOptions _ => true
  | _ => false

/-- Whether the call starts a search. -/
def searches : Request ο σ τ → Bool
  | .searchWith _ _ _ => true
  | .search _ _ => true
  | .allSolutions => true
  | _ => false

end Request

/-- Whether a search did not end because foreign code failed or threw. -/
def isUndisturbed {ε α : Type} : Except (Halt ε τ) α → Bool
  | .error (.failed (.callback _)) => false
  | .error (.thrown _) => false
  | _ => true

/-- Whether no foreign code failed or threw during a call that gave this answer. -/
def Request.isUndisturbed : (request : Request ο σ τ) → request.Answer → Bool
  | .searchWith _ _ _, answer => ExactCover.isUndisturbed answer
  | .search _ _, answer => ExactCover.isUndisturbed answer
  | .allSolutions, answer => ExactCover.isUndisturbed answer
  | .addOption _, _ => true
  | .addOptions _, _ => true
  | .setTrace _, _ => true
  | .clearTrace, _ => true

/-- What a caller learns from a call. -/
structure Observation (ο σ τ : Type) : Type 1 where
  /-- The call. -/
  request : Request ο σ τ
  /-- What it answered. -/
  answer : request.Answer
  /-- The number of options after it. -/
  size : Nat
  /-- The options after it. -/
  options : List ο
  /-- Whether the solver is poisoned after it. -/
  isPoisoned : Bool
  /-- The world after it. -/
  world : σ

/-- Whether no foreign code failed or threw during the call. -/
def Observation.isUndisturbed (observation : Observation ο σ τ) : Bool :=
  observation.request.isUndisturbed observation.answer

namespace Solver

variable [BEq ι] [BEq χ] [Describe ι] [Grid γ ι χ]

/-- Makes a call. -/
def perform (solver : Solver γ ο ι σ τ) (world : σ) :
    (request : Request ο σ τ) → request.Answer × Solver γ ο ι σ τ × σ
  | .addOption option =>
    match solver.addOption option with
    | .ok extended => (.ok (), extended, world)
    | .error error => (.error error, solver, world)
  | .addOptions options =>
    ((solver.addOptions options).1, (solver.addOptions options).2, world)
  | .searchWith _ callbacks preSelected => solver.searchWith callbacks preSelected world
  | .search _ solution => solver.search solution world
  | .allSolutions => solver.allSolutions world
  | .setTrace trace => ((), solver.setTrace trace, world)
  | .clearTrace => ((), solver.clearTrace, world)

/-- What a caller learns from some calls. -/
def transcript (solver : Solver γ ο ι σ τ) (world : σ) :
    List (Request ο σ τ) → List (Observation ο σ τ)
  | [] => []
  | request :: rest =>
    let (answer, next, world) := solver.perform world request
    ⟨request, answer, next.size, next.options, next.isPoisoned, world⟩ :: next.transcript world rest

theorem transcript_cons (solver : Solver γ ο ι σ τ) (world : σ) (request : Request ο σ τ)
    (rest : List (Request ο σ τ)) :
    let called := solver.perform world request
    solver.transcript world (request :: rest) =
      ⟨request, called.1, called.2.1.size, called.2.1.options, called.2.1.isPoisoned, called.2.2⟩ ::
        called.2.1.transcript called.2.2 rest :=
  rfl

/-- The solver after some calls. -/
def after (solver : Solver γ ο ι σ τ) (world : σ) : List (Request ο σ τ) → Solver γ ο ι σ τ
  | [] => solver
  | request :: rest =>
    let (_, next, world) := solver.perform world request
    next.after world rest

theorem after_cons (solver : Solver γ ο ι σ τ) (world : σ) (request : Request ο σ τ)
    (rest : List (Request ο σ τ)) :
    solver.after world (request :: rest) =
      (solver.perform world request).2.1.after (solver.perform world request).2.2 rest :=
  rfl

end Solver

end ExactCover
