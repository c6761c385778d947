import ExactCover.Grid
import ExactCover.Packed
import ExactCover.Search
import ExactCover.Woven

/-!
# Solvers

A solver keeps the options of a problem and the grid that holds their rows, and searches the grid
as often as it is asked to. It is `clean` between two calls unless a callback failed or threw in
the middle of a search. Then the grid is partly taken apart and the solver is `poisoned`: it
refuses every further call before it looks at anything else.

Pre-selected options need not be options of the solver. All that counts is the items they list:
the columns of these items are covered before the search and uncovered after it, in the opposite
order.
-/

set_option autoImplicit false

namespace ExactCover

/-- What a solver is able to do. -/
inductive Phase where
  /-- Everything. -/
  | clean
  /-- Nothing, because a search is running. -/
  | searching
  /-- Nothing any more, because a search was interrupted. -/
  | poisoned
  deriving DecidableEq, Repr

namespace Phase

/-- Refuses a call that needs a clean solver. -/
def ensureClean : Phase → Except StateError Unit
  | .clean => .ok ()
  | .searching => .error .searching
  | .poisoned => .error .poisoned

instance : Describe Phase where
  describe
    | .clean => "Clean"
    | .searching => "Searching"
    | .poisoned => "Poisoned"

end Phase

/-- The ways in which a call for a search ends without success. -/
inductive Halt (ε τ : Type) where
  /-- The call was refused or the callback for solutions failed. -/
  | failed (error : Error ε)
  /-- A callback or the observer threw. -/
  | thrown (value : τ)
  /-- A step on the grid was impossible. -/
  | impossible (fault : Fault)
  deriving DecidableEq, Repr

/-- What a call for a search reports when the search stopped early. -/
def Halt.ofStop {ε τ : Type} : Stop ε τ → Halt ε τ
  | .failed error => .failed (.callback error)
  | .thrown value => .thrown value
  | .impossible fault => .impossible fault

/-- A problem with options from `ο` that list items from `ι`, on a grid of type `γ`. The observer
acts on a world in `σ` and throws values of `τ`. -/
structure Solver (γ ο ι σ τ : Type) where
  /-- The items that an option covers, in the order of its row. -/
  items : ο → List ι
  /-- The options, in the order in which they were added. -/
  options : List ο
  /-- The grid with the rows of the options. -/
  grid : γ
  /-- Whether the solver can be used. -/
  phase : Phase
  /-- The observer of the searches to come, if any. -/
  trace : Option (Trace σ τ)

namespace Solver

variable {γ ο ι χ σ τ ε : Type}

/-- A solver without options on a grid of any kind. -/
def onGrid [Grid γ ι χ] (items : ο → List ι) : Solver γ ο ι σ τ where
  items := items
  options := []
  grid := Grid.empty
  phase := .clean
  trace := none

/-- A solver that takes new options between searches. -/
def woven [BEq ι] [Item ι χ] (items : ο → List ι) : Solver (Woven ι χ) ο ι σ τ := onGrid items

/-- A solver that takes no new options after its first search. -/
def packed [BEq ι] [Item ι χ] (items : ο → List ι) : Solver (Packed ι χ) ο ι σ τ := onGrid items

/-- The number of options. -/
def size (solver : Solver γ ο ι σ τ) : Nat := solver.options.length

/-- Whether there are no options. -/
def isEmpty (solver : Solver γ ο ι σ τ) : Bool := solver.options.isEmpty

/-- Whether the solver takes no more options. -/
def isSealed [Grid γ ι χ] (solver : Solver γ ο ι σ τ) : Bool := Grid.isSealed solver.grid

/-- Whether an interrupted search left the solver unusable. -/
def isPoisoned (solver : Solver γ ο ι σ τ) : Bool := solver.phase == .poisoned

instance [Grid γ ι χ] : Describe (Solver γ ο ι σ τ) where
  describe solver :=
    "Solver \x7b options: " ++ describe solver.size ++ ", state: " ++ describe solver.phase
      ++ ", sealed: " ++ describe solver.isSealed ++ ", traced: "
      ++ describe solver.trace.isSome ++ " \x7d"

/-- Has searches observed, in place of any earlier observer. -/
def setTrace (solver : Solver γ ο ι σ τ) (trace : Trace σ τ) : Solver γ ο ι σ τ :=
  { solver with trace := some trace }

/-- Has searches go unobserved. -/
def clearTrace (solver : Solver γ ο ι σ τ) : Solver γ ο ι σ τ := { solver with trace := none }

/-- Adds an option, unless its items repeat. -/
def addOption [BEq ι] [Describe ι] [Grid γ ι χ] (solver : Solver γ ο ι σ τ) (option : ο) :
    Except (Error Empty) (Solver γ ο ι σ τ) :=
  match solver.phase.ensureClean with
  | .error error => .error (.state error)
  | .ok () =>
    if solver.isSealed then .error (.state .sealed)
    else
      match firstRepeat? (solver.items option) with
      | some item => .error (.duplicateItem solver.size (describe item))
      | none =>
        match Grid.addRow solver.grid solver.size (solver.items option) with
        | .error error => .error (.state error)
        | .ok grid => .ok { solver with grid := grid, options := solver.options ++ [option] }

/-- Adds options one after another up to the first that is refused. The options before it stay. -/
def addOptions [BEq ι] [Describe ι] [Grid γ ι χ] (solver : Solver γ ο ι σ τ) :
    List ο → Except (Error Empty) Unit × Solver γ ο ι σ τ
  | [] => (.ok (), solver)
  | option :: rest =>
    match solver.addOption option with
    | .ok extended => extended.addOptions rest
    | .error error => (.error error, solver)

/-- Ends a search that was not interrupted: the columns of the pre-selected options are uncovered,
and the grid has to be as it was before. -/
def restore [Grid γ ι χ] (grid : γ) (columns : List (Fin (Grid.board grid).size))
    (mesh : Mesh (Grid.board grid).size χ) : Except Fault γ := do
  let mesh ← mesh.uncoverAll columns
  let restored := Grid.withMesh grid mesh
  if ← Grid.isConsistent restored then .ok restored else .error .notRestored

/-- The solver after a search that stopped early with the grid in the given state. -/
def interrupted (solver : Solver γ ο ι σ τ) (grid : γ) : Solver γ ο ι σ τ :=
  { solver with grid := grid, phase := .poisoned }

/-- The solver after a search that ran to its end with the grid in the given state. -/
def finished (solver : Solver γ ο ι σ τ) (grid : γ) : Solver γ ο ι σ τ :=
  { solver with grid := grid, phase := .clean }

/-- Finds every solution that extends the pre-selected options. Every solution begins with them.
The result tells how the call ended and comes with the solver and the world after it. -/
def searchWith [BEq ι] [BEq χ] [Describe ι] [Grid γ ι χ] (solver : Solver γ ο ι σ τ)
    (callbacks : Callbacks σ ο ε τ) (preSelected : List ο) (world : σ) :
    Except (Halt ε τ) Unit × Solver γ ο ι σ τ × σ :=
  match solver.phase.ensureClean with
  | .error error => (.error (.failed (.state error)), solver, world)
  | .ok () =>
    let closed := { solver with grid := Grid.close solver.grid }
    let board := Grid.board closed.grid
    match board.columnsOf (preSelected.flatMap solver.items) with
    | .error item => (.error (.failed (.unknownItem (describe item))), closed, world)
    | .ok columns =>
      match board.mesh.coverAll columns with
      | .error fault => (.error (.impossible fault), closed, world)
      | .ok mesh =>
        let search : Search σ ο ε τ := ⟨solver.options, solver.trace.getD .silent, callbacks⟩
        let running := { closed with phase := .searching }
        match (search.run preSelected).run.run (mesh, world) with
        | (.error stop, mesh, world) =>
          (.error (.ofStop stop), running.interrupted (Grid.withMesh closed.grid mesh), world)
        | (.ok (), mesh, world) =>
          match restore closed.grid columns mesh with
          | .error fault =>
            (.error (.impossible fault), running.interrupted (Grid.withMesh closed.grid mesh),
              world)
          | .ok grid => (.ok (), running.finished grid, world)

/-- Finds every solution. -/
def search [BEq ι] [BEq χ] [Describe ι] [Grid γ ι χ] (solver : Solver γ ο ι σ τ)
    (solution : List ο → Call σ τ (Except ε Unit)) (world : σ) :
    Except (Halt ε τ) Unit × Solver γ ο ι σ τ × σ :=
  solver.searchWith ⟨solution, pure false⟩ [] world

/-- The list of all solutions, in the order in which the search finds them. -/
def allSolutions [BEq ι] [BEq χ] [Describe ι] [Grid γ ι χ] (solver : Solver γ ο ι σ τ)
    (world : σ) : Except (Halt Empty τ) (List (List ο)) × Solver γ ο ι σ τ × σ :=
  let collecting : Solver γ ο ι (σ × List (List ο)) τ :=
    { solver with trace := solver.trace.map (·.widen _) }
  let collect (chosen : List ο) : Call (σ × List (List ο)) τ (Except Empty Unit) := do
    modify fun (world, found) => (world, chosen :: found)
    pure (.ok ())
  let (result, searched, world, found) := collecting.search collect (world, [])
  (result.map fun _ => found.reverse, { searched with trace := solver.trace }, world)

end Solver

end ExactCover
