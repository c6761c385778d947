import ExactCover.Least
import ExactCover.Mesh.Dance
import ExactCover.Mesh.View
import ExactCover.Trace

/-!
# The search

The search branches on an open column with the fewest rows, since some row of every such column
has to be chosen, and tries its rows in turn: a chosen row is committed, the rest of the problem
is searched in what remains of the mesh, and the row is given up again. When no column is left to
branch on, the rows chosen so far are a solution. The earliest of several columns with the fewest
rows is taken, so the order of the solutions is determined by the order in which the rows were
added.

Before each step the caller is asked whether to cancel. Cancelling does not abort the search: it
makes the current branch end as if it had no rows, so every step on the way back is still
reversed.

A search stops early only if a callback fails or throws, or if a step is impossible. The mesh then
stays as it is at that moment.
-/

set_option autoImplicit false

namespace ExactCover

/-- The column to branch on: one of the open columns that must be covered. -/
def Mesh.branchColumn? {n : Nat} {χ : Type} (m : Mesh n χ) : Except Fault (Option (Fin n)) := do
  let columns ← m.primaryColumns
  .ok (leastBy? m.count columns)

/-- What a caller wants to be called for during a search, besides the observer. -/
structure Callbacks (σ ο ε τ : Type) where
  /-- Receives a solution and may refuse to go on. -/
  solution (chosen : List ο) : Call σ τ (Except ε Unit)
  /-- Asked before each step whether to give up the current branch. -/
  cancel : Call σ τ Bool

/-- The ways in which a search stops before its end. -/
inductive Stop (ε τ : Type) where
  /-- The callback for solutions failed. -/
  | failed (error : ε)
  /-- A callback or the observer threw. -/
  | thrown (value : τ)
  /-- A step was impossible. -/
  | impossible (fault : Fault)
  deriving DecidableEq, Repr

/-- What a search is given: the options by number, the observer and the callbacks. -/
structure Search (σ ο ε τ : Type) where
  /-- The options, in the order in which their rows were added. -/
  options : List ο
  /-- The observer. -/
  trace : Trace σ τ
  /-- The callbacks. -/
  callbacks : Callbacks σ ο ε τ

/-- A part of a search: it works on a mesh and on the world of the caller. -/
abbrev SearchM (n : Nat) (χ σ ε τ α : Type) : Type := ExceptT (Stop ε τ) (StateM (Mesh n χ × σ)) α

namespace SearchM

variable {n : Nat} {χ σ ε τ α : Type}

/-- Runs foreign code. -/
def call (code : Call σ τ α) : SearchM n χ σ ε τ α :=
  ExceptT.mk fun (mesh, world) =>
    let (result, world) := code.run.run world
    pure (result.mapError .thrown, (mesh, world))

/-- Reads something off the mesh. -/
def look (read : Mesh n χ → Except Fault α) : SearchM n χ σ ε τ α :=
  ExceptT.mk fun (mesh, world) => pure ((read mesh).mapError .impossible, (mesh, world))

/-- Takes a step on the mesh. An impossible step leaves the mesh alone. -/
def step (move : Mesh n χ → Except Fault (Mesh n χ)) : SearchM n χ σ ε τ Unit :=
  ExceptT.mk fun (mesh, world) =>
    match move mesh with
    | .ok moved => pure (.ok (), (moved, world))
    | .error fault => pure (.error (.impossible fault), (mesh, world))

end SearchM

namespace Search

open SearchM

variable {n : Nat} {χ σ ο ε τ : Type}

/-- Tells the caller about a solution. -/
def report (search : Search σ ο ε τ) (chosen : List ο) : SearchM n χ σ ε τ Unit := do
  match ← call (search.callbacks.solution chosen) with
  | .ok () => pure ()
  | .error error => throw (.failed error)

/-- The option that a cell was added for. -/
def optionAt (search : Search σ ο ε τ) (p : Fin n) (m : Mesh n χ) : Except Fault ο :=
  match (m.option? p).bind fun k => search.options[k]? with
  | some option => .ok option
  | none => .error .outOfRange

/-- Makes an attempt with each cell from `p` down to the bottom of the column of `c`, at most as
many times as the given number says. -/
def tryRows (attempt : Fin n → SearchM n χ σ ε τ Unit) (c : Fin n) :
    Nat → Fin n → SearchM n χ σ ε τ Unit
  | 0, p => if p = c then pure () else throw (.impossible .endless)
  | fuel + 1, p =>
    if p = c then pure ()
    else do
      attempt p
      let q ← look fun m => .ok (m.below p)
      tryRows attempt c fuel q

/-- Finds all ways to extend a choice of options to a solution, with at most the given number of
further options. -/
def descend [BEq χ] (search : Search σ ο ε τ) : Nat → List ο → SearchM n χ σ ε τ Unit
  | 0, _ => throw (.impossible .endless)
  | depth + 1, chosen => do
    if ← call search.callbacks.cancel then
      pure ()
    else
      match ← look Mesh.branchColumn? with
      | none => search.report chosen
      | some c => do
        let rows ← look fun m => .ok (m.count c)
        call (search.trace.entered rows)
        step (Mesh.cover c)
        let top ← look fun m => .ok (m.below c)
        tryRows (fun p => do
          call search.trace.rowSelected
          step (Mesh.commitRow p)
          let option ← look (search.optionAt p)
          descend search depth (chosen ++ [option])
          step (Mesh.uncommitRow p)) c n top
        step (Mesh.uncover c)
        call search.trace.ended

/-- The number of options after which a search counts as endless. On a mesh in order every option
takes a column out of a ring of fewer than `n`, so no search on one comes near it. -/
def depthLimit (n : Nat) : Nat := (n + 1) * (n + 1)

/-- Finds all ways to extend the pre-selected options to a solution. -/
def run [BEq χ] (search : Search σ ο ε τ) (preSelected : List ο) : SearchM n χ σ ε τ Unit := do
  call search.trace.started
  search.descend (depthLimit n) preSelected

end Search

end ExactCover
