/-!
# Callbacks and observers

A search calls back into code it knows nothing about: it reports solutions, asks whether to go on,
and tells an observer about every step. All that such code can do is act on a *world* of its own
and either return or throw. A `Call` says just that, so the search can be stated for every caller
at once, and what the caller sees is what its world looks like afterwards.
-/

set_option autoImplicit false

namespace ExactCover

/-- A piece of foreign code: it acts on a world in `σ` and returns an `α` or throws a `τ`. What it
did to the world before throwing stays done. -/
abbrev Call (σ τ α : Type) : Type := ExceptT τ (StateM σ) α

/-- The same code in a world that has a further part, which it leaves alone. -/
def Call.widen {σ τ α : Type} (ρ : Type) (call : Call σ τ α) : Call (σ × ρ) τ α :=
  ExceptT.mk fun (world, rest) =>
    let (result, world) := call.run.run world
    pure (result, (world, rest))

/-- An observer of a search. Every part defaults to doing nothing. -/
structure Trace (σ τ : Type) where
  /-- Called once at the start of a search, after the pre-selected options have been applied. -/
  started : Call σ τ Unit := pure ()
  /-- Called when the search branches on a column with the given number of rows. -/
  entered (rows : Nat) : Call σ τ Unit := pure ()
  /-- Called before a row of the current column is tried. -/
  rowSelected : Call σ τ Unit := pure ()
  /-- Called when all rows of the current column have been tried. -/
  ended : Call σ τ Unit := pure ()

namespace Trace

variable {σ τ : Type}

/-- The observer that does nothing. -/
def silent : Trace σ τ := {}

/-- The same observer in a world that has a further part. -/
def widen (ρ : Type) (trace : Trace σ τ) : Trace (σ × ρ) τ where
  started := trace.started.widen ρ
  entered rows := (trace.entered rows).widen ρ
  rowSelected := trace.rowSelected.widen ρ
  ended := trace.ended.widen ρ

end Trace

end ExactCover
