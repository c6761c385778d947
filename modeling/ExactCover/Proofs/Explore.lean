import ExactCover.Naive
import ExactCover.Search

/-!
# The search without its mesh

What a search does to the world of its caller can be stated without a mesh: `explore` asks the
search on lists which item to branch on and which rows to try, and calls the same callbacks in the
same places as the search on a mesh. `Follows` says that a part of a search on a mesh does to the
world what a part without a mesh does, and where the mesh stands afterwards. The rules for it are
those of the steps that parts of a search are composed of. Looking at the mesh and taking a step on
it have no counterpart on the other side.
-/

set_option autoImplicit false

namespace ExactCover

variable {n : Nat} {χ σ ο ε τ α β : Type}

/-- A part of a search that works on the world of the caller alone. -/
abbrev PlainM (σ ε τ α : Type) : Type := ExceptT (Stop ε τ) (StateM σ) α

/-- Runs foreign code. -/
def PlainM.call (code : Call σ τ α) : PlainM σ ε τ α :=
  ExceptT.mk fun world =>
    let (result, world) := code.run.run world
    pure (result.mapError .thrown, world)

theorem PlainM.run_call (code : Call σ τ α) (world : σ) :
    (PlainM.call code : PlainM σ ε τ α).run.run world =
      ((code.run.run world).1.mapError .thrown, (code.run.run world).2) :=
  rfl

namespace Search

/-- Tells the caller about a solution. -/
def announce (search : Search σ ο ε τ) (chosen : List ο) : PlainM σ ε τ Unit := do
  match ← PlainM.call (search.callbacks.solution chosen) with
  | .ok () => pure ()
  | .error error => throw (.failed error)

/-- The options with the given numbers. -/
def optionsOf (search : Search σ ο ε τ) (chosen : List Nat) : List ο :=
  chosen.filterMap fun k => search.options[k]?

variable {ι : Type} [BEq ι] [BEq χ] [Item ι χ]

/-- Does to the world of the caller what the search does that has chosen some rows, in addition to
the pre-selected options. -/
def explore (search : Search σ ο ε τ) (problem : Naive.Problem ι) (preSelected : List ο) :
    Nat → List Nat → PlainM σ ε τ Unit
  | 0, _ => throw (.impossible .endless)
  | depth + 1, chosen => do
    if ← PlainM.call search.callbacks.cancel then
      pure ()
    else
      match problem.branchItem? chosen with
      | none => search.announce (preSelected ++ search.optionsOf chosen)
      | some item => do
        let rows := problem.candidates chosen item
        PlainM.call (search.trace.entered rows.length)
        forM rows fun k => do
          PlainM.call search.trace.rowSelected
          explore search problem preSelected depth (chosen ++ [k])
        PlainM.call search.trace.ended

end Search

/-- From the given mesh, the first part does to the world what the second does, and where it ends
normally the mesh is as stated. -/
def Follows (post : Mesh n χ → Prop) (m : Mesh n χ) (x : SearchM n χ σ ε τ α)
    (y : PlainM σ ε τ α) : Prop :=
  ∀ world, ∃ m', x.run.run (m, world) = ((y.run.run world).1, m', (y.run.run world).2) ∧
    ∀ a, (y.run.run world).1 = .ok a → post m'

namespace Follows

variable {post post' : Mesh n χ → Prop} {m m' : Mesh n χ} {x : SearchM n χ σ ε τ α}
  {y : PlainM σ ε τ α} {f : α → SearchM n χ σ ε τ β} {g : α → PlainM σ ε τ β}

theorem pure (a : α) (hm : post m) :
    Follows (σ := σ) (ε := ε) (τ := τ) post m (Pure.pure a) (Pure.pure a) := by
  intro world
  exact ⟨m, rfl, fun _ _ => hm⟩

theorem throw (stop : Stop ε τ) :
    Follows (α := α) (σ := σ) post m (MonadExcept.throw stop) (MonadExcept.throw stop) := by
  intro world
  exact ⟨m, rfl, fun a ha => nomatch ha⟩

theorem mono (h : Follows post m x y) (hpost : ∀ m', post m' → post' m') :
    Follows post' m x y := by
  intro world
  obtain ⟨m', hrun, hm'⟩ := h world
  exact ⟨m', hrun, fun a ha => hpost m' (hm' a ha)⟩

theorem bind (h : Follows post m x y) (hnext : ∀ m' a, post m' → Follows post' m' (f a) (g a)) :
    Follows post' m (x >>= f) (y >>= g) := by
  intro world
  obtain ⟨m', hrun, hm'⟩ := h world
  rw [ExceptT.run_bind, StateT.run_bind, ExceptT.run_bind, StateT.run_bind, hrun]
  generalize y.run.run world = r at hm' ⊢
  obtain ⟨result, world'⟩ := r
  cases result with
  | error stop => exact ⟨m', rfl, fun a ha => nomatch ha⟩
  | ok a => exact hnext m' a (hm' a rfl) world'

theorem call (code : Call σ τ α) :
    Follows (ε := ε) (· = m) m (SearchM.call code) (PlainM.call code) := by
  intro world
  exact ⟨m, rfl, fun _ _ => rfl⟩

theorem call_bind {code : Call σ τ α} (hnext : ∀ a, Follows post m (f a) (g a)) :
    Follows post m (SearchM.call code >>= f) (PlainM.call code >>= g) := by
  apply (Follows.call code).bind
  rintro m' a rfl
  exact hnext a

/-- Looking at the mesh has no counterpart. -/
theorem look_bind {read : Mesh n χ → Except Fault α} {a : α} {y : PlainM σ ε τ β}
    (hread : read m = .ok a) (hnext : Follows post m (f a) y) :
    Follows post m (SearchM.look read >>= f) y := by
  intro world
  obtain ⟨m', hrun, hm'⟩ := hnext world
  have hlook : (SearchM.look read : SearchM n χ σ ε τ α).run.run (m, world) =
      (.ok a, m, world) := by
    show ((read m).mapError Stop.impossible, m, world) = _
    rw [hread]
    rfl
  refine ⟨m', ?_, hm'⟩
  rw [← hrun, ExceptT.run_bind, StateT.run_bind, hlook]
  rfl

/-- Taking a step on the mesh has no counterpart. -/
theorem step_bind {move : Mesh n χ → Except Fault (Mesh n χ)}
    {f : Unit → SearchM n χ σ ε τ β} {y : PlainM σ ε τ β} (hmove : move m = .ok m')
    (hnext : Follows post m' (f ()) y) : Follows post m (SearchM.step move >>= f) y := by
  intro world
  obtain ⟨m'', hrun, hm''⟩ := hnext world
  have hstep : (SearchM.step move : SearchM n χ σ ε τ Unit).run.run (m, world) =
      (.ok (), m', world) := by
    simp only [SearchM.step, ExceptT.run_mk, StateT.run, hmove]
    rfl
  refine ⟨m'', ?_, hm''⟩
  rw [← hrun, ExceptT.run_bind, StateT.run_bind, hstep]
  rfl

/-- A last step on the mesh has no counterpart. -/
theorem bind_step {move : Mesh n χ → Except Fault (Mesh n χ)} {x : SearchM n χ σ ε τ Unit}
    {y : PlainM σ ε τ Unit} (h : Follows post m x y)
    (hmove : ∀ m', post m' → ∃ m'', move m' = .ok m'' ∧ post' m'') :
    Follows post' m (x >>= fun _ => SearchM.step move) y := by
  have hlast : ∀ m' a, post m' →
      Follows (σ := σ) (ε := ε) (τ := τ) post' m' (SearchM.step move) (Pure.pure a) := by
    intro m' a hm'
    obtain ⟨m'', hstep, hm''⟩ := hmove m' hm'
    rw [← bind_pure (SearchM.step move)]
    exact step_bind hstep (.pure () hm'')
  rw [← bind_pure y]
  exact h.bind hlast

theorem report (search : Search σ ο ε τ) (chosen : List ο) :
    Follows (· = m) m (search.report chosen) (search.announce chosen) := by
  apply Follows.call_bind
  intro result
  cases result with
  | ok _ => exact .pure () rfl
  | error error => exact .throw _

end Follows

end ExactCover
