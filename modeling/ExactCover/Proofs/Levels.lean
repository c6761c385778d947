import ExactCover.Proofs.Exchanges
import ExactCover.Proofs.Twins

/-!
# The levels of a search

Whatever the caller answers, the events of a search that comes to its end are those of a visit to
the root of its tree. `Visit` is the grammar of these events. A visit begins with a poll. It is over
if the caller cancels, and otherwise reports a solution or enters a column. The number that is
announced then is the number of the rows that are tried, each with a visit of its own, even if all
of them are cancelled.

No more levels are open at once than there are primary items that the pre-selected options do not
list (`Levelled`).
-/

set_option autoImplicit false

namespace ExactCover

variable {κ σ ο ε τ : Type}

/-- The events of a search at one point of its tree and below it. -/
inductive Visit : List (Event ο) → Prop where
  /-- The caller cancels. -/
  | cancelled : Visit [.polled (some true)]
  /-- Nothing is left to branch on. -/
  | solved (chosen : List ο) : Visit [.polled (some false), .solution chosen]
  /-- Every row of a column is tried and visited. -/
  | branched (rows : List (List (Event ο))) (h : ∀ row ∈ rows, Visit row) :
    Visit (.polled (some false) :: .entered rows.length ::
      (rows.flatMap (.rowSelected :: ·) ++ [.ended]))

namespace Tree

theorem rowEvents_eq_flatMap (rows : List (Tree κ ο)) :
    rowEvents rows = (rows.map events).flatMap (.rowSelected :: ·) := by
  induction rows with
  | nil => rfl
  | cons row rows ih =>
    rw [rowEvents, ih]
    rfl

/-- On the way through a tree, its root is visited. -/
theorem visit_events (tree : Tree κ ο) : Visit tree.events := by
  induction tree using row_induction with
  | cut mark => exact .cancelled
  | solution chosen => exact .solved chosen
  | branch rows ih =>
    rw [events, rowEvents_eq_flatMap, ← List.length_map events]
    exact .branched (rows.map events) (List.forall_mem_map.mpr ih)

end Tree

namespace Solver

variable {γ ι χ : Type} [BEq ι] [BEq χ] [Item ι χ] [Describe ι] [Grid γ ι χ]

/-- The events of a search are a visit, and no more levels are open at once than there are primary
items that the pre-selected options do not list. -/
structure Levelled (solver : Solver γ ο ι σ τ) (callbacks : Callbacks σ ο ε τ)
    (preSelected : List ο) (world : σ) : Prop where
  exists_visit : ∃ visit,
    solver.events callbacks preSelected world = .started :: visit ∧ Visit visit
  peak_le : peak 0 (solver.events callbacks preSelected world) ≤
    ((distinct (solver.options.flatMap solver.items)).filter fun item =>
      (Item.kind item).isPrimary && !Naive.lists (preSelected.flatMap solver.items) item).length

variable [LawfulGrid γ] [LawfulItem ι] [EquivBEq χ] {solver : Solver γ ο ι σ τ}
  {callbacks : Callbacks σ ο ε τ} {preSelected : List ο} {world : σ}

omit [LawfulGrid γ] [LawfulItem ι] [EquivBEq χ] [Grid γ ι χ] [BEq χ] [Describe ι] in
theorem openItems_problem (solver : Solver γ ο ι σ τ) (preSelected : List ο) :
    (solver.problem preSelected).openItems [] =
      (distinct (solver.options.flatMap solver.items)).filter fun item =>
        (Item.kind item).isPrimary && !Naive.lists (preSelected.flatMap solver.items) item := by
  rw [Naive.Problem.openItems, List.flatMap_def]
  apply List.filter_congr
  intro item _
  exact Bool.and_true _

/-- Every search that comes to its end is in levels. -/
theorem Kept.levelled (h : solver.Kept)
    (hanswer : (solver.searchWith callbacks preSelected world).1 = .ok ()) :
    Levelled solver callbacks preSelected world := by
  obtain ⟨pruned, hprunes, hevents⟩ := h.exists_prunes_of_ok hanswer
  refine ⟨⟨pruned.events, hevents, pruned.visit_events⟩, ?_⟩
  have hwithin : (solver.tree preSelected).Within
      ((solver.problem preSelected).openItems []).length :=
    Naive.Problem.within_tree (Nat.le_refl _)
  have hpeak := (hwithin.of_prunes hprunes).peak_events_append 0 []
  rw [List.append_nil, Nat.zero_add, peak, Nat.max_zero] at hpeak
  rw [hevents, ← openItems_problem]
  exact hpeak

section Kinds

omit [Grid γ ι χ] [LawfulGrid γ] in
/-- Whatever was done with an open or a sealed solver and whatever foreign code does, a later search
that comes to its end is in levels. -/
theorem levelled_after (items : ο → List ι) (requests : List (Request ο σ τ)) (start : σ)
    (callbacks : Callbacks σ ο ε τ) (preSelected : List ο) (world : σ) :
    let woven := (woven items).after start requests
    let packed := (packed items).after start requests
    ((woven.searchWith callbacks preSelected world).1 = .ok () →
      Levelled woven callbacks preSelected world) ∧
    ((packed.searchWith callbacks preSelected world).1 = .ok () →
      Levelled packed callbacks preSelected world) := by
  intro woven packed
  have hwoven : woven.Kept := kept_after_onGrid items requests start
  have hpacked : packed.Kept := kept_after_onGrid items requests start
  exact ⟨hwoven.levelled, hpacked.levelled⟩

/-- Two options with the same item, and callbacks that cancel below the first of them only. -/
theorem levelled_after_of_wavering :
    let requests : List (Request Nat Nat Empty) := [.addOption 1, .allSolutions, .addOption 2]
    let items : Nat → List (Constraint Nat Nat) := fun _ => [.primary 0]
    let woven := (woven items).after 0 requests
    let packed := (packed items).after 0 requests
    (woven.searchWith wavering [] 0).1 = .ok () ∧ Levelled woven wavering [] 0 ∧
      (packed.searchWith wavering [] 0).1 = .ok () ∧ Levelled packed wavering [] 0 := by
  intro requests items woven packed
  have hlevelled := levelled_after items requests 0 wavering [] 0
  have hwoven : (woven.searchWith wavering [] 0).1 = .ok () := by
    decide +kernel
  have hpacked : (packed.searchWith wavering [] 0).1 = .ok () := by
    decide +kernel
  exact ⟨hwoven, hlevelled.1 hwoven, hpacked, hlevelled.2 hpacked⟩

end Kinds

end Solver

end ExactCover
