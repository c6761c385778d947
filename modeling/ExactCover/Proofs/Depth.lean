import ExactCover.Proofs.Explore
import Mathlib.Data.List.Basic

/-!
# How deep a search goes

Every row that is chosen covers an open item, so the number of open items bounds the depth of what
is left. More depth than that makes no difference, which is how searches on different meshes come
to do the same to the world of the caller (`explore_congr_depth`). And with more depth than that no
search is ever stopped for being endless, so all that can stop it is foreign code
(`explore_possible`).
-/

set_option autoImplicit false

namespace ExactCover

/-- Two ways of going through a list do the same if they do the same with each element. -/
theorem forM_congr_mem {μ : Type → Type} [Monad μ] {α : Type} {f g : α → μ PUnit} {as : List α}
    (h : ∀ a ∈ as, f a = g a) : forM as f = forM as g := by
  induction as with
  | nil => rfl
  | cons a as ih =>
    rw [List.forM_cons, List.forM_cons, h a (by simp),
      ih fun b hb => h b (List.mem_cons_of_mem _ hb)]

variable {ι χ : Type} [BEq ι] [BEq χ] [Item ι χ]

namespace Naive.Problem

variable {problem : Problem ι} {chosen : List Nat} {item : ι} {k : Nat}

theorem mem_candidates : k ∈ problem.candidates chosen item ↔ k < problem.rows.length ∧
    lists (problem.row k) item ∧ problem.isLive chosen k := by
  simp [candidates, List.mem_filter]

omit [BEq χ] in
/-- Choosing a row closes the items that it lists. -/
theorem openItems_concat : problem.openItems (chosen ++ [k]) =
    (problem.openItems chosen).filter fun item => !lists (problem.row k) item := by
  rw [openItems, openItems, List.filter_filter]
  apply List.filter_congr
  intro item _
  simp only [List.any_append, List.any_cons, List.any_nil, Bool.or_false, Bool.not_or]
  generalize (Item.kind item).isPrimary = a
  generalize lists problem.taken item = b
  generalize (chosen.any fun j => lists (problem.row j) item) = c
  cases a <;> cases b <;> cases c <;> simp

theorem branchItem?_mem (h : problem.branchItem? chosen = some item) :
    item ∈ problem.openItems chosen := by
  obtain ⟨before, behind, hsplit, -⟩ := leastBy?_eq_some h
  rw [hsplit]
  simp

theorem openItems_eq_nil (h : problem.branchItem? chosen = none) :
    problem.openItems chosen = [] :=
  (leastBy?_eq_none_iff _ _).mp h

/-- A row that is tried leaves fewer open items. -/
theorem length_openItems_lt (h : problem.branchItem? chosen = some item)
    (hk : k ∈ problem.candidates chosen item) :
    (problem.openItems (chosen ++ [k])).length < (problem.openItems chosen).length := by
  rw [openItems_concat, List.length_filter_lt_length_iff_exists]
  refine ⟨item, branchItem?_mem h, ?_⟩
  simp [(mem_candidates.mp hk).2.1]

theorem branchItem?_eq_none (h : problem.openItems chosen = []) :
    problem.branchItem? chosen = none :=
  (leastBy?_eq_none_iff _ _).mpr h

theorem extensions_of_none (h : problem.branchItem? chosen = none) (depth : Nat) :
    problem.extensions depth chosen = [chosen] := by
  cases depth with
  | zero => rw [extensions, h]
  | succ depth => rw [extensions, h]

theorem extensions_of_some (h : problem.branchItem? chosen = some item) (depth : Nat) :
    problem.extensions (depth + 1) chosen =
      (problem.candidates chosen item).flatMap fun k =>
        problem.extensions depth (chosen ++ [k]) := by
  rw [extensions, h]

/-- Depth beyond the number of open items finds nothing more. -/
theorem extensions_congr_depth {depth depth' : Nat} (h : (problem.openItems chosen).length ≤ depth)
    (h' : (problem.openItems chosen).length ≤ depth') :
    problem.extensions depth chosen = problem.extensions depth' chosen := by
  induction depth generalizing depth' chosen with
  | zero =>
    have hbranch := branchItem?_eq_none (List.eq_nil_of_length_eq_zero (Nat.le_zero.mp h))
    rw [extensions_of_none hbranch, extensions_of_none hbranch]
  | succ depth ih =>
    cases hbranch : problem.branchItem? chosen with
    | none => rw [extensions_of_none hbranch, extensions_of_none hbranch]
    | some item =>
      have hpos := List.length_pos_of_mem (branchItem?_mem hbranch)
      obtain ⟨depth', rfl⟩ : ∃ d, depth' = d + 1 := Nat.exists_eq_add_one.mpr (by omega)
      rw [extensions_of_some hbranch, extensions_of_some hbranch]
      apply List.flatMap_congr
      intro k hk
      have hlt := length_openItems_lt hbranch hk
      exact ih (by omega) (by omega)

/-- All ways to extend a choice until no item is open. -/
def completions (problem : Problem ι) (chosen : List Nat) : List (List Nat) :=
  problem.extensions (problem.openItems chosen).length chosen

/-- A choice is completed by branching on an open item and completing what each candidate leaves,
with no bound on the depth. -/
theorem completions_eq (chosen : List Nat) : problem.completions chosen =
    match problem.branchItem? chosen with
    | none => [chosen]
    | some item =>
      (problem.candidates chosen item).flatMap fun k => problem.completions (chosen ++ [k]) := by
  cases hbranch : problem.branchItem? chosen with
  | none => exact extensions_of_none hbranch _
  | some item =>
    have hpos := List.length_pos_of_mem (branchItem?_mem hbranch)
    obtain ⟨depth, hdepth⟩ : ∃ d, (problem.openItems chosen).length = d + 1 :=
      Nat.exists_eq_add_one.mpr hpos
    rw [completions, hdepth, extensions_of_some hbranch]
    apply List.flatMap_congr
    intro k hk
    have hlt := length_openItems_lt hbranch hk
    exact extensions_congr_depth (by omega) (Nat.le_refl _)

/-- What holds of the choices where the search stops, and of a choice if it holds of all choices
that the search tries next, holds of all choices. -/
@[elab_as_elim]
theorem choice_induction (problem : Problem ι) {motive : List Nat → Prop}
    (stop : ∀ chosen, problem.branchItem? chosen = none → motive chosen)
    (branch : ∀ chosen item, problem.branchItem? chosen = some item →
      (∀ k ∈ problem.candidates chosen item, motive (chosen ++ [k])) → motive chosen)
    (chosen : List Nat) : motive chosen := by
  -- Every branch has fewer open items.
  induction hopen : (problem.openItems chosen).length using Nat.strongRecOn
    generalizing chosen with
  | _ _ ih =>
    cases hbranch : problem.branchItem? chosen with
    | none => exact stop chosen hbranch
    | some item =>
      apply branch chosen item hbranch
      intro k hk
      apply ih _ _ _ rfl
      rw [← hopen]
      exact length_openItems_lt hbranch hk

end Naive.Problem

namespace Search

variable {σ ο ε τ : Type} (search : Search σ ο ε τ) (problem : Naive.Problem ι)
  (preSelected : List ο)

/-- Depth beyond the number of open items makes no difference. -/
theorem explore_congr_depth {depth depth' : Nat} {chosen : List Nat}
    (h : (problem.openItems chosen).length < depth)
    (h' : (problem.openItems chosen).length < depth') :
    search.explore problem preSelected depth chosen =
      search.explore problem preSelected depth' chosen := by
  induction depth generalizing depth' chosen with
  | zero => contradiction
  | succ depth ih =>
    obtain ⟨depth', rfl⟩ : ∃ d, depth' = d + 1 := Nat.exists_eq_add_one.mpr (by omega)
    rw [explore, explore]
    cases hbranch : problem.branchItem? chosen with
    | none => rfl
    | some item =>
      have hrows : ∀ k ∈ problem.candidates chosen item,
          search.explore problem preSelected depth (chosen ++ [k]) =
            search.explore problem preSelected depth' (chosen ++ [k]) := by
        intro k hk
        have hlt := Naive.Problem.length_openItems_lt hbranch hk
        exact ih (by omega) (by omega)
      have hloop := forM_congr_mem fun k hk =>
        congrArg (fun rest => (do PlainM.call search.trace.rowSelected; rest)) (hrows k hk)
      simp only [hloop]

end Search

/-! ## Only foreign code stops a search -/

/-- The code never stops because a step is impossible. -/
def PlainM.Possible {σ ε τ α : Type} (x : PlainM σ ε τ α) : Prop :=
  ∀ world fault, (x.run.run world).1 ≠ .error (.impossible fault)

namespace PlainM.Possible

variable {σ ε τ α β : Type}

theorem pure (a : α) : Possible (Pure.pure a : PlainM σ ε τ α) := by
  intro world fault h
  nomatch h

theorem call (code : Call σ τ α) : Possible (PlainM.call code : PlainM σ ε τ α) := by
  intro world fault h
  change (code.run.run world).1.mapError Stop.thrown = .error (.impossible fault) at h
  cases hresult : (code.run.run world).1 with
  | ok a =>
    rw [hresult] at h
    nomatch h
  | error value =>
    rw [hresult] at h
    nomatch h

theorem bind {x : PlainM σ ε τ α} {f : α → PlainM σ ε τ β} (hx : Possible x)
    (hf : ∀ a, Possible (f a)) : Possible (x >>= f) := by
  intro world fault h
  rw [ExceptT.run_bind, StateT.run_bind] at h
  have hfault := hx world fault
  generalize x.run.run world = r at h hfault
  obtain ⟨result, world'⟩ := r
  cases result with
  | error stop => exact hfault (congrArg Except.error (Except.error.inj h))
  | ok a => exact hf a world' fault h

theorem forM {body : Nat → PlainM σ ε τ Unit} {ks : List Nat} (h : ∀ k ∈ ks, Possible (body k)) :
    Possible (ForM.forM ks body) := by
  induction ks with
  | nil => exact Possible.pure ()
  | cons k ks ih =>
    rw [List.forM_cons]
    apply (h k (by simp)).bind
    intro _
    exact ih fun j hj => h j (List.mem_cons_of_mem _ hj)

end PlainM.Possible

namespace Search

variable {σ ο ε τ : Type} (search : Search σ ο ε τ) (problem : Naive.Problem ι)
  (preSelected : List ο)

theorem announce_possible (chosen : List ο) : (search.announce chosen).Possible := by
  apply (PlainM.Possible.call _).bind
  intro result
  cases result with
  | ok _ => exact .pure ()
  | error error =>
    intro world fault h
    nomatch h

theorem explore_possible {depth : Nat} {chosen : List Nat}
    (h : (problem.openItems chosen).length < depth) :
    (search.explore problem preSelected depth chosen).Possible := by
  induction depth generalizing chosen with
  | zero => contradiction
  | succ depth ih =>
    rw [explore]
    apply (PlainM.Possible.call _).bind
    intro cancelled
    cases cancelled with
    | true => exact .pure ()
    | false =>
      cases hbranch : problem.branchItem? chosen with
      | none => exact search.announce_possible _
      | some item =>
        apply (PlainM.Possible.call _).bind
        intro _
        apply PlainM.Possible.bind
        · apply PlainM.Possible.forM
          intro k hk
          apply (PlainM.Possible.call _).bind
          intro _
          apply ih
          have hlt := Naive.Problem.length_openItems_lt hbranch hk
          omega
        · intro _
          exact .call _

end Search

end ExactCover
