import ExactCover.Proofs.Guarded
import ExactCover.Proofs.Faultless
import ExactCover.Proofs.Levels

/-!
# Every search ends

Whatever a solver was asked to do before, a call for a search comes to an end by itself, and it does
so within bounds that can be read off the problem (`Terminates`). The search that the call starts is
the guarded one, so each level of it has fewer columns to choose from than the one above, and each
row of a column is tried once. A solution has one option for each level on top of those that were
pre-selected, so it is no longer than there are primary items left to cover.

All this holds for every answer of the foreign code, also if it fails or throws: what a search may
say is fixed by its script (`Script.Says`), and an answer only decides which part of it is said.
-/

set_option autoImplicit false

namespace ExactCover

variable {σ ο ε τ : Type}

/-- Every call of the script, whatever the answers to earlier ones are, is as stated. -/
def Script.Says (P : Signal ο → Prop) : Script ο → Prop
  | .done => True
  | .say signal next => P signal ∧ ∀ answer, (next answer).Says P

/-- In every play, the calls are those of the script. -/
theorem Script.Says.of_mem_play {P : Signal ο → Prop} {script : Script ο} (h : script.Says P)
    {listener : Listener σ ο ε τ} {world : σ} {exchange : Exchange ο ε τ}
    (hmem : exchange ∈ (script.play listener world).1) : P exchange.event.signal := by
  induction script generalizing world with
  | done => contradiction
  | say signal next ih =>
    cases hcall : (listener signal).run.run world with
    | mk result world' =>
      cases result with
      | error stop =>
        rw [play_say_of_error hcall, List.mem_singleton] at hmem
        rw [hmem, Signal.signal_event]
        exact h.1
      | ok answer =>
        rw [play_say_of_ok hcall] at hmem
        rcases List.mem_cons.mp hmem with rfl | hmem
        · rw [Signal.signal_event]
          exact h.1
        · exact ih answer (h.2 answer) hmem

namespace Tree

theorem mem_rowSolutions {κ : Type} {rows : List (Tree κ ο)} {chosen : List ο} :
    chosen ∈ rowSolutions rows ↔ ∃ row ∈ rows, chosen ∈ row.solutions := by
  induction rows with
  | nil => simp [rowSolutions]
  | cons row rows ih => simp [rowSolutions, ih]

/-- On the way through a tree, the solutions that are reported are those of the tree. -/
theorem says_script {P : Signal ο → Prop}
    (hother : ∀ signal : Signal ο, (∀ chosen, signal ≠ .solution chosen) → P signal)
    (tree : Tree Empty ο) {next : Script ο} (hnext : next.Says P)
    (hsolutions : ∀ chosen ∈ tree.solutions, P (.solution chosen)) :
    (tree.script next).Says P := by
  induction tree using row_induction generalizing next with
  | cut mark => nomatch mark
  | solution chosen =>
    refine ⟨hother _ (by simp), fun (cancelled : Bool) => ?_⟩
    cases cancelled with
    | true => exact hnext
    | false => exact ⟨hsolutions chosen (by simp [solutions]), fun _ => hnext⟩
  | branch rows ih =>
    -- What follows a row is the next row, so `next` changes along the rows.
    have hrows : ∀ rest ⊆ rows, ∀ {next : Script ο}, next.Says P →
        (rowScript rest next).Says P := by
      intro rest
      induction rest with
      | nil => exact fun _ _ hnext => hnext
      | cons row rest ih' =>
        intro hsubset next hnext
        obtain ⟨hrow, hsubset⟩ := List.cons_subset.mp hsubset
        refine ⟨hother _ (by simp), fun _ => ih row hrow (ih' hsubset hnext) ?_⟩
        exact fun chosen hchosen => hsolutions chosen (mem_rowSolutions.mpr ⟨row, hrow, hchosen⟩)
    refine ⟨hother _ (by simp), fun (cancelled : Bool) => ?_⟩
    cases cancelled with
    | true => exact hnext
    | false =>
      refine ⟨hother _ (by simp), fun _ => hrows rows (List.Subset.refl rows) ?_⟩
      exact ⟨hother _ (by simp), fun _ => hnext⟩

end Tree

section Lengths

variable {ι χ : Type} [BEq ι] [BEq χ] [Item ι χ]

/-- A solution in the tree is made of the rows that were chosen before and of no more further rows
than the tree is deep. -/
theorem Naive.Problem.exists_of_mem_tree {problem : Problem ι} {write : List Nat → List ο}
    {depth : Nat} {chosen : List Nat} {solution : List ο}
    (h : solution ∈ (problem.tree write depth chosen).solutions) :
    ∃ found, solution = write found ∧ found.length ≤ chosen.length + depth := by
  induction depth generalizing chosen with
  | zero =>
    rw [tree] at h
    cases hbranch : problem.branchItem? chosen with
    | none =>
      rw [hbranch] at h
      exact ⟨chosen, List.mem_singleton.mp h, Nat.le_refl _⟩
    | some item =>
      rw [hbranch] at h
      contradiction
  | succ depth ih =>
    cases hbranch : problem.branchItem? chosen with
    | none =>
      rw [tree_of_none hbranch] at h
      exact ⟨chosen, List.mem_singleton.mp h, Nat.le_add_right ..⟩
    | some item =>
      rw [tree_of_some hbranch] at h
      obtain ⟨row, hrow, hsolution⟩ := Tree.mem_rowSolutions.mp h
      obtain ⟨k, -, rfl⟩ := List.mem_map.mp hrow
      obtain ⟨found, rfl, hle⟩ := ih hsolution
      refine ⟨found, rfl, ?_⟩
      rw [List.length_append, List.length_singleton] at hle
      omega

namespace Solver

variable {γ : Type} {solver : Solver γ ο ι σ τ} {preSelected : List ο}

/-- A solution has the pre-selected options and at most one more for each open item. -/
theorem length_le_of_mem_tree {chosen : List ο}
    (h : chosen ∈ (solver.tree preSelected).solutions) :
    chosen.length ≤ preSelected.length + ((solver.problem preSelected).openItems []).length := by
  obtain ⟨found, rfl, hle⟩ := Naive.Problem.exists_of_mem_tree h
  have hfilter := List.length_filterMap_le (fun k => solver.options[k]?) found
  rw [List.length_append]
  rw [List.length_nil] at hle
  omega

end Solver

end Lengths

/-- From the given mesh, the search runs like the guarded one, and meets all of its guards. -/
def Search.IsGuarded {n : Nat} {χ : Type} [BEq χ] (search : Search σ ο ε τ) (preSelected : List ο)
    (mesh : Mesh n χ) : Prop :=
  RunAlike mesh (search.run preSelected) (search.runGuarded preSelected) ∧
    ∀ world fault,
      ((search.runGuarded preSelected).run.run (mesh, world)).1 ≠ .error (.impossible fault)

namespace Solver

variable {γ ι χ : Type} [BEq ι] [BEq χ] [Item ι χ] [Describe ι] [Grid γ ι χ]

/-- The call for a search comes to an end, within bounds. -/
structure Terminates (solver : Solver γ ο ι σ τ) (callbacks : Callbacks σ ο ε τ)
    (preSelected : List ο) (world : σ) : Prop where
  /-- The call is not cut off, and none of its steps is impossible. -/
  fault?_eq_none : fault? (solver.searchWith callbacks preSelected world).1 = none
  /-- The search on the mesh that the call prepares is guarded: every level has fewer columns in
  the ring than the one above, and every row of a column is tried once. -/
  isGuarded : solver.phase = .clean → ∀ {columns mesh},
    (Grid.board (Grid.close solver.grid)).columnsOf (preSelected.flatMap solver.items) =
      .ok columns →
    (Grid.board (Grid.close solver.grid)).mesh.coverAll columns = .ok mesh →
      (solver.searchFor callbacks).IsGuarded preSelected mesh
  /-- No solution is reported that has more options than were pre-selected and than there are
  primary items that the pre-selected options do not list. -/
  length_le : ∀ chosen, .solution chosen ∈ solver.events callbacks preSelected world →
    chosen.length ≤ preSelected.length +
      ((distinct (solver.options.flatMap solver.items)).filter fun item =>
        (Item.kind item).isPrimary && !Naive.lists (preSelected.flatMap solver.items) item).length

variable [LawfulGrid γ] [LawfulItem ι] [EquivBEq χ] {solver : Solver γ ο ι σ τ}

omit [Describe ι] in
/-- The search of a solver that can be used is guarded. -/
theorem Ready.isGuarded (h : solver.Ready) (callbacks : Callbacks σ ο ε τ) {preSelected : List ο}
    {columns : List (Fin (Grid.board (Grid.close solver.grid)).size)}
    {mesh : Mesh (Grid.board (Grid.close solver.grid)).size χ}
    (hcolumns : (Grid.board (Grid.close solver.grid)).columnsOf
      (preSelected.flatMap solver.items) = .ok columns)
    (hcover : (Grid.board (Grid.close solver.grid)).mesh.coverAll columns = .ok mesh) :
    (solver.searchFor callbacks).IsGuarded preSelected mesh := by
  have hpresents := LawfulGrid.presents_close h.carries
  cases hmissing : (solver.problem preSelected).missing? with
  | some item =>
    have herror : (Grid.board (Grid.close solver.grid)).columnsOf
        (preSelected.flatMap solver.items) = .error item :=
      hpresents.columnsOf_eq_error hmissing
    rw [hcolumns] at herror
    contradiction
  | none =>
    obtain ⟨columns', mesh', L, settled, hcolumns', htrip, hcharts, hmesh, htracks⟩ :=
      h.exists_start hmissing
    obtain rfl : columns = columns' := Except.ok.inj (hcolumns.symm.trans hcolumns')
    obtain rfl : mesh = mesh' := Except.ok.inj (hcover.symm.trans htrip.forth_eq)
    have hoptions : (solver.searchFor callbacks).options.length =
        (solver.problem preSelected).rows.length := (List.length_map _).symm
    have hunmixed : Naive.Unmixed (solver.problem preSelected).rows := Naive.unmixed _
    have halike := (solver.searchFor callbacks).run_runAlike hcharts hpresents.primary hunmixed
      hoptions preSelected hmesh htracks
    have hfollows := (solver.searchFor callbacks).run_follows hcharts hpresents.primary hunmixed
      hoptions preSelected hmesh htracks
    refine ⟨halike, fun world fault => ?_⟩
    obtain ⟨mesh', hrun, -⟩ := hfollows world
    rw [← halike world, hrun]
    exact (solver.searchFor callbacks).plain_possible _ preSelected world fault

/-- Every search of a solver that keeps its rows comes to an end. -/
theorem Kept.terminates (h : solver.Kept) (callbacks : Callbacks σ ο ε τ) (preSelected : List ο)
    (world : σ) : solver.Terminates callbacks preSelected world where
  fault?_eq_none := h.fault?_searchWith callbacks preSelected world
  isGuarded hphase _ _ hcolumns hcover :=
    Ready.isGuarded ⟨hphase, h hphase⟩ callbacks hcolumns hcover
  length_le := by
    intro chosen hchosen
    rw [h.events_eq] at hchosen
    obtain ⟨exchange, hmem, hevent⟩ := List.mem_map.mp hchosen
    rcases h.searchWith_cases callbacks preSelected world with
      ⟨-, -, hnone, -⟩ | ⟨-, -, hexchanges, -⟩
    · rw [hnone] at hmem
      contradiction
    rw [hexchanges] at hmem
    -- Of all that a search may say, only the reports of solutions have to be short.
    let IsShort : Signal ο → Prop
      | .solution chosen => chosen.length ≤
          preSelected.length + ((solver.problem preSelected).openItems []).length
      | _ => True
    have hother : ∀ signal : Signal ο, (∀ chosen, signal ≠ .solution chosen) → IsShort signal := by
      intro signal hsignal
      cases signal with
      | solution chosen => exact absurd rfl (hsignal chosen)
      | _ => trivial
    have hsays : (solver.script preSelected).Says IsShort :=
      ⟨trivial, fun _ => Tree.says_script hother _ trivial fun _ => length_le_of_mem_tree⟩
    have hshort := hsays.of_mem_play hmem
    rw [hevent] at hshort
    rw [← openItems_problem]
    exact hshort

section Kinds

omit [Grid γ ι χ] [LawfulGrid γ]

/-- Whatever was done with an open or a sealed solver and whatever foreign code does, a later search
comes to an end. -/
theorem terminates_after (items : ο → List ι) (requests : List (Request ο σ τ)) (start : σ)
    (callbacks : Callbacks σ ο ε τ) (preSelected : List ο) (world : σ) :
    ((woven items).after start requests).Terminates callbacks preSelected world ∧
      ((packed items).after start requests).Terminates callbacks preSelected world := by
  have hwoven : ((woven items : Solver (Woven ι χ) ο ι σ τ).after start requests).Kept :=
    kept_after_onGrid items requests start
  have hpacked : ((packed items : Solver (Packed ι χ) ο ι σ τ).after start requests).Kept :=
    kept_after_onGrid items requests start
  exact ⟨hwoven.terminates callbacks preSelected world,
    hpacked.terminates callbacks preSelected world⟩

/-- Colored items that are shared across levels of the search, a pre-selected option, and a callback
that refuses the second solution. -/
theorem terminates_after_of_refusing :
    let requests : List (Request (List (Constraint Nat Nat)) Nat Empty) :=
      [.addOptions [[.primary 0, .secondary 1 (some 7)], [.primary 2, .secondary 1 (some 7)],
          [.primary 2, .secondary 1 (some 8)], [.primary 0, .secondary 1 none], [.primary 3]],
        .allSolutions]
    let callbacks : Callbacks Nat (List (Constraint Nat Nat)) String Empty :=
      ⟨fun _ => do
        let count ← modifyGet fun count => (count, count + 1)
        pure (if count = 1 then .error "enough" else .ok ()), pure false⟩
    ((woven id).after 0 requests).Terminates callbacks [[.primary 3]] 0 ∧
      ((packed id).after 0 requests).Terminates callbacks [[.primary 3]] 0 :=
  terminates_after id _ 0 _ _ 0

end Kinds

end Solver

end ExactCover
