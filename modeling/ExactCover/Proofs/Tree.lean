import ExactCover.Proofs.Boards
import ExactCover.Proofs.Depth
import ExactCover.Proofs.Script

/-!
# Search trees

The course of a search on lists is a tree, which is there before anybody is called: it branches on
an item, has a branch for each row that can be tried, and ends in solutions. `Tree.script` is what
the search says while it goes through the tree, and the search on lists is that script
(`explore_bind_run`).

The caller decides which part of the tree is seen. Where it asks to cancel, the tree is cut, and all
that lies below that point is left out. So every finished search goes through a tree that prunes the
whole one (`exists_prunes_of_plays`), and it goes through the whole one unless the caller asked to
cancel (`Prunes.events_eq`). A tree is no deeper than there are items to branch on
(`within_tree`), which bounds the number of branches that are open at once (`peak_events_append`).
-/

set_option autoImplicit false

namespace ExactCover

variable {κ σ ο ε τ : Type}

/-- The course of a search. It is cut where it was given up, with a mark from `κ`. -/
inductive Tree (κ ο : Type) where
  /-- What lies here was left out. -/
  | cut (mark : κ)
  /-- Nothing is left to branch on. -/
  | solution (chosen : List ο)
  /-- The search branches, and goes on below each of the rows. -/
  | branch (rows : List (Tree κ ο))

namespace Tree

/-- What holds of cuts and solutions, and of a branch if it holds of all its rows, holds of all
trees. -/
@[elab_as_elim]
theorem row_induction {motive : Tree κ ο → Prop} (cut : ∀ mark, motive (.cut mark))
    (solution : ∀ chosen, motive (.solution chosen))
    (branch : ∀ rows, (∀ row ∈ rows, motive row) → motive (.branch rows)) (tree : Tree κ ο) :
    motive tree := by
  refine @Tree.rec κ ο motive (fun rows => ∀ row ∈ rows, motive row) cut solution branch ?_ ?_ tree
  · exact fun _ hrow => nomatch hrow
  · intro row rows hrow hrows
    exact List.forall_mem_cons.mpr ⟨hrow, hrows⟩

mutual

/-- The events of a search that goes through the tree. -/
def events : Tree κ ο → List (Event ο)
  | .cut _ => [.polled (some true)]
  | .solution chosen => [.polled (some false), .solution chosen]
  | .branch rows =>
    .polled (some false) :: .entered rows.length :: (rowEvents rows ++ [.ended])

/-- The events of a search that tries the rows of a branch. -/
def rowEvents : List (Tree κ ο) → List (Event ο)
  | [] => []
  | row :: rows => .rowSelected :: (row.events ++ rowEvents rows)

end

mutual

/-- The solutions in the tree, in the order in which a search meets them. -/
def solutions : Tree κ ο → List (List ο)
  | .cut _ => []
  | .solution chosen => [chosen]
  | .branch rows => rowSolutions rows

/-- The solutions below the rows of a branch. -/
def rowSolutions : List (Tree κ ο) → List (List ο)
  | [] => []
  | row :: rows => row.solutions ++ rowSolutions rows

end

mutual

/-- What a search says that goes through the tree and on to the next thing. Where the answer to a
poll is yes, it goes on at once. -/
def script : Tree Empty ο → Script ο → Script ο
  | .cut mark, _ => nomatch mark
  | .solution chosen, next =>
    .say .poll fun (cancelled : Bool) =>
      if cancelled then next else .say (.solution chosen) fun _ => next
  | .branch rows, next =>
    .say .poll fun (cancelled : Bool) =>
      if cancelled then next
      else .say (.entered rows.length) fun _ => rowScript rows (.say .ended fun _ => next)

/-- What a search says that tries the rows of a branch. -/
def rowScript : List (Tree Empty ο) → Script ο → Script ο
  | [], next => next
  | row :: rows, next => .say .rowSelected fun _ => row.script (rowScript rows next)

end

/-- The second tree is the first without what lies below some points, at which it is cut. -/
inductive Prunes : Tree Empty ο → Tree Unit ο → Prop where
  | cut (tree : Tree Empty ο) : Prunes tree (.cut ())
  | solution (chosen : List ο) : Prunes (.solution chosen) (.solution chosen)
  | branch {rows : List (Tree Empty ο)} {pruned : List (Tree Unit ο)}
    (h : List.Forall₂ Prunes rows pruned) : Prunes (.branch rows) (.branch pruned)

/-- Trying rows to the end means to go through a pruned tree below each of them. -/
theorem exists_forall₂_prunes_of_plays {rows : List (Tree Empty ο)} {next : Script ο}
    {events : List (Event ο)}
    (hrows : ∀ row ∈ rows, ∀ (next : Script ο) (events : List (Event ο)),
      (row.script next).Plays events → ∃ pruned rest, row.Prunes pruned ∧
        events = pruned.events ++ rest ∧ next.Plays rest)
    (h : (rowScript rows next).Plays events) :
    ∃ pruned rest, List.Forall₂ Prunes rows pruned ∧ events = rowEvents pruned ++ rest ∧
      next.Plays rest := by
  induction rows generalizing events with
  | nil => exact ⟨[], events, .nil, rfl, h⟩
  | cons row rows ih =>
    rw [List.forall_mem_cons] at hrows
    obtain ⟨_, others, rfl, hothers⟩ := h
    obtain ⟨first, others, hfirst, rfl, hbelow⟩ := hrows.1 _ _ hothers
    obtain ⟨pruned, rest, hpruned, rfl, hrest⟩ := ih hrows.2 hbelow
    refine ⟨first :: pruned, rest, .cons hfirst hpruned, ?_, hrest⟩
    rw [rowEvents, List.cons_append, List.append_assoc]
    rfl

/-- Going through a tree to the end means to go through a pruned one, and then on. -/
theorem exists_prunes_of_plays (tree : Tree Empty ο) (next : Script ο) (events : List (Event ο))
    (h : (tree.script next).Plays events) :
    ∃ pruned rest, tree.Prunes pruned ∧ events = pruned.events ++ rest ∧ next.Plays rest := by
  induction tree using row_induction generalizing next events with
  | cut mark => nomatch mark
  | solution chosen =>
    obtain ⟨cancelled, rest, rfl, hrest⟩ := h
    cases cancelled with
    | true => exact ⟨.cut (), rest, .cut _, rfl, hrest⟩
    | false =>
      obtain ⟨_, rest, rfl, hnext⟩ := hrest
      exact ⟨.solution chosen, rest, .solution chosen, rfl, hnext⟩
  | branch rows ih =>
    obtain ⟨cancelled, rest, rfl, hrest⟩ := h
    cases cancelled with
    | true => exact ⟨.cut (), rest, .cut _, rfl, hrest⟩
    | false =>
      obtain ⟨_, rest, rfl, hentered⟩ := hrest
      obtain ⟨pruned, rest, hpruned, rfl, hended⟩ := exists_forall₂_prunes_of_plays ih hentered
      obtain ⟨_, rest, rfl, hnext⟩ := hended
      refine ⟨.branch pruned, rest, .branch hpruned, ?_, hnext⟩
      rw [Tree.events, hpruned.length_eq, List.cons_append, List.cons_append, List.append_assoc]
      rfl

/-- A tree that was not cut anywhere is the whole tree. -/
theorem Prunes.events_eq {tree : Tree Empty ο} {pruned : Tree Unit ο} (h : tree.Prunes pruned)
    (hnone : .polled (some true) ∉ pruned.events) : pruned.events = tree.events := by
  induction tree using row_induction generalizing pruned with
  | cut mark => nomatch mark
  | solution chosen =>
    cases h with
    | cut => simp [events] at hnone
    | solution => rfl
  | branch rows ih =>
    cases h with
    | cut => simp [events] at hnone
    | @branch _ pruned hpruned =>
      have hrows : .polled (some true) ∉ rowEvents pruned := by
        intro hmem
        apply hnone
        rw [events]
        simp [hmem]
      have hsame : rowEvents pruned = rowEvents rows := by
        -- It speaks of all rows at once, which the induction on them takes apart.
        clear hnone
        induction hpruned with
        | nil => rfl
        | cons hfirst hpruned ih' =>
          rw [rowEvents, List.mem_cons, List.mem_append, not_or, not_or] at hrows
          rw [List.forall_mem_cons] at ih
          rw [rowEvents, rowEvents, ih.1 hfirst hrows.2.1, ih' ih.2 hrows.2.2]
      rw [events, events, hsame, hpruned.length_eq]

/-- The solutions of a pruned tree are some of those of the whole tree, in the same order. -/
theorem Prunes.sublist {tree : Tree Empty ο} {pruned : Tree Unit ο} (h : tree.Prunes pruned) :
    pruned.solutions.Sublist tree.solutions := by
  induction tree using row_induction generalizing pruned with
  | cut mark => nomatch mark
  | solution chosen =>
    cases h with
    | cut => exact List.nil_sublist _
    | solution => exact .refl _
  | branch rows ih =>
    cases h with
    | cut => exact List.nil_sublist _
    | branch hpruned =>
      show (rowSolutions _).Sublist (rowSolutions rows)
      induction hpruned with
      | nil => exact .slnil
      | cons hfirst hpruned ih' =>
        rw [List.forall_mem_cons] at ih
        exact (ih.1 hfirst).append (ih' ih.2)

/-- There are at most `n` branches above any point of the tree. -/
inductive Within : Nat → Tree κ ο → Prop where
  | cut (n : Nat) (mark : κ) : Within n (.cut mark)
  | solution (n : Nat) (chosen : List ο) : Within n (.solution chosen)
  | branch {n : Nat} {rows : List (Tree κ ο)} (h : ∀ row ∈ rows, Within n row) :
    Within (n + 1) (.branch rows)

theorem Within.mono {n m : Nat} {tree : Tree κ ο} (h : tree.Within n) (hle : n ≤ m) :
    tree.Within m := by
  induction h generalizing m with
  | cut _ mark => exact .cut m mark
  | solution _ chosen => exact .solution m chosen
  | branch _ ih =>
    obtain ⟨m, rfl⟩ : ∃ j, m = j + 1 := Nat.exists_eq_add_one.mpr (by omega)
    exact .branch fun row hrow => ih row hrow (Nat.le_of_succ_le_succ hle)

/-- A pruned tree is no deeper than the whole one. -/
theorem Within.of_prunes {n : Nat} {tree : Tree Empty ο} {pruned : Tree Unit ο}
    (h : tree.Within n) (hprunes : tree.Prunes pruned) : pruned.Within n := by
  induction h generalizing pruned with
  | cut _ mark => nomatch mark
  | solution n chosen =>
    cases hprunes with
    | cut => exact .cut n ()
    | solution => exact .solution n chosen
  | @branch n rows _ ih =>
    cases hprunes with
    | cut => exact .cut _ ()
    | branch hpruned =>
      apply Within.branch
      intro row hrow
      obtain ⟨whole, hwhole, hprunes⟩ := exists_of_forall₂ hpruned.flip hrow
      exact ih whole hwhole hprunes

end Tree

/-- The highest number of branches that are open at once during some events, if so many are open at
the start. -/
def peak (level : Nat) : List (Event ο) → Nat
  | [] => level
  | .entered _ :: rest => max level (peak (level + 1) rest)
  | .ended :: rest => max level (peak (level - 1) rest)
  | _ :: rest => peak level rest

theorem le_peak (level : Nat) (events : List (Event ο)) : level ≤ peak level events := by
  induction events with
  | nil => exact Nat.le_refl _
  | cons event rest ih => cases event <;> simp only [peak] <;> omega

/-- On the way through a tree, no more branches are opened than the tree is deep, and all of them
are closed again. -/
theorem Tree.Within.peak_events_append {n : Nat} {tree : Tree κ ο} (h : tree.Within n)
    (level : Nat) (rest : List (Event ο)) :
    peak level (tree.events ++ rest) ≤ max (level + n) (peak level rest) := by
  induction h generalizing level rest with
  | cut => exact Nat.le_max_right ..
  | solution => exact Nat.le_max_right ..
  | @branch n rows hwithin ih =>
    clear hwithin
    -- What follows a row is the next row, so `rest` changes along the rows.
    have hrows : ∀ (level : Nat) (rest : List (Event ο)),
        peak level (rowEvents rows ++ rest) ≤ max (level + n) (peak level rest) := by
      induction rows with
      | nil => exact fun level rest => Nat.le_max_right ..
      | cons row rows ih' =>
        intro level rest
        have hrow := ih row (by simp) level (rowEvents rows ++ rest)
        have hothers := ih' (fun row hrow => ih row (List.mem_cons_of_mem _ hrow)) level rest
        rw [rowEvents, List.cons_append, List.append_assoc]
        show peak level (row.events ++ (rowEvents rows ++ rest)) ≤ _
        omega
    have hbelow := hrows (level + 1) (.ended :: rest)
    have hlevel := le_peak level rest
    simp only [peak, Nat.add_sub_cancel] at hbelow
    simp only [Tree.events, List.cons_append, List.append_assoc, List.nil_append, peak]
    omega

/-- The solutions that are reported during some events. -/
def reportedIn (events : List (Event ο)) : List (List ο) :=
  events.filterMap fun
    | .solution chosen => some chosen
    | _ => none

/-- On the way through a tree, its solutions are reported. -/
theorem Tree.reportedIn_events (tree : Tree κ ο) : reportedIn tree.events = tree.solutions := by
  induction tree using row_induction with
  | cut mark => rfl
  | solution chosen => rfl
  | branch rows ih =>
    have hrows : reportedIn (rowEvents rows) = rowSolutions rows := by
      induction rows with
      | nil => rfl
      | cons row rows ih' =>
        rw [List.forall_mem_cons] at ih
        rw [rowSolutions, ← ih.1, ← ih' ih.2, reportedIn, reportedIn, reportedIn,
          ← List.filterMap_append]
        rfl
    rw [solutions, ← hrows, events]
    simp [reportedIn]

/-! ## The tree of a problem -/

namespace Naive.Problem

variable {ι χ : Type} [BEq ι] [BEq χ] [Item ι χ] {problem : Problem ι}

/-- The course of a search that has chosen some rows, with at most the given number of further rows.
Its solutions are written as a function of the rows. -/
def tree (problem : Problem ι) (write : List Nat → List ο) : Nat → List Nat → Tree Empty ο
  | 0, chosen =>
    match problem.branchItem? chosen with
    | none => .solution (write chosen)
    | some _ => .branch []
  | depth + 1, chosen =>
    match problem.branchItem? chosen with
    | none => .solution (write chosen)
    | some item =>
      .branch ((problem.candidates chosen item).map fun k =>
        problem.tree write depth (chosen ++ [k]))

variable {write : List Nat → List ο} {chosen : List Nat} {depth : Nat} {item : ι}

theorem tree_of_none (h : problem.branchItem? chosen = none) (depth : Nat) :
    problem.tree write depth chosen = .solution (write chosen) := by
  cases depth with
  | zero => rw [tree, h]
  | succ depth => rw [tree, h]

theorem tree_of_some (h : problem.branchItem? chosen = some item) (depth : Nat) :
    problem.tree write (depth + 1) chosen =
      .branch ((problem.candidates chosen item).map fun k =>
        problem.tree write depth (chosen ++ [k])) := by
  rw [tree, h]

/-- With enough depth for a choice there is enough for the choices that are tried next. -/
theorem exists_depth (h : (problem.openItems chosen).length ≤ depth)
    (hbranch : problem.branchItem? chosen = some item) :
    ∃ depth', depth = depth' + 1 ∧ ∀ k ∈ problem.candidates chosen item,
      (problem.openItems (chosen ++ [k])).length ≤ depth' := by
  have hpos := List.length_pos_of_mem (branchItem?_mem hbranch)
  obtain ⟨depth', rfl⟩ : ∃ d, depth = d + 1 := Nat.exists_eq_add_one.mpr (by omega)
  refine ⟨depth', rfl, ?_⟩
  intro k hk
  have hlt := length_openItems_lt hbranch hk
  omega

/-- Every row that is tried covers an open item, so the tree is no deeper than there are open items.
-/
theorem within_tree (h : (problem.openItems chosen).length ≤ depth) :
    (problem.tree write depth chosen).Within (problem.openItems chosen).length := by
  induction chosen using choice_induction problem generalizing depth with
  | stop chosen hbranch =>
    rw [tree_of_none hbranch]
    exact .solution _ _
  | branch chosen item hbranch ih =>
    obtain ⟨depth, rfl, hdepth⟩ := exists_depth h hbranch
    obtain ⟨n, hn⟩ :=
      Nat.exists_eq_add_one.mpr (List.length_pos_of_mem (branchItem?_mem hbranch))
    rw [tree_of_some hbranch, hn]
    apply Tree.Within.branch
    intro row hrow
    obtain ⟨k, hk, rfl⟩ := List.mem_map.mp hrow
    have hlt := length_openItems_lt hbranch hk
    exact (ih k hk (hdepth k hk)).mono (by omega)

end Naive.Problem

namespace Search

variable {ι χ : Type} [BEq ι] [BEq χ] [Item ι χ]

/-- The foreign code that is called during a search. -/
def listener (search : Search σ ο ε τ) : Listener σ ο ε τ
  | .started => PlainM.call search.trace.started
  | .entered rows => PlainM.call (search.trace.entered rows)
  | .rowSelected => PlainM.call search.trace.rowSelected
  | .ended => PlainM.call search.trace.ended
  | .poll => PlainM.call search.callbacks.cancel
  | .solution chosen => search.announce chosen

/-- Trying rows runs the script of the rows, if that is so for each of them. -/
theorem forM_bind_run (search : Search σ ο ε τ) {ks : List Nat} {body : Nat → PlainM σ ε τ Unit}
    {row : Nat → Tree Empty ο} (next : Script ο)
    (h : ∀ k ∈ ks, ∀ next : Script ο, (do
      body k
      next.run search.listener) = ((row k).script next).run search.listener) :
    (do
      forM ks fun k => do
        PlainM.call search.trace.rowSelected
        body k
      next.run search.listener) =
      (Tree.rowScript (ks.map row) next).run search.listener := by
  induction ks with
  | nil => exact pure_bind ..
  | cons k ks ih =>
    rw [List.forall_mem_cons] at h
    rw [List.forM_cons, List.map_cons, Tree.rowScript, Script.run, bind_assoc, bind_assoc]
    apply bind_congr
    intro _
    rw [← h.1, ← ih h.2]

/-- The search on lists runs the script of its tree. -/
theorem explore_bind_run (search : Search σ ο ε τ) (problem : Naive.Problem ι)
    (preSelected : List ο) {depth : Nat} {chosen : List Nat}
    (h : (problem.openItems chosen).length ≤ depth) (next : Script ο) :
    (do
      search.explore problem preSelected (depth + 1) chosen
      next.run search.listener) =
      ((problem.tree (fun found => preSelected ++ search.optionsOf found) depth chosen).script
        next).run search.listener := by
  induction chosen using Naive.Problem.choice_induction problem generalizing depth next with
  | stop chosen hbranch =>
    rw [explore, hbranch, Naive.Problem.tree_of_none hbranch, Tree.script, Script.run, bind_assoc]
    apply bind_congr
    intro cancelled
    cases cancelled with
    | true => exact pure_bind ..
    | false => rfl
  | branch chosen item hbranch ih =>
    obtain ⟨depth, rfl, hdepth⟩ := Naive.Problem.exists_depth h hbranch
    have hrows := search.forM_bind_run (.say .ended fun _ => next) fun k hk next =>
      ih k hk (hdepth k hk) next
    rw [explore, hbranch, Naive.Problem.tree_of_some hbranch, Tree.script, Script.run, bind_assoc]
    apply bind_congr
    intro cancelled
    cases cancelled with
    | true => exact pure_bind ..
    | false =>
      -- What is done for each row is the search on lists again, as in the hypothesis.
      show (do
        PlainM.call (search.trace.entered (problem.candidates chosen item).length)
        forM (problem.candidates chosen item) fun k => do
          PlainM.call search.trace.rowSelected
          search.explore problem preSelected (depth + 1) (chosen ++ [k])
        PlainM.call search.trace.ended) >>= (fun _ => next.run search.listener) =
        (Script.say (.entered _) fun _ => Tree.rowScript _ (.say .ended fun _ => next)).run
          search.listener
      rw [Script.run, List.length_map, bind_assoc]
      apply bind_congr
      intro _
      rw [← hrows, bind_assoc]
      rfl

end Search

end ExactCover
