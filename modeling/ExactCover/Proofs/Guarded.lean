import ExactCover.Proofs.Calls

/-!
# A search without limits

The search on a mesh is written with limits: on how deep it goes and on how many cells it meets in a
column. That it keeps within them for a reason is shown here by writing it once more with *guards*
in their place. The guarded search goes on only where fewer columns are left in the ring of those
that must be covered than there were one level above, which is what its recursion is on. It reads
the cells of a column off before it tries the first of them, and tries each of them once. The links
are taken apart and put back between two cells, so neither is obvious for the search itself.

From every mesh that shows what was settled the two run alike (`descend_runAlike`), and as a guard
that is not met would end the search, all guards are met.
-/

set_option autoImplicit false

namespace ExactCover

variable {n : Nat} {ι χ σ ο ε τ α β : Type}

/-- From the given mesh, two parts of a search do the same, whatever the world is. -/
def RunAlike (m : Mesh n χ) (x y : SearchM n χ σ ε τ α) : Prop :=
  ∀ world, x.run.run (m, world) = y.run.run (m, world)

namespace RunAlike

variable {m m' : Mesh n χ} {x y : SearchM n χ σ ε τ α} {f g : α → SearchM n χ σ ε τ β}

theorem refl (m : Mesh n χ) (x : SearchM n χ σ ε τ α) : RunAlike m x x := fun _ => rfl

/-- Parts that run alike can be followed by parts that run alike from where the first ones lead. -/
theorem bind {post : Mesh n χ → Prop} {plain : PlainM σ ε τ α} (h : RunAlike m x y)
    (hpost : Follows post m x plain) (hnext : ∀ m' a, post m' → RunAlike m' (f a) (g a)) :
    RunAlike m (x >>= f) (y >>= g) := by
  intro world
  obtain ⟨m', hrun, hm'⟩ := hpost world
  rw [ExceptT.run_bind, StateT.run_bind, ExceptT.run_bind, StateT.run_bind, ← h world, hrun]
  cases hresult : (plain.run.run world).1 with
  | error stop => rfl
  | ok a => exact hnext m' a (hm' a hresult) (plain.run.run world).2

/-- Parts that run alike can be followed by the same part. -/
theorem bind_same (h : RunAlike m x y) (f : α → SearchM n χ σ ε τ β) :
    RunAlike m (x >>= f) (y >>= f) := by
  intro world
  rw [ExceptT.run_bind, StateT.run_bind, ExceptT.run_bind, StateT.run_bind, h world]

theorem call_bind {code : Call σ τ α} (h : ∀ a, RunAlike m (f a) (g a)) :
    RunAlike m (SearchM.call code >>= f) (SearchM.call code >>= g) := by
  apply (refl m _).bind (Follows.call code)
  rintro m' a rfl
  exact h a

/-- Looking at the mesh before the first part does nothing. -/
theorem look_bind_left {read : Mesh n χ → Except Fault α} {a : α} {y : SearchM n χ σ ε τ β}
    (hread : read m = .ok a) (h : RunAlike m (f a) y) :
    RunAlike m (SearchM.look read >>= f) y := by
  intro world
  have hlook : (SearchM.look read : SearchM n χ σ ε τ α).run.run (m, world) =
      (.ok a, m, world) := by
    show ((read m).mapError Stop.impossible, m, world) = _
    rw [hread]
    rfl
  rw [← h world, ExceptT.run_bind, StateT.run_bind, hlook]
  rfl

/-- Looking at the mesh before the second part does nothing. -/
theorem look_bind_right {read : Mesh n χ → Except Fault α} {a : α} {x : SearchM n χ σ ε τ β}
    (hread : read m = .ok a) (h : RunAlike m x (g a)) :
    RunAlike m x (SearchM.look read >>= g) := by
  have hlook : RunAlike m (SearchM.look read >>= g) x :=
    look_bind_left hread fun world => (h world).symm
  exact fun world => (hlook world).symm

theorem look_bind {read : Mesh n χ → Except Fault α} {a : α} (hread : read m = .ok a)
    (h : RunAlike m (f a) (g a)) :
    RunAlike m (SearchM.look read >>= f) (SearchM.look read >>= g) :=
  look_bind_left hread (look_bind_right hread h)

theorem step_bind {move : Mesh n χ → Except Fault (Mesh n χ)} {f g : Unit → SearchM n χ σ ε τ β}
    (hmove : move m = .ok m') (h : RunAlike m' (f ()) (g ())) :
    RunAlike m (SearchM.step move >>= f) (SearchM.step move >>= g) := by
  intro world
  have hstep : (SearchM.step move : SearchM n χ σ ε τ Unit).run.run (m, world) =
      (.ok (), m', world) := by
    simp only [SearchM.step, ExceptT.run_mk, StateT.run, hmove]
    rfl
  rw [ExceptT.run_bind, StateT.run_bind, ExceptT.run_bind, StateT.run_bind, hstep]
  exact h world

end RunAlike

namespace Search

open SearchM

section Definitions

variable [BEq χ]

/-- Tries the row of a cell and goes on below it with the option of the row. -/
def attempt (search : Search σ ο ε τ) (deeper : ο → SearchM n χ σ ε τ Unit) (p : Fin n) :
    SearchM n χ σ ε τ Unit := do
  call search.trace.rowSelected
  step (Mesh.commitRow p)
  let option ← look (search.optionAt p)
  deeper option
  step (Mesh.uncommitRow p)

omit [BEq χ] in
/-- Makes one attempt with each of the cells that hang in a column before the first attempt, unless
a cell hangs there twice. -/
def tryEach (attempt : Fin n → SearchM n χ σ ε τ Unit) (c : Fin n) : SearchM n χ σ ε τ Unit := do
  let cells ← look fun m => m.cells c
  if cells.Nodup then forM cells attempt else throw (.impossible .endless)

/-- Finds all ways to extend a choice of options to a solution, unless there are as many open
columns that must be covered as the given number or more. -/
def descendBelow (search : Search σ ο ε τ) (bound : Nat) (chosen : List ο) :
    SearchM n χ σ ε τ Unit := do
  let columns ← look Mesh.primaryColumns
  if _fewer : columns.length < bound then
    if ← call search.callbacks.cancel then
      pure ()
    else
      match ← look Mesh.branchColumn? with
      | none => search.report chosen
      | some c => do
        let rows ← look fun m => .ok (m.count c)
        call (search.trace.entered rows)
        step (Mesh.cover c)
        tryEach (search.attempt fun option =>
          descendBelow search columns.length (chosen ++ [option])) c
        step (Mesh.uncover c)
        call search.trace.ended
  else
    throw (.impossible .endless)
termination_by bound

/-- Finds all ways to extend the pre-selected options to a solution. A ring has fewer members than
there are positions, so this is no limit at the start. -/
def runGuarded (search : Search σ ο ε τ) (preSelected : List ο) : SearchM n χ σ ε τ Unit := do
  call search.trace.started
  search.descendBelow n preSelected

end Definitions

variable [BEq ι] [BEq χ] [Item ι χ]

omit [BEq ι] [Item ι χ] in
/-- Following the links down a column while rows are tried meets the cells that hung there at the
start, if each attempt leaves a mesh that is alike. -/
theorem tryRows_runAlike [EquivBEq χ] {attempt attempt' : Fin n → SearchM n χ σ ε τ Unit}
    {c : Fin n} {ps : List (Fin n)} {m : Mesh n χ} (hring : m.down.IsRing c ps)
    (hattempt : ∀ p ∈ ps, ∀ m₁, m.Alike m₁ → RunAlike m₁ (attempt p) (attempt' p) ∧
      ∃ plain, Follows m₁.Alike m₁ (attempt p) plain) :
    RunAlike m (tryRows attempt c n (m.below c)) (tryEach attempt' c) := by
  have hgo : ∀ (rest : List (Fin n)) (p : Fin n) (fuel : Nat) (m₁ : Mesh n χ), rest ⊆ ps →
      List.IsChain m.down.Joined (p :: (rest ++ [c])) → c ∉ rest → rest.length ≤ fuel →
        m.Alike m₁ → RunAlike m₁ (tryRows attempt c fuel (m.below p)) (forM rest attempt') := by
    intro rest
    induction rest with
    | nil =>
      intro p fuel m₁ _ hchain _ _ _
      have hend : m.below p = c := (List.isChain_pair.mp hchain).1
      have hdone : tryRows attempt c fuel (m.below p) = pure () := by
        cases fuel <;> simp [tryRows, hend]
      rw [hdone]
      exact .refl m₁ _
    | cons q rest ih =>
      intro p fuel m₁ hsubset hchain hc hfuel halike
      rw [List.cons_append, List.isChain_cons_cons] at hchain
      rw [List.mem_cons, not_or] at hc
      obtain ⟨hq, hsubset⟩ := List.cons_subset.mp hsubset
      obtain ⟨fuel, rfl⟩ : ∃ j, fuel = j + 1 := Nat.exists_eq_add_one.mpr (by
        rw [List.length_cons] at hfuel
        omega)
      have hbelow : m.below p = q := hchain.1.1
      obtain ⟨hsame, plain, hfollows⟩ := hattempt q hq m₁ halike
      rw [hbelow, tryRows, if_neg (Ne.symm hc.1), List.forM_cons]
      apply hsame.bind hfollows
      intro m₂ _ hm₂
      have halike₂ := halike.trans hm₂
      apply RunAlike.look_bind_left (a := m.below q)
      · rw [halike₂.below_eq]
      · exact ih q fuel m₂ hsubset hchain.2 hc.2 (Nat.le_of_succ_le_succ hfuel) halike₂
  apply RunAlike.look_bind_right (hring.members_eq : m.cells c = .ok ps)
  rw [if_pos hring.members_nodup]
  exact hgo ps c n m (List.Subset.refl ps) hring.chain hring.home_not_mem
    (Nat.le_of_lt hring.length_lt) (.refl m)

variable [EquivBEq ι] [EquivBEq χ] {m₀ m : Mesh n χ} {columns : List (ι × Nat)} {L : Layout n χ}
  {problem : Naive.Problem ι} {settled : List (Fin n × Option χ)} {chosen : List Nat}
  {preSelected : List ο} {depth bound : Nat} {c : Fin n}

omit [EquivBEq ι] in
/-- Trying a row runs alike, if the search below it does. -/
theorem attempt_runAlike (search : Search σ ο ε τ) (hcharts : m₀.Charts columns L problem.rows)
    (hoptions : search.options.length = problem.rows.length)
    {deeper deeper' : ο → SearchM n χ σ ε τ Unit}
    (hm : m.Displays L (L.picture (settled ++ [(c, none)]))) {p : Fin n} {k : Nat}
    (hp : p ∈ L.column c) (hfits : L.fits settled p) (hrow : L.rows[k]? = some (L.rowOf p))
    (hdeeper : ∀ m₁ option, m₁.Displays L (L.picture (L.choose settled p)) →
      search.options[k]? = some option → RunAlike m₁ (deeper option) (deeper' option)) :
    RunAlike m (search.attempt deeper p) (search.attempt deeper' p) := by
  obtain ⟨hpCell, rfl⟩ := Layout.mem_column.mp hp
  obtain ⟨m₁, hcommit, hm₁⟩ := hm.exists_commitRow hcharts.proper hpCell hfits
  obtain ⟨option, hoption, hat⟩ := search.exists_optionAt_eq hcharts hoptions hm₁ hpCell hrow
  apply RunAlike.call_bind
  intro _
  apply RunAlike.step_bind hcommit.forth_eq
  apply RunAlike.look_bind hat
  exact (hdeeper m₁ option hm₁ hoption).bind_same _

/-- Trying the rows of a column runs alike, if the search below each of them does. The first search
does so with a depth of its own, of which only the meshes matter that it leaves behind. -/
theorem branch_runAlike (search : Search σ ο ε τ) (hcharts : m₀.Charts columns L problem.rows)
    (hunmixed : L.Unmixed) (hoptions : search.options.length = problem.rows.length)
    (hfollows : search.FollowsAt L columns problem preSelected depth)
    {deeper : ο → SearchM n χ σ ε τ Unit} (hm : m.Displays L (L.picture settled))
    (ht : Tracks columns L problem settled chosen) (hc : c ∈ L.primary)
    (hopen : c ∉ settled.map (·.1)) {x : ι} (hx : (x, c.val) ∈ columns)
    (hdeeper : ∀ k ∈ problem.candidates chosen x, ∀ p ∈ L.cells, L.rows[k]? = some (L.rowOf p) →
      L.columnOf p = c → L.fits settled p → ∀ m₁ option,
        m₁.Displays L (L.picture (L.choose settled p)) → search.options[k]? = some option →
          RunAlike m₁ (search.descend depth (preSelected ++ search.optionsOf chosen ++ [option]))
            (deeper option)) :
    RunAlike m
      (do
        SearchM.call (search.trace.entered (m.count c))
        SearchM.step (Mesh.cover c)
        let top ← SearchM.look fun m => .ok (m.below c)
        tryRows (search.attempt fun option =>
          search.descend depth (preSelected ++ search.optionsOf chosen ++ [option])) c n top
        SearchM.step (Mesh.uncover c)
        SearchM.call search.trace.ended)
      (do
        SearchM.call (search.trace.entered (m.count c))
        SearchM.step (Mesh.cover c)
        tryEach (search.attempt deeper) c
        SearchM.step (Mesh.uncover c)
        SearchM.call search.trace.ended) := by
  obtain ⟨m₁, hcover, hm₁, hring⟩ :=
    hm.exists_cover_open hcharts.proper (List.mem_append_left _ hc) hopen
  have hrows := ht.candidates_rel hcharts hx
  apply RunAlike.call_bind
  intro _
  apply RunAlike.step_bind hcover.forth_eq
  apply RunAlike.look_bind_left rfl
  refine (tryRows_runAlike hring fun p hp m₂ halike => ?_).bind_same _
  obtain ⟨k, hk, hpColumn, hfits, hrow⟩ := exists_of_forall₂ hrows hp
  obtain ⟨hpCell, hpc⟩ := Layout.mem_column.mp hpColumn
  have hm₂ := hm₁.of_alike halike
  exact ⟨search.attempt_runAlike hcharts hoptions hm₂ hpColumn hfits hrow
      (hdeeper k hk p hpCell hrow hpc hfits),
    _, search.attempt_follows hcharts hunmixed hoptions hfollows ht hc hm₂ hpColumn hfits hrow⟩

/-- As long as the depth is not used up and the bound is not reached, the search and the guarded
search run alike. -/
theorem descend_runAlike (search : Search σ ο ε τ) (hcharts : m₀.Charts columns L problem.rows)
    (hunmixed : L.Unmixed) (horder : (columns.map (·.1)).filter isPrimaryItem =
      (distinct problem.rows.flatten).filter isPrimaryItem)
    (hoptions : search.options.length = problem.rows.length) (preSelected : List ο)
    (hm : m.Displays L (L.picture settled)) (ht : Tracks columns L problem settled chosen)
    (hdepth : (problem.openItems chosen).length < depth)
    (hbound : (problem.openItems chosen).length < bound) :
    RunAlike m (search.descend depth (preSelected ++ search.optionsOf chosen))
      (search.descendBelow bound (preSelected ++ search.optionsOf chosen)) := by
  induction depth generalizing bound settled chosen m with
  | zero => exact absurd hdepth (Nat.not_lt_zero _)
  | succ depth ih =>
    have hhead : m.primaryHead = L.primaryHead := congrArg Frame.primaryHead hm.frame
    have hcolumns : m.primaryColumns = .ok (L.primary.filter (L.picture settled).isOpen) := by
      rw [Mesh.primaryColumns, hhead, hm.primary.members_eq]
    have hbranch : m.branchColumn? =
        .ok (leastBy? m.count (L.primary.filter (L.picture settled).isOpen)) := by
      rw [Mesh.branchColumn?, hcolumns]
      rfl
    have hlength := (ht.open_rel hcharts horder).length_eq
    have hsame := ht.branch_rel hcharts horder hm
    rw [descend, descendBelow]
    apply RunAlike.look_bind_right hcolumns
    rw [dif_pos (hlength ▸ hbound), hlength]
    apply RunAlike.call_bind
    intro cancelled
    cases cancelled with
    | true => exact .refl m _
    | false =>
      apply RunAlike.look_bind hbranch
      generalize leastBy? m.count (L.primary.filter (L.picture settled).isOpen) = c? at hsame
      cases hitem : problem.branchItem? chosen with
      | none =>
        rw [hitem] at hsame
        cases hsame
        exact .refl m _
      | some x =>
        rw [hitem] at hsame
        cases hsame with
        | @some c _ hcx =>
        obtain ⟨hc, hopen, hx⟩ := hcx
        apply RunAlike.look_bind rfl
        refine search.branch_runAlike hcharts hunmixed hoptions
          (search.descend_follows hcharts hunmixed horder hoptions preSelected depth) hm ht hc
          hopen hx fun k hk p hp hrow hpc hfits m₁ option hm₁ hoption => ?_
        -- The row that is tried covers an open item, which makes the ring shorter.
        have hlt := Naive.Problem.length_openItems_lt hitem hk
        have hnext := ht.choose hcharts hp hrow hunmixed (hpc ▸ hc) hfits
        have hchosen : search.optionsOf (chosen ++ [k]) = search.optionsOf chosen ++ [option] := by
          simp [optionsOf, hoption]
        have hdeeper := ih hm₁ hnext (by omega) hlt
        rw [hchosen, ← List.append_assoc] at hdeeper
        exact hdeeper

/-- From a mesh on which the pre-selected items are settled, the search and the guarded search run
alike. -/
theorem run_runAlike (search : Search σ ο ε τ) (hcharts : m₀.Charts columns L problem.rows)
    (horder : (columns.map (·.1)).filter isPrimaryItem =
      (distinct problem.rows.flatten).filter isPrimaryItem)
    (hunmixed : Naive.Unmixed problem.rows)
    (hoptions : search.options.length = problem.rows.length) (preSelected : List ο)
    (hm : m.Displays L (L.picture settled)) (ht : Tracks columns L problem settled []) :
    RunAlike m (search.run preSelected) (search.runGuarded preSelected) := by
  have hopen : (problem.openItems []).length < n := by
    rw [← (ht.open_rel hcharts horder).length_eq]
    exact Nat.lt_of_le_of_lt (List.length_filter_le _ _) hcharts.atRest.primary.length_lt
  have hlimit : n < depthLimit n :=
    Nat.lt_of_lt_of_le (Nat.lt_succ_self n) (Nat.le_mul_of_pos_right _ (Nat.succ_pos n))
  have hdescend := search.descend_runAlike hcharts (hcharts.unmixed horder hunmixed) horder
    hoptions preSelected hm ht (Nat.lt_trans hopen hlimit) hopen
  have hnone : preSelected ++ search.optionsOf [] = preSelected := List.append_nil _
  rw [hnone] at hdescend
  apply RunAlike.call_bind
  intro _
  exact hdescend

end Search

end ExactCover
