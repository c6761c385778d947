import ExactCover.Proofs.Depth
import ExactCover.Proofs.Lawful
import ExactCover.Proofs.Preselected
import ExactCover.Proofs.Refine
import ExactCover.Proofs.Requests

/-!
# What a call does

A solver on a lawful grid is *ready* if it was not left in the middle of a search. Adding an option
to a ready solver that is not sealed fails exactly if the items of the option repeat. A call for a
search does one of three things. It is refused because a taken item is listed by no row
(`Ready.searchWith_eq_unknownItem`), and nothing but closing the grid has happened. It runs to its
end (`Ready.exists_searchWith_eq_ok`), and the mesh is as it was, up to the equality of colors. Or a
callback or the observer stops it (`Ready.exists_searchWith_eq_error`), and the solver is poisoned.

Which of these happens, and what happens to the world of the caller, is determined by the search on
lists alone.
-/

set_option autoImplicit false

namespace ExactCover

variable {γ ο ι χ σ ε τ : Type} [BEq ι] [BEq χ] [Item ι χ]

namespace Search

/-- Does to the world of the caller what the search does. -/
def plain (search : Search σ ο ε τ) (problem : Naive.Problem ι) (preSelected : List ο) :
    PlainM σ ε τ Unit := do
  PlainM.call search.trace.started
  search.explore problem preSelected ((problem.openItems []).length + 1) []

/-- Only foreign code stops a search. -/
theorem plain_possible (search : Search σ ο ε τ) (problem : Naive.Problem ι)
    (preSelected : List ο) : (search.plain problem preSelected).Possible := by
  apply (PlainM.Possible.call _).bind
  intro _
  exact search.explore_possible problem preSelected (Nat.lt_succ_self _)

/-- From a mesh on which the pre-selected items are settled, the search does what it does on lists,
and leads back to a mesh that is alike. -/
theorem run_follows [EquivBEq ι] [EquivBEq χ] {n : Nat} (search : Search σ ο ε τ)
    {m₀ m : Mesh n χ} {columns : List (ι × Nat)} {L : Layout n χ} {problem : Naive.Problem ι}
    (hcharts : m₀.Charts columns L problem.rows)
    (horder : (columns.map (·.1)).filter isPrimaryItem =
      (distinct problem.rows.flatten).filter isPrimaryItem)
    (hunmixed : Naive.Unmixed problem.rows)
    (hoptions : search.options.length = problem.rows.length) (preSelected : List ο)
    {settled : List (Fin n × Option χ)} (hm : m.Displays L (L.picture settled))
    (ht : Tracks columns L problem settled []) :
    Follows m.Alike m (search.run preSelected) (search.plain problem preSelected) := by
  have hopen : (problem.openItems []).length < n := by
    rw [← (ht.open_rel hcharts horder).length_eq]
    exact Nat.lt_of_le_of_lt (List.length_filter_le _ _) hcharts.atRest.primary.length_lt
  have hlimit : n < depthLimit n :=
    Nat.lt_of_lt_of_le (Nat.lt_succ_self n) (Nat.le_mul_of_pos_right _ (Nat.succ_pos n))
  have hdescend := search.descend_follows hcharts (hcharts.unmixed horder hunmixed) horder hoptions
    preSelected (depthLimit n) hm ht
  rw [search.explore_congr_depth problem preSelected (Nat.lt_trans hopen hlimit)
    (Nat.lt_succ_self _)] at hdescend
  apply Follows.call_bind
  intro _
  have hnone : preSelected ++ search.optionsOf [] = preSelected := List.append_nil _
  rw [hnone] at hdescend
  exact hdescend

end Search

theorem Phase.eq_clean {phase : Phase} {u : Unit} (h : phase.ensureClean = .ok u) :
    phase = .clean := by
  cases phase with
  | clean => rfl
  | searching => contradiction
  | poisoned => contradiction

namespace Solver

/-- The problem that a search is about. -/
def problem (solver : Solver γ ο ι σ τ) (preSelected : List ο) : Naive.Problem ι :=
  ⟨solver.options.map solver.items, preSelected.flatMap solver.items⟩

/-- No option gives a color to an item that has to be covered. -/
def Unmixed (solver : Solver γ ο ι σ τ) : Prop :=
  Naive.Unmixed (solver.options.map solver.items)

/-- The search that a call starts. -/
def searchFor (solver : Solver γ ο ι σ τ) (callbacks : Callbacks σ ο ε τ) : Search σ ο ε τ :=
  ⟨solver.options, solver.trace.getD .silent, callbacks⟩

/-- The solver with its grid closed. -/
def closed [Grid γ ι χ] (solver : Solver γ ο ι σ τ) : Solver γ ο ι σ τ :=
  { solver with grid := Grid.close solver.grid }

/-- The same solver in a world that also holds a list of reports. -/
def recording (solver : Solver γ ο ι σ τ) : Solver γ ο ι (σ × List (List ο)) τ :=
  { solver with trace := solver.trace.map (·.widen _) }

variable [Grid γ ι χ] [LawfulGrid γ] {solver : Solver γ ο ι σ τ}

/-- The solver can be used, and its grid has the rows of its options. -/
structure Ready (solver : Solver γ ο ι σ τ) : Prop where
  phase : solver.phase = .clean
  carries : LawfulGrid.Carries solver.grid (solver.options.map solver.items)

theorem ready_onGrid (items : ο → List ι) : (onGrid items : Solver γ ο ι σ τ).Ready :=
  ⟨rfl, LawfulGrid.carries_empty⟩

section Adding

variable [Describe ι] [EquivBEq ι] {option : ο}

omit [LawfulGrid γ] [EquivBEq ι] [BEq χ] [Item ι χ] in
theorem addOptions_cons_of_ok {extended : Solver γ ο ι σ τ}
    (hadd : solver.addOption option = .ok extended) (rest : List ο) :
    solver.addOptions (option :: rest) = extended.addOptions rest := by
  rw [addOptions, hadd]

omit [LawfulGrid γ] [EquivBEq ι] [BEq χ] [Item ι χ] in
theorem addOptions_cons_of_error {error : Error Empty}
    (hadd : solver.addOption option = .error error) (rest : List ο) :
    solver.addOptions (option :: rest) = (.error error, solver) := by
  rw [addOptions, hadd]

omit [LawfulGrid γ] [EquivBEq ι] [BEq χ] [Item ι χ] in
/-- One more option after others that were all added. -/
theorem addOptions_concat {options : List ο} {extended extended' : Solver γ ο ι σ τ}
    (hadd : solver.addOptions options = (.ok (), extended))
    (hlast : extended.addOption option = .ok extended') :
    solver.addOptions (options ++ [option]) = (.ok (), extended') := by
  induction options generalizing solver with
  | nil =>
    obtain rfl : solver = extended := congrArg Prod.snd hadd
    exact addOptions_cons_of_ok hlast []
  | cons first rest ih =>
    cases hfirst : solver.addOption first with
    | error error =>
      rw [addOptions_cons_of_error hfirst] at hadd
      cases hadd
    | ok next =>
      rw [addOptions_cons_of_ok hfirst] at hadd
      rw [List.cons_append, addOptions_cons_of_ok hfirst]
      exact ih hadd

omit [LawfulGrid γ] [EquivBEq ι] [BEq χ] [Item ι χ] in
/-- Adding an option succeeds in one way only. -/
theorem exists_of_addOption_eq_ok {extended : Solver γ ο ι σ τ}
    (hadd : solver.addOption option = .ok extended) :
    ∃ grid, Grid.addRow solver.grid solver.size (solver.items option) = .ok grid ∧
      extended = { solver with grid := grid, options := solver.options ++ [option] } ∧
      solver.isSealed = false ∧ firstRepeat? (solver.items option) = none := by
  rw [addOption] at hadd
  cases hensure : solver.phase.ensureClean with
  | error error =>
    rw [hensure] at hadd
    contradiction
  | ok _ =>
    rw [hensure] at hadd
    cases hsealed : solver.isSealed with
    | true =>
      simp only [hsealed, if_true] at hadd
      contradiction
    | false =>
      cases hrepeat : firstRepeat? (solver.items option) with
      | some item =>
        simp only [hsealed, hrepeat] at hadd
        contradiction
      | none =>
        cases hrow : Grid.addRow solver.grid solver.size (solver.items option) with
        | error error =>
          simp only [hsealed, hrepeat, hrow] at hadd
          contradiction
        | ok grid =>
          simp only [hsealed, hrepeat, hrow] at hadd
          exact ⟨grid, rfl, (Except.ok.inj hadd).symm, rfl, rfl⟩

omit [LawfulGrid γ] [EquivBEq ι] [BEq χ] [Item ι χ] in
/-- An option whose items repeat is refused. -/
theorem addOption_eq_error (hclean : solver.phase = .clean) (hopen : solver.isSealed = false)
    {item : ι} (hrepeat : firstRepeat? (solver.items option) = some item) :
    solver.addOption option = .error (.duplicateItem solver.size (describe item)) := by
  rw [addOption]
  simp only [hclean, Phase.ensureClean, hopen, hrepeat]
  rfl

omit [LawfulGrid γ] [EquivBEq ι] [BEq χ] [Item ι χ] in
/-- An option whose items do not repeat is added if the grid takes its row. -/
theorem addOption_eq_ok (hclean : solver.phase = .clean) (hopen : solver.isSealed = false)
    (hitems : firstRepeat? (solver.items option) = none) {grid : γ}
    (hadd : Grid.addRow solver.grid solver.size (solver.items option) = .ok grid) :
    solver.addOption option =
      .ok { solver with grid := grid, options := solver.options ++ [option] } := by
  rw [addOption]
  simp only [hclean, Phase.ensureClean, hopen, hitems, hadd]
  rfl

/-- An option whose items do not repeat is added. -/
theorem Ready.exists_addOption_eq_ok (h : solver.Ready) (hopen : solver.isSealed = false)
    (hitems : firstRepeat? (solver.items option) = none) :
    ∃ grid, Grid.addRow solver.grid solver.size (solver.items option) = .ok grid ∧
      solver.addOption option =
        .ok { solver with grid := grid, options := solver.options ++ [option] } ∧
      Ready { solver with grid := grid, options := solver.options ++ [option] } ∧
      Grid.isSealed grid = false := by
  have hsize : (solver.options.map solver.items).length = solver.size := List.length_map _
  obtain ⟨grid, hadd, hcarries, hopen'⟩ :=
    LawfulGrid.exists_addRow h.carries (firstRepeat?_eq_none_iff.mp hitems) hopen
  rw [hsize, id_eq] at hadd
  refine ⟨grid, hadd, addOption_eq_ok h.phase hopen hitems hadd, ⟨h.phase, ?_⟩, hopen'⟩
  rw [List.map_append]
  exact hcarries

/-- Options whose items do not repeat are all added. -/
theorem Ready.exists_addOptions_eq_ok (h : solver.Ready) (hopen : solver.isSealed = false)
    {options : List ο} (hitems : ∀ option ∈ options, firstRepeat? (solver.items option) = none) :
    ∃ grid, solver.addOptions options =
        (.ok (), { solver with grid := grid, options := solver.options ++ options }) ∧
      Ready { solver with grid := grid, options := solver.options ++ options } := by
  induction options generalizing solver with
  | nil =>
    rw [List.append_nil]
    exact ⟨solver.grid, rfl, h⟩
  | cons option rest ih =>
    obtain ⟨grid, -, hadd, hready, hopen'⟩ :=
      h.exists_addOption_eq_ok hopen (hitems option (by simp))
    obtain ⟨grid', hrest, hready'⟩ :=
      ih hready hopen' fun option hmem => hitems option (List.mem_cons_of_mem _ hmem)
    rw [List.append_assoc] at hrest hready'
    refine ⟨grid', ?_, hready'⟩
    rw [addOptions_cons_of_ok hadd]
    exact hrest

end Adding

/-- Restoring a grid whose columns can be uncovered succeeds. -/
theorem restore_eq {grid : γ} {rows : List (List ι)} (hcarries : LawfulGrid.Carries grid rows)
    {columns : List (Fin (Grid.board grid).size)} {mesh mesh' : Mesh (Grid.board grid).size χ}
    (huncover : mesh.uncoverAll columns = .ok mesh') (halike : (Grid.board grid).mesh.Alike mesh') :
    restore grid columns mesh = .ok (Grid.withMesh grid mesh') := by
  have hconsistent := LawfulGrid.isConsistent_eq (LawfulGrid.carries_withMesh hcarries halike)
  rw [restore, huncover]
  show (do
    if ← Grid.isConsistent (Grid.withMesh grid mesh') then .ok (Grid.withMesh grid mesh')
    else .error .notRestored) = _
  rw [hconsistent]
  rfl

variable [Describe ι]

omit [LawfulGrid γ] [Item ι χ] in
/-- A search is refused if the board finds no column for an item to be taken. -/
theorem searchWith_eq_unknownItem (hclean : solver.phase = .clean) (callbacks : Callbacks σ ο ε τ)
    {preSelected : List ο} {item : ι}
    (hcolumns : (Grid.board (Grid.close solver.grid)).columnsOf
      (preSelected.flatMap solver.items) = .error item) (world : σ) :
    solver.searchWith callbacks preSelected world =
      (.error (.failed (.unknownItem (describe item))), solver.closed, world) := by
  rw [searchWith]
  simp only [hclean, Phase.ensureClean, hcolumns, closed]

/-- A search is refused if an item to be taken is listed by no row. -/
theorem Ready.searchWith_eq_unknownItem [EquivBEq ι] (h : solver.Ready)
    (callbacks : Callbacks σ ο ε τ) {preSelected : List ο} {item : ι}
    (hmissing : (solver.problem preSelected).missing? = some item) (world : σ) :
    solver.searchWith callbacks preSelected world =
      (.error (.failed (.unknownItem (describe item))), solver.closed, world) :=
  Solver.searchWith_eq_unknownItem h.phase callbacks
    ((LawfulGrid.presents_close h.carries).columnsOf_eq_error hmissing) world

section Unmixed

variable [EquivBEq ι] [EquivBEq χ]

omit [Describe ι] in
/-- Covering the columns of the taken items settles them, and uncovering the columns undoes it. -/
theorem Ready.exists_start (h : solver.Ready) {preSelected : List ο}
    (hmissing : (solver.problem preSelected).missing? = none) :
    ∃ (columns : List (Fin (Grid.board (Grid.close solver.grid)).size))
        (mesh : Mesh (Grid.board (Grid.close solver.grid)).size χ)
        (L : Layout (Grid.board (Grid.close solver.grid)).size χ)
        (settled : List (Fin (Grid.board (Grid.close solver.grid)).size × Option χ)),
      (Grid.board (Grid.close solver.grid)).columnsOf (preSelected.flatMap solver.items) =
        .ok columns ∧
      Mesh.RoundTrip (fun m => m.coverAll columns) (fun m => m.uncoverAll columns)
        (Grid.board (Grid.close solver.grid)).mesh mesh ∧
      (Grid.board (Grid.close solver.grid)).mesh.Charts
        (Grid.board (Grid.close solver.grid)).columns L (solver.problem preSelected).rows ∧
      mesh.Displays L (L.picture settled) ∧
      Tracks (Grid.board (Grid.close solver.grid)).columns L (solver.problem preSelected)
        settled [] := by
  have hpresents := LawfulGrid.presents_close h.carries
  obtain ⟨columns, hcolumns, hlabels⟩ := hpresents.exists_columnsOf hmissing
  obtain ⟨L, hcharts, hclosed⟩ := hpresents.holds
  replace hlabels := hlabels.imp fun c item hc =>
    (Board.column?_eq_some_iff hcharts.toPlots).mp hc
  have hstart := hcharts.atRest.displays hclosed
  have hnodup := hcharts.nodup_of_labels hlabels (unrepeated_distinct _)
  have hheaders : ∀ c ∈ columns, c ∈ L.headers := by
    intro c hc
    obtain ⟨item, -, hlabel⟩ := exists_of_forall₂ hlabels hc
    exact hcharts.mem_headers hlabel
  obtain ⟨mesh, htrip, hmesh⟩ :=
    hstart.exists_coverAll hcharts.proper hheaders hnodup fun c _ => List.not_mem_nil
  exact ⟨columns, mesh, L, _, hcolumns, htrip, hcharts, hmesh, tracks_start hcharts hlabels⟩

omit [Describe ι] in
/-- Covering the columns of the taken items prepares the search on a mesh, which then does what the
search on lists does, and uncovering them undoes it. -/
theorem Ready.exists_coverAll (h : solver.Ready) (hunmixed : solver.Unmixed)
    (callbacks : Callbacks σ ο ε τ) {preSelected : List ο}
    (hmissing : (solver.problem preSelected).missing? = none) :
    ∃ columns mesh, (Grid.board (Grid.close solver.grid)).columnsOf
        (preSelected.flatMap solver.items) = .ok columns ∧
      Mesh.RoundTrip (fun m => m.coverAll columns) (fun m => m.uncoverAll columns)
        (Grid.board (Grid.close solver.grid)).mesh mesh ∧
      Follows mesh.Alike mesh ((solver.searchFor callbacks).run preSelected)
        ((solver.searchFor callbacks).plain (solver.problem preSelected) preSelected) := by
  obtain ⟨columns, mesh, L, settled, hcolumns, htrip, hcharts, hmesh, htracks⟩ :=
    h.exists_start hmissing
  have hoptions : (solver.searchFor callbacks).options.length =
      (solver.problem preSelected).rows.length := (List.length_map _).symm
  exact ⟨columns, mesh, hcolumns, htrip, (solver.searchFor callbacks).run_follows hcharts
    (LawfulGrid.presents_close h.carries).primary hunmixed hoptions preSelected hmesh htracks⟩

variable {preSelected : List ο} {world world' : σ}

/-- A search that comes to its end leaves the solver as it was, up to the equality of colors. -/
theorem Ready.exists_searchWith_eq_ok (h : solver.Ready) (hunmixed : solver.Unmixed)
    (callbacks : Callbacks σ ο ε τ)
    (hmissing : (solver.problem preSelected).missing? = none)
    (hplain : ((solver.searchFor callbacks).plain (solver.problem preSelected) preSelected).run.run
      world = (.ok (), world')) :
    ∃ mesh, (Grid.board (Grid.close solver.grid)).mesh.Alike mesh ∧
      solver.searchWith callbacks preSelected world =
        (.ok (), { solver.closed with grid := Grid.withMesh (Grid.close solver.grid) mesh },
          world') := by
  obtain ⟨columns, mesh, hcolumns, htrip, hfollows⟩ := h.exists_coverAll hunmixed callbacks hmissing
  obtain ⟨mesh', hrun, hmesh'⟩ := hfollows world
  rw [hplain] at hrun hmesh'
  obtain ⟨restored, hback, halike⟩ := htrip.exists_back mesh' (hmesh' () rfl)
  have hrestore := restore_eq (LawfulGrid.carries_close h.carries) hback halike
  have hcover := htrip.forth_eq
  refine ⟨restored, halike, ?_⟩
  rw [searchFor] at hrun
  rw [searchWith]
  simp only [h.phase, Phase.ensureClean, hcolumns, hcover, hrun, hrestore, finished, closed]

/-- A search that is stopped leaves the solver poisoned. -/
theorem Ready.exists_searchWith_eq_error (h : solver.Ready) (hunmixed : solver.Unmixed)
    (callbacks : Callbacks σ ο ε τ)
    (hmissing : (solver.problem preSelected).missing? = none) {stop : Stop ε τ}
    (hplain : ((solver.searchFor callbacks).plain (solver.problem preSelected) preSelected).run.run
      world = (.error stop, world')) :
    ∃ mesh, solver.searchWith callbacks preSelected world =
      (.error (.ofStop stop), solver.closed.interrupted
        (Grid.withMesh (Grid.close solver.grid) mesh), world') := by
  obtain ⟨columns, mesh, hcolumns, htrip, hfollows⟩ := h.exists_coverAll hunmixed callbacks hmissing
  obtain ⟨mesh', hrun, -⟩ := hfollows world
  rw [hplain] at hrun
  have hcover := htrip.forth_eq
  refine ⟨mesh', ?_⟩
  rw [searchFor] at hrun
  rw [searchWith]
  simp only [h.phase, Phase.ensureClean, hcolumns, hcover, hrun, interrupted, closed]

omit [LawfulGrid γ] [EquivBEq ι] [EquivBEq χ] [Grid γ ι χ] in
/-- How a call for a search ends, and what it does to the phase and to the world of the caller,
worked out on lists. The grid has no part in it. -/
def outcome (solver : Solver γ ο ι σ τ) (callbacks : Callbacks σ ο ε τ) (preSelected : List ο)
    (world : σ) : Except (Halt ε τ) Unit × Phase × σ :=
  match solver.phase.ensureClean with
  | .error error => (.error (.failed (.state error)), solver.phase, world)
  | .ok () =>
    match (solver.problem preSelected).missing? with
    | some item => (.error (.failed (.unknownItem (describe item))), solver.phase, world)
    | none =>
      match ((solver.searchFor callbacks).plain (solver.problem preSelected) preSelected).run.run
        world with
      | (.error stop, world) => (.error (.ofStop stop), .poisoned, world)
      | (.ok (), world) => (.ok (), solver.phase, world)

/-- The grid has the rows of the options unless a search was interrupted. -/
def Kept (solver : Solver γ ο ι σ τ) : Prop :=
  solver.phase = .clean → LawfulGrid.Carries solver.grid (solver.options.map solver.items)

omit [Describe ι] [EquivBEq ι] [EquivBEq χ] in
theorem kept_onGrid (items : ο → List ι) : (onGrid items : Solver γ ο ι σ τ).Kept :=
  fun _ => (ready_onGrid items).carries

/-- A call for a search ends as worked out on lists, whatever the phase. It closes the grid if the
solver is clean, and keeps its rows unless it is interrupted. -/
theorem Kept.exists_searchWith_eq_of_unmixed (h : solver.Kept) (hunmixed : solver.Unmixed)
    (callbacks : Callbacks σ ο ε τ) (preSelected : List ο) (world : σ) :
    ∃ grid, solver.searchWith callbacks preSelected world =
        ((solver.outcome callbacks preSelected world).1,
          { solver with
            grid := grid, phase := (solver.outcome callbacks preSelected world).2.1 },
          (solver.outcome callbacks preSelected world).2.2) ∧
      Kept { solver with
        grid := grid, phase := (solver.outcome callbacks preSelected world).2.1 } ∧
      Grid.isSealed grid =
        if solver.phase = .clean then solver.closed.isSealed else solver.isSealed := by
  cases hensure : solver.phase.ensureClean with
  | error error =>
    have hphase : solver.phase ≠ .clean := by
      intro hclean
      rw [hclean] at hensure
      contradiction
    have houtcome : solver.outcome callbacks preSelected world =
        (.error (.failed (.state error)), solver.phase, world) := by
      rw [outcome, hensure]
    have hsearch : solver.searchWith callbacks preSelected world =
        (.error (.failed (.state error)), solver, world) := by
      rw [searchWith, hensure]
    rw [houtcome, hsearch]
    exact ⟨solver.grid, rfl, fun hclean => absurd hclean hphase, (if_neg hphase).symm⟩
  | ok _ =>
    have hphase : solver.phase = .clean := Phase.eq_clean hensure
    have hready : solver.Ready := ⟨hphase, h hphase⟩
    have hclosed := LawfulGrid.carries_close hready.carries
    rw [outcome]
    simp only [hphase, Phase.ensureClean, if_true]
    cases hmissing : (solver.problem preSelected).missing? with
    | some item =>
      refine ⟨Grid.close solver.grid, ?_, fun _ => hclosed, rfl⟩
      rw [hready.searchWith_eq_unknownItem callbacks hmissing, closed, hphase]
    | none =>
      cases hplain : ((solver.searchFor callbacks).plain (solver.problem preSelected)
        preSelected).run.run world with
      | mk result world' =>
        cases result with
        | ok _ =>
          obtain ⟨mesh, halike, hsearch⟩ :=
            hready.exists_searchWith_eq_ok hunmixed callbacks hmissing hplain
          refine ⟨Grid.withMesh (Grid.close solver.grid) mesh, ?_, fun _ => ?_, ?_⟩
          · rw [hsearch, closed, hphase]
          · exact LawfulGrid.carries_withMesh hclosed halike
          · exact LawfulGrid.isSealed_withMesh _ _
        | error stop =>
          obtain ⟨mesh, hsearch⟩ :=
            hready.exists_searchWith_eq_error hunmixed callbacks hmissing hplain
          refine ⟨Grid.withMesh (Grid.close solver.grid) mesh, ?_, fun hclean => ?_, ?_⟩
          · rw [hsearch]
            rfl
          · contradiction
          · exact LawfulGrid.isSealed_withMesh _ _

end Unmixed

variable [LawfulItem ι] [EquivBEq χ] {preSelected : List ο}

theorem Kept.exists_searchWith_eq (h : solver.Kept) (callbacks : Callbacks σ ο ε τ)
    (preSelected : List ο) (world : σ) :
    ∃ grid, solver.searchWith callbacks preSelected world =
        ((solver.outcome callbacks preSelected world).1,
          { solver with
            grid := grid, phase := (solver.outcome callbacks preSelected world).2.1 },
          (solver.outcome callbacks preSelected world).2.2) ∧
      Kept { solver with
        grid := grid, phase := (solver.outcome callbacks preSelected world).2.1 } ∧
      Grid.isSealed grid =
        if solver.phase = .clean then solver.closed.isSealed else solver.isSealed :=
  h.exists_searchWith_eq_of_unmixed (Naive.unmixed _) callbacks preSelected world

omit [EquivBEq χ] in
/-- Where equal colors are identical, a search that no foreign code stops does nothing to the solver
but close its grid. -/
theorem Ready.searchWith_eq_closed [LawfulBEq χ] (h : solver.Ready)
    (callbacks : Callbacks σ ο ε τ) (preSelected : List ο) (world : σ)
    (hundisturbed : isUndisturbed (solver.searchWith callbacks preSelected world).1) :
    (solver.searchWith callbacks preSelected world).2.1 = solver.closed := by
  cases hmissing : (solver.problem preSelected).missing? with
  | some item => rw [h.searchWith_eq_unknownItem callbacks hmissing]
  | none =>
    cases hplain : ((solver.searchFor callbacks).plain (solver.problem preSelected)
      preSelected).run.run world with
    | mk result world' =>
      cases result with
      | ok _ =>
        obtain ⟨mesh, halike, hsearch⟩ :=
          h.exists_searchWith_eq_ok (Naive.unmixed _) callbacks hmissing hplain
        obtain rfl := halike.eq
        rw [hsearch]
        exact congrArg (fun grid => { solver.closed with grid := grid })
          (LawfulGrid.withMesh_mesh (Grid.close solver.grid))
      | error stop =>
        obtain ⟨mesh, hsearch⟩ :=
          h.exists_searchWith_eq_error (Naive.unmixed _) callbacks hmissing hplain
        rw [hsearch] at hundisturbed
        cases stop with
        | failed error => contradiction
        | thrown value => contradiction
        | impossible fault =>
          have hpossible := (solver.searchFor callbacks).plain_possible
            (solver.problem preSelected) preSelected
          exact absurd (congrArg Prod.fst hplain) (hpossible world fault)

omit [EquivBEq χ] [LawfulItem ι] in
/-- Closing the grid beforehand makes no difference to a search. -/
theorem Ready.searchWith_closed (h : solver.Ready) (callbacks : Callbacks σ ο ε τ)
    (preSelected : List ο) (world : σ) :
    solver.closed.searchWith callbacks preSelected world =
      solver.searchWith callbacks preSelected world := by
  rw [searchWith, searchWith]
  simp only [closed, h.phase, Phase.ensureClean]
  rw [LawfulGrid.close_close]

/-! ## Listing all solutions -/

/-- Callbacks that put every solution in front of the list that the world ends with. -/
def collecting : Callbacks (σ × List (List ο)) ο Empty τ where
  solution chosen := do
    modify fun (world, found) => (world, chosen :: found)
    pure (.ok ())
  cancel := pure false

omit [Item ι χ] [LawfulGrid γ] [LawfulItem ι] [EquivBEq χ] in
/-- All solutions are listed by searching with callbacks that collect them. -/
theorem allSolutions_eq (solver : Solver γ ο ι σ τ) (world : σ) :
    let searched := solver.recording.searchWith collecting [] (world, [])
    solver.allSolutions world = (searched.1.map fun _ => searched.2.2.2.reverse,
      { searched.2.1 with trace := solver.trace }, searched.2.2.1) :=
  rfl

end Solver

end ExactCover
