import ExactCover.Constraint
import ExactCover.Proofs.Filing
import ExactCover.Proofs.Lifecycle

/-!
# Options and their rows

The options of a solver and the rows of its grid are two lists that have to stay in step: a search
reports an option by the number that it finds in a cell. An option can be refused for three reasons
and a search for one more. Whatever is refused leaves everything as it was, and what is accepted is
added to both lists under the same number (`Registers`).

The invariant behind this (`Registered`) asks for little, so that it survives any history. Items may
be equal and differ in kind, and a search may have been stopped anywhere. All that is known of the
grid then is that it retains its rows, which is enough to add further rows if the solver is clean,
to find the columns of pre-selected items, and to read off which cells belong to which option.
-/

set_option autoImplicit false

namespace ExactCover

variable {γ ο ι χ σ ε τ : Type}

namespace Solver

section Known

variable [BEq ι] {solver : Solver γ ο ι σ τ} {preSelected : List ο} {item : ι}

/-- Some option lists the item. -/
def Knows (solver : Solver γ ο ι σ τ) (item : ι) : Prop :=
  ∃ option ∈ solver.options, ∃ x ∈ solver.items option, x == item

theorem lists_problem_iff :
    Naive.lists (solver.problem preSelected).rows.flatten item ↔ solver.Knows item := by
  have hlists : Naive.lists (solver.problem preSelected).rows.flatten item ↔
      ∃ x, (∃ option ∈ solver.options, x ∈ solver.items option) ∧ x == item := by
    simp [Naive.lists_iff, problem]
  rw [hlists]
  constructor
  · rintro ⟨x, ⟨option, hoption, hx⟩, heq⟩
    exact ⟨option, hoption, x, hx, heq⟩
  · rintro ⟨option, hoption, x, hx, heq⟩
    exact ⟨x, ⟨option, hoption, hx⟩, heq⟩

variable [EquivBEq ι]

/-- An item that is missing is the first one that no option lists. -/
theorem missing?_eq_some_iff : (solver.problem preSelected).missing? = some item ↔
    ¬ solver.Knows item ∧ ∃ before after,
      preSelected.flatMap solver.items = before ++ item :: after ∧
        ∀ x ∈ before, solver.Knows x := by
  have hcongr : ∀ {x y : ι}, x == y →
      (!Naive.lists (solver.problem preSelected).rows.flatten x) =
        !Naive.lists (solver.problem preSelected).rows.flatten y := by
    intro x y hxy
    rw [Bool.eq_iff_iff.mpr (Naive.lists_congr hxy)]
  rw [Naive.Problem.missing?, find?_distinct hcongr, List.find?_eq_some_iff_append]
  simp only [Bool.not_not, Bool.not_eq_true', ← Bool.not_eq_true, lists_problem_iff]
  rfl

/-- No item is missing if every item of the pre-selected options is listed by an option. -/
theorem missing?_eq_none_iff : (solver.problem preSelected).missing? = none ↔
    ∀ item ∈ preSelected.flatMap solver.items, solver.Knows item := by
  constructor
  · intro hmissing item hitem
    rw [Naive.Problem.missing?, List.find?_eq_none] at hmissing
    obtain ⟨x, hx, hitemx⟩ := exists_mem_distinct hitem
    have hlists := hmissing x hx
    rw [Bool.not_eq_true', Bool.not_eq_false, ← Naive.lists_congr hitemx,
      lists_problem_iff] at hlists
    exact hlists
  · intro hknown
    cases hmissing : (solver.problem preSelected).missing? with
    | none => rfl
    | some item =>
      obtain ⟨hunknown, before, after, hsplit, -⟩ := missing?_eq_some_iff.mp hmissing
      exact absurd (hknown item (by simp [hsplit])) hunknown

end Known

variable [BEq ι] [BEq χ] [Item ι χ] [Describe ι] [Grid γ ι χ] [RetentiveGrid γ]
  {solver : Solver γ ο ι σ τ} {option : ο} {preSelected : List ο}

omit [Describe ι] in
/-- The solver is not in the middle of a search, and its grid retains the rows of its options. -/
structure Registered (solver : Solver γ ο ι σ τ) : Prop where
  idle : solver.phase ≠ .searching
  retains : RetentiveGrid.Retains solver.grid (solver.options.map solver.items)

omit [Describe ι] in
theorem registered_onGrid (items : ο → List ι) : (onGrid items : Solver γ ο ι σ τ).Registered :=
  ⟨nofun, RetentiveGrid.retains_empty⟩

omit [BEq χ] [Item ι χ] [Describe ι] [RetentiveGrid γ] in
/-- The solver is able to take the option. -/
structure Takes (solver : Solver γ ο ι σ τ) (option : ο) : Prop where
  clean : solver.phase = .clean
  isOpen : solver.isSealed = false
  unrepeated : Unrepeated (solver.items option)

omit [BEq χ] [Item ι χ] [RetentiveGrid γ] in
/-- Why the solver does not take the option. The first reason that applies is given. -/
inductive Refuses (solver : Solver γ ο ι σ τ) (option : ο) : Error Empty → Prop
  | poisoned (hphase : solver.phase = .poisoned) : Refuses solver option (.state .poisoned)
  | sealed (hclean : solver.phase = .clean) (hsealed : solver.isSealed) :
      Refuses solver option (.state .sealed)
  /-- The item is the first one that is equal to an earlier one. -/
  | repeated (hclean : solver.phase = .clean) (hopen : solver.isSealed = false)
      {before after : List ι} {item : ι} (hitems : solver.items option = before ++ item :: after)
      (hbefore : Unrepeated before) (hearlier : ∃ x ∈ before, x == item) :
      Refuses solver option (.duplicateItem solver.size (describe item))

omit [BEq χ] [Item ι χ] [RetentiveGrid γ] in
/-- Options that were added one after another, and the one at which that came to an end, if any. -/
structure AddsInTurn (solver : Solver γ ο ι σ τ) (options added rest : List ο) : Prop where
  split : options = added ++ rest
  inTurn : added.foldlM addOption solver = .ok (solver.addOptions options).2
  options_eq : (solver.addOptions options).2.options = solver.options ++ added
  /-- All options were added, or the call answers why the first of the others was refused. -/
  answer : rest = [] ∧ (solver.addOptions options).1 = .ok () ∨
    ∃ option later error, rest = option :: later ∧
      (solver.addOptions options).2.addOption option = .error error ∧
      (solver.addOptions options).1 = .error error

section Adding

variable [EquivBEq ι] {extended : Solver γ ο ι σ τ}

/-- A solver that has its rows on file takes an option that it is able to take. -/
theorem Registered.exists_addOption_eq_ok (h : solver.Registered) (htakes : solver.Takes option) :
    ∃ grid, solver.addOption option =
        .ok { solver with grid := grid, options := solver.options ++ [option] } ∧
      Registered { solver with grid := grid, options := solver.options ++ [option] } := by
  have hsize : (solver.options.map solver.items).length = solver.size := List.length_map _
  obtain ⟨grid, hadd, hretains⟩ :=
    RetentiveGrid.exists_addRow h.retains htakes.unrepeated htakes.isOpen
  rw [hsize] at hadd
  refine ⟨grid, addOption_eq_ok htakes.clean htakes.isOpen
    (firstRepeat?_eq_none_iff.mpr htakes.unrepeated) hadd, h.idle, ?_⟩
  rw [List.map_append]
  exact hretains

omit [BEq χ] [Item ι χ] [RetentiveGrid γ] in
/-- A solver takes no other options. -/
theorem takes_of_addOption_eq_ok (hadd : solver.addOption option = .ok extended) :
    solver.Takes option := by
  obtain ⟨-, -, -, hopen, hrepeat⟩ := exists_of_addOption_eq_ok hadd
  refine ⟨?_, hopen, firstRepeat?_eq_none_iff.mp hrepeat⟩
  cases hensure : solver.phase.ensureClean with
  | ok _ => exact Phase.eq_clean hensure
  | error error =>
    rw [addOption, hensure] at hadd
    contradiction

theorem Registered.addOption (h : solver.Registered)
    (hadd : solver.addOption option = .ok extended) :
    extended.Registered ∧ extended.items = solver.items := by
  obtain ⟨grid, hadd', hextended⟩ := h.exists_addOption_eq_ok (takes_of_addOption_eq_ok hadd)
  rw [hadd] at hadd'
  rw [Except.ok.inj hadd']
  exact ⟨hextended, rfl⟩

/-- An option that a solver does not take is refused for one of the reasons. -/
theorem Registered.exists_refuses (h : solver.Registered) (hnot : ¬ solver.Takes option) :
    ∃ error, solver.Refuses option error ∧ solver.addOption option = .error error := by
  cases hphase : solver.phase with
  | searching => exact absurd hphase h.idle
  | poisoned => exact ⟨_, .poisoned hphase, addOption_of_poisoned hphase option⟩
  | clean =>
    cases hsealed : solver.isSealed with
    | true =>
      obtain ⟨error, hadd, hreason⟩ := exists_addOption_of_sealed hsealed option
      rw [hreason hphase] at hadd
      exact ⟨_, .sealed hphase hsealed, hadd⟩
    | false =>
      cases hrepeat : firstRepeat? (solver.items option) with
      | none => exact absurd ⟨hphase, hsealed, firstRepeat?_eq_none_iff.mp hrepeat⟩ hnot
      | some item =>
        obtain ⟨before, after, hitems, hbefore, hearlier⟩ :=
          exists_of_firstRepeat?_eq_some hrepeat
        exact ⟨_, .repeated hphase hsealed hitems hbefore hearlier,
          addOption_eq_error hphase hsealed hrepeat⟩

theorem Registered.addOptions (h : solver.Registered) (options : List ο) :
    (solver.addOptions options).2.Registered ∧
      (solver.addOptions options).2.items = solver.items := by
  induction options generalizing solver with
  | nil => exact ⟨h, rfl⟩
  | cons option rest ih =>
    cases hadd : solver.addOption option with
    | error error =>
      rw [addOptions_cons_of_error hadd]
      exact ⟨h, rfl⟩
    | ok extended =>
      obtain ⟨hextended, hitems⟩ := h.addOption hadd
      obtain ⟨hall, hitems'⟩ := ih hextended
      rw [addOptions_cons_of_ok hadd]
      exact ⟨hall, hitems'.trans hitems⟩

omit [BEq χ] [Item ι χ] [RetentiveGrid γ] [EquivBEq ι] in
/-- Adding several options is adding one after another until one of them is refused. -/
theorem exists_addsInTurn (solver : Solver γ ο ι σ τ) (options : List ο) :
    ∃ added rest, solver.AddsInTurn options added rest := by
  induction options generalizing solver with
  | nil => exact ⟨[], [], rfl, rfl, (List.append_nil _).symm, .inl ⟨rfl, rfl⟩⟩
  | cons option options ih =>
    cases hadd : solver.addOption option with
    | error error =>
      have hall := addOptions_cons_of_error hadd options
      refine ⟨[], option :: options, rfl, ?_, ?_, .inr ⟨option, options, error, rfl, ?_, ?_⟩⟩
      · rw [hall]
        rfl
      · rw [hall]
        exact (List.append_nil _).symm
      · rw [hall]
        exact hadd
      · rw [hall]
    | ok extended =>
      obtain ⟨grid, -, hextended, -⟩ := exists_of_addOption_eq_ok hadd
      have hgrown : extended.options = solver.options ++ [option] := by rw [hextended]
      have hall := addOptions_cons_of_ok hadd options
      obtain ⟨added, rest, hturn⟩ := ih extended
      refine ⟨option :: added, rest, ?_, ?_, ?_, ?_⟩
      · rw [hturn.split, List.cons_append]
      · rw [hall, List.foldlM_cons, hadd]
        exact hturn.inTurn
      · rw [hall, hturn.options_eq, hgrown, List.append_assoc]
        rfl
      · rw [hall]
        exact hturn.answer

end Adding

section Searching

variable [EquivBEq ι] [EquivBEq χ]

omit [BEq ι] [BEq χ] [Item ι χ] [Describe ι] [RetentiveGrid γ] [EquivBEq ι] [EquivBEq χ] in
/-- A grid that is restored has a mesh on which the columns were uncovered. -/
theorem exists_of_restore_eq_ok {grid restored : γ} {columns : List (Fin (Grid.board grid).size)}
    {mesh : Mesh (Grid.board grid).size χ} (h : restore grid columns mesh = .ok restored) :
    ∃ mesh', mesh.uncoverAll columns = .ok mesh' ∧ restored = Grid.withMesh grid mesh' := by
  rw [restore] at h
  obtain ⟨mesh', huncover, h⟩ := exists_of_bind_eq_ok h
  obtain ⟨intact, -, h⟩ := exists_of_bind_eq_ok h
  refine ⟨mesh', huncover, ?_⟩
  cases intact with
  | true => exact (Except.ok.inj h).symm
  | false => contradiction

/-- If no item is missing, a search is not refused. However it ends, the solver retains its rows. -/
theorem Registered.exists_searchWith_eq_of_known (h : solver.Registered)
    (hclean : solver.phase = .clean) (hmissing : (solver.problem preSelected).missing? = none)
    (callbacks : Callbacks σ ο ε τ) (world : σ) : ∃ result grid phase world',
      solver.searchWith callbacks preSelected world =
        (result, { solver with grid := grid, phase := phase }, world') ∧
      Registered { solver with grid := grid, phase := phase } ∧
      ∀ text, result ≠ .error (.failed (.unknownItem text)) := by
  obtain ⟨L, hL, horderly, hheaders, hretains⟩ := RetentiveGrid.exists_layout h.retains
  have hboard : (Grid.board (Grid.close solver.grid)).Retains (solver.problem preSelected).rows :=
    RetentiveGrid.retains_board h.retains
  obtain ⟨columns, hcolumns, -⟩ := hboard.exists_columnsOf hmissing
  replace hheaders := hheaders hcolumns
  rw [problem] at hcolumns
  rw [searchWith]
  cases hcover : (Grid.board (Grid.close solver.grid)).mesh.coverAll columns with
  | error fault =>
    refine ⟨.error (.impossible fault), Grid.close solver.grid, solver.phase, world, ?_,
      ⟨h.idle, RetentiveGrid.retains_close h.retains⟩, by simp⟩
    simp only [hclean, Phase.ensureClean, hcolumns, hcover]
  | ok mesh =>
    have hmesh := (solver.searchFor callbacks).orderly_run hL preSelected
      (horderly.coverAll hL hheaders hcover) world
    rw [searchFor] at hmesh
    cases hrun : ((Search.mk solver.options (solver.trace.getD .silent) callbacks).run
      preSelected).run.run (mesh, world) with
    | mk result rest =>
    obtain ⟨mesh', world'⟩ := rest
    rw [hrun] at hmesh
    cases result with
    | error stop =>
      refine ⟨.error (.ofStop stop), Grid.withMesh (Grid.close solver.grid) mesh', .poisoned,
        world', ?_, ⟨by simp, hretains hmesh⟩, ?_⟩
      · simp only [hclean, Phase.ensureClean, hcolumns, hcover, hrun, interrupted]
      · cases stop <;> simp [Halt.ofStop]
    | ok _ =>
      cases hrestore : restore (Grid.close solver.grid) columns mesh' with
      | error fault =>
        refine ⟨.error (.impossible fault), Grid.withMesh (Grid.close solver.grid) mesh',
          .poisoned, world', ?_, ⟨by simp, hretains hmesh⟩, by simp⟩
        simp only [hclean, Phase.ensureClean, hcolumns, hcover, hrun, hrestore, interrupted]
      | ok grid =>
        obtain ⟨restored, huncover, hgrid⟩ := exists_of_restore_eq_ok hrestore
        rw [hgrid] at hrestore
        refine ⟨.ok (), Grid.withMesh (Grid.close solver.grid) restored, .clean, world', ?_,
          ⟨by simp, hretains (hmesh.uncoverAll hL hheaders huncover)⟩, by simp⟩
        simp only [hclean, Phase.ensureClean, hcolumns, hcover, hrun, hrestore, finished]

omit [EquivBEq χ] in
/-- If an item is missing, a search is refused. -/
theorem Registered.searchWith_eq_unknownItem (h : solver.Registered)
    (hclean : solver.phase = .clean) {item : ι}
    (hmissing : (solver.problem preSelected).missing? = some item) (callbacks : Callbacks σ ο ε τ)
    (world : σ) : solver.searchWith callbacks preSelected world =
      (.error (.failed (.unknownItem (describe item))), solver.closed, world) := by
  have hboard : (Grid.board (Grid.close solver.grid)).Retains (solver.problem preSelected).rows :=
    RetentiveGrid.retains_board h.retains
  exact Solver.searchWith_eq_unknownItem hclean callbacks (hboard.columnsOf_eq_error hmissing) world

omit [EquivBEq χ] in
/-- A search that is refused calls no foreign code. -/
theorem Registered.exchanges_eq_nil (h : solver.Registered) (hclean : solver.phase = .clean)
    {item : ι} (hmissing : (solver.problem preSelected).missing? = some item)
    (callbacks : Callbacks σ ο ε τ) (world : σ) :
    solver.exchanges callbacks preSelected world = [] := by
  have hnoted : (solver.noted (id : Exchange ο ε τ → _)).Registered := ⟨h.idle, h.retains⟩
  rw [exchanges, hnoted.searchWith_eq_unknownItem hclean hmissing]

/-- Whatever happens in a search, only the grid and the phase of the solver change, and it retains
its rows. -/
theorem Registered.exists_searchWith_eq (h : solver.Registered) (callbacks : Callbacks σ ο ε τ)
    (preSelected : List ο) (world : σ) :
    ∃ grid phase, (solver.searchWith callbacks preSelected world).2.1 =
        { solver with grid := grid, phase := phase } ∧
      Registered { solver with grid := grid, phase := phase } := by
  cases hphase : solver.phase with
  | searching => exact absurd hphase h.idle
  | poisoned =>
    rw [searchWith_of_poisoned hphase]
    exact ⟨solver.grid, solver.phase, rfl, h⟩
  | clean =>
    cases hmissing : (solver.problem preSelected).missing? with
    | some item =>
      rw [h.searchWith_eq_unknownItem hphase hmissing]
      exact ⟨Grid.close solver.grid, solver.phase, rfl, h.idle,
        RetentiveGrid.retains_close h.retains⟩
    | none =>
      obtain ⟨result, grid, phase, world', hsearch, hregistered, -⟩ :=
        h.exists_searchWith_eq_of_known hphase hmissing callbacks world
      rw [hsearch]
      exact ⟨grid, phase, rfl, hregistered⟩

theorem Registered.searchWith (h : solver.Registered) (callbacks : Callbacks σ ο ε τ)
    (preSelected : List ο) (world : σ) :
    (solver.searchWith callbacks preSelected world).2.1.Registered ∧
      (solver.searchWith callbacks preSelected world).2.1.items = solver.items := by
  obtain ⟨grid, phase, hsearch, hregistered⟩ := h.exists_searchWith_eq callbacks preSelected world
  rw [hsearch]
  exact ⟨hregistered, rfl⟩

/-- A search on a clean solver finds an unknown item exactly if one is missing. -/
theorem Registered.unknownItem_iff (h : solver.Registered) (hclean : solver.phase = .clean)
    (callbacks : Callbacks σ ο ε τ) (preSelected : List ο) (world : σ) :
    (∃ text, (solver.searchWith callbacks preSelected world).1 =
        .error (.failed (.unknownItem text))) ↔
      ∃ option ∈ preSelected, ∃ item ∈ solver.items option, ¬ solver.Knows item := by
  have hknown : (∀ item ∈ preSelected.flatMap solver.items, solver.Knows item) ↔
      ¬ ∃ option ∈ preSelected, ∃ item ∈ solver.items option, ¬ solver.Knows item := by
    simp only [List.mem_flatMap, forall_exists_index, and_imp, not_exists, not_and, not_not]
    exact ⟨fun hall option hoption item hitem => hall item option hoption hitem,
      fun hall item option hoption hitem => hall option hoption item hitem⟩
  rw [← not_iff_not, ← hknown, ← missing?_eq_none_iff]
  cases hmissing : (solver.problem preSelected).missing? with
  | some item =>
    rw [h.searchWith_eq_unknownItem hclean hmissing]
    simp
  | none =>
    obtain ⟨result, grid, phase, world', hsearch, -, hresult⟩ :=
      h.exists_searchWith_eq_of_known hclean hmissing callbacks world
    rw [hsearch]
    simpa using hresult

/-- Whatever call is made, the solver retains its rows and asks for the items of an option as
before. -/
theorem Registered.perform (h : solver.Registered) (request : Request ο σ τ) (world : σ) :
    (solver.perform world request).2.1.Registered ∧
      (solver.perform world request).2.1.items = solver.items := by
  cases request with
  | addOption option =>
    rw [Solver.perform]
    cases hadd : solver.addOption option with
    | error error => exact ⟨h, rfl⟩
    | ok extended => exact h.addOption hadd
  | addOptions options => exact h.addOptions options
  | searchWith ε callbacks preSelected => exact h.searchWith callbacks preSelected world
  | search ε solution => exact h.searchWith ⟨solution, pure false⟩ [] world
  | allSolutions =>
    have hrecording : (solver.recording : Solver γ ο ι (σ × List (List ο)) τ).Registered :=
      ⟨h.idle, h.retains⟩
    obtain ⟨hsearched, hitems⟩ := hrecording.searchWith collecting [] (world, [])
    rw [Solver.perform, allSolutions_eq]
    exact ⟨⟨hsearched.idle, hsearched.retains⟩, hitems⟩
  | setTrace trace => exact ⟨⟨h.idle, h.retains⟩, rfl⟩
  | clearTrace => exact ⟨⟨h.idle, h.retains⟩, rfl⟩

theorem Registered.after (h : solver.Registered) (requests : List (Request ο σ τ)) (world : σ) :
    (solver.after world requests).Registered ∧
      (solver.after world requests).items = solver.items := by
  induction requests generalizing solver world with
  | nil => exact ⟨h, rfl⟩
  | cons request rest ih =>
    obtain ⟨hnext, hitems⟩ := h.perform request world
    obtain ⟨hafter, hitems'⟩ := ih hnext (solver.perform world request).2.2
    exact ⟨hafter, hitems'.trans hitems⟩

omit [RetentiveGrid γ] [EquivBEq ι] [EquivBEq χ] in
/-- What is to be relied on where options are registered and looked up. -/
structure Registers (solver : Solver γ ο ι σ τ) (items : ο → List ι) : Prop where
  idle : solver.phase ≠ .searching
  items_eq : solver.items = items
  adds_iff : ∀ option, (∃ extended, solver.addOption option = .ok extended) ↔ solver.Takes option
  /-- An option that is added goes behind the others, and besides it only the grid changes. -/
  added : ∀ option extended, solver.addOption option = .ok extended →
    extended = { solver with grid := extended.grid, options := solver.options ++ [option] }
  /-- An option that is refused leaves the solver as it was. -/
  refuses : ∀ option, ¬ solver.Takes option → ∃ error, solver.Refuses option error ∧
    ∀ world, solver.perform world (.addOption option) = (.error error, solver, world)
  addsInTurn : ∀ options, ∃ added rest, solver.AddsInTurn options added rest
  /-- A search is refused for an unknown item exactly if a pre-selected option lists an item that
  no option of the solver lists. -/
  unknownItem_iff : solver.phase = .clean → ∀ {ε : Type} (callbacks : Callbacks σ ο ε τ)
    (preSelected : List ο) (world : σ),
    (∃ text, (solver.searchWith callbacks preSelected world).1 =
        .error (.failed (.unknownItem text))) ↔
      ∃ option ∈ preSelected, ∃ item ∈ solver.items option, ¬ solver.Knows item
  /-- It names the first such item, calls no foreign code, and does no more than to close the grid.
  -/
  unknownItem : solver.phase = .clean → ∀ {ε : Type} (callbacks : Callbacks σ ο ε τ)
    (preSelected : List ο) (world : σ) (before after : List ι) (item : ι),
    preSelected.flatMap solver.items = before ++ item :: after → (∀ x ∈ before, solver.Knows x) →
      ¬ solver.Knows item →
        solver.searchWith callbacks preSelected world =
            (.error (.failed (.unknownItem (describe item))), solver.closed, world) ∧
          solver.exchanges callbacks preSelected world = []
  /-- The rows on the board are those of the options, under the numbers of the options. -/
  files : (Grid.board (Grid.close solver.grid)).Files (solver.options.map solver.items)

theorem Registered.registers (h : solver.Registered) {items : ο → List ι}
    (hitems : solver.items = items) : solver.Registers items where
  idle := h.idle
  items_eq := hitems
  adds_iff option := by
    constructor
    · rintro ⟨extended, hadd⟩
      exact takes_of_addOption_eq_ok hadd
    · intro htakes
      obtain ⟨grid, hadd, -⟩ := h.exists_addOption_eq_ok htakes
      exact ⟨_, hadd⟩
  added option extended hadd := by
    obtain ⟨grid, -, rfl, -⟩ := exists_of_addOption_eq_ok hadd
    rfl
  refuses option hnot := by
    obtain ⟨error, hrefuses, hadd⟩ := h.exists_refuses hnot
    refine ⟨error, hrefuses, fun world => ?_⟩
    rw [Solver.perform, hadd]
  addsInTurn := solver.exists_addsInTurn
  unknownItem_iff hclean _ callbacks preSelected world :=
    h.unknownItem_iff hclean callbacks preSelected world
  unknownItem hclean _ callbacks preSelected world before after item hsplit hbefore hitem := by
    have hmissing : (solver.problem preSelected).missing? = some item :=
      missing?_eq_some_iff.mpr ⟨hitem, before, after, hsplit, hbefore⟩
    exact ⟨h.searchWith_eq_unknownItem hclean hmissing callbacks world,
      h.exchanges_eq_nil hclean hmissing callbacks world⟩
  files := (RetentiveGrid.retains_board h.retains).files

end Searching

section Kinds

variable [EquivBEq ι] [EquivBEq χ]

omit [Grid γ ι χ] [RetentiveGrid γ] in
/-- An open or a sealed solver with any history keeps its options and its rows in step. A sealed one
that was not searched yet has the rows waiting, each with the number of its option. -/
theorem registers_after (items : ο → List ι) (requests : List (Request ο σ τ)) (world : σ) :
    ((woven items).after world requests).Registers items ∧
      ((packed items).after world requests).Registers items ∧
      ∀ waiting, ((packed items).after world requests).grid = .staged waiting →
        waiting = Packed.numbered (((packed items).after world requests).options.map items) := by
  have hstart : (woven items : Solver (Woven ι χ) ο ι σ τ).Registered := registered_onGrid items
  obtain ⟨hwoven, hitems⟩ := hstart.after requests world
  have hstart' : (packed items : Solver (Packed ι χ) ο ι σ τ).Registered := registered_onGrid items
  obtain ⟨hpacked, hitems'⟩ := hstart'.after requests world
  refine ⟨hwoven.registers hitems, hpacked.registers hitems', fun waiting hwaiting => ?_⟩
  have hretains : Packed.Retains ((packed items).after world requests).grid
      (((packed items).after world requests).options.map
        ((packed items).after world requests).items) := hpacked.retains
  rw [hwaiting, hitems'] at hretains
  exact hretains.1

/-- An option with a repeated item, behind which another one is not looked at any more, a search for
an unknown item, an option that only an open solver takes, a search whose callback fails, and an
option that is refused for that. -/
theorem registers_after_of_failing :
    let requests : List (Request (List (Constraint Nat Nat)) Unit Empty) :=
      [.addOptions [[.primary 0, .secondary 1 (some 7)], [.primary 2, .primary 2], [.primary 3]],
        .searchWith String ⟨fun _ => pure (.ok ()), pure false⟩ [[.primary 0, .primary 5]],
        .addOption [.primary 2, .secondary 1 (some 7)],
        .search String fun _ => pure (.error "enough"),
        .addOption [.primary 4]]
    ((woven id).after () requests).isPoisoned ∧
      ((woven id).after () requests).size = 2 ∧
      ((packed id).after () requests).isPoisoned ∧
      ((packed id).after () requests).size = 1 ∧
      ((woven id).after () requests).Registers id ∧
      ((packed id).after () requests).Registers id ∧
      ∀ waiting, ((packed id).after () requests).grid = .staged waiting →
        waiting = Packed.numbered (((packed id).after () requests).options.map id) := by
  intro requests
  have hopen : ((woven id).after () requests).isPoisoned ∧
      ((woven id).after () requests).size = 2 := by
    decide +kernel
  have hsealed : ((packed id).after () requests).isPoisoned ∧
      ((packed id).after () requests).size = 1 := by
    decide +kernel
  exact ⟨hopen.1, hopen.2, hsealed.1, hsealed.2, registers_after id requests ()⟩

end Kinds

end Solver

end ExactCover
