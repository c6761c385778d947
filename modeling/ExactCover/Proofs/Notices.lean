import ExactCover.Proofs.Calls

/-!
# What an observer is told

A search tells its observer when it starts, when it branches, when it tries a row and when a branch
ends. These `Notice`s come in an order that can be read off the program, whatever grid is searched
and whatever is on it: behind the start there are the notices of a `Round`, in which every branch
that is entered is ended, and a search that stops early has made a beginning of that.

What an observer does with a notice may depend on all of the world. If it shows in some view of the
world, and there it depends on the notice and on what was to be seen before, the views of a search
are settled by its notices. `Solver.sights` are the notices of a search, each with the view that it
has led to. They are recorded while the search is run, which makes no difference to it
(`Solver.sighted`).
-/

set_option autoImplicit false

namespace ExactCover

variable {σ ο ε τ α β ν : Type}

/-- What an observer is told. -/
inductive Notice where
  /-- A search starts. -/
  | started
  /-- The search branches on a column with this many rows. -/
  | entered (rows : Nat)
  /-- A row is tried. -/
  | rowSelected
  /-- All rows of a column were tried. -/
  | ended
  deriving DecidableEq, Repr

/-- The notices of a search at one point and below it. How many rows are tried may depend on how
many were announced. -/
inductive Round (fits : Nat → Nat → Prop) : List Notice → Prop where
  /-- There is nothing to branch on, or the caller cancels. -/
  | quiet : Round fits []
  /-- Rows of a column are tried, one after another. -/
  | branch {rows : Nat} {tried : List (List Notice)} (hfits : fits rows tried.length)
      (h : ∀ row ∈ tried, Round fits row) :
      Round fits (.entered rows :: (tried.flatMap (.rowSelected :: ·) ++ [.ended]))

/-- The notices of a search from its start to its end. -/
def Session (fits : Nat → Nat → Prop) (notices : List Notice) : Prop :=
  ∃ round, Round fits round ∧ notices = .started :: round

/-- Some notices, each with what is to be seen after it. -/
def trail (heed : ν → Notice → ν) (seen : ν) : List Notice → List (Notice × ν)
  | [] => []
  | notice :: notices => (notice, heed seen notice) :: trail heed (heed seen notice) notices

section Trails

variable {heed : ν → Notice → ν} {seen : ν}

theorem trail_append (us vs : List Notice) :
    trail heed seen (us ++ vs) = trail heed seen us ++ trail heed (us.foldl heed seen) vs := by
  induction us generalizing seen with
  | nil => rfl
  | cons notice us ih => exact congrArg (_ :: ·) ih

@[simp]
theorem map_fst_trail (notices : List Notice) : (trail heed seen notices).map (·.1) = notices := by
  induction notices generalizing seen with
  | nil => rfl
  | cons notice notices ih => exact congrArg (notice :: ·) ih

/-- Every moment of a trail is that after some of its notices. -/
theorem exists_of_trail_eq {notices : List Notice} {before after : List (Notice × ν)}
    {notice : Notice} {now : ν} (h : trail heed seen notices = before ++ (notice, now) :: after) :
    ∃ us vs, notices = us ++ notice :: vs ∧ before = trail heed seen us ∧
      now = heed (us.foldl heed seen) notice := by
  induction notices generalizing seen before with
  | nil => simp [trail] at h
  | cons first notices ih =>
    cases before with
    | nil =>
      obtain ⟨hfirst, -⟩ := List.cons.inj h
      cases hfirst
      exact ⟨[], notices, rfl, rfl, rfl⟩
    | cons earlier before =>
      obtain ⟨rfl, hrest⟩ := List.cons.inj h
      obtain ⟨us, vs, rfl, rfl, rfl⟩ := ih hrest
      exact ⟨first :: us, vs, rfl, rfl, rfl⟩

end Trails

/-! ## Watching an observer -/

/-- The same code next to a list of notices. The notice is added when the code is left, with what is
to be seen then. -/
def Call.watched (view : σ → ν) (notice : Notice) (code : Call σ τ Unit) :
    Call (σ × List (Notice × ν)) τ Unit :=
  ExceptT.mk fun (world, sights) =>
    let (result, world) := code.run.run world
    pure (result, world, sights ++ [(notice, view world)])

/-- The same observer next to a list of notices. -/
def Trace.watched (view : σ → ν) (trace : Trace σ τ) : Trace (σ × List (Notice × ν)) τ where
  started := trace.started.watched view .started
  entered rows := (trace.entered rows).watched view (.entered rows)
  rowSelected := trace.rowSelected.watched view .rowSelected
  ended := trace.ended.watched view .ended

/-- The same callbacks in a world that has a further part. -/
def Callbacks.widen (ρ : Type) (callbacks : Callbacks σ ο ε τ) : Callbacks (σ × ρ) ο ε τ where
  solution chosen := (callbacks.solution chosen).widen ρ
  cancel := callbacks.cancel.widen ρ

/-- To be told of a notice does the same to what is to be seen, however the observer does it. -/
structure Trace.Tells (trace : Trace σ τ) (view : σ → ν) (heed : ν → Notice → ν) : Prop where
  started : ∀ world, view (trace.started.run.run world).2 = heed (view world) .started
  entered : ∀ rows world,
    view ((trace.entered rows).run.run world).2 = heed (view world) (.entered rows)
  rowSelected : ∀ world, view (trace.rowSelected.run.run world).2 = heed (view world) .rowSelected
  ended : ∀ world, view (trace.ended.run.run world).2 = heed (view world) .ended

/-- The callbacks do nothing that is to be seen. -/
structure Callbacks.Spares (callbacks : Callbacks σ ο ε τ) (view : σ → ν) : Prop where
  solution : ∀ chosen world, view ((callbacks.solution chosen).run.run world).2 = view world
  cancel : ∀ world, view (callbacks.cancel.run.run world).2 = view world

/-- The same search next to a list of notices. -/
def Search.watched (search : Search σ ο ε τ) (view : σ → ν) :
    Search (σ × List (Notice × ν)) ο ε τ :=
  ⟨search.options, search.trace.watched view, search.callbacks.widen _⟩

namespace SearchM

variable {n : Nat} {χ : Type}

/-- The second code does what the first does, next to a list of notices. What is to be seen is
settled by the notices, and these are a word of the language, or a beginning of one if the code
stops early. -/
def Told (view : σ → ν) (heed : ν → Notice → ν) (language : List Notice → Prop)
    (code : SearchM n χ σ ε τ α) (code' : SearchM n χ (σ × List (Notice × ν)) ε τ α) : Prop :=
  ∀ mesh world sights, ∃ notices rest, language (notices ++ rest) ∧
    (∀ a, (code.run.run (mesh, world)).1 = .ok a → rest = []) ∧
    view (code.run.run (mesh, world)).2.2 = notices.foldl heed (view world) ∧
    code'.run.run (mesh, world, sights) =
      let (result, mesh, world') := code.run.run (mesh, world)
      (result, mesh, world', sights ++ trail heed (view world) notices)

variable {view : σ → ν} {heed : ν → Notice → ν} {language language' whole : List Notice → Prop}
  {code : SearchM n χ σ ε τ α} {code' : SearchM n χ (σ × List (Notice × ν)) ε τ α}
  {f : α → SearchM n χ σ ε τ β} {f' : α → SearchM n χ (σ × List (Notice × ν)) ε τ β}

namespace Told

/-- Code that tells nothing. -/
theorem silent (hlanguage : language [])
    (hview : ∀ mesh world, view (code.run.run (mesh, world)).2.2 = view world)
    (hcode : ∀ mesh world sights, code'.run.run (mesh, world, sights) =
      let (result, mesh, world') := code.run.run (mesh, world)
      (result, mesh, world', sights)) : Told view heed language code code' := by
  intro mesh world sights
  exact ⟨[], [], hlanguage, fun _ _ => rfl, hview mesh world, by
    rw [hcode, trail, List.append_nil]⟩

theorem pure (a : α) (hlanguage : language []) :
    Told (ε := ε) (τ := τ) (n := n) (χ := χ) view heed language (Pure.pure a) (Pure.pure a) :=
  silent hlanguage (fun _ _ => rfl) fun _ _ _ => rfl

theorem throw (stop : Stop ε τ) (hlanguage : language []) :
    Told (α := α) (n := n) (χ := χ) view heed language (MonadExcept.throw stop)
      (MonadExcept.throw stop) :=
  silent hlanguage (fun _ _ => rfl) fun _ _ _ => rfl

theorem step (move : Mesh n χ → Except Fault (Mesh n χ)) (hlanguage : language []) :
    Told (ε := ε) (τ := τ) view heed language (SearchM.step move) (SearchM.step move) := by
  apply silent hlanguage
  · intro mesh world
    simp only [SearchM.step, ExceptT.run_mk, StateT.run]
    cases move mesh <;> rfl
  · intro mesh world sights
    simp only [SearchM.step, ExceptT.run_mk, StateT.run]
    cases move mesh <;> rfl

/-- A call of foreign code that does nothing that is to be seen. -/
theorem call {foreign : Call σ τ α} (hlanguage : language [])
    (hspares : ∀ world, view (foreign.run.run world).2 = view world) :
    Told (ε := ε) (n := n) (χ := χ) view heed language (SearchM.call foreign)
      (SearchM.call (foreign.widen _)) :=
  silent hlanguage (fun _ world => hspares world) fun _ _ _ => rfl

/-- A call of the observer. -/
theorem tell {foreign : Call σ τ Unit} (notice : Notice)
    (htells : ∀ world, view (foreign.run.run world).2 = heed (view world) notice) :
    Told (ε := ε) (n := n) (χ := χ) view heed (· = [notice]) (SearchM.call foreign)
      (SearchM.call (foreign.watched view notice)) := by
  intro mesh world sights
  refine ⟨[notice], [], rfl, fun _ _ => rfl, htells world, ?_⟩
  have hcall : (SearchM.call (foreign.watched view notice) :
      SearchM n χ (σ × List (Notice × ν)) ε τ Unit).run.run (mesh, world, sights) =
        ((foreign.run.run world).1.mapError .thrown, mesh, (foreign.run.run world).2,
          sights ++ [(notice, view (foreign.run.run world).2)]) := rfl
  rw [hcall, htells]
  rfl

/-- What is told by one code and then by another. -/
theorem bind (h : Told view heed language code code')
    (hnext : ∀ a, Told view heed language' (f a) (f' a)) (hnonempty : ∃ vs, language' vs)
    (hjoin : ∀ us vs, language us → language' vs → whole (us ++ vs)) :
    Told view heed whole (code >>= f) (code' >>= f') := by
  intro mesh world sights
  obtain ⟨us, rest, hus, hrest, hview, hrun⟩ := h mesh world sights
  cases hplain : code.run.run (mesh, world) with
  | mk result after =>
    obtain ⟨mesh', world'⟩ := after
    simp only [hplain] at hrest hview hrun
    simp only [ExceptT.run_bind, StateT.run_bind, hplain, hrun]
    cases result with
    | error stop =>
      obtain ⟨vs, hvs⟩ := hnonempty
      refine ⟨us, rest ++ vs, ?_, nofun, hview, rfl⟩
      rw [← List.append_assoc]
      exact hjoin _ _ hus hvs
    | ok a =>
      obtain rfl := hrest a rfl
      rw [List.append_nil] at hus
      obtain ⟨vs, rest, hvs, hrest', hview', hrun'⟩ :=
        hnext a mesh' world' (sights ++ trail heed (view world) us)
      refine ⟨us ++ vs, rest, ?_, hrest', ?_, hrun'.trans ?_⟩
      · rw [List.append_assoc]
        exact hjoin _ _ hus hvs
      · rw [List.foldl_append, ← hview]
        exact hview'
      · rw [trail_append, hview, List.append_assoc]
        rfl

/-- What comes first tells nothing. -/
theorem silent_bind (h : Told view heed (· = []) code code') (hnonempty : ∃ vs, language vs)
    (hnext : ∀ a, Told view heed language (f a) (f' a)) :
    Told view heed language (code >>= f) (code' >>= f') :=
  h.bind hnext hnonempty (by rintro _ vs rfl hvs; exact hvs)

/-- What comes last tells nothing. -/
theorem bind_silent (h : Told view heed language code code')
    (hnext : ∀ a, Told view heed (· = []) (f a) (f' a)) :
    Told view heed language (code >>= f) (code' >>= f') := by
  refine h.bind hnext ⟨[], rfl⟩ ?_
  rintro us _ hus rfl
  rw [List.append_nil]
  exact hus

/-- Reading off the mesh tells nothing. -/
theorem look_bind {read : Mesh n χ → Except Fault α} (hnonempty : ∃ vs, language vs)
    (hnext : ∀ a, Told view heed language (f a) (f' a)) :
    Told view heed language (SearchM.look read >>= f) (SearchM.look read >>= f') :=
  silent_bind (silent rfl (fun _ _ => rfl) fun _ _ _ => rfl) hnonempty hnext

end Told

end SearchM

namespace Search

open SearchM

variable {n : Nat} {χ : Type} {view : σ → ν} {heed : ν → Notice → ν} {search : Search σ ο ε τ}

/-- The notices of a search that tries rows. -/
def TriesRows (notices : List Notice) : Prop :=
  ∃ tried : List (List Notice), (∀ row ∈ tried, Round (fun _ _ => True) row) ∧
    notices = tried.flatMap (.rowSelected :: ·)

/-- The notices of a search that tries a row. -/
def TriesRow (notices : List Notice) : Prop :=
  ∃ row, Round (fun _ _ => True) row ∧ notices = .rowSelected :: row

/-- The notices of a search that tries the rows of a column and comes to the end of it. -/
def TriesColumn (notices : List Notice) : Prop :=
  ∃ tried, TriesRows tried ∧ notices = tried ++ [.ended]

theorem triesRows_nil : TriesRows [] :=
  ⟨[], nofun, rfl⟩

theorem TriesRows.cons {row notices : List Notice} (hrow : Round (fun _ _ => True) row)
    (h : TriesRows notices) : TriesRows (.rowSelected :: row ++ notices) := by
  obtain ⟨tried, htried, rfl⟩ := h
  exact ⟨row :: tried, List.forall_mem_cons.mpr ⟨hrow, htried⟩, rfl⟩

theorem TriesRows.round {notices : List Notice} (h : TriesRows notices) (rows : Nat) :
    Round (fun _ _ => True) (.entered rows :: (notices ++ [.ended])) := by
  obtain ⟨tried, htried, rfl⟩ := h
  exact .branch trivial htried

theorem report_told {language : List Notice → Prop} (hlanguage : language [])
    (hspares : search.callbacks.Spares view) (chosen : List ο) :
    Told (n := n) (χ := χ) view heed language (search.report chosen)
      ((search.watched view).report chosen) := by
  refine Told.silent_bind (.call rfl (hspares.solution chosen)) ⟨[], hlanguage⟩ fun answer => ?_
  cases answer with
  | ok _ => exact .pure _ hlanguage
  | error error => exact .throw _ hlanguage

theorem tryRows_told {attempt : Fin n → SearchM n χ σ ε τ Unit}
    {attempt' : Fin n → SearchM n χ (σ × List (Notice × ν)) ε τ Unit}
    (h : ∀ p, Told view heed TriesRow (attempt p) (attempt' p)) (c : Fin n) (fuel : Nat)
    (p : Fin n) :
    Told view heed TriesRows (tryRows attempt c fuel p) (tryRows attempt' c fuel p) := by
  induction fuel generalizing p with
  | zero =>
    rw [tryRows, tryRows]
    split
    · exact .pure _ triesRows_nil
    · exact .throw _ triesRows_nil
  | succ fuel ih =>
    rw [tryRows, tryRows]
    split
    · exact .pure _ triesRows_nil
    · refine (h p).bind (fun _ => Told.look_bind ⟨[], triesRows_nil⟩ ih) ⟨[], triesRows_nil⟩ ?_
      rintro _ vs ⟨row, hrow, rfl⟩ hvs
      exact hvs.cons hrow

theorem leave_told (htells : search.trace.Tells view heed) (c : Fin n) :
    Told (ε := ε) (χ := χ) view heed (· = [.ended])
      (do step (Mesh.uncover c); call search.trace.ended)
      (do step (Mesh.uncover c); call (search.watched view).trace.ended) :=
  Told.silent_bind (.step _ rfl) ⟨_, rfl⟩ fun _ => .tell .ended htells.ended

/-- The notices of a search come in rounds, whatever is searched. -/
theorem descend_told [BEq χ] (htells : search.trace.Tells view heed)
    (hspares : search.callbacks.Spares view) (depth : Nat) (chosen : List ο) :
    Told (n := n) (χ := χ) view heed (Round fun _ _ => True) (search.descend depth chosen)
      ((search.watched view).descend depth chosen) := by
  have hquiet : ∃ notices, Round (fun _ _ => True) notices := ⟨[], .quiet⟩
  have hcolumn : ∃ notices, TriesColumn notices := ⟨_, [], triesRows_nil, rfl⟩
  induction depth generalizing chosen with
  | zero => exact .throw _ .quiet
  | succ depth ih =>
    rw [descend, descend]
    refine Told.silent_bind (.call rfl hspares.cancel) hquiet fun cancelled => ?_
    cases cancelled with
    | true => exact .pure _ .quiet
    | false =>
      refine Told.look_bind hquiet fun column => ?_
      cases column with
      | none => exact report_told .quiet hspares chosen
      | some c =>
        refine Told.look_bind hquiet fun rows => ?_
        refine (Told.tell (.entered rows) (htells.entered rows)).bind (fun _ => ?_) hcolumn ?_
        · refine Told.silent_bind (.step _ rfl) hcolumn fun _ => ?_
          refine Told.look_bind hcolumn fun top => ?_
          refine (tryRows_told (fun p => ?_) c n top).bind (fun _ => leave_told htells c) ⟨_, rfl⟩
            fun us _ hus hlast => ⟨us, hus, congrArg (us ++ ·) hlast⟩
          refine (Told.tell .rowSelected htells.rowSelected).bind (fun _ => ?_) hquiet
            fun _ row hfirst hrow => ⟨row, hrow, congrArg (· ++ row) hfirst⟩
          refine Told.silent_bind (.step _ rfl) hquiet fun _ => ?_
          refine Told.look_bind hquiet fun option => ?_
          exact (ih _).bind_silent fun _ => .step _ rfl
        · rintro _ _ rfl ⟨tried, htried, rfl⟩
          exact htried.round rows

theorem run_told [BEq χ] (htells : search.trace.Tells view heed)
    (hspares : search.callbacks.Spares view) (preSelected : List ο) :
    Told (n := n) (χ := χ) view heed (Session fun _ _ => True) (search.run preSelected)
      ((search.watched view).run preSelected) := by
  refine (Told.tell .started htells.started).bind
    (fun _ => descend_told htells hspares _ preSelected) ⟨[], .quiet⟩ ?_
  rintro _ round rfl hround
  exact ⟨round, hround, rfl⟩

end Search

namespace Solver

variable {γ ι χ : Type} [BEq ι] [BEq χ] [Describe ι] [Grid γ ι χ]

/-- The same solver, with an observer that is watched. -/
def watched (solver : Solver γ ο ι σ τ) (view : σ → ν) :
    Solver γ ο ι (σ × List (Notice × ν)) τ :=
  { solver with trace := some ((solver.trace.getD .silent).watched view) }

/-- The notices that the observer has during a search, each with what is to be seen after it. -/
def sights (solver : Solver γ ο ι σ τ) (view : σ → ν) (callbacks : Callbacks σ ο ε τ)
    (preSelected : List ο) (world : σ) : List (Notice × ν) :=
  ((solver.watched view).searchWith (callbacks.widen _) preSelected (world, [])).2.2.2

/-- A search that is watched does what it does otherwise. What is to be seen is settled by its
notices, which are those of a session if the search comes to its end, and the beginning of one if it
stops early. A search that is refused has none. -/
def Sighted (fits : Nat → Nat → Prop) (solver : Solver γ ο ι σ τ) (view : σ → ν)
    (heed : ν → Notice → ν) (callbacks : Callbacks σ ο ε τ) (preSelected : List ο) (world : σ) :
    Prop :=
  ∃ notices rest, (notices = [] ∨ Session fits (notices ++ rest)) ∧
    ((solver.searchWith callbacks preSelected world).1 = .ok () → Session fits notices) ∧
    view (solver.searchWith callbacks preSelected world).2.2 = notices.foldl heed (view world) ∧
    (solver.watched view).searchWith (callbacks.widen _) preSelected (world, []) =
      let (result, searched, world') := solver.searchWith callbacks preSelected world
      (result, searched.watched view, world', trail heed (view world) notices)

section

variable {view : σ → ν} {heed : ν → Notice → ν} {solver : Solver γ ο ι σ τ}
  {callbacks : Callbacks σ ο ε τ} {preSelected : List ο}

/-- A search that is not refused has the sights of its run, however the grid is left. -/
theorem sighted_of_covered {columns} {mesh}
    (htells : (solver.trace.getD .silent).Tells view heed) (hspares : callbacks.Spares view)
    (hensure : solver.phase.ensureClean = .ok ())
    (hcolumns : (Grid.board (Grid.close solver.grid)).columnsOf
      (preSelected.flatMap solver.items) = .ok columns)
    (hcover : (Grid.board (Grid.close solver.grid)).mesh.coverAll columns = .ok mesh) (world : σ) :
    Sighted (fun _ _ => True) solver view heed callbacks preSelected world := by
  rw [Sighted, searchWith, searchWith]
  let search : Search σ ο ε τ := ⟨solver.options, solver.trace.getD .silent, callbacks⟩
  obtain ⟨notices, rest, hsession, hrest, hview, hrun⟩ :=
    search.run_told htells hspares preSelected mesh world []
  refine ⟨notices, rest, .inr hsession, ?_⟩
  cases hplain : (search.run preSelected).run.run (mesh, world) with
  | mk result after =>
    obtain ⟨mesh', world'⟩ := after
    rw [hplain] at hview hrest
    rw [hplain, List.nil_append] at hrun
    simp only [search, Search.watched] at hrun hplain
    simp only [watched, hensure, hcolumns, hcover, hplain, Option.getD_some, hrun]
    cases result with
    | error stop => exact ⟨fun hok => by contradiction, hview, rfl⟩
    | ok _ =>
      obtain rfl := hrest () rfl
      rw [List.append_nil] at hsession
      cases hrestore : restore (Grid.close solver.grid) columns mesh' with
      | error fault =>
        simp only [hrestore]
        exact ⟨fun _ => hsession, hview, rfl⟩
      | ok grid =>
        simp only [hrestore]
        exact ⟨fun _ => hsession, hview, rfl⟩

/-- Every search has its sights, whatever solver is asked and whatever is on its grid. -/
theorem sighted (htells : (solver.trace.getD .silent).Tells view heed)
    (hspares : callbacks.Spares view) (preSelected : List ο) (world : σ) :
    Sighted (fun _ _ => True) solver view heed callbacks preSelected world := by
  cases hensure : solver.phase.ensureClean with
  | error error =>
    refine ⟨[], [], .inl rfl, ?_, ?_, ?_⟩
    all_goals simp [searchWith, watched, hensure, trail]
  | ok _ =>
    cases hcolumns : (Grid.board (Grid.close solver.grid)).columnsOf
        (preSelected.flatMap solver.items) with
    | error item =>
      refine ⟨[], [], .inl rfl, ?_, ?_, ?_⟩
      all_goals simp [searchWith, watched, hensure, hcolumns, trail]
    | ok columns =>
      cases hcover : (Grid.board (Grid.close solver.grid)).mesh.coverAll columns with
      | error fault =>
        refine ⟨[], [], .inl rfl, ?_, ?_, ?_⟩
        all_goals simp [searchWith, watched, hensure, hcolumns, hcover, trail]
      | ok mesh => exact sighted_of_covered htells hspares hensure hcolumns hcover world

end

end Solver

end ExactCover
