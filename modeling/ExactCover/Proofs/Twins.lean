import ExactCover.Proofs.Calls

/-!
# Solvers that cannot be told apart

Two solvers are *twins* if they have the same options, phase and observer, and grids with the rows
of the options, which may be of different kinds. A call does the same for both of them and leaves
twins (`Twins.perform`), provided that an option is not offered to a solver that is sealed and to
one that is not. So an open solver and a sealed one have the same transcripts for every sequence of
calls in which no option is added after a search (`transcript_woven_eq_packed`).
-/

set_option autoImplicit false

namespace ExactCover

namespace Solver

variable {γ γ' ο ι χ σ ε τ α : Type} [BEq ι] [BEq χ] [Item ι χ] [Grid γ ι χ] [LawfulGrid γ]
  [Grid γ' ι χ] [LawfulGrid γ']

/-- Nothing but their grids tells the two solvers apart. -/
structure Twins (s : Solver γ ο ι σ τ) (t : Solver γ' ο ι σ τ) : Prop where
  items : t.items = s.items
  options : t.options = s.options
  phase : t.phase = s.phase
  trace : t.trace = s.trace
  left : s.Kept
  right : t.Kept

/-- A call that gave these results has done the same for both solvers. -/
structure Concur (x : α × Solver γ ο ι σ τ × σ) (y : α × Solver γ' ο ι σ τ × σ) : Prop where
  answer : y.1 = x.1
  world : y.2.2 = x.2.2
  twins : Twins x.2.1 y.2.1

variable {s : Solver γ ο ι σ τ} {t : Solver γ' ο ι σ τ} {solver : Solver γ ο ι σ τ}

theorem Kept.twins (h : solver.Kept) : Twins solver solver :=
  ⟨rfl, rfl, rfl, rfl, h, h⟩

variable [Describe ι]

section Adding

variable [EquivBEq ι]

/-- Twins that are both sealed or both not refuse an option for the same reason or both add it. -/
theorem Twins.addOption (h : Twins s t) (hsame : t.isSealed = s.isSealed) (option : ο) :
    (∃ error, s.addOption option = .error error ∧ t.addOption option = .error error) ∨
      ∃ s' t', s.addOption option = .ok s' ∧ t.addOption option = .ok t' ∧ Twins s' t' ∧
        t'.isSealed = s'.isSealed ∧ s'.isSealed = s.isSealed := by
  cases hensure : s.phase.ensureClean with
  | error error =>
    refine .inl ⟨.state error, ?_, ?_⟩
    · rw [Solver.addOption, hensure]
    · rw [Solver.addOption, h.phase, hensure]
  | ok _ =>
    have hs : s.Ready := ⟨Phase.eq_clean hensure, h.left (Phase.eq_clean hensure)⟩
    have ht : t.Ready := ⟨h.phase.trans hs.phase, h.right (h.phase.trans hs.phase)⟩
    cases hsealed : s.isSealed with
    | true =>
      rw [hsealed] at hsame
      refine .inl ⟨.state .sealed, ?_, ?_⟩
      · rw [Solver.addOption, hensure]
        simp only [hsealed, if_true]
      · rw [Solver.addOption, h.phase, hensure]
        simp only [hsame, if_true]
    | false =>
      rw [hsealed] at hsame
      cases hrepeat : firstRepeat? (s.items option) with
      | some item =>
        have hrepeat' : firstRepeat? (t.items option) = some item := by rw [h.items, hrepeat]
        refine .inl ⟨_, addOption_eq_error hs.phase hsealed hrepeat, ?_⟩
        rw [addOption_eq_error ht.phase hsame hrepeat', size, size, h.options]
      | none =>
        have hrepeat' : firstRepeat? (t.items option) = none := by rw [h.items, hrepeat]
        obtain ⟨grid, -, hadd, hready, hopen⟩ := hs.exists_addOption_eq_ok hsealed hrepeat
        obtain ⟨grid', -, hadd', hready', hopen'⟩ := ht.exists_addOption_eq_ok hsame hrepeat'
        refine .inr ⟨_, _, hadd, hadd', ?_, hopen'.trans hopen.symm, hopen⟩
        refine ⟨h.items, ?_, h.phase, h.trace, fun _ => hready.carries, fun _ => hready'.carries⟩
        show t.options ++ [option] = s.options ++ [option]
        rw [h.options]

theorem Twins.addOptions (h : Twins s t) (hsame : t.isSealed = s.isSealed) (options : List ο) :
    (t.addOptions options).1 = (s.addOptions options).1 ∧
      Twins (s.addOptions options).2 (t.addOptions options).2 ∧
      (s.addOptions options).2.isSealed = s.isSealed := by
  induction options generalizing s t with
  | nil => exact ⟨rfl, h, rfl⟩
  | cons option rest ih =>
    rcases h.addOption hsame option with ⟨error, hs, ht⟩ | ⟨s', t', hs, ht, h', hsame', hkeep⟩
    · rw [addOptions_cons_of_error hs, addOptions_cons_of_error ht]
      exact ⟨rfl, h, rfl⟩
    · obtain ⟨hresult, htwins, hkeep'⟩ := ih h' hsame'
      rw [addOptions_cons_of_ok hs, addOptions_cons_of_ok ht]
      exact ⟨hresult, htwins, hkeep'.trans hkeep⟩

end Adding

/-- The outcome of a search is the same for both. -/
theorem Twins.outcome_eq (h : Twins s t) (callbacks : Callbacks σ ο ε τ) (preSelected : List ο)
    (world : σ) :
    t.outcome callbacks preSelected world = s.outcome callbacks preSelected world := by
  cases s with
  | mk items options grid phase trace =>
    cases t with
    | mk items' options' grid' phase' trace' =>
      obtain rfl : items' = items := h.items
      obtain rfl : options' = options := h.options
      obtain rfl : phase' = phase := h.phase
      obtain rfl : trace' = trace := h.trace
      rfl

variable [LawfulItem ι] [EquivBEq χ]

theorem Twins.searchWith (h : Twins s t) (callbacks : Callbacks σ ο ε τ) (preSelected : List ο)
    (world : σ) : Concur (s.searchWith callbacks preSelected world)
      (t.searchWith callbacks preSelected world) := by
  obtain ⟨grid, hs, hleft, -⟩ := h.left.exists_searchWith_eq callbacks preSelected world
  obtain ⟨grid', ht, hright, -⟩ := h.right.exists_searchWith_eq callbacks preSelected world
  rw [h.outcome_eq] at ht hright
  rw [hs, ht]
  exact ⟨rfl, rfl, ⟨h.items, h.options, rfl, h.trace, hleft, hright⟩⟩

theorem Twins.allSolutions (h : Twins s t) (world : σ) :
    Concur (s.allSolutions world) (t.allSolutions world) := by
  have hrecording : Twins s.recording t.recording := by
    refine ⟨h.items, h.options, h.phase, ?_, h.left, h.right⟩
    show t.trace.map _ = s.trace.map _
    rw [h.trace]
  obtain ⟨hanswer, hworld, htwins⟩ := hrecording.searchWith collecting [] (world, [])
  rw [allSolutions_eq, allSolutions_eq, hanswer, hworld]
  exact ⟨rfl, rfl, ⟨htwins.items, htwins.options, htwins.phase, h.trace, htwins.left,
    htwins.right⟩⟩

/-- A call does the same for twins. -/
theorem Twins.perform (h : Twins s t) (request : Request ο σ τ)
    (hsame : request.adds → t.isSealed = s.isSealed) (world : σ) :
    Concur (s.perform world request) (t.perform world request) := by
  cases request with
  | addOption option =>
    rcases h.addOption (hsame rfl) option with ⟨error, hs, ht⟩ | ⟨s', t', hs, ht, h', -⟩
    · rw [Solver.perform, hs, Solver.perform, ht]
      exact ⟨rfl, rfl, h⟩
    · rw [Solver.perform, hs, Solver.perform, ht]
      exact ⟨rfl, rfl, h'⟩
  | addOptions options =>
    obtain ⟨hresult, htwins, -⟩ := h.addOptions (hsame rfl) options
    exact ⟨hresult, rfl, htwins⟩
  | searchWith ε callbacks preSelected => exact h.searchWith callbacks preSelected world
  | search ε solution => exact h.searchWith ⟨solution, pure false⟩ [] world
  | allSolutions => exact h.allSolutions world
  | setTrace trace => exact ⟨rfl, rfl, ⟨h.items, h.options, h.phase, rfl, h.left, h.right⟩⟩
  | clearTrace => exact ⟨rfl, rfl, ⟨h.items, h.options, h.phase, rfl, h.left, h.right⟩⟩

/-- No call loses rows. -/
theorem Kept.perform (h : solver.Kept) (request : Request ο σ τ) (world : σ) :
    (solver.perform world request).2.1.Kept :=
  (h.twins.perform request (fun _ => rfl) world).twins.left

/-- No sequence of calls loses rows. -/
theorem Kept.after (h : solver.Kept) (requests : List (Request ο σ τ)) (world : σ) :
    (solver.after world requests).Kept := by
  induction requests generalizing solver world with
  | nil => exact h
  | cons request rest ih => exact ih (h.perform request world) _

theorem kept_after_onGrid (items : ο → List ι) (requests : List (Request ο σ τ)) (world : σ) :
    ((onGrid items : Solver γ ο ι σ τ).after world requests).Kept :=
  (kept_onGrid items).after requests world

omit [EquivBEq χ] in
/-- Only a search seals a solver. -/
theorem Kept.isSealed_perform (h : solver.Kept) {request : Request ο σ τ}
    (hsearches : request.searches = false) (world : σ) :
    (solver.perform world request).2.1.isSealed = solver.isSealed := by
  cases request with
  | addOption option =>
    rcases h.twins.addOption rfl option with ⟨error, hadd, -⟩ | ⟨s', t', hadd, -, -, -, hkeep⟩
    · rw [Solver.perform, hadd]
    · rw [Solver.perform, hadd]
      exact hkeep
  | addOptions options => exact (h.twins.addOptions rfl options).2.2
  | searchWith ε callbacks preSelected => contradiction
  | search ε solution => contradiction
  | allSolutions => contradiction
  | setTrace trace => rfl
  | clearTrace => rfl

/-- Twins have the same transcripts as long as no option is offered to one that is sealed and to one
that is not. -/
theorem Twins.transcript_eq (h : Twins s t) {requests : List (Request ο σ τ)}
    (horder : requests.Pairwise fun earlier later => earlier.searches → later.adds = false)
    (hsame : ∀ request ∈ requests, request.adds → t.isSealed = s.isSealed) (world : σ) :
    t.transcript world requests = s.transcript world requests := by
  induction requests generalizing s t world with
  | nil => rfl
  | cons request rest ih =>
    obtain ⟨hlater, horder⟩ := List.pairwise_cons.mp horder
    obtain ⟨hanswer, hworld, htwins⟩ := h.perform request (hsame request (by simp)) world
    have hsame' : ∀ later ∈ rest, later.adds →
        (t.perform world request).2.1.isSealed = (s.perform world request).2.1.isSealed := by
      intro later hmem hadds
      cases hsearches : request.searches with
      | true =>
        rw [hlater later hmem hsearches] at hadds
        contradiction
      | false =>
        rw [h.left.isSealed_perform hsearches, h.right.isSealed_perform hsearches]
        exact hsame later (List.mem_cons_of_mem _ hmem) hadds
    have hrest := ih htwins horder hsame' (s.perform world request).2.2
    rw [transcript_cons, transcript_cons, hanswer, hworld, hrest, size, size, htwins.options,
      isPoisoned, isPoisoned, htwins.phase]

section Sealing

omit [Item ι χ] [LawfulGrid γ] [LawfulItem ι] [EquivBEq χ] in
/-- Only a search changes the phase. -/
theorem phase_perform {request : Request ο σ τ} (hsearches : request.searches = false)
    (world : σ) : (solver.perform world request).2.1.phase = solver.phase := by
  have hadds : ∀ options : List ο, (solver.addOptions options).2.phase = solver.phase := by
    intro options
    induction options generalizing solver with
    | nil => rfl
    | cons option rest ih =>
      cases hadd : solver.addOption option with
      | error error => rw [addOptions_cons_of_error hadd]
      | ok extended =>
        obtain ⟨grid, -, rfl, -⟩ := exists_of_addOption_eq_ok hadd
        rw [addOptions_cons_of_ok hadd]
        exact ih
  cases request with
  | addOption option =>
    cases hadd : solver.addOption option with
    | error error => rw [Solver.perform, hadd]
    | ok extended =>
      obtain ⟨grid, -, rfl, -⟩ := exists_of_addOption_eq_ok hadd
      rw [Solver.perform, hadd]
  | addOptions options => exact hadds options
  | searchWith ε callbacks preSelected => contradiction
  | search ε solution => contradiction
  | allSolutions => contradiction
  | setTrace trace => rfl
  | clearTrace => rfl

/-- Where closing a grid seals it, a search leaves a sealed solver, unless it is refused because an
earlier one was interrupted. -/
theorem Kept.isSealed_searchWith (h : solver.Kept)
    (hcloses : ∀ grid : γ, Grid.isSealed (Grid.close grid))
    (hphase : solver.phase ≠ .clean → solver.isSealed) (callbacks : Callbacks σ ο ε τ)
    (preSelected : List ο) (world : σ) :
    (solver.searchWith callbacks preSelected world).2.1.isSealed := by
  obtain ⟨grid, hsearch, -, hsealed⟩ := h.exists_searchWith_eq callbacks preSelected world
  rw [hsearch]
  show Grid.isSealed grid
  rw [hsealed]
  split
  · exact hcloses solver.grid
  · next hclean => exact hphase hclean

theorem Kept.isSealed_perform_of_searches (h : solver.Kept)
    (hcloses : ∀ grid : γ, Grid.isSealed (Grid.close grid))
    (hphase : solver.phase ≠ .clean → solver.isSealed) {request : Request ο σ τ}
    (hsearches : request.searches) (world : σ) :
    (solver.perform world request).2.1.isSealed := by
  cases request with
  | searchWith ε callbacks preSelected =>
    exact h.isSealed_searchWith hcloses hphase callbacks preSelected world
  | search ε solution => exact h.isSealed_searchWith hcloses hphase ⟨solution, pure false⟩ [] world
  | allSolutions =>
    have hrecording : solver.recording.Kept := h
    exact hrecording.isSealed_searchWith hcloses hphase collecting [] (world, [])
  | _ => contradiction

/-- Where closing a grid seals it, the solver is sealed once there was a search. -/
theorem Kept.isSealed_after (h : solver.Kept)
    (hcloses : ∀ grid : γ, Grid.isSealed (Grid.close grid))
    (hphase : solver.phase ≠ .clean → solver.isSealed) (requests : List (Request ο σ τ))
    (world : σ) :
    (solver.after world requests).isSealed = (solver.isSealed || requests.any (·.searches)) := by
  induction requests generalizing solver world with
  | nil => exact (Bool.or_false _).symm
  | cons request rest ih =>
    have hkept := h.perform request world
    rw [after_cons, List.any_cons]
    cases hsearches : request.searches with
    | true =>
      have hsealed := h.isSealed_perform_of_searches hcloses hphase hsearches world
      rw [ih hkept (fun _ => hsealed), hsealed]
      simp
    | false =>
      have hsealed := h.isSealed_perform hsearches world
      rw [ih hkept, hsealed, Bool.false_or]
      rw [phase_perform hsearches, hsealed]
      exact hphase

end Sealing

/-! ## The two kinds of solvers -/

section Kinds

omit [Grid γ ι χ] [LawfulGrid γ] [Grid γ' ι χ] [LawfulGrid γ'] in
/-- An open and a sealed solver cannot be told apart by calls among which no option is added after a
search, except by asking whether they are sealed. -/
theorem transcript_woven_eq_packed (items : ο → List ι) {requests : List (Request ο σ τ)}
    (horder : requests.Pairwise fun earlier later => earlier.searches → later.adds = false)
    (world : σ) :
    (woven items).transcript world requests = (packed items).transcript world requests ∧
      ((woven items).after world requests).isSealed = false ∧
      ((packed items).after world requests).isSealed = requests.any (·.searches) := by
  have hwoven : (woven items : Solver (Woven ι χ) ο ι σ τ).Kept :=
    fun _ => (ready_onGrid items).carries
  have hpacked : (packed items : Solver (Packed ι χ) ο ι σ τ).Kept :=
    fun _ => (ready_onGrid items).carries
  have htwins : Twins (packed items : Solver (Packed ι χ) ο ι σ τ) (woven items) :=
    ⟨rfl, rfl, rfl, rfl, hpacked, hwoven⟩
  refine ⟨htwins.transcript_eq horder (fun _ _ _ => rfl) world, rfl, ?_⟩
  rw [hpacked.isSealed_after (fun grid => ?_) (fun hphase => absurd rfl hphase)]
  · rfl
  · cases grid <;> rfl

/-- Options that share a colored item and disagree on its color. -/
theorem transcript_woven_eq_packed_of_colored :
    let requests : List (Request (List (Constraint Nat Nat)) Unit Empty) :=
      [.addOption [.primary 0, .secondary 1 (some 7)], .addOption [.primary 2, .primary 2],
        .addOption [.primary 2, .secondary 1 (some 8)], .allSolutions,
        .search Unit fun _ => pure (.error ()), .allSolutions]
    (woven id).transcript () requests = (packed id).transcript () requests ∧
      ((woven id).after () requests).isSealed = false ∧
      ((packed id).after () requests).isSealed = requests.any (·.searches) :=
  transcript_woven_eq_packed id (by simp [Request.searches, Request.adds]) ()

end Kinds

end Solver

end ExactCover
