import ExactCover.Proofs.Found

/-!
# Items of different kinds that are equal

The equality of an item type has to ignore the color of an item, but nothing keeps it from ignoring
more. If it identifies an item that has to be covered with one that need not be, their cells hang in
one column, and the first appearance of the item decides in which ring that column is. A color that
is given to such an item in the ring of columns that must be covered restricts that column, but the
search may still branch on it, and the rows it finds there need not have the color
(`not_coherent_of_mixed`).

Where this does not happen (`Naive.Unmixed`), the search on lists is followed as ever, and every
solution that is reported is coherent: options that were chosen share an item only if both give it
the same color, and they share none with the pre-selected options (`coherent_of_mem_reports`). This
holds of all solutions that the caller is told about, whatever the callbacks do and however the
search ends.
-/

set_option autoImplicit false

namespace ExactCover

variable {γ ο ι χ σ ε τ α β : Type}

/-- Whatever foreign code does, only what has a property is added to the list of reports. -/
def PlainM.Reports (P : List ο → Prop) (code : PlainM (σ × List (List ο)) ε τ α) : Prop :=
  ∀ world found, ∃ more, (code.run.run (world, found)).2.2 = found ++ more ∧ ∀ chosen ∈ more,
    P chosen

namespace PlainM.Reports

variable {P : List ο → Prop}

theorem pure (a : α) : Reports P (Pure.pure a : PlainM (σ × List (List ο)) ε τ α) := by
  intro world found
  exact ⟨[], (List.append_nil found).symm, List.forall_mem_nil _⟩

theorem throw (stop : Stop ε τ) :
    Reports P (MonadExcept.throw stop : PlainM (σ × List (List ο)) ε τ α) := by
  intro world found
  exact ⟨[], (List.append_nil found).symm, List.forall_mem_nil _⟩

theorem bind {code : PlainM (σ × List (List ο)) ε τ α} {f : α → PlainM (σ × List (List ο)) ε τ β}
    (h : Reports P code) (h' : ∀ a, Reports P (f a)) : Reports P (code >>= f) := by
  intro world found
  obtain ⟨more, hmore, hP⟩ := h world found
  rw [ExceptT.run_bind, StateT.run_bind]
  generalize code.run.run (world, found) = r at hmore
  obtain ⟨result, world', found'⟩ := r
  obtain rfl : found' = found ++ more := hmore
  cases result with
  | error stop => exact ⟨more, rfl, hP⟩
  | ok a =>
    obtain ⟨more', hmore', hP'⟩ := h' a world' (found ++ more)
    refine ⟨more ++ more', ?_, fun chosen hmem => (List.mem_append.mp hmem).elim (hP _) (hP' _)⟩
    rw [← List.append_assoc]
    exact hmore'

/-- Foreign code cannot report by itself. -/
theorem call (code : Call σ τ α) :
    Reports P (PlainM.call (code.widen _) : PlainM (σ × List (List ο)) ε τ α) := by
  intro world found
  exact ⟨[], (List.append_nil found).symm, List.forall_mem_nil _⟩

theorem forM {body : Nat → PlainM (σ × List (List ο)) ε τ Unit} {ks : List Nat}
    (h : ∀ k ∈ ks, Reports P (body k)) : Reports P (ForM.forM ks body) := by
  induction ks with
  | nil => exact Reports.pure ()
  | cons k ks ih =>
    rw [List.forM_cons]
    exact (h k (by simp)).bind fun _ => ih fun j hj => h j (List.mem_cons_of_mem _ hj)

end PlainM.Reports

namespace Search

variable [BEq ι] [BEq χ] [Item ι χ]

theorem announce_reports (search : Search σ ο ε τ) {P : List ο → Prop} {chosen : List ο}
    (h : P chosen) : (search.recorded.announce chosen).Reports P := by
  have hcall : PlainM.Reports P (PlainM.call (search.recorded.callbacks.solution chosen) :
      PlainM (σ × List (List ο)) ε τ _) := by
    intro world found
    refine ⟨[chosen], rfl, fun x hx => ?_⟩
    rw [List.mem_singleton.mp hx]
    exact h
  apply hcall.bind
  intro result
  cases result with
  | ok _ => exact .pure ()
  | error error => exact .throw _

/-- The search on lists reports choices that it can arrive at, in addition to the pre-selected
options. -/
theorem explore_reports (search : Search σ ο ε τ) {problem : Naive.Problem ι}
    (preSelected : List ο) (depth : Nat) {chosen : List Nat} (h : problem.IsChoice chosen) :
    (search.recorded.explore problem preSelected depth chosen).Reports fun solution =>
      ∃ found, problem.IsChoice found ∧ solution = preSelected ++ search.optionsOf found := by
  induction depth generalizing chosen with
  | zero => exact .throw _
  | succ depth ih =>
    rw [explore]
    apply (PlainM.Reports.call _).bind
    intro cancelled
    cases cancelled with
    | true => exact .pure ()
    | false =>
      cases hbranch : problem.branchItem? chosen with
      | none => exact search.announce_reports ⟨chosen, h, rfl⟩
      | some item =>
        apply (PlainM.Reports.call _).bind
        intro _
        apply PlainM.Reports.bind
        · apply PlainM.Reports.forM
          intro k hk
          apply (PlainM.Reports.call _).bind
          intro _
          exact ih (h.concat hbranch hk)
        · intro _
          exact .call _

theorem plain_reports (search : Search σ ο ε τ) (problem : Naive.Problem ι)
    (preSelected : List ο) :
    (search.recorded.plain problem preSelected).Reports fun solution =>
      ∃ found, problem.IsChoice found ∧ solution = preSelected ++ search.optionsOf found := by
  apply (PlainM.Reports.call _).bind
  intro _
  exact search.explore_reports preSelected _ Naive.Problem.isChoice_nil

end Search

namespace Naive

variable [BEq ι] [BEq χ] [Item ι χ]

/-- The solution extends the pre-selected options. The options that it adds share no item with
these, and two of them share an item only if both give it a color, and the same one. -/
def Coherent (items : ο → List ι) (preSelected solution : List ο) : Prop :=
  ∃ added, solution = preSelected ++ added ∧
    (∀ given ∈ preSelected, ∀ option ∈ added, ∀ a ∈ items given, ∀ b ∈ items option,
      (a == b) = false) ∧
    added.Pairwise fun option option' => ∀ a ∈ items option, ∀ b ∈ items option', a == b →
      ∃ c d, (Item.kind a).color? = some c ∧ (Item.kind b).color? = some d ∧ c == d

/-- What the search can arrive at is coherent. -/
theorem Problem.IsChoice.coherent {items : ο → List ι} {options preSelected : List ο}
    {found : List Nat}
    (h : IsChoice ⟨options.map items, preSelected.flatMap items⟩ found) :
    Coherent items preSelected (preSelected ++ found.filterMap fun k => options[k]?) := by
  have hrow : ∀ (k : Nat) (option : ο), options[k]? = some option →
      Problem.row ⟨options.map items, preSelected.flatMap items⟩ k = items option := by
    intro k option hoption
    simp [Problem.row, hoption]
  refine ⟨_, rfl, fun given hgiven option hoption a ha b hb => ?_, ?_⟩
  · obtain ⟨k, hk, hat⟩ := List.mem_filterMap.mp hoption
    have huntaken := h.untaken k hk b (by rw [hrow k option hat]; exact hb)
    exact not_lists_iff.mp huntaken a (List.mem_flatMap.mpr ⟨given, hgiven, ha⟩)
  · rw [List.pairwise_filterMap]
    refine h.compatible.imp fun {j k} hcompatible option hj option' hk a ha b hb hab => ?_
    rw [hrow j option hj, hrow k option' hk, compatible_iff] at hcompatible
    exact agrees_iff.mp (hcompatible a ha b hb hab)

end Naive

namespace Solver

variable [BEq ι] [BEq χ] [Item ι χ] [Describe ι]

/-- What a call reports, worked out on lists, is coherent. -/
theorem coherent_of_mem_outcome (solver : Solver γ ο ι σ τ) (callbacks : Callbacks σ ο ε τ)
    (preSelected : List ο) (world : σ) :
    ∀ solution ∈ (solver.recording.outcome callbacks.recorded preSelected (world, [])).2.2.2,
      Naive.Coherent solver.items preSelected solution := by
  have hplain : ∀ solution ∈ (((solver.searchFor callbacks).recorded.plain
      (solver.problem preSelected) preSelected).run.run (world, [])).2.2,
      Naive.Coherent solver.items preSelected solution := by
    obtain ⟨more, hmore, hchoices⟩ := (solver.searchFor callbacks).plain_reports
      (solver.problem preSelected) preSelected world []
    rw [hmore, List.nil_append]
    intro solution hmem
    obtain ⟨found, hfound, rfl⟩ := hchoices solution hmem
    exact hfound.coherent
  rw [← recording_searchFor_recorded] at hplain
  rw [outcome]
  cases hensure : solver.recording.phase.ensureClean with
  | error _ => exact List.forall_mem_nil _
  | ok _ =>
    cases hmissing : (solver.recording.problem preSelected).missing? with
    | some _ => exact List.forall_mem_nil _
    | none =>
      change ∀ solution ∈ (((solver.recording.searchFor callbacks.recorded).plain
        (solver.recording.problem preSelected) preSelected).run.run (world, [])).2.2, _ at hplain
      cases hrun : ((solver.recording.searchFor callbacks.recorded).plain
        (solver.recording.problem preSelected) preSelected).run.run (world, []) with
      | mk result after =>
        rw [hrun] at hplain
        cases result with
        | ok _ => exact hplain
        | error _ => exact hplain

variable [Grid γ ι χ] [LawfulGrid γ] [EquivBEq ι] [EquivBEq χ] {solver : Solver γ ο ι σ τ}

/-- A solver that mixes no kinds reports coherent solutions only. -/
theorem Kept.coherent_reports (h : solver.Kept) (hunmixed : solver.Unmixed)
    (callbacks : Callbacks σ ο ε τ) (preSelected : List ο) (world : σ) :
    ∀ solution ∈ (solver.reports callbacks preSelected world).2,
      Naive.Coherent solver.items preSelected solution := by
  have hkept : solver.recording.Kept := h
  obtain ⟨grid, hsearch, -⟩ :=
    hkept.exists_searchWith_eq_of_unmixed hunmixed callbacks.recorded preSelected (world, [])
  rw [reports, hsearch]
  exact solver.coherent_of_mem_outcome callbacks preSelected world

section Kinds

variable (items : ο → List ι) {options : List ο} {trace : Option (Trace σ τ)}

theorem coherent_given (hitems : ∀ option ∈ options, firstRepeat? (items option) = none)
    (hunmixed : Naive.Unmixed (options.map items)) (callbacks : Callbacks σ ο ε τ)
    (preSelected : List ο) (world : σ) :
    ∀ solution ∈ (((onGrid items : Solver γ ο ι σ τ).given trace options).reports callbacks
        preSelected world).2,
      Naive.Coherent items preSelected solution := by
  have hempty : Ready { (onGrid items : Solver γ ο ι σ τ) with trace := trace } :=
    ⟨rfl, LawfulGrid.carries_empty⟩
  obtain ⟨grid, hadd, hready⟩ := hempty.exists_addOptions_eq_ok LawfulGrid.isSealed_empty hitems
  rw [given, hadd]
  exact Kept.coherent_reports (fun _ => hready.carries) hunmixed callbacks preSelected world

omit [Grid γ ι χ] [LawfulGrid γ] in
/-- If no option gives a color to an item that has to be covered, every solution that an open or a
sealed solver reports is coherent. -/
theorem coherent_of_mem_reports (hitems : ∀ option ∈ options, firstRepeat? (items option) = none)
    (hunmixed : Naive.Unmixed (options.map items)) (callbacks : Callbacks σ ο ε τ)
    (preSelected : List ο) (world : σ) :
    (∀ solution ∈ (((woven items).given trace options).reports callbacks preSelected world).2,
      Naive.Coherent items preSelected solution) ∧
      ∀ solution ∈ (((packed items).given trace options).reports callbacks preSelected world).2,
        Naive.Coherent items preSelected solution :=
  ⟨coherent_given items hitems hunmixed callbacks preSelected world,
    coherent_given items hitems hunmixed callbacks preSelected world⟩

end Kinds

end Solver

/-! ## Items that are equal if their labels are -/

/-- A constraint that is the same item as every other one with its label, whatever part they
play. -/
structure ByLabel (α χ : Type) where
  /-- The constraint with its tag and color. -/
  constraint : Constraint α χ
  deriving Repr

namespace ByLabel

variable {α : Type}

instance [BEq α] : BEq (ByLabel α χ) := ⟨fun a b => a.constraint.label == b.constraint.label⟩

instance [BEq α] [EquivBEq α] : EquivBEq (ByLabel α χ) where
  rfl {a} := BEq.refl a.constraint.label
  symm {_ _} := BEq.symm (α := α)
  trans {_ _ _} := BEq.trans (α := α)

instance : Item (ByLabel α χ) χ := ⟨fun a => a.constraint.kind⟩

instance [Describe α] [Describe χ] : Describe (ByLabel α χ) := ⟨fun a => describe a.constraint⟩

end ByLabel

namespace Solver

/-- The item `1` is secondary where it appears first, colored or not later on, and primary once. -/
theorem coherent_of_mem_reports_of_byLabel :
    let items : Nat → List (ByLabel Nat Nat)
      | 0 => [⟨.primary 0⟩, ⟨.secondary 1 (some 7)⟩]
      | 1 => [⟨.primary 2⟩, ⟨.secondary 1 (some 7)⟩]
      | 2 => [⟨.primary 2⟩, ⟨.primary 1⟩]
      | _ => [⟨.primary 0⟩, ⟨.secondary 1 none⟩]
    let callbacks : Callbacks Unit Nat Empty Empty := ⟨fun _ => pure (.ok ()), pure false⟩
    (∀ solution ∈ (((woven items).given none [0, 1, 2, 3]).reports callbacks [] ()).2,
      Naive.Coherent items [] solution) ∧
      ∀ solution ∈ (((packed items).given none [0, 1, 2, 3]).reports callbacks [] ()).2,
        Naive.Coherent items [] solution := by
  intro items callbacks
  exact coherent_of_mem_reports items (by decide) (by decide) callbacks [] ()

/-- The item `0` has to be covered where it appears first, and has a color later on. Both solvers
choose the option with the color and then the one without. -/
theorem not_coherent_of_mixed :
    let items : Bool → List (ByLabel Nat Nat)
      | false => [⟨.primary 0⟩]
      | true => [⟨.secondary 0 (some 7)⟩, ⟨.primary 1⟩]
    let callbacks : Callbacks Unit Bool Empty Empty := ⟨fun _ => pure (.ok ()), pure false⟩
    (∀ option ∈ [false, true], firstRepeat? (items option) = none) ∧
      ((woven items).given none [false, true]).reports callbacks [] () =
        (.ok (), [[true, false]]) ∧
      ((packed items).given none [false, true]).reports callbacks [] () =
        (.ok (), [[true, false]]) ∧
      ¬Naive.Coherent items [] [true, false] := by
  intro items callbacks
  refine ⟨by decide, by decide +kernel, by decide +kernel, ?_⟩
  rintro ⟨added, hadded, -, hpairwise⟩
  obtain rfl : [true, false] = added := hadded
  have hagree := List.rel_of_pairwise_cons hpairwise (List.mem_singleton_self false)
  obtain ⟨_, _, -, hcolor, -⟩ :=
    hagree ⟨.secondary 0 (some 7)⟩ List.mem_cons_self ⟨.primary 0⟩ List.mem_cons_self (by decide)
  cases hcolor

end Solver

end ExactCover
