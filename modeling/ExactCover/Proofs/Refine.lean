import ExactCover.Proofs.Explore
import ExactCover.Proofs.Tracking

/-!
# The search on a mesh follows the search on lists

The search on a mesh that displays what was settled, where the settled columns are those of the
chosen rows, does to the world of its caller what the search on lists does with these rows. It
finds the same column with the fewest rows, tries the same rows in the same order, and leaves the
mesh as it was, up to colors that are equal. The induction is on the depth that is left. Each level
rests on the round trips of covering a column and committing a row.
-/

set_option autoImplicit false

namespace ExactCover

variable {n : Nat} {ι χ σ ο ε τ : Type} [BEq ι] [BEq χ] [Item ι χ]

omit [BEq ι] [Item ι χ] in
/-- When a column is covered, those of its cells stay that fit what was settled before. -/
theorem Mesh.Displays.exists_cover_open [EquivBEq χ] {m : Mesh n χ} {L : Layout n χ}
    {settled : List (Fin n × Option χ)} {c : Fin n} (hL : L.Proper)
    (hm : m.Displays L (L.picture settled)) (hc : c ∈ L.headers) (hopen : c ∉ settled.map (·.1)) :
    ∃ m', RoundTrip (Mesh.cover c) (Mesh.uncover c) m m' ∧
      m'.Displays L (L.picture (settled ++ [(c, none)])) ∧
        m'.down.IsRing c ((L.column c).filter (L.fits settled)) := by
  obtain ⟨m', hcover, hm'⟩ := hm.exists_settle hL hc hopen .none
  have hhangs : (L.column c).filter (L.picture (settled ++ [(c, none)])).hangs =
      (L.column c).filter (L.fits settled) := by
    apply List.filter_congr
    intro p hp
    simp only [Layout.picture, (Layout.mem_column.mp hp).2, Layout.settledBefore_concat hopen]
  exact ⟨m', hcover, hm', hhangs ▸ hm'.column c hc⟩

namespace Search

/-- Trying the rows of a column follows going through a list, if every attempt follows. -/
theorem tryRows_follows [EquivBEq χ] {R : Fin n → Nat → Prop}
    {attempt : Fin n → SearchM n χ σ ε τ Unit} {body : Nat → PlainM σ ε τ Unit}
    {c : Fin n} {ps : List (Fin n)} {ks : List Nat} {m : Mesh n χ} (hring : m.down.IsRing c ps)
    (hrel : List.Forall₂ R ps ks)
    (hattempt : ∀ p k m₁, R p k → m.Alike m₁ → Follows m₁.Alike m₁ (attempt p) (body k)) :
    Follows m.Alike m (tryRows attempt c n (m.below c)) (forM ks body) := by
  have hgo : ∀ (rest : List (Fin n)) (ks : List Nat) (p : Fin n) (fuel : Nat) (m₁ : Mesh n χ),
      List.Forall₂ R rest ks → List.IsChain m.down.Joined (p :: (rest ++ [c])) → c ∉ rest →
        rest.length ≤ fuel → m.Alike m₁ →
          Follows m.Alike m₁ (tryRows attempt c fuel (m.below p)) (forM ks body) := by
    intro rest
    induction rest with
    | nil =>
      intro ks p fuel m₁ hrel hchain _ _ halike
      cases hrel
      have hend : m.below p = c := (List.isChain_pair.mp hchain).1
      have hdone : tryRows attempt c fuel (m.below p) = pure () := by
        cases fuel <;> simp [tryRows, hend]
      rw [hdone]
      exact .pure () halike
    | cons q rest ih =>
      intro ks p fuel m₁ hrel hchain hc hfuel halike
      cases hrel with
      | @cons _ k _ ks hqk hrel =>
      rw [List.cons_append, List.isChain_cons_cons] at hchain
      rw [List.mem_cons, not_or] at hc
      obtain ⟨fuel, rfl⟩ : ∃ j, fuel = j + 1 := Nat.exists_eq_add_one.mpr (by
        rw [List.length_cons] at hfuel
        omega)
      have hbelow : m.below p = q := hchain.1.1
      rw [hbelow, tryRows, if_neg (Ne.symm hc.1), List.forM_cons]
      apply (hattempt q k m₁ hqk halike).bind
      intro m₂ _ hm₂
      have halike₂ := halike.trans hm₂
      apply Follows.look_bind (a := m.below q)
      · rw [halike₂.below_eq]
      · exact ih ks q fuel m₂ hrel hchain.2 hc.2 (Nat.le_of_succ_le_succ hfuel) halike₂
  exact hgo ps ks c n m hrel hring.chain hring.home_not_mem (Nat.le_of_lt hring.length_lt)
    (.refl m)

variable {m₀ m : Mesh n χ} {columns : List (ι × Nat)} {L : Layout n χ} {problem : Naive.Problem ι}
  {settled : List (Fin n × Option χ)} {chosen : List Nat} {preSelected : List ο} {depth : Nat}
  {c : Fin n}

/-- With the given depth, the search on meshes with the layout follows the search on lists. -/
def FollowsAt (search : Search σ ο ε τ) (L : Layout n χ) (columns : List (ι × Nat))
    (problem : Naive.Problem ι) (preSelected : List ο) (depth : Nat) : Prop :=
  ∀ {settled : List (Fin n × Option χ)} {chosen : List Nat} {m : Mesh n χ},
    m.Displays L (L.picture settled) → Tracks columns L problem settled chosen →
      Follows m.Alike m (search.descend depth (preSelected ++ search.optionsOf chosen))
        (search.explore problem preSelected depth chosen)

/-- A cell leads to the option of its row. -/
theorem exists_optionAt_eq (search : Search σ ο ε τ) (hcharts : m₀.Charts columns L problem.rows)
    (hoptions : search.options.length = problem.rows.length)
    (hm : m.Displays L (L.picture settled)) {p : Fin n} {k : Nat} (hp : p ∈ L.cells)
    (hrow : L.rows[k]? = some (L.rowOf p)) :
    ∃ option, search.options[k]? = some option ∧ search.optionAt p m = .ok option := by
  obtain ⟨hlt, -⟩ := List.getElem?_eq_some_iff.mp hrow
  have hlt' : k < search.options.length := by
    rw [hoptions, ← hcharts.cells.length_eq]
    exact hlt
  have hoption := List.getElem?_eq_getElem hlt'
  refine ⟨_, hoption, ?_⟩
  rw [optionAt, Mesh.option?, hm.role_eq,
    hcharts.number k _ hrow p (hcharts.proper.rowOf_mem hp).2]
  simp [hoption]

variable [EquivBEq ι] [EquivBEq χ]

/-- Trying one row: it is committed, the search goes on below it, and it is uncommitted. -/
theorem attempt_follows (search : Search σ ο ε τ) (hcharts : m₀.Charts columns L problem.rows)
    (hunmixed : L.Unmixed) (hoptions : search.options.length = problem.rows.length)
    (hdeeper : search.FollowsAt L columns problem preSelected depth)
    (ht : Tracks columns L problem settled chosen) (hc : c ∈ L.primary)
    (hm : m.Displays L (L.picture (settled ++ [(c, none)]))) {p : Fin n} {k : Nat}
    (hp : p ∈ L.column c) (hfits : L.fits settled p) (hrow : L.rows[k]? = some (L.rowOf p)) :
    Follows m.Alike m
      (do
        SearchM.call search.trace.rowSelected
        SearchM.step (Mesh.commitRow p)
        let option ← SearchM.look (search.optionAt p)
        descend search depth (preSelected ++ search.optionsOf chosen ++ [option])
        SearchM.step (Mesh.uncommitRow p))
      (do
        PlainM.call search.trace.rowSelected
        search.explore problem preSelected depth (chosen ++ [k])) := by
  have hL := hcharts.proper
  obtain ⟨hpCell, rfl⟩ := Layout.mem_column.mp hp
  obtain ⟨m₁, hcommit, hm₁⟩ := hm.exists_commitRow hL hpCell hfits
  obtain ⟨option, hoption, hat⟩ := search.exists_optionAt_eq hcharts hoptions hm₁ hpCell hrow
  apply Follows.call_bind
  intro _
  apply Follows.step_bind hcommit.forth_eq
  apply Follows.look_bind hat
  have hnext := hdeeper hm₁ (ht.choose hcharts hpCell hrow hunmixed hc hfits)
  have hchosen : search.optionsOf (chosen ++ [k]) = search.optionsOf chosen ++ [option] := by
    simp [optionsOf, hoption]
  rw [hchosen, ← List.append_assoc] at hnext
  exact hnext.bind_step hcommit.exists_back

/-- One branch of the search: the column is covered, its rows are tried, and the column is
uncovered. -/
theorem branch_follows (search : Search σ ο ε τ) (hcharts : m₀.Charts columns L problem.rows)
    (hunmixed : L.Unmixed) (hoptions : search.options.length = problem.rows.length)
    (hdeeper : search.FollowsAt L columns problem preSelected depth)
    (hm : m.Displays L (L.picture settled)) (ht : Tracks columns L problem settled chosen)
    (hc : c ∈ L.primary) (hopen : c ∉ settled.map (·.1)) {x : ι} (hx : (x, c.val) ∈ columns) :
    Follows m.Alike m
      (do
        let rows ← SearchM.look fun m => .ok (m.count c)
        SearchM.call (search.trace.entered rows)
        SearchM.step (Mesh.cover c)
        let top ← SearchM.look fun m => .ok (m.below c)
        tryRows (fun p => do
          SearchM.call search.trace.rowSelected
          SearchM.step (Mesh.commitRow p)
          let option ← SearchM.look (search.optionAt p)
          descend search depth (preSelected ++ search.optionsOf chosen ++ [option])
          SearchM.step (Mesh.uncommitRow p)) c n top
        SearchM.step (Mesh.uncover c)
        SearchM.call search.trace.ended)
      (do
        PlainM.call (search.trace.entered (problem.candidates chosen x).length)
        forM (problem.candidates chosen x) fun k => do
          PlainM.call search.trace.rowSelected
          search.explore problem preSelected depth (chosen ++ [k])
        PlainM.call search.trace.ended) := by
  have hL := hcharts.proper
  have hheader : c ∈ L.headers := List.mem_append_left _ hc
  have hrows := ht.candidates_rel hcharts hx
  have hcount : m.count c = (problem.candidates chosen x).length := by
    rw [hm.count c hheader, ← hrows.length_eq]
    apply congrArg
    apply List.filter_congr
    intro p hp
    exact Layout.hangs_picture ((Layout.mem_column.mp hp).2 ▸ hopen)
  apply Follows.look_bind rfl
  rw [hcount]
  apply Follows.call_bind
  intro _
  obtain ⟨m₁, hcover, hm₁, hring⟩ := hm.exists_cover_open hL hheader hopen
  apply Follows.step_bind hcover.forth_eq
  apply Follows.look_bind rfl
  apply (tryRows_follows hring hrows ?_).bind
  · intro m₂ _ hm₂
    obtain ⟨m₃, huncover, hm₃⟩ := hcover.exists_back m₂ hm₂
    apply Follows.step_bind huncover
    apply (Follows.call _).mono
    rintro m' rfl
    exact hm₃
  · rintro p k m₂ ⟨hp, hfits, hrow⟩ halike
    exact attempt_follows search hcharts hunmixed hoptions hdeeper ht hc (hm₁.of_alike halike) hp
      hfits hrow

theorem descend_follows (search : Search σ ο ε τ) (hcharts : m₀.Charts columns L problem.rows)
    (hunmixed : L.Unmixed) (horder : (columns.map (·.1)).filter isPrimaryItem =
      (distinct problem.rows.flatten).filter isPrimaryItem)
    (hoptions : search.options.length = problem.rows.length) (preSelected : List ο) (depth : Nat) :
    search.FollowsAt L columns problem preSelected depth := by
  induction depth with
  | zero =>
    intro settled chosen m hm ht
    exact .throw _
  | succ depth ih =>
    intro settled chosen m hm ht
    rw [descend, explore]
    apply Follows.call_bind
    intro cancelled
    cases cancelled with
    | true => exact .pure () (.refl m)
    | false =>
      have hprimary : m.primaryHead = L.primaryHead := congrArg Frame.primaryHead hm.frame
      have hbranch : m.branchColumn? =
          .ok (leastBy? m.count (L.primary.filter (L.picture settled).isOpen)) := by
        rw [Mesh.branchColumn?, Mesh.primaryColumns, hprimary, hm.primary.members_eq]
        rfl
      have hsame := ht.branch_rel hcharts horder hm
      apply Follows.look_bind hbranch
      generalize leastBy? m.count (L.primary.filter (L.picture settled).isOpen) = c? at hsame
      generalize problem.branchItem? chosen = x? at hsame
      cases hsame with
      | none =>
        apply (Follows.report search _).mono
        rintro m' rfl
        exact .refl m'
      | @some c x hcx =>
        obtain ⟨hc, hopen, hx⟩ := hcx
        exact branch_follows search hcharts hunmixed hoptions ih hm ht hc hopen hx

end Search

end ExactCover
