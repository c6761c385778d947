import ExactCover.Proofs.Counterparts
import ExactCover.Search

/-!
# Searches keep a mesh orderly

Whatever rows a mesh has, a search on it leaves the links leading onward and the rows closed
(`Search.orderly_run`). This is said of the mesh that is there at the end, whether the search came
to its end or was stopped in between by a callback, the observer or an impossible step, and it asks
for nothing that keeps the search from going astray. No column has to be intact, and a row may list
items that are equal but differ in kind. So the rows can still be read off where nothing else is as
it was before.

A mesh mirrors itself, and steps at counterparts lead from meshes that mirror each other to such
meshes. Hence every step at a header or at a cell leads to an orderly mesh. A search takes no other
steps, since the columns that it finds in a ring are headers and what it finds below a header are
cells.
-/

set_option autoImplicit false

namespace ExactCover

variable {n : Nat} {χ σ ο ε τ α β : Type}

/-- What comes second succeeds only if what comes first does. -/
theorem exists_of_bind_eq_ok {first : Except ε α} {second : α → Except ε β} {b : β}
    (h : first >>= second = .ok b) : ∃ a, first = .ok a ∧ second a = .ok b := by
  cases first with
  | error error => contradiction
  | ok a => exact ⟨a, rfl, h⟩

theorem Opposite.refl {as : List α} {a : α} (h : a ∈ as) : Opposite as as a a := by
  obtain ⟨i, hi⟩ := List.mem_iff_getElem?.mp h
  exact ⟨i, hi, hi⟩

/-- In one list only the same element is opposite. -/
theorem Opposite.eq {as : List α} {a b : α} (h : Opposite as as a b) : a = b := by
  obtain ⟨i, ha, hb⟩ := h
  exact Option.some.inj (ha.symm.trans hb)

theorem Layout.Sound.matches_self {L : Layout n χ} (hL : L.Sound) : L.Matches L where
  sound := hL
  sound' := hL
  rows := rfl
  primary := rfl
  secondary := rfl
  columnOf hp := by
    obtain rfl := hp.eq
    exact .refl (hL.columnOf_mem _ hp.mem_left)

namespace Mesh

variable [BEq χ] [EquivBEq χ] {m m' : Mesh n χ} {L : Layout n χ} {c p : Fin n}

namespace Orderly

/-- An orderly mesh mirrors itself. -/
theorem mirrors_self (h : m.Orderly L) (hL : L.Sound) : m.Mirrors m L L where
  orderly := h
  orderly' := h
  down := by
    intro p p' hp
    obtain rfl := hp.eq
    have hstay : ∀ c ∈ L.headers, ∀ q ∈ c :: L.column c, q ∈ L.vertical := by
      intro c hc q hq
      rcases List.mem_cons.mp hq with rfl | hq
      · exact List.mem_append_left _ hc
      · exact List.mem_append_right _ (Layout.mem_column.mp hq).1
    obtain ⟨c, hc, hmem⟩ : ∃ c ∈ L.headers, p ∈ c :: L.column c := by
      rcases List.mem_append.mp hp.mem_left with hc | hcell
      · exact ⟨p, hc, List.mem_cons_self⟩
      · refine ⟨L.columnOf p, hL.columnOf_mem p hcell, List.mem_cons_of_mem _ ?_⟩
        exact Layout.mem_column.mpr ⟨hcell, rfl⟩
    exact ⟨.refl (hstay c hc _ ((h.column c hc).next_mem hmem)),
      .refl (hstay c hc _ ((h.column c hc).prev_mem hmem))⟩
  across := by
    intro p p' hp
    obtain rfl := hp.eq
    have hmem : p ∈ L.primaryHead :: L.primary ∨ p ∈ L.secondaryHead :: L.secondary := by
      have hmem := hp.mem_left
      rw [Layout.horizontal, Layout.headers] at hmem
      grind
    have hstay : ∀ q, q ∈ L.primaryHead :: L.primary ∨ q ∈ L.secondaryHead :: L.secondary →
        q ∈ L.horizontal := by
      intro q hq
      rw [Layout.horizontal, Layout.headers]
      grind
    rcases hmem with hmem | hmem
    · exact ⟨.refl (hstay _ (.inl (h.primary.next_mem hmem))),
        .refl (hstay _ (.inl (h.primary.prev_mem hmem)))⟩
    · exact ⟨.refl (hstay _ (.inr (h.secondary.next_mem hmem))),
        .refl (hstay _ (.inr (h.secondary.prev_mem hmem)))⟩
  count hc := by rw [hc.eq]
  paint hp := by
    rw [hp.eq]
    exact .refl _
  tint hc := by
    rw [hc.eq]
    exact .refl _

omit [EquivBEq χ] in
theorem of_agree {result : Except Fault (Mesh n χ)} (hagree : Agree L L result result)
    (hresult : result = .ok m') : m'.Orderly L := by
  subst hresult
  cases hagree with
  | ok hm => exact hm.orderly

theorem cover (h : m.Orderly L) (hL : L.Sound) (hc : c ∈ L.headers)
    (hstep : m.cover c = .ok m') : m'.Orderly L :=
  of_agree ((h.mirrors_self hL).cover hL.matches_self (.refl hc)) hstep

theorem uncover (h : m.Orderly L) (hL : L.Sound) (hc : c ∈ L.headers)
    (hstep : m.uncover c = .ok m') : m'.Orderly L :=
  of_agree ((h.mirrors_self hL).uncover hL.matches_self (.refl hc)) hstep

theorem commitRow (h : m.Orderly L) (hL : L.Sound) (hp : p ∈ L.cells)
    (hstep : m.commitRow p = .ok m') : m'.Orderly L :=
  of_agree ((h.mirrors_self hL).commitRow hL.matches_self (.refl hp)) hstep

theorem uncommitRow (h : m.Orderly L) (hL : L.Sound) (hp : p ∈ L.cells)
    (hstep : m.uncommitRow p = .ok m') : m'.Orderly L :=
  of_agree ((h.mirrors_self hL).uncommitRow hL.matches_self (.refl hp)) hstep

theorem coverAll (h : m.Orderly L) (hL : L.Sound) {cs : List (Fin n)}
    (hcs : ∀ c ∈ cs, c ∈ L.headers) (hstep : m.coverAll cs = .ok m') : m'.Orderly L := by
  induction cs generalizing m with
  | nil =>
    obtain rfl := Except.ok.inj hstep
    exact h
  | cons c cs ih =>
    rw [Mesh.coverAll, List.foldlM_cons] at hstep
    obtain ⟨covered, hcover, hrest⟩ := exists_of_bind_eq_ok hstep
    exact ih (h.cover hL (hcs c List.mem_cons_self) hcover)
      (fun d hd => hcs d (List.mem_cons_of_mem _ hd)) hrest

theorem uncoverAll (h : m.Orderly L) (hL : L.Sound) {cs : List (Fin n)}
    (hcs : ∀ c ∈ cs, c ∈ L.headers) (hstep : m.uncoverAll cs = .ok m') : m'.Orderly L := by
  induction cs generalizing m' with
  | nil =>
    obtain rfl := Except.ok.inj hstep
    exact h
  | cons c cs ih =>
    have hsplit : m.uncoverAll (c :: cs) = m.uncoverAll cs >>= fun m => m.uncover c := by
      simp [Mesh.uncoverAll, List.foldlM_append]
    rw [hsplit] at hstep
    obtain ⟨uncovered, hrest, huncover⟩ := exists_of_bind_eq_ok hstep
    exact (ih (fun d hd => hcs d (List.mem_cons_of_mem _ hd)) hrest).uncover hL
      (hcs c List.mem_cons_self) huncover

/-- The column to branch on is the column of a header. -/
theorem mem_headers_of_branchColumn? (h : m.Orderly L) (hL : L.Sound)
    (hbranch : m.branchColumn? = .ok (some c)) : c ∈ L.headers := by
  obtain ⟨cs, cs', hcs, -, hrel⟩ := (h.mirrors_self hL).exists_primaryColumns hL.matches_self
  rw [Mesh.branchColumn?, hcs] at hbranch
  obtain ⟨before, behind, hsplit, -⟩ := leastBy?_eq_some (Except.ok.inj hbranch)
  have hc : c ∈ cs := by simp [hsplit]
  obtain ⟨c', -, hsame⟩ := exists_of_forall₂ hrel hc
  exact hsame.mem_left

omit [BEq χ] [EquivBEq χ] in
/-- Below a header and below the cells of its column are these cells and the header. -/
theorem below_mem (h : m.Orderly L) (hc : c ∈ L.headers) (hp : p ∈ c :: L.column c) :
    m.below p ∈ c :: L.column c :=
  (h.column c hc).next_mem hp

end Orderly

end Mesh

/-- From every orderly mesh the part of a search leads to an orderly mesh, however it ends. -/
def KeepsOrderly (L : Layout n χ) (part : SearchM n χ σ ε τ α) : Prop :=
  ∀ m world, m.Orderly L → (part.run.run (m, world)).2.1.Orderly L

namespace KeepsOrderly

variable {L : Layout n χ} {part : SearchM n χ σ ε τ α} {next : α → SearchM n χ σ ε τ β}

theorem pure (a : α) : KeepsOrderly (σ := σ) (ε := ε) (τ := τ) L (Pure.pure a) :=
  fun _ _ h => h

theorem throw (stop : Stop ε τ) :
    KeepsOrderly (σ := σ) (α := α) L (MonadExcept.throw stop) :=
  fun _ _ h => h

theorem call (code : Call σ τ α) : KeepsOrderly (ε := ε) L (SearchM.call code) :=
  fun _ _ h => h

theorem step {move : Mesh n χ → Except Fault (Mesh n χ)}
    (hmove : ∀ m m', m.Orderly L → move m = .ok m' → m'.Orderly L) :
    KeepsOrderly (σ := σ) (ε := ε) (τ := τ) L (SearchM.step move) := by
  intro m world h
  simp only [SearchM.step, ExceptT.run_mk, StateT.run]
  split
  · next m' hm' => exact hmove m m' h hm'
  · exact h

theorem bind (hpart : KeepsOrderly L part) (hnext : ∀ a, KeepsOrderly L (next a)) :
    KeepsOrderly L (part >>= next) := by
  intro m world h
  have hmid := hpart m world h
  rw [ExceptT.run_bind, StateT.run_bind]
  cases hrun : part.run.run (m, world) with
  | mk result state =>
    rw [hrun] at hmid
    cases result with
    | error stop => exact hmid
    | ok a => exact hnext a _ _ hmid

/-- What is read off the mesh tells what to do next. -/
theorem look_bind {read : Mesh n χ → Except Fault α}
    (hnext : ∀ m a, m.Orderly L → read m = .ok a → KeepsOrderly L (next a)) :
    KeepsOrderly L (SearchM.look read >>= next) := by
  intro m world h
  rw [ExceptT.run_bind, StateT.run_bind]
  have hlook : (SearchM.look read : SearchM n χ σ ε τ α).run.run (m, world) =
      ((read m).mapError .impossible, m, world) := rfl
  rw [hlook]
  cases hread : read m with
  | error fault => exact h
  | ok a => exact hnext m a h hread m world h

end KeepsOrderly

namespace Search

variable [BEq χ] [EquivBEq χ] {L : Layout n χ} {c p : Fin n}

omit [BEq χ] [EquivBEq χ] in
theorem report_keepsOrderly (search : Search σ ο ε τ) (chosen : List ο) :
    KeepsOrderly L (search.report chosen) := by
  refine (KeepsOrderly.call _).bind fun answer => ?_
  cases answer with
  | ok _ => exact .pure ()
  | error error => exact .throw _

omit [BEq χ] [EquivBEq χ] in
/-- Following the links down a column meets nothing but its cells before it comes to the header. -/
theorem tryRows_keepsOrderly {attempt : Fin n → SearchM n χ σ ε τ Unit} (hc : c ∈ L.headers)
    (hattempt : ∀ p ∈ L.column c, KeepsOrderly L (attempt p)) (fuel : Nat)
    (hp : p ∈ c :: L.column c) : KeepsOrderly L (tryRows attempt c fuel p) := by
  induction fuel generalizing p with
  | zero =>
    rw [tryRows]
    split
    · exact .pure ()
    · exact .throw _
  | succ fuel ih =>
    rw [tryRows]
    split
    · exact .pure ()
    · next hne =>
      refine (hattempt p (List.mem_of_ne_of_mem hne hp)).bind fun _ => ?_
      refine KeepsOrderly.look_bind fun m q h hq => ih ?_
      rw [← Except.ok.inj hq]
      exact h.below_mem hc hp

theorem descend_keepsOrderly (search : Search σ ο ε τ) (hL : L.Sound) (depth : Nat)
    (chosen : List ο) : KeepsOrderly L (search.descend depth chosen) := by
  induction depth generalizing chosen with
  | zero => exact .throw _
  | succ depth ih =>
    rw [descend]
    refine (KeepsOrderly.call _).bind fun cancelled => ?_
    cases cancelled with
    | true => exact .pure ()
    | false =>
      refine KeepsOrderly.look_bind fun m c? h hbranch => ?_
      cases c? with
      | none => exact search.report_keepsOrderly chosen
      | some c =>
        have hc := h.mem_headers_of_branchColumn? hL hbranch
        refine KeepsOrderly.look_bind fun _ rows _ _ => ?_
        refine (KeepsOrderly.call _).bind fun _ => ?_
        refine (KeepsOrderly.step fun _ _ h hcover => h.cover hL hc hcover).bind fun _ => ?_
        refine KeepsOrderly.look_bind fun m top h htop => ?_
        have htop : top ∈ c :: L.column c := by
          rw [← Except.ok.inj htop]
          exact h.below_mem hc List.mem_cons_self
        refine (tryRows_keepsOrderly hc (fun p hp => ?_) n htop).bind fun _ => ?_
        · have hcell := (Layout.mem_column.mp hp).1
          refine (KeepsOrderly.call _).bind fun _ => ?_
          refine (KeepsOrderly.step fun _ _ h hstep => h.commitRow hL hcell hstep).bind fun _ => ?_
          refine KeepsOrderly.look_bind fun _ option _ _ => (ih _).bind fun _ => ?_
          exact .step fun _ _ h hstep => h.uncommitRow hL hcell hstep
        · refine (KeepsOrderly.step fun _ _ h hstep => h.uncover hL hc hstep).bind fun _ => ?_
          exact .call _

/-- Wherever a search on an orderly mesh ends, the mesh is orderly. -/
theorem orderly_run (search : Search σ ο ε τ) (hL : L.Sound) (preSelected : List ο)
    {m : Mesh n χ} (h : m.Orderly L) (world : σ) :
    ((search.run preSelected).run.run (m, world)).2.1.Orderly L :=
  ((KeepsOrderly.call _).bind fun _ => search.descend_keepsOrderly hL _ _) m world h

end Search

end ExactCover
