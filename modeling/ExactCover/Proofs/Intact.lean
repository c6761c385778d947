import ExactCover.Proofs.Presented

/-!
# Grids pass their own check

The check that a grid makes after every search compares every forward link with the backward link
it should match, and every count with the cells that are there. A mesh at rest passes it, and so
does every mesh that is alike. Together with the check that every item finds its column this makes
both kinds of grids consistent whenever their boards hold some rows.
-/

set_option autoImplicit false

namespace ExactCover

variable {n : Nat} {χ : Type}

/-- A check that does not fail at any element finds what it finds at each of them. -/
theorem allM_eq_ok {α : Type} {f : α → Except Fault Bool} {g : α → Bool} {as : List α}
    (h : ∀ a ∈ as, f a = .ok (g a)) : as.allM f = .ok (as.all g) := by
  induction as with
  | nil => rfl
  | cons a as ih =>
    rw [List.allM, h a List.mem_cons_self, List.all_cons]
    cases g a with
    | false => rfl
    | true => exact ih fun b hb => h b (List.mem_cons_of_mem a hb)

/-- Going around a ring meets its members, if they are admitted there. -/
theorem Links.IsRing.circuit?_eq {links : Links n} {home : Fin n} {members : List (Fin n)}
    (hring : links.IsRing home members) (admitted : Nat → Fin n → Bool)
    (hadmitted : ∀ k p, members[k]? = some p → admitted k p) :
    links.circuit? admitted home = .ok (some members.length) := by
  have hgo : ∀ (done rest : List (Fin n)) (p : Fin n) (fuel : Nat), members = done ++ rest →
      List.IsChain links.Joined (p :: (rest ++ [home])) → rest.length ≤ fuel →
        Links.circuit?.go links admitted home fuel done.length p = .ok (some members.length) := by
    intro done rest
    induction rest generalizing done with
    | nil =>
      intro p fuel hmembers hchain _
      obtain ⟨hnext, hprev⟩ := List.isChain_pair.mp hchain
      rw [Links.circuit?.go.eq_def]
      simp [hnext, hprev, hmembers]
    | cons q rest ih =>
      intro p fuel hmembers hchain hfuel
      rw [List.cons_append, List.isChain_cons_cons] at hchain
      obtain ⟨⟨hnext, hprev⟩, hchain⟩ := hchain
      obtain ⟨fuel, rfl⟩ : ∃ k, fuel = k + 1 := Nat.exists_eq_add_one.mpr (by
        rw [List.length_cons] at hfuel
        omega)
      have hhome : q ≠ home := by
        rintro rfl
        exact hring.home_not_mem (by simp [hmembers])
      have hq : admitted done.length q := hadmitted _ _ (by simp [hmembers])
      have hrest := ih (done ++ [q]) q fuel (by simp [hmembers]) hchain
        (Nat.le_of_succ_le_succ hfuel)
      rw [List.length_append, List.length_singleton] at hrest
      rw [Links.circuit?.go.eq_def]
      simp [hnext, hprev, hhome, hq, hrest]
  exact hgo [] members home n rfl hring.chain (Nat.le_of_lt hring.length_lt)

/-- The headers of a mesh are those of its layout, in another order perhaps. -/
theorem Layout.Sound.headers_perm {m : Mesh n χ} {L : Layout n χ} (hL : L.Sound)
    (hframe : m.toFrame = L.toFrame)
    (hheader : ∀ p : Fin n, L.role p = .header → p ∈ L.headers) : m.headers.Perm L.headers := by
  have hnodup : m.headers.Nodup := (List.nodup_finRange n).filter _
  rw [List.perm_ext_iff_of_nodup hnodup hL.headers_nodup]
  intro p
  rw [Mesh.headers, List.mem_filter, decide_eq_true_eq, hframe]
  constructor
  · intro hp
    exact hheader p hp.2
  · intro hp
    exact ⟨List.mem_finRange p, hL.role_header p hp⟩

namespace Mesh.Shows

variable [BEq χ] {m : Mesh n χ} {L : Layout n χ} {v : Picture n χ}

/-- A column is intact if it is not restricted to a color. -/
theorem isColumnIntact_eq (h : m.Shows L v) (hL : L.Sound) {c : Fin n} (hc : c ∈ L.headers) :
    m.isColumnIntact c = .ok (v.tint c).isNone := by
  have hcircuit := (h.column c hc).circuit?_eq (fun _ p => (m.role p).isCell && m.column p == c)
    fun k p hp => by
      have hmem := List.mem_of_mem_filter (List.mem_of_getElem? hp)
      obtain ⟨hcell, hcolumn⟩ := Layout.mem_column.mp hmem
      have hcolumn' : m.column p = c := (h.column_eq p).trans hcolumn
      simp [h.role_eq, hL.role_cell p hcell, hcolumn']
  rw [Mesh.isColumnIntact, hcircuit, h.count c hc, ← (h.tint c hc).isNone_eq]
  simp [bind, Except.bind]

omit [BEq χ] in
/-- Going around a ring of columns finds it in order. -/
theorem ringLength?_eq {head : Fin n} {cs : List (Fin n)} (hring : m.across.IsRing head cs)
    (hle : cs.length ≤ m.numColumns) : m.ringLength? head = .ok (some cs.length) := by
  refine hring.circuit?_eq _ fun k p hp => ?_
  obtain ⟨hlt, -⟩ := List.getElem?_eq_some_iff.mp hp
  simp only [decide_eq_true_eq]
  omega

/-- The check is passed if no column is restricted to a color and all are in their rings. -/
theorem isIntact_eq (h : m.Shows L v) (hL : L.Sound)
    (hheader : ∀ p : Fin n, L.role p = .header → p ∈ L.headers) :
    m.isIntact = .ok (L.headers.all fun c => (v.tint c).isNone && v.isOpen c) := by
  have hperm := hL.headers_perm h.frame hheader
  have hcolumns := allM_eq_ok fun c hc => h.isColumnIntact_eq hL (hperm.mem_iff.mp hc)
  have hnum : m.numColumns = L.primary.length + L.secondary.length := by
    rw [numColumns, hperm.length_eq, Layout.headers, List.length_append]
  have hprimary : m.primaryHead = L.primaryHead := congrArg Frame.primaryHead h.frame
  have hsecondary : m.secondaryHead = L.secondaryHead := congrArg Frame.secondaryHead h.frame
  have hlengthP := List.length_filter_le v.isOpen L.primary
  have hlengthS := List.length_filter_le v.isOpen L.secondary
  rw [Mesh.isIntact, hcolumns, hperm.all_eq, hprimary,
    hsecondary, ringLength?_eq h.primary (by omega), ringLength?_eq h.secondary (by omega), hnum]
  have hopen : (((L.primary.filter v.isOpen).length + (L.secondary.filter v.isOpen).length ==
      L.primary.length + L.secondary.length) : Bool) = L.headers.all v.isOpen := by
    rw [Bool.eq_iff_iff, beq_iff_eq, Layout.headers, List.all_append, Bool.and_eq_true,
      List.all_eq_true, List.all_eq_true, ← List.length_filter_eq_length_iff,
      ← List.length_filter_eq_length_iff]
    omega
  have hboth : ((L.headers.all fun c => (v.tint c).isNone) && L.headers.all v.isOpen) =
      L.headers.all fun c => (v.tint c).isNone && v.isOpen c := by
    rw [Bool.eq_iff_iff]
    simp only [Bool.and_eq_true, List.all_eq_true, ← forall_and]
  simp [bind, Except.bind, hopen, hboth]

end Mesh.Shows

namespace Mesh.AtRest

variable [BEq χ] {m m' : Mesh n χ} {L : Layout n χ}

theorem of_alike [EquivBEq χ] (h : m.AtRest L) (halike : m.Alike m') : m'.AtRest L where
  frame := halike.frame.trans h.frame
  column c hc := by
    rw [halike.down]
    exact h.column c hc
  count c hc := by
    rw [halike.count_eq]
    exact h.count c hc
  paint p hp := (h.paint p hp).trans (halike.paint p)
  tint c hc := by
    have htint := halike.tint c
    rw [h.tint c hc] at htint
    cases htint' : m'.tint c with
    | none => rfl
    | some color =>
      rw [htint'] at htint
      contradiction
  primary := by
    rw [halike.across]
    exact h.primary
  secondary := by
    rw [halike.across]
    exact h.secondary

/-- A mesh at rest passes the check. -/
theorem isIntact (h : m.AtRest L) (hL : L.Sound)
    (hheader : ∀ p : Fin n, L.role p = .header → p ∈ L.headers) :
    m.isIntact = .ok true := by
  rw [h.shows.isIntact_eq hL hheader]
  simp [Layout.picture]

end Mesh.AtRest

variable {ι : Type} [BEq ι] [BEq χ] [Item ι χ]

namespace Board

variable {b : Board ι χ} {rows : List (List ι)} {numbering : Nat → Nat}

/-- A board with another mesh that is alike has the same rows on it. -/
theorem Bears.of_alike [EquivBEq χ] (h : b.Bears rows numbering) {mesh : Mesh b.size χ}
    (halike : b.mesh.Alike mesh) : ({ b with mesh := mesh } : Board ι χ).Bears rows numbering := by
  obtain ⟨L, hplots, hclosed⟩ := h
  exact ⟨L, { hplots with atRest := hplots.atRest.of_alike halike },
    fun row hrow => (hclosed row hrow).of_alike halike⟩

theorem Holds.of_alike [EquivBEq χ] (h : b.Holds rows numbering) {mesh : Mesh b.size χ}
    (halike : b.mesh.Alike mesh) : ({ b with mesh := mesh } : Board ι χ).Holds rows numbering := by
  obtain ⟨L, hcharts, hclosed⟩ := h
  exact ⟨L, { hcharts with atRest := hcharts.atRest.of_alike halike },
    fun row hrow => (hclosed row hrow).of_alike halike⟩

theorem Bears.isIntact (h : b.Bears rows numbering) : b.mesh.isIntact = .ok true := by
  obtain ⟨L, hplots, -⟩ := h
  exact hplots.atRest.isIntact hplots.sound hplots.header

/-- Every item finds the column that was made for it. -/
theorem Bears.isIndexed [EquivBEq ι] (h : b.Bears rows numbering) : b.isIndexed = true := by
  obtain ⟨L, hplots, -⟩ := h
  rw [Board.isIndexed, List.all_eq_true]
  intro x hx
  obtain ⟨c, -, hcx, -⟩ := hplots.exists_header hx
  have hlabel : Labels b.columns c x.1 := ⟨x.1, hcx ▸ hx, BEq.rfl⟩
  rw [(Board.column?_eq_some_iff hplots).mpr hlabel]
  simp [hcx]

end Board

end ExactCover
