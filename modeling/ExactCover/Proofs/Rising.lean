import ExactCover.Proofs.Growth

/-!
# Links that lead onward

If the steps on a mesh are undone in another order than latest first, or more than once, links are
redirected that name positions which are no longer there, and what is left are no rings. One thing
stays: the positions of a list were added in an order, and every forward link leads to a later
position of the list or home, every backward link to an earlier one or home (`Links.Rises`). Taking
a position out writes the links out of it into its neighbors, putting it back writes the position
itself there, and both keep the order, whatever the neighbors are by then.

A mesh is *orderly* if this holds of its columns and of its rings and the walks around its rows
close. It is so at rest, and every single link that is ever written keeps it so.
-/

set_option autoImplicit false

namespace ExactCover

variable {n : Nat} {χ : Type}

namespace Links

variable {links links' : Links n} {home p : Fin n} {members : List (Fin n)}

/-- From `home` and the members the links lead to members and to `home`, the forward links of a
member to later ones and the backward links to earlier ones. -/
structure Rises (links : Links n) (home : Fin n) (members : List (Fin n)) : Prop where
  next : ∀ p ∈ home :: members, links.next p = home ∨
    links.next p ∈ members ∧ (p = home ∨ p < links.next p)
  prev : ∀ p ∈ home :: members, links.prev p = home ∨
    links.prev p ∈ members ∧ (p = home ∨ links.prev p < p)

/-- A ring whose members come in order. -/
theorem IsRing.rises (hring : links.IsRing home members) (hsorted : members.Pairwise (· < ·)) :
    links.Rises home members where
  next := by
    intro p hp
    rcases List.mem_cons.mp hp with rfl | hp
    · rcases List.mem_cons.mp hring.next_home_mem with hnext | hnext
      · exact .inl hnext
      · exact .inr ⟨hnext, .inl rfl⟩
    · obtain ⟨before, behind, rfl⟩ := List.append_of_mem hp
      obtain ⟨-, b, rear, hrear, hb⟩ := hring.exists_neighbors
      rw [hb.1]
      cases behind with
      | nil => exact .inl (List.cons.inj hrear).1.symm
      | cons q behind =>
        obtain ⟨rfl, -⟩ := List.cons.inj hrear
        have hlt := (List.pairwise_append.mp hsorted).2.1
        exact .inr ⟨by simp, .inr ((List.pairwise_cons.mp hlt).1 q (by simp))⟩
  prev := by
    intro p hp
    rcases List.mem_cons.mp hp with rfl | hp
    · rcases List.mem_cons.mp hring.prev_home_mem with hprev | hprev
      · exact .inl hprev
      · exact .inr ⟨hprev, .inl rfl⟩
    · obtain ⟨before, behind, rfl⟩ := List.append_of_mem hp
      obtain ⟨⟨front, a, hfront, ha⟩, -⟩ := hring.exists_neighbors
      rw [ha.2]
      have hmem : a ∈ home :: before := by simp [hfront]
      rcases List.mem_cons.mp hmem with rfl | hmem
      · exact .inl rfl
      · have hlt := (List.pairwise_append.mp hsorted).2.2 a hmem p (by simp)
        exact .inr ⟨List.mem_append_left _ hmem, .inr hlt⟩

namespace Rises

theorem next_mem (h : links.Rises home members) (hp : p ∈ home :: members) :
    links.next p ∈ home :: members :=
  List.mem_cons.mpr ((h.next p hp).imp_right And.left)

theorem prev_mem (h : links.Rises home members) (hp : p ∈ home :: members) :
    links.prev p ∈ home :: members :=
  List.mem_cons.mpr ((h.prev p hp).imp_right And.left)

/-- Only the links out of the positions of a list matter to it. -/
theorem congr (h : links.Rises home members)
    (hlinks : ∀ p ∈ home :: members, links'.next p = links.next p ∧ links'.prev p = links.prev p) :
    links'.Rises home members where
  next p hp := by
    rw [(hlinks p hp).1]
    exact h.next p hp
  prev p hp := by
    rw [(hlinks p hp).2]
    exact h.prev p hp

/-- If the neighbors of a member are linked to each other, the links from one to the other pass over
the member. -/
theorem unlink (h : links.Rises home members) (hp : p ∈ members) (hhome : p ≠ home) :
    (links.unlink p).Rises home members where
  next := by
    intro r hr
    rw [next_unlink]
    split
    · next hprev =>
      refine (h.next p (List.mem_cons_of_mem _ hp)).imp_right fun ⟨hmem, hlt⟩ => ⟨hmem, ?_⟩
      rw [hprev]
      refine (h.prev p (List.mem_cons_of_mem _ hp)).imp_right fun hbefore => ?_
      exact (hbefore.2.resolve_left hhome).trans (hlt.resolve_left hhome)
    · exact h.next r hr
  prev := by
    intro r hr
    rw [prev_unlink]
    split
    · next hnext =>
      refine (h.prev p (List.mem_cons_of_mem _ hp)).imp_right fun ⟨hmem, hlt⟩ => ⟨hmem, ?_⟩
      rw [hnext]
      refine (h.next p (List.mem_cons_of_mem _ hp)).imp_right fun hbehind => ?_
      exact (hlt.resolve_left hhome).trans (hbehind.2.resolve_left hhome)
    · exact h.prev r hr

/-- If a member is put back between the neighbors that its links name, it comes after the one and
before the other, whether or not it was out. -/
theorem relink (h : links.Rises home members) (hp : p ∈ members) (hhome : p ≠ home) :
    (links.relink p).Rises home members where
  next := by
    intro r hr
    rw [next_relink]
    split
    · next hprev =>
      rw [hprev]
      refine .inr ⟨hp, (h.prev p (List.mem_cons_of_mem _ hp)).imp_right fun hbefore => ?_⟩
      exact hbefore.2.resolve_left hhome
    · exact h.next r hr
  prev := by
    intro r hr
    rw [prev_relink]
    split
    · next hnext =>
      rw [hnext]
      refine .inr ⟨hp, (h.next p (List.mem_cons_of_mem _ hp)).imp_right fun hbehind => ?_⟩
      exact hbehind.2.resolve_left hhome
    · exact h.prev r hr

variable {q : Fin n}

/-- The neighbors of a member are in its list. -/
theorem ne_neighbors (h : links.Rises home members) (hp : p ∈ members)
    (hq : q ∉ home :: members) : q ≠ links.prev p ∧ q ≠ links.next p := by
  have hp' : p ∈ home :: members := List.mem_cons_of_mem _ hp
  constructor
  · rintro rfl
    exact hq (h.prev_mem hp')
  · rintro rfl
    exact hq (h.next_mem hp')

/-- Taking a member out writes no link outside its list. -/
theorem unlink_of_not_mem (h : links.Rises home members) (hp : p ∈ members)
    (hq : q ∉ home :: members) :
    (links.unlink p).next q = links.next q ∧ (links.unlink p).prev q = links.prev q := by
  obtain ⟨hprev, hnext⟩ := h.ne_neighbors hp hq
  rw [next_unlink, prev_unlink, if_neg hprev, if_neg hnext]
  exact ⟨rfl, rfl⟩

/-- Putting a member back writes no link outside its list. -/
theorem relink_of_not_mem (h : links.Rises home members) (hp : p ∈ members)
    (hq : q ∉ home :: members) :
    (links.relink p).next q = links.next q ∧ (links.relink p).prev q = links.prev q := by
  obtain ⟨hprev, hnext⟩ := h.ne_neighbors hp hq
  rw [next_relink, prev_relink, if_neg hprev, if_neg hnext]
  exact ⟨rfl, rfl⟩

end Rises

end Links

/-! ## Orderly meshes -/

namespace Mesh

/-- The links of the columns and of the rings lead onward, and the walks around the rows close. -/
structure Orderly (m : Mesh n χ) (L : Layout n χ) : Prop where
  frame : m.toFrame = L.toFrame
  column : ∀ c ∈ L.headers, m.down.Rises c (L.column c)
  primary : m.across.Rises L.primaryHead L.primary
  secondary : m.across.Rises L.secondaryHead L.secondary
  closed : ∀ row ∈ L.rows, m.ClosesRow row

variable {m m' : Mesh n χ} {L : Layout n χ} {c p : Fin n}

namespace Orderly

theorem role_eq (h : m.Orderly L) (p : Fin n) : m.role p = L.role p := by
  simp only [Frame.role, h.frame]

theorem column_eq (h : m.Orderly L) (p : Fin n) : m.column p = L.columnOf p := by
  simp only [Mesh.column, Layout.columnOf, h.frame]

theorem isCell (h : m.Orderly L) (hL : L.Sound) (hp : p ∈ L.cells) : (m.role p).isCell := by
  rw [h.role_eq]
  exact hL.role_cell p hp

/-- Counts, paints and tints have no part in it. -/
theorem congr (h : m.Orderly L) (hframe : m'.toFrame = m.toFrame) (hacross : m'.across = m.across)
    (hdown : m'.down = m.down) : m'.Orderly L where
  frame := hframe.trans h.frame
  column c hc := by
    rw [hdown]
    exact h.column c hc
  primary := by
    rw [hacross]
    exact h.primary
  secondary := by
    rw [hacross]
    exact h.secondary
  closed row hrow := (h.closed row hrow).congr_of_neighbors hframe
    (fun _ _ => by rw [hacross]; exact ⟨rfl, rfl⟩) (fun _ _ _ _ _ => by rw [hdown])
    fun _ _ _ _ _ => by rw [hdown]

/-- The walks around a row can be started at any of its cells. -/
theorem leads_around (h : m.Orderly L) (hL : L.Sound) (hp : p ∈ L.cells) :
    m.Leads right p (L.around p) ∧ m.Leads left p (L.around p).reverse :=
  leads_around_of_closed hL h.closed hp

/-- If the links of one column lead onward, it does not matter how they were changed. -/
theorem of_column (h : m.Orderly L) (hL : L.Sound) (hc : c ∈ L.headers) {down : Links n}
    (hcolumn : down.Rises c (L.column c)) (hfar : ∀ q ∉ c :: L.column c,
      down.next q = m.down.next q ∧ down.prev q = m.down.prev q) :
    ({ m with down := down } : Mesh n χ).Orderly L where
  frame := h.frame
  column d hd := by
    by_cases hdc : d = c
    · rw [hdc]
      exact hcolumn
    · exact (h.column d hd).congr fun q hq =>
        hfar q fun hmem => hL.column_disjoint hd hc hdc hq hmem
  primary := h.primary
  secondary := h.secondary
  closed row hrow := (h.closed row hrow).congr
    (fun _ hp => h.isCell hL (Layout.mem_cells_of_mem_row hrow hp)) rfl
    (fun _ _ => ⟨rfl, rfl⟩) fun q hspacer => hfar q fun hmem => by
      rw [h.role_eq] at hspacer
      exact hL.role_ne_spacer hc hmem hspacer

theorem unlink_down (h : m.Orderly L) (hL : L.Sound) (hp : p ∈ L.cells) :
    ({ m with down := m.down.unlink p } : Mesh n χ).Orderly L := by
  have hc := hL.columnOf_mem p hp
  have hmem : p ∈ L.column (L.columnOf p) := Layout.mem_column.mpr ⟨hp, rfl⟩
  have hne : p ≠ L.columnOf p := fun heq => hL.not_mem_headers hp (heq ▸ hc)
  exact h.of_column hL hc ((h.column _ hc).unlink hmem hne) fun _ hq =>
    (h.column _ hc).unlink_of_not_mem hmem hq

theorem relink_down (h : m.Orderly L) (hL : L.Sound) (hp : p ∈ L.cells) :
    ({ m with down := m.down.relink p } : Mesh n χ).Orderly L := by
  have hc := hL.columnOf_mem p hp
  have hmem : p ∈ L.column (L.columnOf p) := Layout.mem_column.mpr ⟨hp, rfl⟩
  have hne : p ≠ L.columnOf p := fun heq => hL.not_mem_headers hp (heq ▸ hc)
  exact h.of_column hL hc ((h.column _ hc).relink hmem hne) fun _ hq =>
    (h.column _ hc).relink_of_not_mem hmem hq

/-- If the links of the rings lead onward, it does not matter how they were changed. -/
theorem of_rings (h : m.Orderly L) {across : Links n}
    (hprimary : across.Rises L.primaryHead L.primary)
    (hsecondary : across.Rises L.secondaryHead L.secondary)
    (hfar : ∀ q ∈ L.cells, across.next q = m.across.next q ∧ across.prev q = m.across.prev q) :
    ({ m with across := across } : Mesh n χ).Orderly L where
  frame := h.frame
  column := h.column
  primary := hprimary
  secondary := hsecondary
  closed row hrow := (h.closed row hrow).congr_of_neighbors rfl
    (fun _ hp => hfar _ (Layout.mem_cells_of_mem_row hrow hp)) (fun _ _ _ _ _ => rfl)
    fun _ _ _ _ _ => rfl

/-- What is done to the links of a header leaves the mesh orderly if it keeps the order in the ring
of the header and writes no link outside. -/
theorem of_header (h : m.Orderly L) (hL : L.Sound) (hc : c ∈ L.headers) {across : Links n}
    (hrises : ∀ {home : Fin n} {members : List (Fin n)}, m.across.Rises home members →
      c ∈ members → c ≠ home → across.Rises home members ∧ ∀ q ∉ home :: members,
        across.next q = m.across.next q ∧ across.prev q = m.across.prev q) :
    ({ m with across := across } : Mesh n χ).Orderly L := by
  have hne : ∀ head, L.role head = .ringHead → c ≠ head := by
    rintro head hhead rfl
    rw [hL.role_header c hc] at hhead
    cases hhead
  have hcell : ∀ q ∈ L.cells, q ∉ L.primaryHead :: L.primary ∧
      q ∉ L.secondaryHead :: L.secondary := by
    intro q hq
    constructor
    all_goals
      intro hmem
      have hcell := hL.role_cell q hq
      rw [hL.isCell_eq_false_of_mem_ring (by tauto)] at hcell
      exact Bool.false_ne_true hcell
  rcases List.mem_append.mp hc with hc | hc
  · obtain ⟨hprimary, hfar⟩ := hrises h.primary hc (hne _ hL.role_primaryHead)
    exact h.of_rings hprimary
      (h.secondary.congr fun q hq => hfar q fun hmem => hL.rings_disjoint hmem hq)
      fun q hq => hfar q (hcell q hq).1
  · obtain ⟨hsecondary, hfar⟩ := hrises h.secondary hc (hne _ hL.role_secondaryHead)
    exact h.of_rings
      (h.primary.congr fun q hq => hfar q fun hmem => hL.rings_disjoint hq hmem) hsecondary
      fun q hq => hfar q (hcell q hq).2

theorem unlink_across (h : m.Orderly L) (hL : L.Sound) (hc : c ∈ L.headers) :
    ({ m with across := m.across.unlink c } : Mesh n χ).Orderly L :=
  h.of_header hL hc fun hrises hmem hne =>
    ⟨hrises.unlink hmem hne, fun _ hq => hrises.unlink_of_not_mem hmem hq⟩

theorem relink_across (h : m.Orderly L) (hL : L.Sound) (hc : c ∈ L.headers) :
    ({ m with across := m.across.relink c } : Mesh n χ).Orderly L :=
  h.of_header hL hc fun hrises hmem hne =>
    ⟨hrises.relink hmem hne, fun _ hq => hrises.relink_of_not_mem hmem hq⟩

end Orderly

end Mesh

end ExactCover
