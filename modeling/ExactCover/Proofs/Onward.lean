import ExactCover.Proofs.Rising

/-!
# Orderly meshes grow

Rows can be added to any orderly mesh, not only to one at rest. Adding a position redirects no link
but those at the ends of the lists that it joins, and as the position comes after all the others,
the links lead onward as before. So nothing that was done to the links of a mesh gets into the way
of a new row, whatever state the columns and the rings are in.

The row that is being added has no end yet. Until it is closed, a mesh is orderly as far as the rows
before it are concerned (`Mesh.OrderlyOn`).
-/

set_option autoImplicit false

namespace ExactCover

variable {n : Nat} {χ : Type}

namespace Links

variable {links : Links n} {home p q : Fin n} {members : List (Fin n)}

theorem rises_nil (hnext : links.next home = home) (hprev : links.prev home = home) :
    links.Rises home [] where
  next _ hq := .inl (List.mem_singleton.mp hq ▸ hnext)
  prev _ hq := .inl (List.mem_singleton.mp hq ▸ hprev)

namespace Rises

/-- A new position leaves the lists of the old ones as they were. -/
theorem push (h : links.Rises home members) :
    links.push.Rises home.castSucc (members.map Fin.castSucc) where
  next := by
    intro q hq
    rw [← List.map_cons] at hq
    obtain ⟨p, hp, rfl⟩ := List.mem_map.mp hq
    rw [next_push_castSucc]
    exact (h.next p hp).imp (congrArg _) fun ⟨hmem, hlt⟩ =>
      ⟨List.mem_map_of_mem hmem, hlt.imp_left (congrArg _)⟩
  prev := by
    intro q hq
    rw [← List.map_cons] at hq
    obtain ⟨p, hp, rfl⟩ := List.mem_map.mp hq
    rw [prev_push_castSucc]
    exact (h.prev p hp).imp (congrArg _) fun ⟨hmem, hlt⟩ =>
      ⟨List.mem_map_of_mem hmem, hlt.imp_left (congrArg _)⟩

/-- A position that comes after all others can be inserted in front of `home`. -/
theorem insertBefore (h : links.Rises home members) (hlater : ∀ q ∈ home :: members, q < p) :
    (links.insertBefore home p).Rises home (members ++ [p]) where
  next := by
    intro q hq
    rw [next_insertBefore]
    split
    · exact .inl rfl
    · next hqp =>
      have hmem : q ∈ home :: members := by
        rw [← List.cons_append, List.mem_append, List.mem_singleton] at hq
        exact hq.resolve_right hqp
      split
      · exact .inr ⟨by simp, .inr (hlater q hmem)⟩
      · exact (h.next q hmem).imp_right fun ⟨hnext, hlt⟩ => ⟨List.mem_append_left _ hnext, hlt⟩
  prev := by
    intro q hq
    rw [prev_insertBefore]
    split
    · next hhome => exact .inr ⟨by simp, .inl hhome⟩
    · split
      · next hqp =>
        refine (h.prev home List.mem_cons_self).imp_right fun ⟨hprev, _⟩ => ?_
        refine ⟨List.mem_append_left _ hprev, .inr ?_⟩
        rw [hqp]
        exact hlater _ (List.mem_cons_of_mem _ hprev)
      · next hqp =>
        have hmem : q ∈ home :: members := by
          rw [← List.cons_append, List.mem_append, List.mem_singleton] at hq
          exact hq.resolve_right hqp
        exact (h.prev q hmem).imp_right fun ⟨hprev, hlt⟩ => ⟨List.mem_append_left _ hprev, hlt⟩

/-- Inserting a position changes only its own links and links within the list. -/
theorem insertBefore_of_not_mem (h : links.Rises home members) (hq : q ∉ home :: members)
    (hqp : q ≠ p) :
    (links.insertBefore home p).next q = links.next q ∧
      (links.insertBefore home p).prev q = links.prev q := by
  have hlast : q ≠ links.prev home := by
    rintro rfl
    exact hq (h.prev_mem List.mem_cons_self)
  have hhome : q ≠ home := by
    rintro rfl
    exact hq List.mem_cons_self
  rw [next_insertBefore, prev_insertBefore, if_neg hqp, if_neg hlast, if_neg hhome, if_neg hqp]
  exact ⟨rfl, rfl⟩

/-- Inserting a position leaves lists alone that have nothing in common with its own. -/
theorem insertBefore_of_disjoint {home' : Fin n} {members' : List (Fin n)}
    (h : links.Rises home members) (hother : links.Rises home' members')
    (hp : p ∉ home' :: members') (hapart : (home :: members).Disjoint (home' :: members')) :
    (links.insertBefore home p).Rises home' members' :=
  hother.congr fun _ hq => h.insertBefore_of_not_mem (fun hmem => hapart hmem hq)
    fun heq => hp (heq ▸ hq)

end Rises

end Links

namespace Mesh

/-- The links lead onward, and the walks around some rows close. -/
structure OrderlyOn (m : Mesh n χ) (L : Layout n χ) (rows : List (List (Fin n))) : Prop where
  frame : m.toFrame = L.toFrame
  column : ∀ c ∈ L.headers, m.down.Rises c (L.column c)
  primary : m.across.Rises L.primaryHead L.primary
  secondary : m.across.Rises L.secondaryHead L.secondary
  closed : ∀ row ∈ rows, m.ClosesRow row

variable {m : Mesh n χ} {L : Layout n χ} {done : List (List (Fin n))} {pending : List (Fin n)}
  {c : Fin n} {option : Nat} {paint : Paint χ}

theorem Orderly.orderlyOn (h : m.Orderly L) : m.OrderlyOn L L.rows :=
  ⟨h.frame, h.column, h.primary, h.secondary, h.closed⟩

theorem OrderlyOn.orderly (h : m.OrderlyOn L L.rows) : m.Orderly L :=
  ⟨h.frame, h.column, h.primary, h.secondary, h.closed⟩

theorem AtRest.orderlyOn [BEq χ] (h : m.AtRest L) (hL : L.Sound)
    (hclosed : ∀ row ∈ done, m.ClosesRow row) : m.OrderlyOn L done where
  frame := h.frame
  column c hc := (h.column c hc).rises (hL.cells_sorted.filter _)
  primary := h.primary.rises hL.primary_sorted
  secondary := h.secondary.rises hL.secondary_sorted
  closed := hclosed

theorem AtRest.orderly [BEq χ] (h : m.AtRest L) (hL : L.Sound)
    (hclosed : ∀ row ∈ L.rows, m.ClosesRow row) : m.Orderly L :=
  (h.orderlyOn hL hclosed).orderly

namespace OrderlyOn

theorem role_eq (h : m.OrderlyOn L done) (p : Fin n) : m.role p = L.role p := by
  simp only [Frame.role, h.frame]

theorem startRow (h : m.OrderlyOn L done) : m.OrderlyOn L.startRow done := by
  refine { h with column := fun c hc => ?_ }
  have hcolumn : L.startRow.column c = L.column c := by
    rw [Layout.column, Layout.cells_startRow]
    rfl
  rw [hcolumn]
  exact h.column c hc

/-- A new position that is not listed leaves the others as they are. -/
theorem push (h : m.OrderlyOn L done) (role : Role) (owner : Fin (n + 1)) (paint : Paint χ) :
    (m.push role owner paint).OrderlyOn (L.push role owner paint)
      (done.map (List.map Fin.castSucc)) where
  frame := by
    have hframe := h.frame
    simp only [Frame.ext_iff] at hframe
    simp [Mesh.push, Layout.push, hframe]
  column := by
    intro c hc
    rw [Layout.headers_push] at hc
    obtain ⟨d, hd, rfl⟩ := List.mem_map.mp hc
    rw [Layout.column_push]
    exact (h.column d hd).push
  primary := h.primary.push
  secondary := h.secondary.push
  closed := by
    intro row hrow
    obtain ⟨old, hold, rfl⟩ := List.mem_map.mp hrow
    exact (h.closed old hold).push role owner paint

theorem lt_last {home : Fin n} {members : List (Fin n)} :
    ∀ q ∈ home.castSucc :: members.map Fin.castSucc, q < Fin.last n := by
  intro q hq
  rw [← List.map_cons] at hq
  obtain ⟨p, -, rfl⟩ := List.mem_map.mp hq
  exact Fin.castSucc_lt_last p

/-- A new header stands at the end of its ring. -/
theorem pushHeader (h : m.OrderlyOn L done) (hL : L.Sound) (hdone : ∀ row ∈ done, row ∈ L.rows)
    (isPrimary : Bool) :
    (m.pushHeader isPrimary).OrderlyOn (L.pushHeader isPrimary)
      (done.map (List.map Fin.castSucc)) := by
  have hgrown := h.push .header (Fin.last n) .uncolored
  have hL' := hL.push .header (Fin.last n) .uncolored
  have hnone : (L.push .header (Fin.last n) .uncolored).column (Fin.last n) = [] := by
    rw [Layout.column, Layout.cells_push, List.filter_eq_nil_iff]
    intro p hp
    obtain ⟨q, -, rfl⟩ := List.mem_map.mp hp
    simp
  have hcolumn : ∀ c ∈ (L.pushHeader isPrimary).headers,
      m.down.push.Rises c ((L.push .header (Fin.last n) .uncolored).column c) := by
    intro c hc
    rcases Layout.mem_headers_pushHeader.mp hc with hc | rfl
    · exact hgrown.column c (by rwa [Layout.headers_push])
    · rw [hnone]
      exact Links.rises_nil (Links.next_push_last _) (Links.prev_push_last _)
  -- Inserting the header in front of a head writes no link of a cell.
  have hclosed : ∀ head cs, m.across.push.Rises head cs →
      (∀ p ∈ head :: cs, ((L.push .header (Fin.last n) .uncolored).role p).isCell = false) →
        ∀ row ∈ done.map (List.map Fin.castSucc),
          ({ m.push .header (Fin.last n) .uncolored with
            across := m.across.push.insertBefore head (Fin.last n) } : Mesh (n + 1) χ).ClosesRow
              row := by
    intro head cs hrises hnocell row hrow
    refine (hgrown.closed row hrow).congr (fun p hp => ?_) rfl (fun p hp => ?_)
      fun _ _ => ⟨rfl, rfl⟩
    · obtain ⟨old, hold, rfl⟩ := List.mem_map.mp hrow
      obtain ⟨q, hq, rfl⟩ := List.mem_map.mp hp
      rw [role_push_castSucc, h.role_eq]
      exact hL.role_cell q (Layout.mem_cells_of_mem_row (hdone old hold) hq)
    · rw [hgrown.role_eq] at hp
      apply hrises.insertBefore_of_not_mem
      · intro hmem
        rw [hnocell p hmem] at hp
        exact Bool.false_ne_true hp
      · rintro rfl
        rw [Layout.role_push_last] at hp
        exact Bool.false_ne_true hp
  have hapart := hL'.rings_disjoint
  cases isPrimary with
  | true =>
    have hhead : (m.push .header (Fin.last n) .uncolored).primaryHead = L.primaryHead.castSucc :=
      congrArg Frame.primaryHead hgrown.frame
    refine ⟨hgrown.frame, hcolumn, ?_, ?_, ?_⟩ <;> simp only [Mesh.pushHeader, if_true, hhead]
    · exact hgrown.primary.insertBefore lt_last
    · exact hgrown.primary.insertBefore_of_disjoint hgrown.secondary
        (fun hmem => Fin.lt_irrefl _ (lt_last _ hmem)) hapart
    · exact hclosed _ _ hgrown.primary fun p hp => hL'.isCell_eq_false_of_mem_ring (.inl hp)
  | false =>
    have hhead : (m.push .header (Fin.last n) .uncolored).secondaryHead =
        L.secondaryHead.castSucc :=
      congrArg Frame.secondaryHead hgrown.frame
    refine ⟨hgrown.frame, hcolumn, ?_, ?_, ?_⟩ <;>
      simp only [Mesh.pushHeader, Bool.false_eq_true, if_false, hhead]
    · exact hgrown.secondary.insertBefore_of_disjoint hgrown.primary
        (fun hmem => Fin.lt_irrefl _ (lt_last _ hmem)) hapart.symm
    · exact hgrown.secondary.insertBefore lt_last
    · exact hclosed _ _ hgrown.secondary fun p hp => hL'.isCell_eq_false_of_mem_ring (.inr hp)

/-- A new cell of the last row hangs at the bottom of its column. -/
theorem pushCell (h : m.OrderlyOn L done) (hL : L.Sound) (hrows : L.rows = done ++ [pending])
    (hc : c ∈ L.headers) :
    (m.pushCell c option paint).OrderlyOn (L.pushCell c option paint)
      (done.map (List.map Fin.castSucc)) := by
  have hgrown := h.push (.cell option) c.castSucc paint
  have hheaders : (L.pushCell c option paint).headers = L.headers.map Fin.castSucc :=
    Layout.headers_push L (.cell option) c.castSucc paint
  have hrises : ∀ d ∈ L.headers, m.down.push.Rises d.castSucc ((L.column d).map Fin.castSucc) :=
    fun d hd => (h.column d hd).push
  refine ⟨hgrown.frame, fun d' hd' => ?_, hgrown.primary, hgrown.secondary, fun row hrow => ?_⟩
  · rw [hheaders] at hd'
    obtain ⟨d, hd, rfl⟩ := List.mem_map.mp hd'
    change (m.down.push.insertBefore c.castSucc (Fin.last n)).Rises d.castSucc _
    rw [Layout.column_pushCell hrows]
    by_cases hdc : d = c
    · rw [if_pos hdc, hdc]
      exact (hrises c hc).insertBefore lt_last
    · rw [if_neg hdc, List.append_nil]
      refine (hrises c hc).insertBefore_of_disjoint (hrises d hd)
        (fun hmem => Fin.lt_irrefl _ (lt_last _ hmem)) ?_
      rw [← List.map_cons, ← List.map_cons]
      exact (hL.column_disjoint hc hd (Ne.symm hdc)).map (Fin.castSucc_injective n)
  · refine (hgrown.closed row hrow).congr (fun p hp => ?_) rfl (fun _ _ => ⟨rfl, rfl⟩)
      fun p hspacer => ?_
    · obtain ⟨old, hold, rfl⟩ := List.mem_map.mp hrow
      obtain ⟨q, hq, rfl⟩ := List.mem_map.mp hp
      have hmem : old ∈ L.rows := hrows ▸ List.mem_append_left _ hold
      rw [role_push_castSucc, h.role_eq]
      exact hL.role_cell q (Layout.mem_cells_of_mem_row hmem hq)
    · rw [hgrown.role_eq] at hspacer
      apply (hrises c hc).insertBefore_of_not_mem
      · rw [← List.map_cons]
        intro hmem
        obtain ⟨q, hq, rfl⟩ := List.mem_map.mp hmem
        rw [Layout.role_push_castSucc] at hspacer
        exact hL.role_ne_spacer hc hq hspacer
      · rintro rfl
        rw [Layout.role_push_last] at hspacer
        cases hspacer

/-- Closing the circle of the last row writes no link of a ring. -/
theorem circle (h : m.OrderlyOn L done) (hL : L.Sound) (hrows : L.rows = done ++ [pending])
    (hstyle : m.style = .linked) :
    ({ m with across := m.across.circle pending } : Mesh n χ).Orderly L := by
  have hpending : pending ∈ L.rows := by simp [hrows]
  have hrises : ∀ head cs, m.across.Rises head cs →
      (∀ p ∈ head :: cs, (L.role p).isCell = false) →
        (m.across.circle pending).Rises head cs := by
    intro head cs hrises hnocell
    refine hrises.congr fun p hp =>
      m.across.next_prev_circle_of_not_mem (hL.row_nodup hpending) fun hmem => ?_
    have hcell := hL.role_cell p (Layout.mem_cells_of_mem_row hpending hmem)
    rw [hnocell p hp] at hcell
    exact Bool.false_ne_true hcell
  exact ⟨h.frame, h.column,
    hrises _ _ h.primary fun p hp => hL.isCell_eq_false_of_mem_ring (.inl hp),
    hrises _ _ h.secondary fun p hp => hL.isCell_eq_false_of_mem_ring (.inr hp),
    closesRow_circle hL hstyle hrows h.closed⟩

end OrderlyOn

theorem Orderly.pushHeader (h : m.Orderly L) (hL : L.Sound) (isPrimary : Bool) :
    (m.pushHeader isPrimary).Orderly (L.pushHeader isPrimary) := by
  have hgrown := h.orderlyOn.pushHeader hL (fun _ hrow => hrow) isPrimary
  rw [← Layout.rows_pushHeader] at hgrown
  exact hgrown.orderly

end Mesh

end ExactCover
