import ExactCover.Proofs.Intact
import ExactCover.Proofs.Parallel

/-!
# What the check of a grid decides

The check that follows a search walks along links that may have come into any state. It keeps no
record of where it was and has no bound of its own, so two things are to be shown for links of
every kind: that it comes to an end, and that it accepts nothing but lists in order.

Both rest on the same observation. The walk goes on from a position only if the backward link
there names the position that it came from. Then the positions met so far form a chain that can be
followed in both directions, and a position that was met before already has another predecessor in
this chain (`not_mem_trail`). So no position is met twice, the walk is over after at most as many
steps as there are positions, and one that comes home has been around a ring.
-/

set_option autoImplicit false

namespace ExactCover

variable {n : Nat} {χ ι : Type}

namespace Links

variable {links : Links n} {home p q : Fin n} {trail : List (Fin n)}

/-- A position behind the end of a trail that links back to that end is not on the trail, unless
it is the start. -/
theorem not_mem_trail (hchain : List.IsChain links.Joined (home :: trail))
    (hnodup : (home :: trail).Nodup) (hlast : (home :: trail).getLast? = some (links.prev q))
    (hhome : q ≠ home) : q ∉ home :: trail := by
  intro hmem
  obtain ⟨before, behind, htrail⟩ :=
    List.append_of_mem ((List.mem_cons.mp hmem).resolve_left hhome)
  obtain ⟨front, a, hfront⟩ := List.eq_nil_or_concat (home :: before) |>.resolve_left (by simp)
  rw [List.concat_eq_append] at hfront
  have hsplit : home :: trail = front ++ a :: q :: behind := by
    rw [htrail, ← List.cons_append, hfront, List.append_assoc, List.singleton_append]
  rw [hsplit] at hchain hnodup hlast
  have hprev : links.prev q = a := (List.isChain_append_cons_cons.mp hchain).2.1.2
  -- The trail ends behind `q`, but the backward link out of `q` leads to its predecessor.
  rw [hprev, List.getLast?_append_cons, List.getLast?_cons_cons] at hlast
  exact (List.nodup_cons.mp (List.nodup_append.mp hnodup).2.1).1 (List.mem_of_getLast? hlast)

/-- Going on behind a trail comes to an end, and if it comes home, then around a ring that begins
with the trail. -/
private theorem exists_circuit?_go (admitted : Nat → Fin n → Bool) (fuel : Nat)
    (hchain : List.IsChain links.Joined (home :: trail)) (hnodup : (home :: trail).Nodup)
    (hlast : (home :: trail).getLast? = some p) (hfuel : n ≤ trail.length + fuel)
    (hadmitted : ∀ k q, trail[k]? = some q → admitted k q) :
    ∃ answer, circuit?.go links admitted home fuel trail.length p = .ok answer ∧
      ∀ k, answer = some k → ∃ members, links.IsRing home members ∧ members.length = k ∧
        ∀ k q, members[k]? = some q → admitted k q := by
  induction fuel generalizing trail p with
  | zero =>
    have hle := hnodup.length_le_card
    rw [Fintype.card_fin, List.length_cons] at hle
    omega
  | succ fuel ih =>
    by_cases hback : links.prev (links.next p) = p
    swap
    · refine ⟨none, ?_, by simp⟩
      rw [circuit?.go.eq_def]
      simp [hback]
    have hstep : links.Joined p (links.next p) := ⟨rfl, hback⟩
    have hlonger : List.IsChain links.Joined (home :: (trail ++ [links.next p])) := by
      rw [← List.cons_append, List.isChain_append]
      refine ⟨hchain, List.isChain_singleton _, fun x hx y hy => ?_⟩
      rw [hlast, Option.mem_some_iff] at hx
      rw [List.head?_singleton, Option.mem_some_iff] at hy
      exact hx ▸ hy ▸ hstep
    by_cases hhome : links.next p = home
    · refine ⟨some trail.length, ?_, ?_⟩
      · rw [circuit?_go_of_home hhome, if_pos (hhome ▸ hback)]
      · rintro k ⟨⟩
        exact ⟨trail, ⟨hhome ▸ hlonger, hnodup⟩, rfl, hadmitted⟩
    · rw [circuit?_go_of_ne hhome]
      simp only [hback]
      cases hnext : admitted trail.length (links.next p) with
      | false => exact ⟨none, by simp, by simp⟩
      | true =>
        have hfresh := not_mem_trail hchain hnodup (hlast.trans (congrArg some hback.symm)) hhome
        have hnodup' : (home :: (trail ++ [links.next p])).Nodup := by
          rw [← List.cons_append, ← List.concat_eq_append, List.nodup_concat]
          exact ⟨hfresh, hnodup⟩
        have hlast' : (home :: (trail ++ [links.next p])).getLast? = some (links.next p) := by
          rw [← List.cons_append, List.getLast?_concat]
        have hfuel' : n ≤ (trail ++ [links.next p]).length + fuel := by
          rw [List.length_append, List.length_singleton]
          omega
        have hadmitted' : ∀ k q, (trail ++ [links.next p])[k]? = some q → admitted k q := by
          intro k q hq
          rw [List.getElem?_append] at hq
          split at hq
          · exact hadmitted k q hq
          · next hlt =>
            obtain ⟨hk, rfl⟩ := List.getElem?_eq_some_iff.mp hq
            rw [List.length_singleton] at hk
            obtain rfl : k = trail.length := by omega
            simpa using hnext
        have hrest := ih hlonger hnodup' hlast' hfuel' hadmitted'
        rw [List.length_append, List.length_singleton] at hrest
        simpa using hrest

/-- Going around links of any kind comes to an end. It finds a number of members exactly if the
links form a ring of that many, each admitted at its place. -/
theorem circuit?_decides (links : Links n) (admitted : Nat → Fin n → Bool) (home : Fin n) :
    ∃ answer, links.circuit? admitted home = .ok answer ∧
      ∀ k, answer = some k ↔ ∃ members, links.IsRing home members ∧ members.length = k ∧
        ∀ k q, members[k]? = some q → admitted k q := by
  have hchain : List.IsChain links.Joined (home :: []) := List.isChain_singleton home
  obtain ⟨answer, hanswer, hring⟩ := exists_circuit?_go (p := home) admitted n hchain
    (List.nodup_singleton home) rfl (Nat.le_add_left ..) (by simp)
  refine ⟨answer, hanswer, fun k => ⟨hring k, ?_⟩⟩
  rintro ⟨members, hmembers, rfl, hadmitted⟩
  exact Except.ok.inj (hanswer.symm.trans (hmembers.circuit?_eq admitted hadmitted))

end Links

namespace Mesh

variable {m : Mesh n χ} {c head : Fin n}

/-- The column with header `c` is in order: the links down from the header lead through distinct
cells of the column and back, the links up lead the same way in reverse, the stored count is the
number of the cells, and the column is not restricted to a color. -/
def IsColumnInOrder (m : Mesh n χ) (c : Fin n) : Prop :=
  ∃ cells, m.down.IsRing c cells ∧ (∀ p ∈ cells, (m.role p).isCell ∧ m.column p = c) ∧
    m.count c = cells.length ∧ m.tint c = none

/-- The mesh is in order: each of its columns is, and the two ring heads close rings that have as
many members between them as there are columns. -/
structure InOrder (m : Mesh n χ) : Prop where
  columns : ∀ c ∈ m.headers, m.IsColumnInOrder c
  rings : ∃ primary secondary, m.across.IsRing m.primaryHead primary ∧
    m.across.IsRing m.secondaryHead secondary ∧
      primary.length + secondary.length = m.numColumns

/-- The check of a single column ends and decides whether the column is in order. -/
theorem isColumnIntact_decides (m : Mesh n χ) (c : Fin n) :
    ∃ answer, m.isColumnIntact c = .ok answer ∧ (answer = true ↔ m.IsColumnInOrder c) := by
  obtain ⟨met, hmet, hring⟩ :=
    m.down.circuit?_decides (fun _ p => (m.role p).isCell && m.column p == c) c
  refine ⟨met == some (m.count c) && (m.tint c).isNone, ?_, ?_⟩
  · rw [isColumnIntact, hmet]
    rfl
  · rw [Bool.and_eq_true, beq_iff_eq, hring, Option.isNone_iff_eq_none]
    simp only [Bool.and_eq_true, beq_iff_eq]
    constructor
    · rintro ⟨⟨cells, hcells, hlength, hadmitted⟩, htint⟩
      refine ⟨cells, hcells, fun p hp => ?_, hlength.symm, htint⟩
      obtain ⟨k, hk⟩ := List.getElem?_of_mem hp
      exact hadmitted k p hk
    · rintro ⟨cells, hcells, hmem, hcount, htint⟩
      exact ⟨⟨cells, hcells, hcount.symm, fun k p hk => hmem p (List.mem_of_getElem? hk)⟩, htint⟩

/-- Counting a ring ends. It finds the members of every ring that has no more of them than there
are columns, and nothing but the members of a ring. -/
theorem ringLength?_decides (m : Mesh n χ) (head : Fin n) :
    ∃ answer, m.ringLength? head = .ok answer ∧
      (∀ k, answer = some k → ∃ members, m.across.IsRing head members ∧ members.length = k) ∧
        ∀ members, m.across.IsRing head members → members.length ≤ m.numColumns →
          answer = some members.length := by
  obtain ⟨answer, hanswer, hring⟩ :=
    m.across.circuit?_decides (fun met _ => met ≤ m.numColumns) head
  refine ⟨answer, hanswer, fun k hk => ?_, fun members hmembers hle => ?_⟩
  · obtain ⟨members, hmembers, hlength, -⟩ := (hring k).mp hk
    exact ⟨members, hmembers, hlength⟩
  · refine (hring _).mpr ⟨members, hmembers, rfl, fun k q hq => ?_⟩
    obtain ⟨hlt, -⟩ := List.getElem?_eq_some_iff.mp hq
    exact decide_eq_true (by omega)

/-- The check of a mesh ends and decides whether the mesh is in order. -/
theorem isIntact_decides (m : Mesh n χ) :
    ∃ answer, m.isIntact = .ok answer ∧ (answer = true ↔ m.InOrder) := by
  choose columnAnswer hcolumn hcolumnIff using m.isColumnIntact_decides
  obtain ⟨primary?, hprimary, hprimaryRing, hprimaryFound⟩ := m.ringLength?_decides m.primaryHead
  obtain ⟨secondary?, hsecondary, hsecondaryRing, hsecondaryFound⟩ :=
    m.ringLength?_decides m.secondaryHead
  have hcolumns : m.headers.all columnAnswer = true ↔ ∀ c ∈ m.headers, m.IsColumnInOrder c := by
    rw [List.all_eq_true]
    exact forall₂_congr fun c _ => hcolumnIff c
  refine ⟨m.headers.all columnAnswer && (do return (← primary?) + (← secondary?)) ==
    some m.numColumns, ?_, ?_⟩
  · rw [isIntact, allM_eq_ok fun c _ => hcolumn c, hprimary, hsecondary]
    cases primary? <;> cases secondary? <;> simp [bind, Except.bind]
  · rw [Bool.and_eq_true, beq_iff_eq, hcolumns]
    constructor
    · rintro ⟨hall, hsum⟩
      obtain ⟨a, rfl, b, rfl, hab⟩ : ∃ a, primary? = some a ∧ ∃ b, secondary? = some b ∧
          a + b = m.numColumns := by
        simpa [Option.bind_eq_some_iff] using hsum
      obtain ⟨primary, hp, rfl⟩ := hprimaryRing a rfl
      obtain ⟨secondary, hs, rfl⟩ := hsecondaryRing b rfl
      exact ⟨hall, primary, secondary, hp, hs, hab⟩
    · rintro ⟨hall, primary, secondary, hp, hs, hab⟩
      rw [hprimaryFound primary hp (by omega), hsecondaryFound secondary hs (by omega)]
      exact ⟨hall, congrArg some hab⟩

/-- If the last cell of a column leads down to the first one instead of the header, a walk down
never comes back to the header. The check stops where it would enter the loop again. -/
example :
    let m : Mesh 5 Unit :=
      (((heads .linked).pushHeader true).pushCell 2 0 .uncolored).pushCell 2 1 .uncolored
    let looped := { m with down := ⟨m.down.forward.aim 4 3, m.down.backward⟩ }
    m.isIntact = .ok true ∧ looped.isIntact = .ok false ∧ looped.cells 2 = .error .endless :=
  ⟨rfl, rfl, rfl⟩

end Mesh

/-- Every item of the board finds the column that was made for it. -/
def Board.IsIndexed [BEq ι] (b : Board ι χ) : Prop :=
  ∀ entry ∈ b.columns, (b.column? entry.1).map (·.val) = some entry.2

theorem Board.isIndexed_iff [BEq ι] (b : Board ι χ) : b.isIndexed = true ↔ b.IsIndexed := by
  rw [isIndexed, List.all_eq_true]
  simp only [beq_iff_eq]
  rfl

/-- Whatever the links, counts and colors of a grid are, its check comes to an end and decides
whether they are in order. An open grid in addition checks that its items find their columns. -/
theorem Grid.isConsistent_decides [BEq ι] [Item ι χ] :
    (∀ grid : Woven ι χ, ∃ answer, Grid.isConsistent grid = .ok answer ∧
      (answer = true ↔ grid.board.mesh.InOrder ∧ grid.board.IsIndexed)) ∧
    ∀ grid : Packed ι χ, ∃ answer, Grid.isConsistent grid = .ok answer ∧
      (answer = true ↔ grid.board.mesh.InOrder) := by
  constructor
  · intro grid
    obtain ⟨intact, hintact, hiff⟩ := grid.board.mesh.isIntact_decides
    refine ⟨intact && grid.board.isIndexed, ?_, ?_⟩
    · have heq : Grid.isConsistent grid = grid.isConsistent := rfl
      rw [heq, Woven.isConsistent, hintact]
      rfl
    · rw [Bool.and_eq_true, hiff, Board.isIndexed_iff]
  · intro grid
    exact grid.board.mesh.isIntact_decides

end ExactCover
