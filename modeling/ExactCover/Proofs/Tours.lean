import ExactCover.Proofs.Returning

/-!
# Tours around a row

Hiding a row and committing it walk around the row to the right, and their reverses walk around it
to the left. What is done at a cell takes columns apart and puts them together, so the links that
such a walk follows are not those of the mesh that it began with.

Still it meets the other cells of its row and nothing else. To the right it comes from the next cell
to the last one, over the end of the row to the first, and on to the one before its start, and to
the left it comes the other way (`Board.Tours`). This is so whatever was done to the mesh before,
because a step never writes a link that holds a row together, be it one of the circle of a linked
row or one of the spacers next to a spaced row. A sweep along a route that its visits leave in place
makes the visits of the route and no other (`Mesh.sweepsAlong`).
-/

set_option autoImplicit false

namespace ExactCover

/-- The numbers below `n` other than `i`, once around: from the one after `i` to the last, and from
the first to the one before `i`. -/
def turn (n i : Nat) : List Nat := List.range' (i + 1) (n - (i + 1)) ++ List.range i

/-- The elements of a list other than the one with number `i`, once around. -/
theorem forall₂_turn {α : Type} {as : List α} {i : Nat} (hi : i < as.length) :
    List.Forall₂ (fun j a => as[j]? = some a) (turn as.length i)
      (as.drop (i + 1) ++ as.take i) := by
  apply List.rel_append
  · refine List.forall₂_iff_get.mpr ⟨by simp, fun k hk hk' => ?_⟩
    rw [List.length_drop] at hk'
    simp only [List.get_eq_getElem, List.getElem_range', List.getElem_drop, Nat.one_mul]
    exact List.getElem?_eq_getElem (by omega)
  · refine List.forall₂_iff_get.mpr ⟨by simp [hi.le], fun k hk hk' => ?_⟩
    rw [List.length_range] at hk
    simp only [List.get_eq_getElem, List.getElem_range, List.getElem_take]
    exact List.getElem?_eq_getElem (by omega)

example : turn 5 2 = [3, 4, 0, 1] := by decide

namespace Mesh

variable {n : Nat} {χ : Type}

section Sweeps

variable (step : Mesh n χ → Fin n → Except Fault (Fin n))
  (visit : Fin n → Mesh n χ → Except Fault (Mesh n χ)) (home : Fin n)

/-- The positions that a sweep visits, in the order of the visits. A visit that is impossible is the
last one. -/
def visited (m : Mesh n χ) : List (Fin n) :=
  match step m home with
  | .ok start => go n start m
  | .error _ => []
where
  /-- Goes on from a position that has not been visited yet. -/
  go : Nat → Fin n → Mesh n χ → List (Fin n)
    | 0, _, _ => []
    | fuel + 1, p, m =>
      if p = home then []
      else
        p ::
          match visit p m with
          | .error _ => []
          | .ok m =>
            match step m p with
            | .error _ => []
            | .ok q => go fuel q m

/-- A sweep that ends like this has made the visits of a route in turn, up to the first that is
impossible, and no other. -/
structure SweepsAlong (m : Mesh n χ) (route : List (Fin n)) (result : Except Fault (Mesh n χ)) :
    Prop where
  /-- The sweep does what the visits do one after another, and stops only where one of them does. -/
  result_eq : result = route.foldlM (fun m p => visit p m) m
  /-- No visit is left out, made twice or made out of turn. -/
  visited_prefix : m.visited step visit home <+: route
  /-- A sweep that is possible makes all of the visits. -/
  visited_eq : ∀ m', result = .ok m' → m.visited step visit home = route

end Sweeps

section Invariants

variable {step : Mesh n χ → Fin n → Except Fault (Fin n)}
  {visit : Fin n → Mesh n χ → Except Fault (Mesh n χ)} {home : Fin n} {route : List (Fin n)}
  {keeps : Mesh n χ → Prop} (hleads : ∀ {m}, keeps m → m.Leads step home route)
  (hvisit : ∀ {m m' p}, keeps m → p ∈ route → visit p m = .ok m' → keeps m')

include hleads hvisit

/-- A sweep that has passed a part of its route goes on with the visits to what is left of it. -/
theorem sweepsAlong_go {done ps : List (Fin n)} (hroute : route = done ++ ps) {q : Fin n}
    {rear : List (Fin n)} (hq : ps ++ [home] = q :: rear) {fuel : Nat} (hfuel : ps.length ≤ fuel)
    {m : Mesh n χ} (hm : keeps m) :
    sweep.go step visit home fuel q m = ps.foldlM (fun m p => visit p m) m ∧
      visited.go step visit home fuel q m <+: ps ∧
        ∀ m', sweep.go step visit home fuel q m = .ok m' →
          visited.go step visit home fuel q m = ps := by
  induction ps generalizing done q rear fuel m with
  | nil =>
    obtain ⟨rfl, -⟩ := List.cons.inj hq
    have hnone : visited.go step visit home fuel home m = [] := by
      cases fuel <;> simp [visited.go]
    rw [sweep_go_home, hnone]
    exact ⟨rfl, List.prefix_rfl, fun _ _ => rfl⟩
  | cons p ps ih =>
    obtain ⟨rfl, -⟩ := List.cons.inj hq
    obtain ⟨fuel, rfl⟩ : ∃ k, fuel = k + 1 := Nat.exists_eq_add_one.mpr (by
      rw [List.length_cons] at hfuel
      omega)
    have hne : p ≠ home := by
      rintro rfl
      exact (List.nodup_cons.mp (hleads hm).nodup).1 (by simp [hroute])
    rw [sweep.go, if_neg hne, visited.go, if_neg hne, List.foldlM_cons]
    cases hp : visit p m with
    | error fault =>
      refine ⟨rfl, by simp, fun m' hm' => ?_⟩
      cases hm'
    | ok m₁ =>
      have hm₁ : keeps m₁ := hvisit hm (by simp [hroute]) hp
      obtain ⟨r, rear', hr⟩ : ∃ r rear', ps ++ [home] = r :: rear' :=
        List.exists_cons_of_ne_nil (by simp)
      have hstep : step m₁ p = .ok r := (hleads hm₁).step_eq hroute hr
      have hroute' : route = (done ++ [p]) ++ ps := by simp [hroute]
      obtain ⟨hsweep, hprefix, hall⟩ := ih hroute' hr (Nat.le_of_succ_le_succ hfuel) hm₁
      simp only [bind, Except.bind, hstep]
      refine ⟨hsweep, ?_, fun m' hm' => ?_⟩
      · exact List.cons_prefix_cons.mpr ⟨rfl, hprefix⟩
      · rw [hall m' hm']

/-- If the steps lead along a route and no visit on it changes that, the sweep makes these visits
and no other. -/
theorem sweepsAlong {m : Mesh n χ} (hm : keeps m) :
    m.SweepsAlong step visit home route (m.sweep step visit home) := by
  obtain ⟨q, rear, hq⟩ : ∃ q rear, route ++ [home] = q :: rear :=
    List.exists_cons_of_ne_nil (by simp)
  have hstart : step m home = .ok q := (hleads hm).start_eq hq
  obtain ⟨hsweep, hprefix, hall⟩ := sweepsAlong_go hleads hvisit (List.nil_append route).symm hq
    (hleads hm).length_le hm
  have hgo : m.sweep step visit home = sweep.go step visit home n q m := by
    rw [sweep, hstart]
    rfl
  have hvisited : m.visited step visit home = visited.go step visit home n q m := by
    rw [visited, hstart]
  rw [hgo]
  refine ⟨hsweep, ?_, fun m' hm' => ?_⟩
  · rw [hvisited]
    exact hprefix
  · rw [hvisited]
    exact hall m' hm'

end Invariants

/-- The walks from a cell to the right lead along a route and home, those to the left lead the other
way, and so do the walks of the steps, in spite of what these do on the way. -/
structure Tours [BEq χ] (m : Mesh n χ) (p : Fin n) (route : List (Fin n)) : Prop where
  leads_right : m.Leads right p route
  leads_left : m.Leads left p route.reverse
  hide : m.SweepsAlong right detach p route (hide p m)
  unhide : m.SweepsAlong left attach p route.reverse (unhide p m)
  commitRow : m.SweepsAlong right commit p route (commitRow p m)
  uncommitRow : m.SweepsAlong left uncommit p route.reverse (uncommitRow p m)

variable {L : Layout n χ} {m : Mesh n χ} {p : Fin n} {row : List (Fin n)} {i : Nat}

/-- The walks that start at a cell of a row lead once around. -/
theorem ClosesRow.leads_of_getElem? (hcloses : m.ClosesRow row) (hnodup : row.Nodup)
    (hp : row[i]? = some p) :
    m.Leads right p (row.drop (i + 1) ++ row.take i) ∧
      m.Leads left p (row.drop (i + 1) ++ row.take i).reverse := by
  obtain ⟨hi, rfl⟩ := List.getElem?_eq_some_iff.mp hp
  have hsplit : row.take i ++ row[i] :: row.drop (i + 1) = row := by
    rw [List.getElem_cons_drop, List.take_append_drop]
  rw [← hsplit] at hcloses hnodup
  exact hcloses.leads hnodup

/-- On an orderly mesh the walks around a row go once around, wherever they start. -/
theorem Orderly.tours [BEq χ] (h : m.Orderly L) (hL : L.Sound) (hrow : row ∈ L.rows)
    (hp : row[i]? = some p) : m.Tours p (row.drop (i + 1) ++ row.take i) := by
  have hleads : ∀ {m : Mesh n χ}, m.Orderly L →
      m.Leads right p (row.drop (i + 1) ++ row.take i) ∧
        m.Leads left p (row.drop (i + 1) ++ row.take i).reverse :=
    fun hm => (hm.closed row hrow).leads_of_getElem? (hL.row_nodup hrow) hp
  have hcell : ∀ {q : Fin n}, q ∈ row.drop (i + 1) ++ row.take i → q ∈ L.cells := by
    intro q hq
    refine Layout.mem_cells_of_mem_row hrow ?_
    exact (List.mem_append.mp hq).elim List.mem_of_mem_drop List.mem_of_mem_take
  have hcell' : ∀ {q : Fin n}, q ∈ (row.drop (i + 1) ++ row.take i).reverse → q ∈ L.cells :=
    fun hq => hcell (List.mem_reverse.mp hq)
  exact {
    leads_right := (hleads h).1
    leads_left := (hleads h).2
    hide := sweepsAlong (fun hm => (hleads hm).1)
      (fun hm hq => (hm.performs_detach hL (hcell hq)).orderly_of_eq_ok) h
    unhide := sweepsAlong (fun hm => (hleads hm).2)
      (fun hm hq => (hm.performs_attach hL (hcell' hq)).orderly_of_eq_ok) h
    commitRow := sweepsAlong (fun hm => (hleads hm).1)
      (fun hm hq => (hm.performs_commit hL (hcell hq)).orderly_of_eq_ok) h
    uncommitRow := sweepsAlong (fun hm => (hleads hm).2)
      (fun hm hq => (hm.performs_uncommit hL (hcell' hq)).orderly_of_eq_ok) h }

end Mesh

/-- Every cell of a board is at a place of the rows, and the walks around a row meet the cells at
the other places of the row, once around. -/
structure Board.Tours {ι χ : Type} [BEq ι] [BEq χ] (b : Board ι χ) (rows : List (Nat × List ι)) :
    Prop extends b.Directs rows where
  tours : ∀ k row, rows[k]? = some row → ∀ i < row.2.length, ∃ p route,
    b.cellAt? rows (k, i) = some p ∧
      List.Forall₂ (fun j q => b.cellAt? rows (k, j) = some q) (turn row.2.length i) route ∧
        b.mesh.Tours p route

/-- On an orderly mesh the walks around the rows go from place to place. -/
theorem Mesh.Arranges.tours {ι χ : Type} [BEq ι] [EquivBEq ι] [BEq χ] [Item ι χ] {n : Nat}
    {rest m : Mesh n χ} {labels : List (ι × Nat)} {L : Layout n χ} {rows : List (Nat × List ι)}
    (h : rest.Arranges labels L (rows.map (·.2)) (Grid.numbering rows)) (hm : m.Orderly L) :
    (⟨n, m, labels⟩ : Board ι χ).Tours rows where
  toDirects := h.directs hm
  tours := by
    intro k row hrow i hi
    have hitems : (rows.map (·.2))[k]? = some row.2 := by rw [List.getElem?_map, hrow]; rfl
    have hplace : ∀ j < row.2.length, ∃ p,
        (⟨n, m, labels⟩ : Board ι χ).cellAt? rows (k, j) = some p ∧
          ∃ cells, L.rows[k]? = some cells ∧ cells[j]? = some p := by
      intro j hj
      obtain ⟨p, hcell, -, hcells⟩ :=
        h.exists_cellAt? hm.frame (mem_places.mpr ⟨row.2, hitems, hj⟩)
      exact ⟨p, hcell, hcells⟩
    obtain ⟨p, hcell, cells, hcells, hp⟩ := hplace i hi
    have hlength := (rel_of_getElem? h.cells hcells hitems).length_eq
    refine ⟨p, _, hcell, ?_, hm.tours h.sound (List.mem_of_getElem? hcells) hp⟩
    rw [← hlength] at hi hplace ⊢
    refine (forall₂_turn hi).imp fun j q hq => ?_
    obtain ⟨hj, -⟩ := List.getElem?_eq_some_iff.mp hq
    obtain ⟨q', hcell', cells', hcells', hq'⟩ := hplace j hj
    obtain rfl : cells = cells' := Option.some.inj (hcells.symm.trans hcells')
    rw [hcell', ← hq', hq]

namespace Grid

section Kinds

variable {ι χ : Type} [BEq ι] [EquivBEq ι] [BEq χ] [Item ι χ]

/-- However a grid with some rows is misused, the walks around the rows go from place to place. -/
theorem Shelters.tours_of_misused {γ : Type} [Grid γ ι χ] {n : Nat} {mount : Mesh n χ → γ}
    {labels : List (ι × Nat)} {L : Layout n χ} {rest : Mesh n χ} {rows : List (Nat × List ι)}
    (h : Shelters mount labels L rest rows) {grid : γ} (hmisused : Misused (mount rest) grid) :
    (board grid).Tours rows := by
  obtain ⟨m, rfl, hm⟩ := h.exists_orderly hmisused
  rw [h.board_eq]
  exact h.arranges.tours hm

/-- Any rows can be added to both kinds of grids, and whatever steps are then taken in any order, at
any time the walks around a row visit the cells at the other places of this row, to the right from
the next place once around and to the left in the reverse order. -/
theorem tours_ofRows [EquivBEq χ] (rows : List (Nat × List ι)) :
    (∃ start : Woven ι χ, ofRows rows = .ok start ∧ ∀ grid, Misused start grid →
      (board grid).Tours rows) ∧
    ∃ start : Packed ι χ, ofRows rows = .ok start ∧ isSealed start ∧ ∀ grid, Misused start grid →
      (board grid).Tours rows := by
  constructor
  · obtain ⟨start, hstart, hweaves⟩ := Woven.exists_ofRows rows
    obtain ⟨L, hshelters⟩ := hweaves.exists_shelters
    exact ⟨start, hstart, fun _ hmisused => hshelters.tours_of_misused hmisused⟩
  · obtain ⟨b, hstart, hlays⟩ := Packed.exists_ofRows rows
    obtain ⟨L, hshelters⟩ := Packed.exists_shelters hlays
    exact ⟨.built b, hstart, rfl, fun _ hmisused => hshelters.tours_of_misused hmisused⟩

/-- A column is uncovered before the commit that followed its cover is undone, and then another
column is covered, of which step three writes are made. The links are not in order, but from the
third cell of the first row the walk to the right meets the fourth, the first and the second. -/
theorem tours_ofRows_of_misuse :
    let rows : List (Nat × List (Constraint Nat Nat)) :=
      [(4, [.primary 0, .secondary 1 (some 7), .primary 2, .primary 0]), (1, []),
        (4, [.primary 2]), (0, [.secondary 1 (some 7), .primary 2])]
    (∃ start grid : Woven (Constraint Nat Nat) Nat, ofRows rows = .ok start ∧
      Misused start grid ∧ isConsistent grid = .ok false ∧ (board grid).Tours rows ∧
        ((board grid).cellAt? rows (0, 2)).map (fun p =>
          ((board grid).mesh.visited Mesh.right Mesh.detach p).map Fin.val) = some [8, 5, 6]) ∧
    ∃ start grid : Packed (Constraint Nat Nat) Nat, ofRows rows = .ok start ∧
      Misused start grid ∧ isConsistent grid = .ok false ∧ (board grid).Tours rows ∧
        ((board grid).cellAt? rows (0, 2)).map (fun p =>
          ((board grid).mesh.visited Mesh.right Mesh.detach p).map Fin.val) = some [9, 6, 7] := by
  intro rows
  obtain ⟨⟨start, hstart, hall⟩, start', hstart', -, hall'⟩ := tours_ofRows rows
  constructor
  · have hreached : ∀ start ∈
        (ofRows rows : Except StateError (Woven (Constraint Nat Nat) Nat)).toOption,
          (do
            let grid ← misuse start [(.cover, 4, none), (.commitRow, 11, none), (.uncover, 4, none),
              (.uncommitRow, 11, none), (.cover, 2, some 3)]
            let intact ← isConsistent grid
            .ok (intact, ((board grid).cellAt? rows (0, 2)).map fun p =>
              ((board grid).mesh.visited Mesh.right Mesh.detach p).map Fin.val)) =
            .ok (false, some [8, 5, 6]) := by
      decide +kernel
    obtain ⟨grid, hgrid, hread⟩ := exists_of_bind_eq_ok (hreached start (by rw [hstart]; rfl))
    obtain ⟨intact, hintact, hresult⟩ := exists_of_bind_eq_ok hread
    obtain ⟨rfl, hvisited⟩ := Prod.mk.inj (Except.ok.inj hresult)
    have hmisused := Misused.start.misuse hgrid
    exact ⟨start, grid, hstart, hmisused, hintact, hall grid hmisused, hvisited⟩
  · have hreached : ∀ start ∈
        (ofRows rows : Except StateError (Packed (Constraint Nat Nat) Nat)).toOption,
          (do
            let grid ← misuse start [(.cover, 3, none), (.commitRow, 14, none), (.uncover, 3, none),
              (.uncommitRow, 14, none), (.cover, 2, some 3)]
            let intact ← isConsistent grid
            .ok (intact, ((board grid).cellAt? rows (0, 2)).map fun p =>
              ((board grid).mesh.visited Mesh.right Mesh.detach p).map Fin.val)) =
            .ok (false, some [9, 6, 7]) := by
      decide +kernel
    obtain ⟨grid, hgrid, hread⟩ := exists_of_bind_eq_ok (hreached start' (by rw [hstart']; rfl))
    obtain ⟨intact, hintact, hresult⟩ := exists_of_bind_eq_ok hread
    obtain ⟨rfl, hvisited⟩ := Prod.mk.inj (Except.ok.inj hresult)
    have hmisused := Misused.start.misuse hgrid
    exact ⟨start', grid, hstart', hmisused, hintact, hall' grid hmisused, hvisited⟩

end Kinds

end Grid

end ExactCover
