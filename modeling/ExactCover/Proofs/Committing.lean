import ExactCover.Proofs.Moves

/-!
# Committing the row of an open column

A search commits a row after it has covered the column of the cell it starts from. Then every other
cell of the row is out of its column, and none of them is marked when its column is restricted to
its color. So the paint of the cell still tells what is to be undone (`exists_commit`).

From rest, with that column open, this is so from the first cell on that has no color: covering its
column takes the other cells of the row out of theirs. The colored cells that come before it are
*leading*. They hang in their columns when these are restricted, so they are marked, and
uncommitting passes over them. Hence committing the row of a cell and uncommitting it always
succeeds, and leaves the columns of the leading cells restricted (`exists_uncommitRow`). The grid is
restored exactly if there are no such cells (`Grid.uncommits_ofRows`).
-/

set_option autoImplicit false

namespace ExactCover

variable {n : Nat} {χ : Type}

/-- The colored cells that the way to the right from a cell begins with. -/
def Mesh.leading (m : Mesh n χ) (p : Fin n) : List (Fin n) :=
  (m.others p).takeWhile fun q => (m.paint q).tint?.isSome

namespace Layout

variable {L : Layout n χ}

/-- The colored cells that the way around the row of a cell begins with. -/
def leading (L : Layout n χ) (p : Fin n) : List (Fin n) :=
  (L.around p).takeWhile fun q => (L.paint q).tint?.isSome

theorem leading_subset {p : Fin n} : L.leading p ⊆ L.around p :=
  (List.takeWhile_prefix _).subset

theorem isSome_of_mem_leading {p q : Fin n} (hq : q ∈ L.leading p) : (L.paint q).tint?.isSome := by
  have hcolor := List.mem_takeWhile_imp hq
  exact hcolor

/-- The way around a row goes on behind the leading cells with one that has no color. -/
theorem Proper.exists_around_eq (hL : L.Proper) {p : Fin n} (hp : p ∈ L.cells) :
    ∃ rest, L.around p = L.leading p ++ rest ∧
      ∀ q ∈ rest.head?, L.paint q = .uncolored := by
  refine ⟨_, List.takeWhile_append_dropWhile.symm, fun q hq => ?_⟩
  have hqCell : q ∈ L.cells :=
    hL.mem_cells_of_mem_around hp ((List.dropWhile_suffix _).subset (List.mem_of_mem_head? hq))
  have hcolor := List.head?_dropWhile_not (fun q => (L.paint q).tint?.isSome) (L.around p)
  rw [Option.mem_def.mp hq] at hcolor
  have hplain := hL.isPurified_paint q hqCell
  cases hpaint : L.paint q with
  | uncolored => rfl
  | colored color => simp [hpaint, Paint.tint?] at hcolor
  | purified => simp [hpaint] at hplain

/-- A row agrees with the colors that its own leading cells ask for. -/
theorem Proper.fits_claims_leading [BEq χ] [ReflBEq χ] (hL : L.Proper) {p : Fin n}
    (hp : p ∈ L.cells) : L.fits (L.claims [] (L.leading p)) p := by
  rw [fits_eq_true_iff]
  intro q hq x hx hcolumn
  obtain ⟨r, hr, rfl⟩ := List.mem_map.mp hx
  have hr := List.mem_of_mem_filter hr
  have hrRow := ((hL.mem_around hp).mp (leading_subset hr)).1
  obtain ⟨hrCell, hrow⟩ := hL.rowOf_eq_of_mem hp hrRow
  obtain rfl := hL.eq_of_columnOf_eq hrCell (hrow ▸ hq) hcolumn
  have hcolor := isSome_of_mem_leading hr
  cases hpaint : L.paint q with
  | colored color => exact BEq.refl color
  | _ => simp [hpaint, Paint.tint?] at hcolor

theorem mem_claims_leading {p : Fin n} {x : Fin n × Option χ} :
    x ∈ L.claims [] (L.leading p) ↔
      ∃ q ∈ L.leading p, (L.columnOf q, (L.paint q).tint?) = x := by
  simp [claims]

/-- What leading cells settle are restrictions to a color. -/
theorem isSome_of_mem_claims_leading {p : Fin n} {x : Fin n × Option χ}
    (hx : x ∈ L.claims [] (L.leading p)) : x.2.isSome := by
  obtain ⟨q, hq, rfl⟩ := mem_claims_leading.mp hx
  exact isSome_of_mem_leading hq

/-- Leading cells restrict their columns. -/
theorem isSome_tint_leading [BEq χ] {p c : Fin n} :
    ((L.picture (L.claims [] (L.leading p))).tint c).isSome ↔
      c ∈ (L.leading p).map L.columnOf := by
  rw [List.mem_map]
  dsimp only [picture]
  cases hfind : (L.claims [] (L.leading p)).find? (fun x => x.1 = c) with
  | none =>
    rw [List.find?_eq_none] at hfind
    refine ⟨fun hsome => by simp at hsome, fun ⟨q, hq, hqc⟩ => ?_⟩
    have hne := hfind _ (mem_claims_leading.mpr ⟨q, hq, rfl⟩)
    simp [hqc] at hne
  | some x =>
    have hx := List.mem_of_find?_eq_some hfind
    have hxc : x.1 = c := by simpa using List.find?_some hfind
    obtain ⟨q, hq, rfl⟩ := mem_claims_leading.mp hx
    exact ⟨fun _ => ⟨q, hq, hxc⟩, fun _ => isSome_of_mem_claims_leading hx⟩

/-- The check finds the columns that leading cells have restricted. -/
theorem Proper.all_leading [BEq χ] (hL : L.Proper) {p : Fin n} (hp : p ∈ L.cells) :
    (L.headers.all fun c => ((L.picture (L.claims [] (L.leading p))).tint c).isNone &&
      (L.picture (L.claims [] (L.leading p))).isOpen c) = (L.leading p).isEmpty := by
  have hopen : ∀ c, (L.picture (L.claims [] (L.leading p))).isOpen c := by
    intro c
    simp only [picture, Bool.not_eq_true', List.any_eq_false]
    intro x hx
    simp [Option.isSome_iff_ne_none.mp (isSome_of_mem_claims_leading hx)]
  rw [Bool.eq_iff_iff, List.all_eq_true, List.isEmpty_iff]
  constructor
  · intro hall
    rw [List.eq_nil_iff_forall_not_mem]
    intro q hq
    have hheader := hL.columnOf_mem q (hL.mem_cells_of_mem_around hp (leading_subset hq))
    have htint := isSome_tint_leading.mpr (List.mem_map_of_mem (f := L.columnOf) hq)
    have hnone := (Bool.and_eq_true_iff.mp (hall _ hheader)).1
    rw [← Option.not_isSome, htint] at hnone
    contradiction
  · intro hnone c _
    have htint := (not_congr (isSome_tint_leading (L := L) (p := p) (c := c))).mpr (by simp [hnone])
    simp [hopen c, Option.not_isSome_iff_eq_none.mp htint]

/-- If a cell without a color is among those that were committed, the row fits no more. -/
theorem Proper.fits_claims_eq_false [BEq χ] (hL : L.Proper) {p q r : Fin n} {done : List (Fin n)}
    (hp : p ∈ L.cells) (hq : q ∈ L.rowOf p) (hr : r ∈ L.rowOf p) (hmem : r ∈ done)
    (hpaint : L.paint r = .uncolored) : L.fits (L.claims [] done) q = false := by
  obtain ⟨hrCell, hrow⟩ := hL.rowOf_eq_of_mem hp hr
  refine hL.fits_eq_false_of_covered hrCell (hrow ▸ hq) (List.mem_map.mpr ⟨r, ?_, ?_⟩)
  · exact List.mem_filter.mpr ⟨hmem, by simp⟩
  · rw [hpaint]
    rfl

end Layout

namespace Mesh.Displays

variable [BEq χ] [EquivBEq χ] {m : Mesh n χ} {L : Layout n χ} {p : Fin n}

/-- Leading cells are marked when their columns are settled. -/
theorem uncommit_leading (hL : L.Proper) (hp : p ∈ L.cells)
    (h : m.Displays L (L.picture (L.claims [] (L.leading p)))) {q : Fin n}
    (hq : q ∈ L.leading p) : uncommit q m = .ok m := by
  have hqRow := ((hL.mem_around hp).mp (Layout.leading_subset hq)).1
  have hqCell := (hL.rowOf_eq_of_mem hp hqRow).1
  have hfits := hL.fits_claims_leading hp
  rw [← hL.fits_eq hp hqRow] at hfits
  have hmem : L.columnOf q ∈ (L.claims [] (L.leading p)).map (·.1) := by
    rw [Layout.map_fst_claims]
    simpa using ⟨q, hq, rfl⟩
  exact (h.commit_eq_self hL hqCell (hL.isPurified_picture_of_fits hqCell hfits hmem)).2

/-- From rest, committing the cells that the way around a row begins with settles their columns. -/
theorem exists_visits_settles (hL : L.Proper) (hp : p ∈ L.cells) {ps rest : List (Fin n)}
    (hroute : L.around p = ps ++ rest) (h : m.Displays L (L.picture [])) :
    ∃ m', Visits right commit p (L.around p) ps m m' ∧
      m'.Displays L (L.picture (L.claims [] ps)) := by
  have hstart : m.Displays L (L.picture (L.claims [] [])) := h
  have hvisit : ∀ before q tail m, ps = before ++ q :: tail →
      m.Displays L (L.picture (L.claims [] ([] ++ before))) →
        ∃ m', RoundTrip (commit q) (unsettle (L.columnOf q) (L.paint q).tint?) m m' ∧
          m'.Displays L (L.picture (L.claims [] ([] ++ before ++ [q]))) := by
    intro before q tail m hsplit hm
    rw [List.nil_append] at hm ⊢
    have hroute' : L.around p = before ++ q :: (tail ++ rest) := by
      rw [hroute, hsplit, List.append_assoc, List.cons_append]
    have hqCell : q ∈ L.cells := hL.mem_cells_of_mem_around hp (by simp [hroute'])
    have hopen := hL.not_mem_claims hp (hm.leads_around hL hp).1.nodup hroute'
      (show L.columnOf q ∉ ([] : List (Fin n × Option χ)).map (·.1) from List.not_mem_nil)
    rw [Layout.claims_concat, if_neg (by simp)]
    exact hm.exists_commit_settles hL hqCell hopen
  obtain ⟨m', hvisits, -, hm'⟩ := exists_visits
    (fun done m => m.Displays L (L.picture (L.claims [] done)))
    (fun q halike => halike.left_eq q) (fun done m hm => hm.leads_around hL hp) hvisit hstart
  exact ⟨m', hvisits, hm'⟩

/-- From rest, committing the row of a cell and uncommitting it leaves the columns of the leading
cells restricted to their colors, and everything else as it was. -/
theorem exists_uncommitRow (hL : L.Proper) (hp : p ∈ L.cells) (h : m.Displays L (L.picture [])) :
    ∃ m' m'', commitRow p m = .ok m' ∧ uncommitRow p m' = .ok m'' ∧
      (L.leading p = [] → m.Alike m'') ∧
      m''.Displays L (L.picture (L.claims [] (L.leading p))) := by
  obtain ⟨rest, hroute, hrest⟩ := hL.exists_around_eq hp
  obtain ⟨mid, hleading, hmid⟩ := h.exists_visits_settles hL hp hroute
  -- Behind the leading cells comes one without a color, so the row fits no more after that one.
  have hstays : ∀ before q tail, rest = before ++ q :: tail →
      L.columnOf q ∉ ([] : List (Fin n × Option χ)).map (·.1) →
        L.fits ([] ++ L.claims [] (L.leading p ++ before)) q → L.paint q = .uncolored := by
    intro before q tail hsplit _ hfits
    cases before with
    | nil => exact hrest q (by simp [hsplit])
    | cons r before =>
      have haround : ∀ s ∈ rest, s ∈ L.rowOf p := fun s hs =>
        ((hL.mem_around hp).mp (by simp [hroute, hs])).1
      rw [List.nil_append, hL.fits_claims_eq_false hp (haround q (by simp [hsplit]))
        (haround r (by simp [hsplit])) (by simp) (hrest r (by simp [hsplit]))] at hfits
      contradiction
  obtain ⟨m', hrear, hback, -⟩ :=
    exists_visits_commit hL hp hroute hmid (fun _ _ hmem => by simp at hmem) hstays
  obtain ⟨m'', hundone, halike⟩ := hback m' (.refl m')
  have hm'' := hmid.of_alike halike
  have hkept : Visits left uncommit p (L.around p).reverse (L.leading p).reverse m'' m'' :=
    visits_self (hm''.leads_around hL hp).2 fun q hq =>
      uncommit_leading hL hp hm'' (List.mem_reverse.mp hq)
  have hforth := hleading.append hrear
  have hundo := hundone.append hkept
  rw [← hroute] at hforth
  rw [← List.reverse_append, ← hroute] at hundo
  refine ⟨m', m'', hforth.sweep_eq, hundo.sweep_eq, fun hnone => ?_, hm''⟩
  rw [hnone] at hleading
  cases hleading with
  | nil _ => exact halike

omit [EquivBEq χ] in
/-- At rest the leading cells are those of the layout. -/
theorem leading_eq (hL : L.Proper) (hp : p ∈ L.cells) (h : m.Displays L (L.picture [])) :
    m.leading p = L.leading p := by
  have hsame : ∀ q ∈ L.around p, (m.paint q).tint?.isSome = (L.paint q).tint?.isSome := by
    intro q hq
    have halike := h.paint q (hL.mem_cells_of_mem_around hp hq)
    rw [Layout.paint_picture (by simp)] at halike
    rw [← Option.not_isNone, ← Option.not_isNone, halike.tint?_rel.isNone_eq]
  have htake : ∀ qs ⊆ L.around p, (qs.takeWhile fun q => (m.paint q).tint?.isSome) =
      qs.takeWhile fun q => (L.paint q).tint?.isSome := by
    intro qs
    induction qs with
    | nil => exact fun _ => rfl
    | cons q qs ih =>
      intro hqs
      obtain ⟨hq, hqs⟩ := List.cons_subset.mp hqs
      rw [List.takeWhile_cons, List.takeWhile_cons, hsame q hq, ih hqs]
  rw [Mesh.leading, h.others_eq hL hp]
  exact htake _ (List.Subset.refl _)

end Mesh.Displays

section Grids

variable {γ ι : Type} [Grid γ ι χ]

/-- With this mesh, a grid is as before except that the columns of the cells that lead the row of a
cell are restricted. -/
structure Grid.KeepsLeading (start : γ) (p : Fin (board start).size)
    (mesh : Mesh (board start).size χ) : Prop where
  restored_iff : withMesh start mesh = start ↔ (board start).mesh.leading p = []
  isConsistent_eq :
    isConsistent (withMesh start mesh) = .ok ((board start).mesh.leading p).isEmpty
  isSome_tint_iff : ∀ c, (board start).mesh.role c = .header → ((mesh.tint c).isSome ↔
    c ∈ ((board start).mesh.leading p).map (board start).mesh.column)

/-- The row of every cell that hangs in a column can be committed and uncommitted, and only the
columns of leading cells stay restricted. -/
def Grid.Uncommits [BEq χ] (start : γ) : Prop :=
  ∀ c, (board start).mesh.role c = .header → ∃ cells, (board start).mesh.cells c = .ok cells ∧
    ∀ p ∈ cells, ∃ committed mesh, commitRow start p = .ok committed ∧
      uncommitRow committed p = .ok (withMesh start mesh) ∧ KeepsLeading start p mesh

variable [BEq ι] [EquivBEq ι] [BEq χ] [LawfulBEq χ] [Item ι χ]

/-- Where equal colors are identical, the row of a cell of a lawful grid can be uncommitted. -/
theorem Grid.exists_uncommits [LawfulGrid γ] {rows : List (Nat × List ι)}
    (hrows : ∀ row ∈ rows, firstRepeat? row.2 = none) :
    ∃ start : γ, ofRows rows = .ok start ∧ Uncommits start := by
  obtain ⟨grid, hgrid, hcarries⟩ := exists_ofRows (γ := γ) fun row hrow =>
    firstRepeat?_eq_none_iff.mp (hrows row hrow)
  obtain ⟨L, -, hrests⟩ := exists_rests hcarries
  have hL := hrests.proper
  have hrest := hrests.displays
  have hstart := LawfulGrid.withMesh_mesh (close grid)
  refine ⟨close grid, hgrid, fun c hc => ?_⟩
  rw [hrest.role_eq] at hc
  refine ⟨_, (hrest.column c (hrests.header c hc)).members_eq, fun p hp => ?_⟩
  have hpCell := (Layout.mem_column.mp (List.mem_of_mem_filter hp)).1
  obtain ⟨m', m'', hcommit, huncommit, halike, hm''⟩ := hrest.exists_uncommitRow hL hpCell
  refine ⟨withMesh (close grid) m', m'', ?_, ?_, ?_⟩
  · have hstep := hrests.step_eq Mesh.commitRow (board (close grid)).mesh p
    rw [hstart, hcommit] at hstep
    exact hstep
  · have hstep := hrests.step_eq Mesh.uncommitRow m' p
    rw [huncommit] at hstep
    exact hstep
  · have hleading := hrest.leading_eq hL hpCell
    have hconsistent := LawfulGrid.isConsistent_withMesh hcarries m''
    rw [hm''.isIntact_eq hL.toSound hrests.header, hL.all_leading hpCell, ← hleading] at hconsistent
    refine ⟨⟨fun hsame => ?_, fun hnone => ?_⟩, hconsistent, fun d hd => ?_⟩
    · rw [hsame, LawfulGrid.isConsistent_eq (LawfulGrid.carries_close hcarries)] at hconsistent
      exact List.isEmpty_iff.mp (Except.ok.inj hconsistent).symm
    · rw [(halike (hleading.symm.trans hnone)).eq, hstart]
    · rw [hrest.role_eq] at hd
      have htint := (hm''.tint d (hrests.header d hd)).isNone_eq
      rw [← Option.not_isNone, ← htint, Option.not_isNone, hleading,
        funext hrest.column_eq (f := (board (close grid)).mesh.column)]
      exact Layout.isSome_tint_leading

/-- On both kinds of grids the row of every cell that hangs in a column can be committed and
uncommitted. This restores every link, count, paint and tint exactly if the cell next to the right
has no color, or there is no other. -/
theorem Grid.uncommits_ofRows {rows : List (Nat × List ι)}
    (hrows : ∀ row ∈ rows, firstRepeat? row.2 = none) :
    (∃ start : Woven ι χ, ofRows rows = .ok start ∧ Uncommits start) ∧
      ∃ start : Packed ι χ, ofRows rows = .ok start ∧ Uncommits start :=
  ⟨exists_uncommits hrows, exists_uncommits hrows⟩

/-- Rows with colored cells behind and in front of one without a color. -/
theorem Grid.uncommits_ofRows_of_colored :
    let rows : List (Nat × List (Constraint Nat Nat)) :=
      [(0, [.primary 0, .secondary 1 (some 7), .primary 2]),
        (1, [.primary 2, .secondary 1 (some 8)])]
    (∀ row ∈ rows, firstRepeat? row.2 = none) ∧
      (∃ start : Woven (Constraint Nat Nat) Nat, ofRows rows = .ok start ∧ Uncommits start) ∧
        ∃ start : Packed (Constraint Nat Nat) Nat, ofRows rows = .ok start ∧ Uncommits start := by
  intro rows
  have hrows : ∀ row ∈ rows, firstRepeat? row.2 = none := by decide
  exact ⟨hrows, uncommits_ofRows hrows⟩

/-- A colored cell that leads a row leaves its column restricted, and the grid fails its check. -/
theorem Grid.not_isConsistent_of_leading :
    let rows : List (Nat × List (Constraint Nat Nat)) := [(0, [.secondary 0 (some 7), .primary 1])]
    (∃ start committed restored : Woven (Constraint Nat Nat) Nat, ofRows rows = .ok start ∧
      ((board start).position? 5).any (board start).mesh.hangs ∧
        commitRow start 5 = .ok committed ∧ uncommitRow committed 5 = .ok restored ∧
          isConsistent start = .ok true ∧ isConsistent restored = .ok false) ∧
      ∃ start committed restored : Packed (Constraint Nat Nat) Nat, ofRows rows = .ok start ∧
        ((board start).position? 6).any (board start).mesh.hangs ∧
          commitRow start 6 = .ok committed ∧ uncommitRow committed 6 = .ok restored ∧
            isConsistent start = .ok true ∧ isConsistent restored = .ok false := by
  intro rows
  constructor
  · exact ⟨_, _, _, rfl, by decide +kernel, rfl, rfl, by decide +kernel, by decide +kernel⟩
  · exact ⟨_, _, _, rfl, by decide +kernel, rfl, rfl, by decide +kernel, by decide +kernel⟩

end Grids

end ExactCover
