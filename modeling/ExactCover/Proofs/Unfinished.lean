import ExactCover.Proofs.Moves

/-!
# The check finds unfinished undoing

The check of a grid looks at counts, backward links, the colors of columns and the sizes of the two
rings. It looks at no paint, and a cell that is missing from its column is nothing to it as long as
the count says the same. So a grid on which moves were left standing could pass. It does not if the
moves were permitted: the check is passed exactly if no move is left that was not undone, and then
every link, count, paint and tint is the one that was there at the start (`Grid.exists_detects`, and
`Grid.detects_ofRows` for the two kinds of grids).

The reason is the earliest of the moves. A row can only be committed from a column that is covered,
so the earliest move covers a column (`Nested.exists_cover`). That column is out of its ring until
the move is undone, which is not before all others are.
-/

set_option autoImplicit false

namespace ExactCover

namespace Grid

variable {γ ι χ : Type} [Grid γ ι χ] [BEq χ] {start grid : γ} {made : List (Move × γ)}

omit [BEq χ] in
/-- Where nothing is settled, only covering a column is permitted. -/
theorem exists_cover_of_permits {b : Board ι χ} {move : Move} (h : b.Permits [] move) :
    ∃ c, move = .cover c := by
  cases move with
  | cover c => exact ⟨c, rfl⟩
  | commitRow p =>
    obtain ⟨_, -, -, hcovered, -⟩ := h
    contradiction

/-- Of the moves that were not undone, the earliest one covers a column. -/
theorem Nested.exists_cover (h : Nested start grid made) :
    made = [] ∨ ∃ later c before, made = later ++ [(.cover c, before)] := by
  induction h with
  | start => exact .inl rfl
  | @forth grid _ made move _ hpermits _ ih =>
    rcases ih with rfl | ⟨later, c, before, rfl⟩
    · obtain ⟨c, rfl⟩ := exists_cover_of_permits hpermits
      exact .inr ⟨[], c, grid, rfl⟩
    · exact .inr ⟨(move, grid) :: later, c, before, rfl⟩
  | back _ _ ih =>
    obtain ⟨later, c, before, hmade⟩ := ih.resolve_left (List.cons_ne_nil _ _)
    cases later with
    | nil => exact .inl (List.cons.inj hmade).2
    | cons latest later => exact .inr ⟨later, c, before, (List.cons.inj hmade).2⟩

omit [BEq χ] in
/-- What the earliest move has settled comes first. -/
theorem settled_concat_cover (later : List (Move × γ)) (c : Nat) (before : γ) :
    ∃ rest, settled (later ++ [(.cover c, before)]) = (c, none) :: rest := by
  induction later with
  | nil => exact ⟨[], rfl⟩
  | cons latest later ih =>
    obtain ⟨rest, hrest⟩ := ih
    exact ⟨rest ++ (board latest.2).settles latest.1, by rw [List.cons_append, settled, hrest]; rfl⟩

/-- From a grid, permitted moves are made and moves are undone, latest first. The earliest move that
was not undone covers a column, and as long as there is one, the check fails. It is passed exactly
if the links and counts are those of the start, and so are the paints and tints, up to the equality
of colors. -/
structure Detects (start : γ) : Prop where
  exists_cover : ∀ {grid : γ} {made : List (Move × γ)}, Nested start grid made →
    made = [] ∨ ∃ later c before, made = later ++ [(.cover c, before)]
  isConsistent_eq : ∀ {grid : γ} {made : List (Move × γ)}, Nested start grid made →
    isConsistent grid = .ok made.isEmpty
  isConsistent_iff : ∀ {grid : γ} {made : List (Move × γ)}, Nested start grid made →
    ∃ mesh, grid = withMesh start mesh ∧
      (isConsistent grid = .ok true ↔ (board start).mesh.Alike mesh)
  isConsistent_iff_eq : LawfulBEq χ → ∀ {grid : γ} {made : List (Move × γ)},
    Nested start grid made → (isConsistent grid = .ok true ↔ grid = start)

end Grid

section Traces

variable {γ ι χ : Type} [Grid γ ι χ] {n : Nat} [BEq χ] [EquivBEq χ] {mount : Mesh n χ → γ}
  {labels : List (ι × Nat)} {L : Layout n χ} {rest m : Mesh n χ} {made : List (Move × γ)}
  {columns : List (Fin n × Option χ)}

omit [EquivBEq χ] in
/-- A column that is covered is out of its ring. -/
theorem Layout.isOpen_picture_of_covered {c : Fin n} (hcovered : (c, none) ∈ columns) :
    (L.picture columns).isOpen c = false := by
  simp only [picture, Bool.not_eq_false', List.any_eq_true]
  exact ⟨(c, none), hcovered, by simp⟩

/-- The check of a mesh is passed if no moves are left. -/
theorem Traces.isIntact_eq (hrests : Grid.Rests mount labels L rest)
    (h : Traces mount L rest made columns m)
    (hcover : made = [] ∨ ∃ later c before, made = later ++ [(.cover c, before)]) :
    m.isIntact = .ok made.isEmpty := by
  have hdisplays := h.displays hrests.displays
  rw [hdisplays.isIntact_eq hrests.proper.toSound hrests.header]
  rcases hcover with rfl | ⟨later, c, before, rfl⟩
  · cases h with
    | start _ => simp [Layout.picture]
  · obtain ⟨settled, hsettled⟩ := Grid.settled_concat_cover later c before
    obtain ⟨⟨d, tint⟩, hd, -, htint⟩ :=
      exists_of_forall₂ h.stands (hsettled ▸ List.mem_cons_self)
    -- A column that is settled without a color is covered.
    cases htint
    have hclosed := Layout.isOpen_picture_of_covered (L := L) hd
    have hfails : (L.headers.all fun c => ((L.picture columns).tint c).isNone &&
        (L.picture columns).isOpen c) = false :=
      List.all_eq_false.mpr ⟨d, h.headers _ hd, by simp [hclosed]⟩
    rw [hfails]
    simp

/-- On a grid that is at rest, the check finds out whether all moves were undone. -/
theorem Grid.Rests.exists_isConsistent_eq (hrests : Rests mount labels L rest)
    (hcheck : ∀ m, isConsistent (mount m) = m.isIntact) {grid : γ}
    (h : Nested (mount rest) grid made) :
    ∃ m, grid = mount m ∧ isConsistent grid = .ok made.isEmpty ∧
      (isConsistent grid = .ok true ↔ rest.Alike m) := by
  obtain ⟨m, columns, rfl, htraces⟩ := h.exists_traces hrests
  have hconsistent : isConsistent (mount m) = .ok made.isEmpty := by
    rw [hcheck, htraces.isIntact_eq hrests h.exists_cover]
  refine ⟨m, rfl, hconsistent, fun hpassed => ?_, fun halike => ?_⟩
  · rw [hconsistent, Except.ok.injEq, List.isEmpty_iff] at hpassed
    subst hpassed
    cases htraces with
    | start halike => exact halike
  · rw [hcheck]
    have hstart := (Traces.start halike).isIntact_eq hrests (.inl rfl)
    exact hstart

end Traces

section Kinds

variable {ι χ : Type} [BEq ι] [EquivBEq ι] [BEq χ] [EquivBEq χ] [Item ι χ]
  {rows : List (Nat × List ι)}

/-- A lawful grid with the rows finds out by its check whether all moves were undone. -/
theorem Grid.exists_detects {γ : Type} [Grid γ ι χ] [LawfulGrid γ]
    (hrows : ∀ row ∈ rows, firstRepeat? row.2 = none) :
    ∃ start : γ, ofRows rows = .ok start ∧ Detects start := by
  obtain ⟨grid, hgrid, hcarries⟩ := exists_ofRows (γ := γ) fun row hrow =>
    firstRepeat?_eq_none_iff.mp (hrows row hrow)
  obtain ⟨L, -, hrests⟩ := exists_rests hcarries
  have hchecked {grid' : γ} {made : List (Move × γ)}
      (h : Nested (withMesh (close grid) (board (close grid)).mesh) grid' made) :=
    hrests.exists_isConsistent_eq (LawfulGrid.isConsistent_withMesh hcarries) h
  have hstart := LawfulGrid.withMesh_mesh (close grid)
  rw [hstart] at hchecked
  refine ⟨close grid, hgrid, fun h => h.exists_cover, fun h => ?_, fun h => ?_, fun _ _ _ h => ?_⟩
  · obtain ⟨-, -, hconsistent, -⟩ := hchecked h
    exact hconsistent
  · obtain ⟨mesh, hmesh, -, hiff⟩ := hchecked h
    exact ⟨mesh, hmesh, hiff⟩
  · obtain ⟨mesh, rfl, -, hiff⟩ := hchecked h
    refine ⟨fun hpassed => ?_, fun hsame => ?_⟩
    · rw [(hiff.mp hpassed).eq, hstart]
    · obtain ⟨-, -, hconsistent, -⟩ := hchecked .start
      rw [hsame, hconsistent]
      rfl

/-- On both kinds of grids, the check is passed exactly if every link, count, paint and tint is as
it was at the start. In particular it fails until the last of the moves is undone. -/
theorem Grid.detects_ofRows (hrows : ∀ row ∈ rows, firstRepeat? row.2 = none) :
    (∃ start : Woven ι χ, ofRows rows = .ok start ∧ Detects start) ∧
      ∃ start : Packed ι χ, ofRows rows = .ok start ∧ Detects start :=
  ⟨exists_detects hrows, exists_detects hrows⟩

/-- A column is covered and a row is committed from it. Neither is undone. -/
theorem Grid.detects_ofRows_of_colored :
    let rows : List (Nat × List (Constraint Nat Nat)) :=
      [(0, [.primary 0, .secondary 1 (some 7)]), (1, [.primary 2, .secondary 1 (some 7)]),
        (2, [.primary 2, .secondary 1 (some 8)])]
    (∃ start before grid : Woven (Constraint Nat Nat) Nat, ofRows rows = .ok start ∧
      Nested start grid [(.commitRow 4, before), (.cover 2, start)] ∧
        isConsistent start = .ok true ∧ isConsistent before = .ok false ∧
          isConsistent grid = .ok false) ∧
      ∃ start before grid : Packed (Constraint Nat Nat) Nat, ofRows rows = .ok start ∧
        Nested start grid [(.commitRow 6, before), (.cover 2, start)] ∧
          isConsistent start = .ok true ∧ isConsistent before = .ok false ∧
            isConsistent grid = .ok false := by
  intro rows
  have hrows : ∀ row ∈ rows, firstRepeat? row.2 = none := by decide
  obtain ⟨⟨start, hstart, hdetects⟩, start', hstart', hdetects'⟩ := detects_ofRows hrows
  constructor
  · obtain ⟨before, grid, hfirst, hsecond⟩ := exists_nested_pair hrows hstart
      (.cover 2) (.commitRow 4) (by decide +kernel)
    exact ⟨start, before, grid, hstart, hsecond, hdetects.isConsistent_eq .start,
      hdetects.isConsistent_eq hfirst, hdetects.isConsistent_eq hsecond⟩
  · obtain ⟨before, grid, hfirst, hsecond⟩ := exists_nested_pair hrows hstart'
      (.cover 2) (.commitRow 6) (by decide +kernel)
    exact ⟨start', before, grid, hstart', hsecond, hdetects'.isConsistent_eq .start,
      hdetects'.isConsistent_eq hfirst, hdetects'.isConsistent_eq hsecond⟩

end Kinds

end ExactCover
