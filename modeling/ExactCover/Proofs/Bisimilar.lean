import ExactCover.Constraint
import ExactCover.Proofs.Places

/-!
# The two kinds of grids do the same

If columns are named by items and cells by places, a call on a grid can be made on any other grid
with the same rows, whatever the positions of the boards are. The calls here are those that a search
makes, but in any order. Columns may be covered twice, rows committed from cells that were taken
out, and steps undone that were never made.

Such calls can go wrong, and they can leave links that form no rings. The two kinds of grids still
do the same (`Grid.together_ofRows`): they stop at the same call for the same reason, and until then
they show the same. Which rows are added does not matter: they may be empty or list an item twice.

The relation that carries the proof is `Mesh.Mirrors`. It holds of the meshes of two grids with the
same rows, every call keeps it or makes both stop, and meshes that are so related show the same.
-/

set_option autoImplicit false

namespace ExactCover

/-- A call on a grid, with a column named by its item and a cell by its place. -/
inductive Act (ι : Type) where
  /-- Covers the column of an item. -/
  | cover (item : ι)
  /-- Uncovers the column of an item, whether or not it is covered. -/
  | uncover (item : ι)
  /-- Commits the row of the cell at a place. -/
  | commitRow (place : Nat × Nat)
  /-- Uncommits the row of the cell at a place, whether or not it is committed. -/
  | uncommitRow (place : Nat × Nat)
  deriving DecidableEq, Repr

/-- Whether the rows have what a call names. -/
def Act.isNamed {ι : Type} [BEq ι] (rows : List (Nat × List ι)) : Act ι → Bool
  | .cover item | .uncover item => rows.any fun row => row.2.contains item
  | .commitRow place | .uncommitRow place => (places (rows.map (·.2))).contains place

/-- What can be seen of a grid through its walks. -/
structure View (ι : Type) where
  /-- The items in the ring of the columns that must be covered. -/
  ring : List ι
  /-- For each item that is listed by a row, how many cells are counted in its column, and the
  places of the cells that the walk down the column meets. -/
  columns : List (Nat × List (Nat × Nat))
  /-- Whether the links are in order. -/
  isConsistent : Bool
  deriving DecidableEq, Repr

/-- What was looked for, if it was found. -/
def found {α : Type} : Option α → Except Fault α
  | some a => .ok a
  | none => .error .outOfRange

/-- What can be seen of the column of an item: how many cells are counted there, and the places of
the cells that the walk down the column meets. -/
def Board.columnPlaces {ι χ : Type} [BEq ι] (b : Board ι χ) (rows : List (Nat × List ι))
    (item : ι) : Except Fault (Nat × List (Nat × Nat)) := do
  let c ← found (b.column? item)
  let cells ← b.mesh.cells c
  let met ← cells.mapM fun p => found (b.placeOf? rows p)
  .ok (b.mesh.count c, met)

/-- The items of the columns in the ring of those that must be covered. -/
def Board.ringItems {ι χ : Type} (b : Board ι χ) : Except Fault (List ι) := do
  let columns ← b.mesh.primaryColumns
  columns.mapM fun c => found (b.item? c)

/-- The position that a call names. -/
def Act.position? {ι χ : Type} [BEq ι] (rows : List (Nat × List ι)) (b : Board ι χ) :
    Act ι → Option Nat
  | .cover item | .uncover item => (b.column? item).map (·.val)
  | .commitRow place | .uncommitRow place => (b.cellAt? rows place).map (·.val)

namespace Grid

variable {γ γ' ι χ : Type} [Grid γ ι χ] [Grid γ' ι χ] [BEq ι] [BEq χ]

/-- Makes a call at a position. -/
def perform (grid : γ) (p : Nat) : Act ι → Except Fault γ
  | .cover _ => cover grid p
  | .uncover _ => uncover grid p
  | .commitRow _ => commitRow grid p
  | .uncommitRow _ => uncommitRow grid p

/-- Makes a call. -/
def act (rows : List (Nat × List ι)) (grid : γ) (call : Act ι) : Except Fault γ := do
  let p ← found (call.position? rows (board grid))
  perform grid p call

/-- Makes some calls, one after another, until one of them goes wrong. -/
def run (rows : List (Nat × List ι)) (grid : γ) (calls : List (Act ι)) : Except Fault γ :=
  calls.foldlM (act rows) grid

/-- What can be seen of a grid. -/
def view (rows : List (Nat × List ι)) (grid : γ) : Except Fault (View ι) := do
  let ring ← (board grid).ringItems
  let columns ← (rows.flatMap (·.2)).mapM ((board grid).columnPlaces rows)
  let intact ← isConsistent grid
  .ok ⟨ring, columns, intact⟩

/-- Two grids go on and show the same, or both have stopped for the same reason. -/
inductive Together (rows : List (Nat × List ι)) : Except Fault γ → Except Fault γ' → Prop where
  | going {grid : γ} {grid' : γ'} {shown : View ι} (h : view rows grid = .ok shown)
    (h' : view rows grid' = .ok shown) : Together rows (.ok grid) (.ok grid')
  | stopped {fault : Fault} (h : fault = .countUnderflow ∨ fault = .notPurified) :
    Together rows (.error fault) (.error fault)

omit [BEq χ] in
/-- Grids that go together show the same or do not show anything. -/
theorem Together.bind_view_eq {rows : List (Nat × List ι)} {result : Except Fault γ}
    {result' : Except Fault γ'} (h : Together rows result result') :
    (result >>= view rows) = result' >>= view rows := by
  cases h with
  | going h h' => exact h.trans h'.symm
  | stopped => rfl

end Grid

/-- Readings that are successful and the same at elements that correspond give the same list. -/
theorem exists_mapM_of_forall₂ {α β δ : Type} {R : α → β → Prop} {f : α → Except Fault δ}
    {g : β → Except Fault δ} {as : List α} {bs : List β} (h : List.Forall₂ R as bs)
    (hfg : ∀ a b, R a b → ∃ d, f a = .ok d ∧ g b = .ok d) :
    ∃ ds, as.mapM f = .ok ds ∧ bs.mapM g = .ok ds := by
  induction h with
  | nil => exact ⟨[], rfl, rfl⟩
  | @cons a b as bs hab _ ih =>
    obtain ⟨d, hd, hd'⟩ := hfg a b hab
    obtain ⟨ds, hds, hds'⟩ := ih
    refine ⟨d :: ds, ?_, ?_⟩
    · rw [List.mapM_cons, hd, hds]
      rfl
    · rw [List.mapM_cons, hd', hds']
      rfl

namespace Grid

variable {γ γ' ι χ : Type} [Grid γ ι χ] [Grid γ' ι χ] [BEq ι] [BEq χ] [Item ι χ] {n n' : Nat}

/-- A way to put a mesh into a grid that takes the check of the grid to be that of the links, where
one of these meshes arranges some rows. -/
structure Shelters (mount : Mesh n χ → γ) (labels : List (ι × Nat)) (L : Layout n χ)
    (rest : Mesh n χ) (rows : List (Nat × List ι)) : Prop extends Mounts mount labels where
  isConsistent_eq : ∀ m, isConsistent (mount m) = m.isIntact
  arranges : rest.Arranges labels L (rows.map (·.2)) (numbering rows)

namespace Shelters

variable {mount : Mesh n χ → γ} {mount' : Mesh n' χ → γ'} {labels labels' : List (ι × Nat)}
  {L : Layout n χ} {L' : Layout n' χ} {rest m : Mesh n χ} {rest' m' : Mesh n' χ}
  {rows : List (Nat × List ι)} [EquivBEq ι]

/-- A call names positions that are counterparts, and at these it does the same to meshes that
mirror each other. -/
theorem exists_perform [EquivBEq χ] (h : Shelters mount labels L rest rows)
    (h' : Shelters mount' labels' L' rest' rows) (hm : m.Mirrors m' L L') {call : Act ι}
    (hcall : call.isNamed rows) :
    ∃ p p' result result', call.position? rows (⟨n, m, labels⟩ : Board ι χ) = some p ∧
      call.position? rows (⟨n', m', labels'⟩ : Board ι χ) = some p' ∧
        Mesh.Agree L L' result result' ∧ perform (mount m) p call = result.map mount ∧
          perform (mount' m') p' call = result'.map mount' := by
  have hL := h.arranges.layouts_match h'.arranges
  have hcolumn : ∀ item, (rows.any fun row => row.2.contains item) →
      ∃ c c', ((⟨n, m, labels⟩ : Board ι χ).column? item).map (·.val) = some c.val ∧
        ((⟨n', m', labels'⟩ : Board ι χ).column? item).map (·.val) = some c'.val ∧
          L.SameColumn L' c c' := by
    intro item hitem
    obtain ⟨c, c', hc, hc', hsame⟩ := h.arranges.exists_column? h'.arranges m m' hitem
    exact ⟨c, c', congrArg _ hc, congrArg _ hc', hsame⟩
  have hcell : ∀ place, (places (rows.map (·.2))).contains place →
      ∃ p p', ((⟨n, m, labels⟩ : Board ι χ).cellAt? rows place).map (·.val) = some p.val ∧
        ((⟨n', m', labels'⟩ : Board ι χ).cellAt? rows place).map (·.val) = some p'.val ∧
          L.SameCell L' p p' := by
    intro place hplace
    rw [List.contains_iff_mem] at hplace
    obtain ⟨p, hp, -⟩ := h.arranges.exists_cellAt? hm.orderly.frame hplace
    obtain ⟨p', hp', -⟩ := h'.arranges.exists_cellAt? hm.orderly'.frame hplace
    exact ⟨p, p', congrArg _ hp, congrArg _ hp', h.arranges.sameCell_of_cellAt? h'.arranges
      hm.orderly.frame hm.orderly'.frame hp hp'⟩
  cases call with
  | cover item =>
    obtain ⟨c, c', hc, hc', hsame⟩ := hcolumn item hcall
    exact ⟨c, c', _, _, hc, hc', hm.cover hL hsame, h.step_eq Mesh.cover m c,
      h'.step_eq Mesh.cover m' c'⟩
  | uncover item =>
    obtain ⟨c, c', hc, hc', hsame⟩ := hcolumn item hcall
    exact ⟨c, c', _, _, hc, hc', hm.uncover hL hsame, h.step_eq Mesh.uncover m c,
      h'.step_eq Mesh.uncover m' c'⟩
  | commitRow place =>
    obtain ⟨p, p', hp, hp', hsame⟩ := hcell place hcall
    exact ⟨p, p', _, _, hp, hp', hm.commitRow hL hsame, h.step_eq Mesh.commitRow m p,
      h'.step_eq Mesh.commitRow m' p'⟩
  | uncommitRow place =>
    obtain ⟨p, p', hp, hp', hsame⟩ := hcell place hcall
    exact ⟨p, p', _, _, hp, hp', hm.uncommitRow hL hsame, h.step_eq Mesh.uncommitRow m p,
      h'.step_eq Mesh.uncommitRow m' p'⟩

/-- The same call on grids whose meshes mirror each other leads to such grids, or both stop. -/
theorem exists_act [EquivBEq χ] (h : Shelters mount labels L rest rows)
    (h' : Shelters mount' labels' L' rest' rows) (hm : m.Mirrors m' L L') {call : Act ι}
    (hcall : call.isNamed rows) :
    ∃ result result', Mesh.Agree L L' result result' ∧
      act rows (mount m) call = result.map mount ∧
        act rows (mount' m') call = result'.map mount' := by
  obtain ⟨p, p', result, result', hp, hp', hagree, hperform, hperform'⟩ :=
    h.exists_perform h' hm hcall
  refine ⟨result, result', hagree, ?_, ?_⟩
  · rw [act, h.board_eq, hp]
    exact hperform
  · rw [act, h'.board_eq, hp']
    exact hperform'

/-- The same calls lead from grids whose meshes mirror each other to such grids, or both stop. -/
theorem exists_run [EquivBEq χ] (h : Shelters mount labels L rest rows)
    (h' : Shelters mount' labels' L' rest' rows) (hm : m.Mirrors m' L L') {calls : List (Act ι)}
    (hcalls : ∀ call ∈ calls, call.isNamed rows) :
    ∃ result result', Mesh.Agree L L' result result' ∧
      run rows (mount m) calls = result.map mount ∧
        run rows (mount' m') calls = result'.map mount' := by
  induction calls generalizing m m' with
  | nil => exact ⟨_, _, .ok hm, rfl, rfl⟩
  | cons call calls ih =>
    obtain ⟨result, result', hagree, hact, hact'⟩ := h.exists_act h' hm (hcalls call (by simp))
    simp only [run, List.foldlM_cons, hact, hact']
    cases hagree with
    | ok hm => exact ih hm fun call hcall => hcalls call (List.mem_cons_of_mem _ hcall)
    | error hfault => exact ⟨_, _, .error hfault, rfl, rfl⟩

/-- Boards whose meshes mirror each other show the same of every column. -/
theorem exists_columnPlaces (h : Shelters mount labels L rest rows)
    (h' : Shelters mount' labels' L' rest' rows) (hm : m.Mirrors m' L L') {item : ι}
    (hitem : item ∈ rows.flatMap (·.2)) :
    ∃ shown, (⟨n, m, labels⟩ : Board ι χ).columnPlaces rows item = .ok shown ∧
      (⟨n', m', labels'⟩ : Board ι χ).columnPlaces rows item = .ok shown := by
  have hL := h.arranges.layouts_match h'.arranges
  obtain ⟨row, hrow, hx⟩ := List.mem_flatMap.mp hitem
  have hlisted : rows.any fun row => row.2.contains item :=
    List.any_eq_true.mpr ⟨row, hrow, List.contains_iff_exists_mem_beq.mpr ⟨item, hx, BEq.rfl⟩⟩
  obtain ⟨c, c', hc, hc', hsame⟩ := h.arranges.exists_column? h'.arranges m m' hlisted
  obtain ⟨ps, ps', hps, hps', hrel⟩ := hm.exists_cells hL hsame
  obtain ⟨met, hmet, hmet'⟩ := exists_mapM_of_forall₂ hrel fun p p' hp => by
    obtain ⟨place, hplace, hplace'⟩ := h.arranges.exists_placeOf? h'.arranges
      hm.orderly.frame hm.orderly'.frame hp
    exact ⟨place, congrArg found hplace, congrArg found hplace'⟩
  refine ⟨(m.count c, met), ?_, ?_⟩
  · simp only [Board.columnPlaces, hc, found, bind, Except.bind, hps] at hmet ⊢
    rw [hmet]
  · simp only [Board.columnPlaces, hc', found, bind, Except.bind, hps', hm.count hsame] at hmet' ⊢
    rw [hmet']

/-- The rings of boards whose meshes mirror each other have the same items. -/
theorem exists_ringItems (h : Shelters mount labels L rest rows)
    (h' : Shelters mount' labels' L' rest' rows) (hm : m.Mirrors m' L L') :
    ∃ items, (⟨n, m, labels⟩ : Board ι χ).ringItems = .ok items ∧
      (⟨n', m', labels'⟩ : Board ι χ).ringItems = .ok items := by
  obtain ⟨cs, cs', hcs, hcs', hrel⟩ :=
    hm.exists_primaryColumns (h.arranges.layouts_match h'.arranges)
  obtain ⟨items, hitems, hitems'⟩ := exists_mapM_of_forall₂ hrel fun c c' hsame => by
    obtain ⟨x, hx, hx'⟩ := h.arranges.exists_label h'.arranges hsame
    exact ⟨x, congrArg found (h.arranges.item?_eq_some m hx),
      congrArg found (h'.arranges.item?_eq_some m' hx')⟩
  refine ⟨items, ?_, ?_⟩
  · rw [Board.ringItems, hcs]
    exact hitems
  · rw [Board.ringItems, hcs']
    exact hitems'

/-- Grids whose meshes mirror each other show the same. -/
theorem exists_view (h : Shelters mount labels L rest rows)
    (h' : Shelters mount' labels' L' rest' rows) (hm : m.Mirrors m' L L') :
    ∃ shown, view rows (mount m) = .ok shown ∧ view rows (mount' m') = .ok shown := by
  obtain ⟨items, hitems, hitems'⟩ := h.exists_ringItems h' hm
  have hsame : List.Forall₂ (fun x y => x = y ∧ x ∈ rows.flatMap (·.2)) (rows.flatMap (·.2))
      (rows.flatMap (·.2)) := List.forall₂_same.mpr fun x hx => ⟨rfl, hx⟩
  have hshown : ∀ x y, x = y ∧ x ∈ rows.flatMap (·.2) →
      ∃ shown, (⟨n, m, labels⟩ : Board ι χ).columnPlaces rows x = .ok shown ∧
        (⟨n', m', labels'⟩ : Board ι χ).columnPlaces rows y = .ok shown := by
    rintro item _ ⟨rfl, hitem⟩
    exact h.exists_columnPlaces h' hm hitem
  obtain ⟨columns, hcolumns, hcolumns'⟩ := exists_mapM_of_forall₂ hsame hshown
  obtain ⟨intact, hintact, hintact'⟩ := hm.exists_isIntact h.arranges.header h'.arranges.header
    (h.arranges.layouts_match h'.arranges)
  refine ⟨⟨items, columns, intact⟩, ?_, ?_⟩
  · rw [view, h.board_eq, h.isConsistent_eq, hitems, hcolumns, hintact]
    rfl
  · rw [view, h'.board_eq, h'.isConsistent_eq, hitems', hcolumns', hintact']
    rfl

/-- Grids in which the same rows are arranged go together through any calls. -/
theorem together_run [EquivBEq χ] (h : Shelters mount labels L rest rows)
    (h' : Shelters mount' labels' L' rest' rows) {calls : List (Act ι)}
    (hcalls : ∀ call ∈ calls, call.isNamed rows) :
    Together rows (run rows (mount rest) calls) (run rows (mount' rest') calls) := by
  obtain ⟨result, result', hagree, hrun, hrun'⟩ :=
    h.exists_run h' (h.arranges.mirrors h'.arranges) hcalls
  rw [hrun, hrun']
  cases hagree with
  | ok hm =>
    obtain ⟨shown, hshown, hshown'⟩ := h.exists_view h' hm
    exact .going hshown hshown'
  | error hfault => exact .stopped hfault

/-- The places lead to cells as they should. -/
theorem directs (h : Shelters mount labels L rest rows) : (board (mount rest)).Directs rows := by
  rw [h.board_eq]
  exact h.arranges.directs (h.arranges.atRest.orderly h.arranges.sound h.arranges.closed)

end Shelters

end Grid

section Kinds

variable {ι χ : Type} [BEq ι] [EquivBEq ι] [BEq χ] [Item ι χ]

/-- An open grid has on its board the rows that were added. -/
theorem Woven.weaves_foldl [ReflBEq χ] {numbering : Nat → Nat} (rows : List (Nat × List ι))
    (hnumbering : ∀ k row, rows[k]? = some row → numbering k = row.1) :
    (rows.foldl (fun grid row => grid.addRow row.1 row.2) (Woven.empty : Woven ι χ)).Weaves
      (rows.map (·.2)) numbering := by
  induction rows using List.reverseRecOn with
  | nil => exact weaves_empty
  | append_singleton rows row ih =>
    have hweaves := ih fun k row' hrow' => by
      obtain ⟨hlt, -⟩ := List.getElem?_eq_some_iff.mp hrow'
      exact hnumbering k row' (by rw [List.getElem?_append_left hlt, hrow'])
    have hnumber : numbering (rows.map (·.2)).length = row.1 :=
      hnumbering _ row (by rw [List.length_map, List.getElem?_concat_length])
    have hadded := hweaves.addRow row.2
    rw [hnumber] at hadded
    rw [List.foldl_append, List.map_append]
    exact hadded

/-- An open grid can be made of any rows. -/
theorem Woven.exists_ofRows [ReflBEq χ] (rows : List (Nat × List ι)) :
    ∃ grid : Woven ι χ, Grid.ofRows rows = .ok grid ∧
      grid.Weaves (rows.map (·.2)) (Grid.numbering rows) := by
  refine ⟨_, ?_, Woven.weaves_foldl rows fun k row hrow => ?_⟩
  · have hadded : rows.foldlM (fun (grid : Woven ι χ) row => Grid.addRow grid row.1 row.2)
        Grid.empty = .ok (rows.foldl (fun grid row => grid.addRow row.1 row.2) Woven.empty) :=
      List.foldlM_pure
    rw [Grid.ofRows, hadded]
    rfl
  · rw [Grid.numbering, List.getElem?_map, hrow]
    rfl

omit [BEq ι] [EquivBEq ι] [BEq χ] [Item ι χ] in
/-- Rows come with the numbers of their places. -/
theorem Packed.numbered_numbering (rows : List (Nat × List ι)) :
    numbered (rows.map (·.2)) (Grid.numbering rows) = rows := by
  refine List.ext_getElem (by simp [numbered]) fun k hk hk' => ?_
  simp [numbered, Grid.numbering, hk']

/-- A sealed grid can be made of any rows. -/
theorem Packed.exists_ofRows [ReflBEq χ] (rows : List (Nat × List ι)) :
    ∃ b : Board ι χ, Grid.ofRows rows = .ok (Packed.built b) ∧
      b.Lays (rows.map (·.2)) (Grid.numbering rows) := by
  have hadd : ∀ rest done : List (Nat × List ι),
      rest.foldlM (fun (grid : Packed ι χ) row => Grid.addRow grid row.1 row.2) (.staged done) =
        .ok (.staged (done ++ rest)) := by
    intro rest
    induction rest with
    | nil => exact fun done => by rw [List.append_nil]; rfl
    | cons row rest ih =>
      intro done
      have hrest := ih (done ++ [row])
      rw [List.append_assoc, List.singleton_append] at hrest
      rw [List.foldlM_cons]
      exact hrest
  have hlays : (pack (numbered (rows.map (·.2)) (Grid.numbering rows)) : Board ι χ).Lays
      (rows.map (·.2)) (Grid.numbering rows) := Packed.lays_pack _
  rw [Packed.numbered_numbering] at hlays
  have hadded : rows.foldlM (fun (grid : Packed ι χ) row => Grid.addRow grid row.1 row.2)
      Grid.empty = .ok (.staged rows) := hadd rows []
  refine ⟨_, ?_, hlays⟩
  rw [Grid.ofRows, hadded]
  rfl

theorem Woven.Weaves.exists_shelters {grid : Woven ι χ} {rows : List (Nat × List ι)}
    (h : grid.Weaves (rows.map (·.2)) (Grid.numbering rows)) :
    ∃ L, Grid.Shelters (fun mesh => (⟨{ grid.board with mesh := mesh }⟩ : Woven ι χ))
      grid.board.columns L grid.board.mesh rows := by
  obtain ⟨L, harranges⟩ := h.lays.exists_arranges
  refine ⟨L, ⟨⟨fun _ => rfl, fun move mesh p => ?_⟩, h.isConsistent_withMesh, harranges⟩⟩
  exact Grid.step_eq move (⟨{ grid.board with mesh := mesh }⟩ : Woven ι χ) p

omit [EquivBEq ι] in
theorem Packed.exists_shelters {b : Board ι χ} {rows : List (Nat × List ι)}
    (h : b.Lays (rows.map (·.2)) (Grid.numbering rows)) :
    ∃ L, Grid.Shelters (fun mesh => Packed.built { b with mesh := mesh }) b.columns L b.mesh
      rows := by
  obtain ⟨L, harranges⟩ := h.exists_arranges
  refine ⟨L, ⟨⟨fun _ => rfl, fun move mesh p => ?_⟩, fun _ => rfl, harranges⟩⟩
  exact Grid.step_eq move (Packed.built { b with mesh := mesh }) p

/-- Any rows can be added to both kinds of grids, and whatever calls are made on the two, in any
order and any number of times, either both stop at the same call for the same reason or both go on
and show the same. -/
theorem Grid.together_ofRows [EquivBEq χ] (rows : List (Nat × List ι)) :
    ∃ (woven : Woven ι χ) (packed : Packed ι χ), ofRows rows = .ok woven ∧
      ofRows rows = .ok packed ∧ (board woven).Directs rows ∧ (board packed).Directs rows ∧
        ∀ calls : List (Act ι), (∀ call ∈ calls, call.isNamed rows) →
          Together rows (run rows woven calls) (run rows packed calls) := by
  obtain ⟨woven, hwoven, hweaves⟩ := Woven.exists_ofRows rows
  obtain ⟨b, hpacked, hlays⟩ := Packed.exists_ofRows rows
  obtain ⟨L, hshelters⟩ := hweaves.exists_shelters
  obtain ⟨L', hshelters'⟩ := Packed.exists_shelters hlays
  exact ⟨woven, .built b, hwoven, hpacked, hshelters.directs, hshelters'.directs,
    fun calls hcalls => hshelters.together_run hshelters' hcalls⟩

/-- If a column is uncovered before the commit that followed its cover is undone, it counts four
cells and has two, in both kinds of grids. Covering a column twice stops both. -/
theorem Grid.together_ofRows_of_misuse :
    let rows : List (Nat × List (Constraint Nat Nat)) :=
      [(0, [.primary 0, .secondary 1 (some 7), .primary 0]), (1, []),
        (2, [.primary 2, .secondary 1 (some 8)]), (2, [.secondary 1 (some 7), .primary 2])]
    let calls : List (Act (Constraint Nat Nat)) :=
      [.cover (.primary 2), .commitRow (3, 1), .uncover (.primary 2), .uncommitRow (3, 1)]
    let columns := [(2, [(0, 0), (0, 2)]), (3, [(0, 1), (2, 1), (3, 0)]), (2, [(0, 0), (0, 2)]),
      (4, [(2, 0), (3, 1)]), (3, [(0, 1), (2, 1), (3, 0)]), (3, [(0, 1), (2, 1), (3, 0)]),
      (4, [(2, 0), (3, 1)])]
    ∃ (woven : Woven (Constraint Nat Nat) Nat) (packed : Packed (Constraint Nat Nat) Nat),
      ofRows rows = .ok woven ∧ ofRows rows = .ok packed ∧
        (run rows woven calls >>= view rows).toOption.map (·.columns) = some columns ∧
          (run rows packed calls >>= view rows).toOption.map (·.columns) = some columns ∧
            Together rows (run rows woven [.cover (.primary 2), .cover (.primary 2)])
              (run rows packed [.cover (.primary 2), .cover (.primary 2)]) := by
  intro rows calls columns
  obtain ⟨woven, packed, hwoven, hpacked, -, -, htogether⟩ := together_ofRows rows
  have hshown : ∀ woven ∈
      (ofRows rows : Except StateError (Woven (Constraint Nat Nat) Nat)).toOption,
        (run rows woven calls >>= view rows).toOption.map (·.columns) = some columns := by
    decide +kernel
  have hview := hshown woven (by rw [hwoven]; rfl)
  refine ⟨woven, packed, hwoven, hpacked, hview, ?_, htogether _ (by decide)⟩
  rw [← (htogether calls (by decide)).bind_view_eq, hview]

end Kinds

end ExactCover
