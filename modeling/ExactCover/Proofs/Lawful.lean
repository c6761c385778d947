import ExactCover.Proofs.Intact

/-!
# What all grids have in common

A grid is lawful if the board that it makes when it is closed presents the rows that were added,
and if it does not mind its mesh being replaced by one that is alike, as a search does. Everything
that is said about solvers below rests on these laws and not on the way in which a grid keeps its
rows, so it holds for both kinds of grids. That is also why the two kinds cannot be told apart by
what a search on them does.
-/

set_option autoImplicit false

namespace ExactCover

variable {ι χ : Type} [BEq ι] [BEq χ] [Item ι χ]

/-- Grids that keep the rows that they are given. The rows are expected to come with the numbers
that a function gives to their places, which in a solver are the places themselves. -/
class LawfulGrid (γ : Type) {ι χ : outParam Type} [BEq ι] [BEq χ] [Item ι χ]
    [Grid γ ι χ] where
  /-- The grid has these rows and nothing on it is settled. -/
  Carries : γ → List (List ι) → (numbering : Nat → Nat := id) → Prop
  carries_empty : ∀ {numbering : Nat → Nat}, Carries Grid.empty [] numbering
  isSealed_empty : Grid.isSealed (Grid.empty : γ) = false
  exists_addRow : ∀ {grid : γ} {rows : List (List ι)} {numbering : Nat → Nat} {items : List ι},
    Carries grid rows numbering → Unrepeated items → Grid.isSealed grid = false →
      ∃ grid' : γ, Grid.addRow grid (numbering rows.length) items = .ok grid' ∧
        Carries grid' (rows ++ [items]) numbering ∧ Grid.isSealed grid' = false
  carries_close : ∀ {grid : γ} {rows : List (List ι)} {numbering : Nat → Nat},
    Carries grid rows numbering → Carries (Grid.close grid) rows numbering
  presents_close : ∀ {grid : γ} {rows : List (List ι)} {numbering : Nat → Nat},
    Carries grid rows numbering → (Grid.board (Grid.close grid)).Presents rows numbering
  close_close : ∀ grid : γ, Grid.close (Grid.close grid) = Grid.close grid
  /-- Closing a grid changes nothing, or it seals the grid. -/
  closes : (∀ grid : γ, Grid.close grid = grid) ∨ ∀ grid : γ, Grid.isSealed (Grid.close grid)
  isConsistent_eq : ∀ {grid : γ} {rows : List (List ι)} {numbering : Nat → Nat},
    Carries grid rows numbering → Grid.isConsistent grid = .ok true
  carries_withMesh : ∀ {grid : γ} {rows : List (List ι)} {numbering : Nat → Nat},
    Carries grid rows numbering → ∀ {mesh : Mesh (Grid.board grid).size χ},
      (Grid.board grid).mesh.Alike mesh → Carries (Grid.withMesh grid mesh) rows numbering
  withMesh_mesh : ∀ grid : γ, Grid.withMesh grid (Grid.board grid).mesh = grid
  isSealed_withMesh : ∀ (grid : γ) (mesh : Mesh (Grid.board grid).size χ),
    Grid.isSealed (Grid.withMesh grid mesh) = Grid.isSealed grid
  /-- The mesh of a closed grid is that of its board. -/
  board_withMesh : ∀ (grid : γ) (mesh : Mesh (Grid.board (Grid.close grid)).size χ),
    Grid.board (Grid.withMesh (Grid.close grid) mesh) =
      { Grid.board (Grid.close grid) with mesh := mesh }
  /-- A step on a closed grid is a step on its mesh. -/
  step_withMesh : ∀ (move : {n : Nat} → Fin n → Mesh n χ → Except Fault (Mesh n χ)) (grid : γ)
    (mesh : Mesh (Grid.board (Grid.close grid)).size χ)
    (p : Fin (Grid.board (Grid.close grid)).size),
    Grid.step move (Grid.withMesh (Grid.close grid) mesh) p.val =
      (move p mesh).map (Grid.withMesh (Grid.close grid))
  /-- Whether a closed grid is consistent is decided by its mesh. -/
  isConsistent_withMesh : ∀ {grid : γ} {rows : List (List ι)} {numbering : Nat → Nat},
    Carries grid rows numbering → ∀ mesh : Mesh (Grid.board (Grid.close grid)).size χ,
      Grid.isConsistent (Grid.withMesh (Grid.close grid) mesh) = mesh.isIntact

omit [BEq ι] [BEq χ] [Item ι χ] in
/-- A step at one of the positions of a grid. -/
theorem Grid.step_eq {γ : Type} [Grid γ ι χ]
    (move : {n : Nat} → Fin n → Mesh n χ → Except Fault (Mesh n χ)) (grid : γ)
    (p : Fin (Grid.board grid).size) :
    Grid.step move grid p.val = (move p (Grid.board grid).mesh).map (Grid.withMesh grid) := by
  have hposition : (Grid.board grid).position? p.val = some p := by
    simp [Board.position?]
  simp only [Grid.step, hposition]
  cases move p (Grid.board grid).mesh <;> rfl

variable {numbering : Nat → Nat}

theorem Board.Presents.of_alike [EquivBEq χ] {b : Board ι χ} {rows : List (List ι)}
    (h : b.Presents rows numbering) {mesh : Mesh b.size χ} (halike : b.mesh.Alike mesh) :
    ({ b with mesh := mesh } : Board ι χ).Presents rows numbering :=
  ⟨h.holds.of_alike halike, h.primary, h.secondary⟩

omit [BEq ι] [BEq χ] [Item ι χ] in
/-- What holds of the rows and of one more row holds of all of them. -/
theorem forall_mem_concat {rows : List (List ι)} {items : List ι} {P : List ι → Prop}
    (h : ∀ row ∈ rows, P row) (hitems : P items) : ∀ row ∈ rows ++ [items], P row := by
  intro row hrow
  rcases List.mem_append.mp hrow with hrow | hrow
  · exact h row hrow
  · rw [List.mem_singleton.mp hrow]
    exact hitems

namespace Woven

theorem Weaves.of_alike [EquivBEq χ] {grid : Woven ι χ} {rows : List (List ι)}
    (h : grid.Weaves rows numbering) {mesh : Mesh grid.board.size χ}
    (halike : grid.board.mesh.Alike mesh) :
    Weaves ⟨{ grid.board with mesh := mesh }⟩ rows numbering where
  bears := h.bears.of_alike halike
  labels := h.labels
  style := (congrArg Frame.style halike.frame).trans h.style

/-- The items of the rows find their columns, whatever the links are. -/
theorem Weaves.isConsistent_withMesh [EquivBEq ι] {grid : Woven ι χ} {rows : List (List ι)}
    (h : grid.Weaves rows numbering) (mesh : Mesh grid.board.size χ) :
    isConsistent ⟨{ grid.board with mesh := mesh }⟩ = mesh.isIntact := by
  have hindexed : ({ grid.board with mesh := mesh } : Board ι χ).isIndexed = true :=
    h.bears.isIndexed
  rw [isConsistent, hindexed]
  cases mesh.isIntact with
  | error fault => rfl
  | ok intact => exact congrArg Except.ok (Bool.and_true intact)

theorem Weaves.isConsistent_eq [EquivBEq ι] {grid : Woven ι χ} {rows : List (List ι)}
    (h : grid.Weaves rows numbering) : grid.isConsistent = .ok true :=
  (h.isConsistent_withMesh grid.board.mesh).trans h.bears.isIntact

instance [EquivBEq ι] [EquivBEq χ] : LawfulGrid (Woven ι χ) where
  Carries grid rows numbering := grid.Weaves rows numbering ∧ ∀ items ∈ rows, Unrepeated items
  carries_empty := ⟨weaves_empty, List.forall_mem_nil _⟩
  isSealed_empty := rfl
  exists_addRow h hitems _ := ⟨_, rfl, ⟨h.1.addRow _, forall_mem_concat h.2 hitems⟩, rfl⟩
  carries_close h := h
  presents_close h := h.1.lays.presents h.2
  close_close _ := rfl
  closes := .inl fun _ => rfl
  isConsistent_eq h := h.1.isConsistent_eq
  carries_withMesh h _ halike := ⟨h.1.of_alike halike, h.2⟩
  withMesh_mesh _ := rfl
  isSealed_withMesh _ _ := rfl
  board_withMesh _ _ := rfl
  step_withMesh move grid mesh p :=
    Grid.step_eq move (⟨{ grid.board with mesh := mesh }⟩ : Woven ι χ) p
  isConsistent_withMesh h mesh := h.1.isConsistent_withMesh mesh

end Woven

namespace Packed

/-- The rows that wait to be packed, or those that have been packed. -/
def Carries (grid : Packed ι χ) (rows : List (List ι)) (numbering : Nat → Nat := id) : Prop :=
  match grid with
  | .staged waiting => waiting = numbered rows numbering ∧ ∀ items ∈ rows, Unrepeated items
  | .built board => board.Presents rows numbering

theorem Carries.addRow {grid : Packed ι χ} {rows : List (List ι)} {items : List ι}
    (h : grid.Carries rows numbering) (hitems : Unrepeated items) (hopen : grid.isSealed = false) :
    ∃ grid', grid.addRow (numbering rows.length) items = .ok grid' ∧
      grid'.Carries (rows ++ [items]) numbering ∧ grid'.isSealed = false := by
  cases grid with
  | built board => contradiction
  | staged waiting =>
    obtain ⟨rfl, hrows⟩ := h
    exact ⟨_, rfl, ⟨(numbered_concat rows items).symm, forall_mem_concat hrows hitems⟩, rfl⟩

/-- Packing the rows that wait makes a board that presents them. -/
theorem Carries.presents_close [EquivBEq ι] [ReflBEq χ] {grid : Packed ι χ}
    {rows : List (List ι)} (h : grid.Carries rows numbering) :
    grid.close.board.Presents rows numbering := by
  cases grid with
  | built board => exact h
  | staged waiting =>
    obtain ⟨rfl, hrows⟩ := h
    exact (lays_pack rows).presents hrows

theorem Carries.close [EquivBEq ι] [ReflBEq χ] {grid : Packed ι χ} {rows : List (List ι)}
    (h : grid.Carries rows numbering) : grid.close.Carries rows numbering := by
  have hpresents := h.presents_close
  cases grid with
  | built board => exact h
  | staged waiting => exact hpresents

theorem Carries.isIntact {grid : Packed ι χ} {rows : List (List ι)}
    (h : grid.Carries rows numbering) : grid.board.mesh.isIntact = .ok true := by
  cases grid with
  | built board => exact h.holds.bears.isIntact
  | staged waiting => exact (Board.bears_empty (ι := ι) .spaced numbering).isIntact

theorem Carries.withMesh [EquivBEq χ] {grid : Packed ι χ} {rows : List (List ι)}
    (h : grid.Carries rows numbering) {mesh : Mesh grid.board.size χ}
    (halike : grid.board.mesh.Alike mesh) : (grid.withMesh mesh).Carries rows numbering := by
  cases grid with
  | built board => exact Board.Presents.of_alike h halike
  | staged waiting => exact h

instance [EquivBEq ι] [EquivBEq χ] : LawfulGrid (Packed ι χ) where
  Carries grid rows numbering := grid.Carries rows numbering
  carries_empty := ⟨rfl, fun _ hmem => nomatch hmem⟩
  isSealed_empty := rfl
  exists_addRow h hitems hopen := h.addRow hitems hopen
  carries_close h := h.close
  presents_close h := h.presents_close
  close_close grid := by cases grid <;> rfl
  closes := .inr fun grid => by cases grid <;> rfl
  isConsistent_eq h := h.isIntact
  carries_withMesh h _ halike := h.withMesh halike
  withMesh_mesh grid := by cases grid <;> rfl
  isSealed_withMesh grid mesh := by cases grid <;> rfl
  board_withMesh grid _ := by cases grid <;> rfl
  step_withMesh move grid mesh p := by
    cases grid with
    | staged waiting => exact Grid.step_eq move (Packed.built { pack waiting with mesh := mesh }) p
    | built board => exact Grid.step_eq move (Packed.built { board with mesh := mesh }) p
  isConsistent_withMesh {grid} _ _ _ _ := by cases grid <;> rfl

end Packed

end ExactCover
