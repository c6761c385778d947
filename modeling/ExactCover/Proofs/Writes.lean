import ExactCover.Proofs.Orderly

/-!
# Steps write by write

A step on a mesh is a long sequence of single writes, and a walk that goes on while they are made
sees the mesh as the latest of them has left it. `Step.writes` are the writes of a step in their
order, up to the point where the step stops if it is impossible. All of them together are the step
(`Step.writeAll_writes`).

What holds of a mesh after every single write holds while the step is under way. An orderly mesh is
orderly all that time (`Step.orderly_take`), whichever column or cell the step is taken at, and
whatever was done before. It is not only so between a link and the link that should match it, but
also where the two do not match for long because steps were undone in another order than latest
first.
-/

set_option autoImplicit false

namespace ExactCover

variable {n : Nat} {χ α : Type}

namespace Mesh

/-- A single write to a mesh. -/
inductive Write (n : Nat) (χ : Type) where
  /-- The link down from `p` leads to `q`. -/
  | below (p q : Fin n)
  /-- The link up from `p` leads to `q`. -/
  | above (p q : Fin n)
  /-- The link to the right from `p` leads to `q`. -/
  | next (p q : Fin n)
  /-- The link to the left from `p` leads to `q`. -/
  | prev (p q : Fin n)
  /-- The count of the column is `k`. -/
  | count (c : Fin n) (k : Nat)
  /-- The cell has this paint. -/
  | paint (p : Fin n) (value : Paint χ)
  /-- The column is restricted to this color, if any. -/
  | tint (c : Fin n) (value : Option χ)

/-- Makes a write. -/
def Write.apply : Write n χ → Mesh n χ → Mesh n χ
  | .below p q, m => { m with down := ⟨m.down.forward.aim p q, m.down.backward⟩ }
  | .above p q, m => { m with down := ⟨m.down.forward, m.down.backward.aim p q⟩ }
  | .next p q, m => { m with across := ⟨m.across.forward.aim p q, m.across.backward⟩ }
  | .prev p q, m => { m with across := ⟨m.across.forward, m.across.backward.aim p q⟩ }
  | .count c k, m => m.setCount c k
  | .paint p value, m => m.setPaint p value
  | .tint c value, m => m.setTint c value

/-- Makes some writes, one after another. -/
def writeAll (m : Mesh n χ) (writes : List (Write n χ)) : Mesh n χ :=
  writes.foldl (fun m write => write.apply m) m

/-- The writes after a part of a step, provided that the part is possible. -/
def andThen (part : Except Fault α) (writes : α → List (Write n χ)) : List (Write n χ) :=
  match part with
  | .ok a => writes a
  | .error _ => []

/-- The writes of a sweep with the given writes at each visit. -/
def sweepWrites (step : Mesh n χ → Fin n → Except Fault (Fin n))
    (visit : Fin n → Mesh n χ → Except Fault (Mesh n χ))
    (writes : Fin n → Mesh n χ → List (Write n χ)) (home : Fin n) (m : Mesh n χ) :
    List (Write n χ) :=
  andThen (step m home) fun start => go n start m
where
  /-- Goes on from a position that has not been visited yet. -/
  go : Nat → Fin n → Mesh n χ → List (Write n χ)
    | 0, _, _ => []
    | fuel + 1, p, m =>
      if p = home then []
      else writes p m ++ andThen (visit p m) fun m => andThen (step m p) fun q => go fuel q m

/-- A cell leaves its column before it is counted out. -/
def detachWrites (p : Fin n) (m : Mesh n χ) : List (Write n χ) :=
  if !(m.role p).isCell || (m.paint p).isPurified then []
  else [.below (m.above p) (m.below p), .above (m.below p) (m.above p)] ++
    match m.count (m.column p) with
    | 0 => []
    | k + 1 => [.count (m.column p) k]

/-- A cell is counted before it comes back into its column. -/
def attachWrites (p : Fin n) (m : Mesh n χ) : List (Write n χ) :=
  if !(m.role p).isCell || (m.paint p).isPurified then []
  else [.count (m.column p) (m.count (m.column p) + 1), .below (m.above p) p, .above (m.below p) p]

def hideWrites (p : Fin n) (m : Mesh n χ) : List (Write n χ) :=
  sweepWrites right detach detachWrites p m

def unhideWrites (p : Fin n) (m : Mesh n χ) : List (Write n χ) :=
  sweepWrites left attach attachWrites p m

def coverWrites (c : Fin n) (m : Mesh n χ) : List (Write n χ) :=
  sweepWrites (fun m p => .ok (m.below p)) hide hideWrites c m ++
    andThen (m.sweepDown hide c) fun m =>
      [.next (m.across.prev c) (m.across.next c), .prev (m.across.next c) (m.across.prev c)]

def uncoverWrites (c : Fin n) (m : Mesh n χ) : List (Write n χ) :=
  [.next (m.across.prev c) c, .prev (m.across.next c) c] ++
    sweepWrites (fun m p => .ok (m.above p)) unhide unhideWrites c
      { m with across := m.across.relink c }

def restrictWrites [BEq χ] (color : χ) (p : Fin n) (m : Mesh n χ) : List (Write n χ) :=
  match m.paint p with
  | .colored other => if other == color then [.paint p .purified] else hideWrites p m
  | _ => hideWrites p m

def purifyWrites [BEq χ] (color : χ) (c : Fin n) (m : Mesh n χ) : List (Write n χ) :=
  sweepWrites (fun m p => .ok (m.below p)) (purify.restrict color) (restrictWrites color) c m ++
    andThen (m.sweepDown (purify.restrict color) c) fun _ => [.tint c (some color)]

def releaseWrites (color : χ) (p : Fin n) (m : Mesh n χ) : List (Write n χ) :=
  if (m.paint p).isPurified then [.paint p (.colored color)] else unhideWrites p m

def unpurifyWrites (c : Fin n) (m : Mesh n χ) : List (Write n χ) :=
  match m.tint c with
  | none => []
  | some color =>
    .tint c none :: sweepWrites (fun m p => .ok (m.above p)) (unpurify.release color)
      (releaseWrites color) c (m.setTint c none)

def commitWrites [BEq χ] (p : Fin n) (m : Mesh n χ) : List (Write n χ) :=
  if !(m.role p).isCell then []
  else
    match m.paint p with
    | .uncolored => coverWrites (m.column p) m
    | .colored color => purifyWrites color (m.column p) m
    | .purified => []

def uncommitWrites (p : Fin n) (m : Mesh n χ) : List (Write n χ) :=
  if !(m.role p).isCell then []
  else
    match m.paint p with
    | .uncolored => uncoverWrites (m.column p) m
    | .colored _ => unpurifyWrites (m.column p) m
    | .purified => []

def commitRowWrites [BEq χ] (p : Fin n) (m : Mesh n χ) : List (Write n χ) :=
  sweepWrites right commit commitWrites p m

def uncommitRowWrites (p : Fin n) (m : Mesh n χ) : List (Write n χ) :=
  sweepWrites left uncommit uncommitWrites p m

/-- The steps that are taken at the header of a column or at a cell. -/
inductive Step (χ : Type) where
  | cover
  | uncover
  | purify (color : χ)
  | unpurify
  | commitRow
  | uncommitRow
  deriving DecidableEq, Repr

namespace Step

variable [BEq χ]

/-- Takes the step at a position. -/
def run : Step χ → {n : Nat} → Fin n → Mesh n χ → Except Fault (Mesh n χ)
  | .cover => Mesh.cover
  | .uncover => Mesh.uncover
  | .purify color => fun c => Mesh.purify c color
  | .unpurify => Mesh.unpurify
  | .commitRow => Mesh.commitRow
  | .uncommitRow => Mesh.uncommitRow

/-- The writes of the step at a position. -/
def writes : Step χ → {n : Nat} → Fin n → Mesh n χ → List (Write n χ)
  | .cover => coverWrites
  | .uncover => uncoverWrites
  | .purify color => purifyWrites color
  | .unpurify => unpurifyWrites
  | .commitRow => commitRowWrites
  | .uncommitRow => uncommitRowWrites

/-- Whether the step is taken at positions of this kind. -/
def isAt : Step χ → Role → Bool
  | .cover, role | .uncover, role | .purify _, role | .unpurify, role => role = .header
  | .commitRow, role | .uncommitRow, role => role.isCell

end Step

/-! ## Orderly all the time -/

/-- The writes lead from one mesh to the other, and all meshes on the way are orderly. -/
inductive Passes (L : Layout n χ) : Mesh n χ → List (Write n χ) → Mesh n χ → Prop where
  | nil {m : Mesh n χ} (h : m.Orderly L) : Passes L m [] m
  | cons {m m' : Mesh n χ} {write : Write n χ} {writes : List (Write n χ)} (h : m.Orderly L)
      (hrest : Passes L (write.apply m) writes m') : Passes L m (write :: writes) m'

variable {L : Layout n χ} {m m' m'' : Mesh n χ} {c p : Fin n} {writes writes' : List (Write n χ)}

namespace Passes

theorem append (h : Passes L m writes m') (h' : Passes L m' writes' m'') :
    Passes L m (writes ++ writes') m'' := by
  induction h with
  | nil _ => exact h'
  | cons h _ ih => exact .cons h (ih h')

theorem eq_writeAll (h : Passes L m writes m') : m' = m.writeAll writes := by
  induction h with
  | nil _ => rfl
  | cons _ _ ih => exact ih

theorem orderly_take (h : Passes L m writes m') (k : Nat) :
    (m.writeAll (writes.take k)).Orderly L := by
  induction h generalizing k with
  | nil h =>
    rw [List.take_nil]
    exact h
  | cons h _ ih =>
    cases k with
    | zero => exact h
    | succ k => exact ih k

theorem orderly (h : Passes L m writes m') : m'.Orderly L := by
  have hall := h.orderly_take writes.length
  rw [List.take_length, ← h.eq_writeAll] at hall
  exact hall

theorem single {write : Write n χ} (h : m.Orderly L) (h' : (write.apply m).Orderly L) :
    Passes L m [write] (write.apply m) :=
  .cons h (.nil h')

/-- What is written to counts, paints and tints is of no account. -/
theorem aside {write : Write n χ} (h : m.Orderly L)
    (hframe : (write.apply m).toFrame = m.toFrame) (hacross : (write.apply m).across = m.across)
    (hdown : (write.apply m).down = m.down) : Passes L m [write] (write.apply m) :=
  .single h (h.congr hframe hacross hdown)

end Passes

end Mesh

/-- The forward links may be those of one list, and the backward links those of another, if both
lead onward. -/
theorem Links.Rises.mixed {a b : Links n} {home : Fin n} {members : List (Fin n)}
    (h : a.Rises home members) (h' : b.Rises home members) :
    (⟨a.forward, b.backward⟩ : Links n).Rises home members where
  next := h.next
  prev := h'.prev

namespace Mesh

variable {L : Layout n χ} {m m' : Mesh n χ} {c p : Fin n}

/-- Between the two links that are written when a cell of a column is taken out or put back, the
mesh is orderly. -/
theorem Orderly.mixed_down (h : m.Orderly L) (hL : L.Sound) (hp : p ∈ L.cells) {down : Links n}
    (hrises : ∀ {home : Fin n} {members : List (Fin n)}, m.down.Rises home members →
      p ∈ members → p ≠ home → down.Rises home members ∧ ∀ q ∉ home :: members,
        down.next q = m.down.next q ∧ down.prev q = m.down.prev q) :
    ({ m with down := ⟨down.forward, m.down.backward⟩ } : Mesh n χ).Orderly L ∧
      ({ m with down := down } : Mesh n χ).Orderly L := by
  have hc := hL.columnOf_mem p hp
  have hmem : p ∈ L.column (L.columnOf p) := Layout.mem_column.mpr ⟨hp, rfl⟩
  have hne : p ≠ L.columnOf p := fun heq => hL.not_mem_headers hp (heq ▸ hc)
  obtain ⟨hcolumn, hfar⟩ := hrises (h.column _ hc) hmem hne
  exact ⟨h.of_column hL hc (hcolumn.mixed (h.column _ hc)) fun q hq => ⟨(hfar q hq).1, rfl⟩,
    h.of_column hL hc hcolumn hfar⟩

theorem passes_unlink_down (h : m.Orderly L) (hL : L.Sound) (hp : p ∈ L.cells) :
    Passes L m [.below (m.above p) (m.below p), .above (m.below p) (m.above p)]
      { m with down := m.down.unlink p } := by
  obtain ⟨hmid, hend⟩ := h.mixed_down hL hp fun hrises hmem hne =>
    ⟨hrises.unlink hmem hne, fun _ hq => hrises.unlink_of_not_mem hmem hq⟩
  exact .cons h (.cons hmid (.nil hend))

theorem passes_relink_down (h : m.Orderly L) (hL : L.Sound) (hp : p ∈ L.cells) :
    Passes L m [.below (m.above p) p, .above (m.below p) p]
      { m with down := m.down.relink p } := by
  obtain ⟨hmid, hend⟩ := h.mixed_down hL hp fun hrises hmem hne =>
    ⟨hrises.relink hmem hne, fun _ hq => hrises.relink_of_not_mem hmem hq⟩
  exact .cons h (.cons hmid (.nil hend))

/-- A header may be taken out of its ring or put back in two writes. -/
theorem Orderly.mixed_across (h : m.Orderly L) (hL : L.Sound) (hc : c ∈ L.headers)
    {across : Links n} (hrises : ∀ {home : Fin n} {members : List (Fin n)},
      m.across.Rises home members → c ∈ members → c ≠ home → across.Rises home members ∧
        ∀ q ∉ home :: members,
          across.next q = m.across.next q ∧ across.prev q = m.across.prev q) :
    ({ m with across := ⟨across.forward, m.across.backward⟩ } : Mesh n χ).Orderly L ∧
      ({ m with across := across } : Mesh n χ).Orderly L :=
  ⟨h.of_header hL hc fun hring hmem hne =>
    ⟨(hrises hring hmem hne).1.mixed hring, fun q hq => ⟨((hrises hring hmem hne).2 q hq).1, rfl⟩⟩,
    h.of_header hL hc hrises⟩

theorem passes_unlink_across (h : m.Orderly L) (hL : L.Sound) (hc : c ∈ L.headers) :
    Passes L m
      [.next (m.across.prev c) (m.across.next c), .prev (m.across.next c) (m.across.prev c)]
      { m with across := m.across.unlink c } := by
  obtain ⟨hmid, hend⟩ := h.mixed_across hL hc fun hrises hmem hne =>
    ⟨hrises.unlink hmem hne, fun _ hq => hrises.unlink_of_not_mem hmem hq⟩
  exact .cons h (.cons hmid (.nil hend))

theorem passes_relink_across (h : m.Orderly L) (hL : L.Sound) (hc : c ∈ L.headers) :
    Passes L m [.next (m.across.prev c) c, .prev (m.across.next c) c]
      { m with across := m.across.relink c } := by
  obtain ⟨hmid, hend⟩ := h.mixed_across hL hc fun hrises hmem hne =>
    ⟨hrises.relink hmem hne, fun _ hq => hrises.relink_of_not_mem hmem hq⟩
  exact .cons h (.cons hmid (.nil hend))

/-- The writes are those of a part of a step that ends like this, and the mesh is orderly after each
of them. If the part is impossible, they are those before it stops. -/
def Performs (L : Layout n χ) (m : Mesh n χ) (writes : List (Write n χ))
    (result : Except Fault (Mesh n χ)) : Prop :=
  ∃ last, Passes L m writes last ∧ ∀ m', result = .ok m' → m' = last

namespace Performs

variable {writes : List (Write n χ)} {result : Except Fault (Mesh n χ)}

theorem of_passes (h : Passes L m writes m') : Performs L m writes (.ok m') :=
  ⟨m', h, fun _ hm => (Except.ok.inj hm).symm⟩

theorem done (h : m.Orderly L) : Performs L m [] (.ok m) :=
  of_passes (.nil h)

theorem stopped (h : m.Orderly L) {fault : Fault} : Performs L m [] (.error fault) :=
  ⟨m, .nil h, nofun⟩

/-- A part that succeeds goes on from where its writes have led. -/
theorem passes (h : Performs L m writes (.ok m')) : Passes L m writes m' := by
  obtain ⟨last, hpasses, hlast⟩ := h
  rw [hlast m' rfl]
  exact hpasses

/-- A part that succeeds leads to an orderly mesh. -/
theorem orderly_of_eq_ok (h : Performs L m writes result) (hresult : result = .ok m') :
    m'.Orderly L := by
  rw [hresult] at h
  exact h.passes.orderly

theorem bind (h : Performs L m writes result) {next : Mesh n χ → Except Fault (Mesh n χ)}
    {writesNext : Mesh n χ → List (Write n χ)}
    (hnext : ∀ m', m'.Orderly L → Performs L m' (writesNext m') (next m')) :
    Performs L m (writes ++ andThen result writesNext) (result >>= next) := by
  cases result with
  | error fault =>
    obtain ⟨last, hpasses, -⟩ := h
    exact ⟨last, by rw [andThen, List.append_nil]; exact hpasses, nofun⟩
  | ok m' =>
    obtain ⟨last, hpasses, hlast⟩ := hnext m' h.passes.orderly
    exact ⟨last, h.passes.append hpasses, hlast⟩

/-- Reading writes nothing. -/
theorem read {part : Except Fault α} (h : m.Orderly L) {next : α → Except Fault (Mesh n χ)}
    {writesNext : α → List (Write n χ)}
    (hnext : ∀ a, part = .ok a → Performs L m (writesNext a) (next a)) :
    Performs L m (andThen part writesNext) (part >>= next) := by
  cases part with
  | error fault => exact .stopped h
  | ok a => exact hnext a rfl

/-- What comes after some writes. -/
theorem after {writes' : List (Write n χ)} (h : Passes L m writes m')
    (hrest : Performs L m' writes' result) : Performs L m (writes ++ writes') result := by
  obtain ⟨last, hpasses, hlast⟩ := hrest
  exact ⟨last, h.append hpasses, hlast⟩

end Performs

/-- A sweep that stays among some positions performs the writes of its visits. -/
theorem performs_sweep {step : Mesh n χ → Fin n → Except Fault (Fin n)}
    {visit : Fin n → Mesh n χ → Except Fault (Mesh n χ)}
    {writes : Fin n → Mesh n χ → List (Write n χ)} {home : Fin n} {range : List (Fin n)}
    (hhome : home ∈ range)
    (hstep : ∀ {m : Mesh n χ} {p q : Fin n}, m.Orderly L → p ∈ range → step m p = .ok q →
      q ∈ range)
    (hvisit : ∀ {m : Mesh n χ} {p : Fin n}, m.Orderly L → p ∈ range → p ≠ home →
      Performs L m (writes p m) (visit p m)) (h : m.Orderly L) :
    Performs L m (sweepWrites step visit writes home m) (m.sweep step visit home) := by
  have hgo : ∀ (fuel : Nat) (p : Fin n) (m : Mesh n χ), m.Orderly L → p ∈ range →
      Performs L m (sweepWrites.go step visit writes home fuel p m)
        (sweep.go step visit home fuel p m) := by
    intro fuel
    induction fuel with
    | zero =>
      intro p m h _
      rw [sweepWrites.go, sweep.go]
      split
      · exact .done h
      · exact .stopped h
    | succ fuel ih =>
      intro p m h hp
      rw [sweepWrites.go, sweep.go]
      split
      · exact .done h
      · next hne =>
        refine (hvisit h hp hne).bind fun m' h' => ?_
        exact .read h' fun q hq => ih q m' h' (hstep h' hp hq)
  exact .read h fun start hstart => hgo n start m h (hstep h hhome hstart)

section Steps

variable {visit : Fin n → Mesh n χ → Except Fault (Mesh n χ)}
  {writes : Fin n → Mesh n χ → List (Write n χ)}

/-- Sweeps down a column visit its cells. -/
theorem performs_sweepDown (hc : c ∈ L.headers)
    (hvisit : ∀ {m : Mesh n χ} {p : Fin n}, m.Orderly L → p ∈ L.cells →
      Performs L m (writes p m) (visit p m)) (h : m.Orderly L) :
    Performs L m (sweepWrites (fun m p => .ok (m.below p)) visit writes c m)
      (m.sweepDown visit c) :=
  performs_sweep (List.mem_cons_self : c ∈ c :: L.column c)
    (fun h hp hstep => Except.ok.inj hstep ▸ (h.column c hc).next_mem hp)
    (fun h hp hne => hvisit h (Layout.mem_column.mp (List.mem_of_ne_of_mem hne hp)).1) h

/-- Sweeps up a column visit its cells. -/
theorem performs_sweepUp (hc : c ∈ L.headers)
    (hvisit : ∀ {m : Mesh n χ} {p : Fin n}, m.Orderly L → p ∈ L.cells →
      Performs L m (writes p m) (visit p m)) (h : m.Orderly L) :
    Performs L m (sweepWrites (fun m p => .ok (m.above p)) visit writes c m)
      (m.sweepUp visit c) :=
  performs_sweep (List.mem_cons_self : c ∈ c :: L.column c)
    (fun h hp hstep => Except.ok.inj hstep ▸ (h.column c hc).prev_mem hp)
    (fun h hp hne => hvisit h (Layout.mem_column.mp (List.mem_of_ne_of_mem hne hp)).1) h

/-- Where a walk leads from its start, is on its route or home. -/
theorem Leads.mem_of_step {step : Mesh n χ → Fin n → Except Fault (Fin n)} {p q : Fin n}
    {route : List (Fin n)} (h : m.Leads step p route) (hstep : step m p = .ok q) :
    q ∈ p :: route := by
  obtain ⟨r, rear, hr⟩ : ∃ r rear, route ++ [p] = r :: rear := List.exists_cons_of_ne_nil (by simp)
  rw [h.start_eq hr] at hstep
  obtain rfl := Except.ok.inj hstep
  have hmem : r ∈ route ++ [p] := hr ▸ List.mem_cons_self
  simpa [or_comm] using hmem

/-- Sweeps around a row visit cells. -/
theorem performs_sweepRow {step : Mesh n χ → Fin n → Except Fault (Fin n)}
    (hstep : ∀ {m : Mesh n χ} {p q : Fin n}, m.Orderly L → p ∈ L.cells → step m p = .ok q →
      q ∈ L.cells)
    (hp : p ∈ L.cells) (hvisit : ∀ {m : Mesh n χ} {p : Fin n}, m.Orderly L → p ∈ L.cells →
      Performs L m (writes p m) (visit p m)) (h : m.Orderly L) :
    Performs L m (sweepWrites step visit writes p m) (m.sweep step visit p) :=
  performs_sweep hp hstep (fun h hq _ => hvisit h hq) h

end Steps

namespace Orderly

/-- Beside a cell is a cell. -/
theorem mem_cells_of_right (h : m.Orderly L) (hL : L.Sound) {q : Fin n} (hp : p ∈ L.cells)
    (hright : m.right p = .ok q) : q ∈ L.cells := by
  rcases List.mem_cons.mp ((h.leads_around hL hp).1.mem_of_step hright) with rfl | hq
  · exact hp
  · exact hL.mem_cells_of_mem_around hp hq

theorem mem_cells_of_left (h : m.Orderly L) (hL : L.Sound) {q : Fin n} (hp : p ∈ L.cells)
    (hleft : m.left p = .ok q) : q ∈ L.cells := by
  rcases List.mem_cons.mp ((h.leads_around hL hp).2.mem_of_step hleft) with rfl | hq
  · exact hp
  · exact hL.mem_cells_of_mem_around hp (List.mem_reverse.mp hq)

theorem performs_detach (h : m.Orderly L) (hL : L.Sound) (hp : p ∈ L.cells) :
    Performs L m (detachWrites p m) (detach p m) := by
  have hcell := h.isCell hL hp
  simp only [detachWrites, detach, hcell, Bool.not_true, Bool.false_or]
  cases hpurified : (m.paint p).isPurified with
  | true => exact .done h
  | false =>
    have hout := passes_unlink_down h hL hp
    cases m.count (m.column p) with
    | zero => exact ⟨_, hout, nofun⟩
    | succ k => exact .of_passes (hout.append (.aside hout.orderly rfl rfl rfl))

theorem performs_attach (h : m.Orderly L) (hL : L.Sound) (hp : p ∈ L.cells) :
    Performs L m (attachWrites p m) (attach p m) := by
  have hcell := h.isCell hL hp
  simp only [attachWrites, attach, hcell, Bool.not_true, Bool.false_or]
  cases hpurified : (m.paint p).isPurified with
  | true => exact .done h
  | false =>
    have hcount : Passes L m [.count (m.column p) (m.count (m.column p) + 1)] _ :=
      .aside h rfl rfl rfl
    exact .of_passes (hcount.append (passes_relink_down hcount.orderly hL hp))

theorem performs_hide (h : m.Orderly L) (hL : L.Sound) (hp : p ∈ L.cells) :
    Performs L m (hideWrites p m) (hide p m) :=
  performs_sweepRow (fun h hp => h.mem_cells_of_right hL hp) hp
    (fun h hp => h.performs_detach hL hp) h

theorem performs_unhide (h : m.Orderly L) (hL : L.Sound) (hp : p ∈ L.cells) :
    Performs L m (unhideWrites p m) (unhide p m) :=
  performs_sweepRow (fun h hp => h.mem_cells_of_left hL hp) hp
    (fun h hp => h.performs_attach hL hp) h

theorem performs_cover (h : m.Orderly L) (hL : L.Sound) (hc : c ∈ L.headers) :
    Performs L m (coverWrites c m) (Mesh.cover c m) :=
  (performs_sweepDown hc (fun h hp => h.performs_hide hL hp) h).bind fun _ h' =>
    .of_passes (passes_unlink_across h' hL hc)

theorem performs_uncover (h : m.Orderly L) (hL : L.Sound) (hc : c ∈ L.headers) :
    Performs L m (uncoverWrites c m) (Mesh.uncover c m) :=
  have hback := passes_relink_across h hL hc
  .after hback (performs_sweepUp hc (fun h hp => h.performs_unhide hL hp) hback.orderly)

theorem performs_restrict [BEq χ] (h : m.Orderly L) (hL : L.Sound) (color : χ)
    (hp : p ∈ L.cells) : Performs L m (restrictWrites color p m) (purify.restrict color p m) := by
  rw [restrictWrites, purify.restrict]
  cases m.paint p with
  | uncolored => exact h.performs_hide hL hp
  | purified => exact h.performs_hide hL hp
  | colored other =>
    dsimp only
    split
    · exact .of_passes (.aside h rfl rfl rfl)
    · exact h.performs_hide hL hp

theorem performs_purify [BEq χ] (h : m.Orderly L) (hL : L.Sound) (color : χ)
    (hc : c ∈ L.headers) : Performs L m (purifyWrites color c m) (purify c color m) :=
  (performs_sweepDown hc (fun h hp => h.performs_restrict hL color hp) h).bind fun _ h' =>
    .of_passes (.aside h' rfl rfl rfl)

theorem performs_release (h : m.Orderly L) (hL : L.Sound) (color : χ) (hp : p ∈ L.cells) :
    Performs L m (releaseWrites color p m) (unpurify.release color p m) := by
  rw [releaseWrites, unpurify.release]
  split
  · exact .of_passes (.aside h rfl rfl rfl)
  · exact h.performs_unhide hL hp

theorem performs_unpurify (h : m.Orderly L) (hL : L.Sound) (hc : c ∈ L.headers) :
    Performs L m (unpurifyWrites c m) (unpurify c m) := by
  rw [unpurifyWrites, unpurify]
  cases m.tint c with
  | none => exact .stopped h
  | some color =>
    have hfree : Passes L m [.tint c none] (m.setTint c none) := .aside h rfl rfl rfl
    exact .after hfree
      (performs_sweepUp hc (fun h hp => h.performs_release hL color hp) hfree.orderly)

theorem performs_commit [BEq χ] (h : m.Orderly L) (hL : L.Sound) (hp : p ∈ L.cells) :
    Performs L m (commitWrites p m) (commit p m) := by
  have hcell := h.isCell hL hp
  have hc : m.column p ∈ L.headers := h.column_eq p ▸ hL.columnOf_mem p hp
  simp only [commitWrites, commit, hcell]
  cases m.paint p with
  | uncolored => exact h.performs_cover hL hc
  | colored color => exact h.performs_purify hL color hc
  | purified => exact .done h

theorem performs_uncommit (h : m.Orderly L) (hL : L.Sound) (hp : p ∈ L.cells) :
    Performs L m (uncommitWrites p m) (uncommit p m) := by
  have hcell := h.isCell hL hp
  have hc : m.column p ∈ L.headers := h.column_eq p ▸ hL.columnOf_mem p hp
  simp only [uncommitWrites, uncommit, hcell]
  cases m.paint p with
  | uncolored => exact h.performs_uncover hL hc
  | colored color => exact h.performs_unpurify hL hc
  | purified => exact .done h

theorem performs_commitRow [BEq χ] (h : m.Orderly L) (hL : L.Sound) (hp : p ∈ L.cells) :
    Performs L m (commitRowWrites p m) (Mesh.commitRow p m) :=
  performs_sweepRow (fun h hp => h.mem_cells_of_right hL hp) hp
    (fun h hp => h.performs_commit hL hp) h

theorem performs_uncommitRow (h : m.Orderly L) (hL : L.Sound) (hp : p ∈ L.cells) :
    Performs L m (uncommitRowWrites p m) (Mesh.uncommitRow p m) :=
  performs_sweepRow (fun h hp => h.mem_cells_of_left hL hp) hp
    (fun h hp => h.performs_uncommit hL hp) h

end Orderly

/-- The positions of a layout at which a step is taken. -/
def Step.Fits (step : Step χ) (L : Layout n χ) (p : Fin n) : Prop :=
  match step with
  | .cover | .uncover | .purify _ | .unpurify => p ∈ L.headers
  | .commitRow | .uncommitRow => p ∈ L.cells

namespace Step

variable [BEq χ] {step : Step χ}

/-- From an orderly mesh, a step performs its writes. -/
theorem performs (hfits : step.Fits L p) (hL : L.Sound) (h : m.Orderly L) :
    Performs L m (step.writes p m) (step.run p m) := by
  cases step with
  | cover => exact h.performs_cover hL hfits
  | uncover => exact h.performs_uncover hL hfits
  | purify color => exact h.performs_purify hL color hfits
  | unpurify => exact h.performs_unpurify hL hfits
  | commitRow => exact h.performs_commitRow hL hfits
  | uncommitRow => exact h.performs_uncommitRow hL hfits

/-- While a step is under way, the mesh is orderly. -/
theorem orderly_take (hfits : step.Fits L p) (hL : L.Sound) (h : m.Orderly L) (k : Nat) :
    (m.writeAll ((step.writes p m).take k)).Orderly L := by
  obtain ⟨last, hpasses, -⟩ := step.performs hfits hL h
  exact hpasses.orderly_take k

/-- A step that is possible leads to where its writes lead. -/
theorem writeAll_writes (hfits : step.Fits L p) (hL : L.Sound) (h : m.Orderly L)
    (hrun : step.run p m = .ok m') : m.writeAll (step.writes p m) = m' := by
  obtain ⟨last, hpasses, hlast⟩ := step.performs hfits hL h
  rw [hlast m' hrun, hpasses.eq_writeAll]

end Step

end Mesh

end ExactCover
