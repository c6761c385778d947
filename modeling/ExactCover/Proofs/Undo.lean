import ExactCover.Mesh.Dance
import ExactCover.Proofs.Ring

/-!
# Steps and their reverses

A step on a mesh and its reverse make a *round trip* if the reverse leads back to where the step
started. The colors of an item type may have an equality of their own, and what comes back to a
cell is the color that its column was restricted to. So the way back leads to a mesh that is
*alike*: with the same links and counts, and with colors that are equal in that sense. Where equal
colors are identical, meshes that are alike are identical as well (`Alike.eq`).

A sweep visits the positions of a route one after another, each in the mesh that the visits before
it have left. If every visit makes a round trip and none disturbs the route, then the sweep and the
sweep along the reversed route make a round trip as well (`exists_roundTrip_sweep`). This is the
one place where the order of the undoing is argued about.
-/

set_option autoImplicit false

namespace ExactCover

variable {n : Nat} {χ : Type}

/-- Two cells ask for the same, up to the equality of colors. -/
inductive Paint.Alike [BEq χ] : Paint χ → Paint χ → Prop where
  | uncolored : Alike .uncolored .uncolored
  | colored {c d : χ} (h : c == d) : Alike (.colored c) (.colored d)
  | purified : Alike .purified .purified

namespace Paint.Alike

variable [BEq χ] {a b c : Paint χ}

theorem refl [ReflBEq χ] (a : Paint χ) : a.Alike a := by
  cases a with
  | uncolored => exact .uncolored
  | colored c => exact .colored BEq.rfl
  | purified => exact .purified

theorem symm [PartialEquivBEq χ] (h : a.Alike b) : b.Alike a := by
  cases h with
  | uncolored => exact .uncolored
  | colored h => exact .colored (BEq.symm h)
  | purified => exact .purified

theorem trans [EquivBEq χ] (h : a.Alike b) (h' : b.Alike c) : a.Alike c := by
  cases h with
  | uncolored => exact h'
  | colored h =>
    cases h' with
    | colored h' => exact .colored (BEq.trans h h')
  | purified => exact h'

theorem eq [LawfulBEq χ] (h : a.Alike b) : a = b := by
  cases h with
  | uncolored => rfl
  | colored h => rw [eq_of_beq h]
  | purified => rfl

theorem isPurified_eq (h : a.Alike b) : b.isPurified = a.isPurified := by
  cases h <;> rfl

end Paint.Alike

/-- Two columns are restricted alike: neither to a color, or both to equal ones. -/
abbrev TintAlike [BEq χ] (s t : Option χ) : Prop := Option.Rel (fun c d => (c == d) = true) s t

namespace TintAlike

variable [BEq χ] {s t u : Option χ}

theorem refl [ReflBEq χ] (t : Option χ) : TintAlike t t := by
  cases t with
  | none => exact .none
  | some c => exact .some BEq.rfl

theorem trans [EquivBEq χ] (h : TintAlike s t) (h' : TintAlike t u) : TintAlike s u := by
  cases h with
  | none => exact h'
  | some h =>
    cases h' with
    | some h' => exact .some (BEq.trans h h')

theorem eq [LawfulBEq χ] (h : TintAlike s t) : s = t := by
  cases h with
  | none => rfl
  | some h => rw [eq_of_beq h]

theorem isNone_eq (h : TintAlike s t) : s.isNone = t.isNone := by
  cases h <;> rfl

end TintAlike

namespace Mesh

/-- Two meshes have the same links and counts, and paints and tints that are equal up to the
equality of colors. -/
structure Alike [BEq χ] (m m' : Mesh n χ) : Prop where
  frame : m'.toFrame = m.toFrame
  across : m'.across = m.across
  down : m'.down = m.down
  counts : m'.counts = m.counts
  paint : ∀ p, (m.paint p).Alike (m'.paint p)
  tint : ∀ c, TintAlike (m.tint c) (m'.tint c)

namespace Alike

variable [BEq χ] {m m' m'' : Mesh n χ}

theorem refl [EquivBEq χ] (m : Mesh n χ) : m.Alike m where
  frame := rfl
  across := rfl
  down := rfl
  counts := rfl
  paint _ := .refl _
  tint _ := .refl _

theorem trans [EquivBEq χ] (h : m.Alike m') (h' : m'.Alike m'') : m.Alike m'' where
  frame := h'.frame.trans h.frame
  across := h'.across.trans h.across
  down := h'.down.trans h.down
  counts := h'.counts.trans h.counts
  paint p := (h.paint p).trans (h'.paint p)
  tint c := (h.tint c).trans (h'.tint c)

/-- Where equal colors are identical, so are meshes that are alike. -/
theorem eq [LawfulBEq χ] (h : m.Alike m') : m' = m := by
  apply Mesh.ext
  · exact congrArg Frame.style h.frame
  · exact congrArg Frame.primaryHead h.frame
  · exact congrArg Frame.secondaryHead h.frame
  · exact congrArg Frame.roles h.frame
  · exact congrArg Frame.owner h.frame
  · exact h.across
  · exact h.down
  · exact h.counts
  · exact Vector.ext fun i hi => (h.paint ⟨i, hi⟩).eq.symm
  · exact Vector.ext fun i hi => (h.tint ⟨i, hi⟩).eq.symm

theorem role_eq (h : m.Alike m') (p : Fin n) : m'.role p = m.role p := by
  simp only [Frame.role, h.frame]

theorem column_eq (h : m.Alike m') (p : Fin n) : m'.column p = m.column p := by
  simp only [column, h.frame]

theorem count_eq (h : m.Alike m') (c : Fin n) : m'.count c = m.count c := by
  simp only [count, h.counts]

theorem isPurified_eq (h : m.Alike m') (p : Fin n) :
    (m'.paint p).isPurified = (m.paint p).isPurified :=
  (h.paint p).isPurified_eq

theorem below_eq (h : m.Alike m') (p : Fin n) : m'.below p = m.below p := by
  simp only [below, h.down]

theorem above_eq (h : m.Alike m') (p : Fin n) : m'.above p = m.above p := by
  simp only [above, h.down]

theorem right_eq (h : m.Alike m') (p : Fin n) : m'.right p = m.right p := by
  simp only [right, h.frame, h.across, h.above_eq]

theorem left_eq (h : m.Alike m') (p : Fin n) : m'.left p = m.left p := by
  simp only [left, h.frame, h.across, h.below_eq]

end Alike

/-- A step leads from one mesh to another, and its reverse leads from there back to where the step
started. -/
structure RoundTrip [BEq χ] (forth back : Mesh n χ → Except Fault (Mesh n χ))
    (m m' : Mesh n χ) : Prop where
  /-- The way there. -/
  forth_eq : forth m = .ok m'
  /-- The way back, from all meshes that are alike. -/
  exists_back : ∀ m₁, m'.Alike m₁ → ∃ m₂, back m₁ = .ok m₂ ∧ m.Alike m₂

/-- The reverse of two steps undoes the second before the first. -/
theorem RoundTrip.trans [BEq χ] {forth back forth' back' : Mesh n χ → Except Fault (Mesh n χ)}
    {m m' m'' : Mesh n χ} (h : RoundTrip forth back m m') (h' : RoundTrip forth' back' m' m'') :
    RoundTrip (fun m => forth m >>= forth') (fun m => back' m >>= back) m m'' where
  forth_eq := by
    rw [h.forth_eq]
    exact h'.forth_eq
  exists_back m₁ hm₁ := by
    obtain ⟨m₂, hback', hm₂⟩ := h'.exists_back m₁ hm₁
    obtain ⟨m₃, hback, hm₃⟩ := h.exists_back m₂ hm₂
    refine ⟨m₃, ?_, hm₃⟩
    rw [hback']
    exact hback

/-- Doing nothing is undone by doing nothing. -/
theorem RoundTrip.refl [BEq χ] (m : Mesh n χ) : RoundTrip .ok .ok m m :=
  ⟨rfl, fun m₁ hm₁ => ⟨m₁, rfl, hm₁⟩⟩

/-- Where equal colors are identical, the way back ends exactly where the way there began. -/
theorem RoundTrip.back_eq [BEq χ] [LawfulBEq χ]
    {forth back : Mesh n χ → Except Fault (Mesh n χ)} {m m' : Mesh n χ}
    (h : RoundTrip forth back m m') : back m' = .ok m := by
  obtain ⟨m₂, hback, hm₂⟩ := h.exists_back m' (.refl m')
  rw [hback, hm₂.eq]

/-- The steps lead from `home` along a route and back to `home`. -/
structure Leads (m : Mesh n χ) (step : Mesh n χ → Fin n → Except Fault (Fin n)) (home : Fin n)
    (route : List (Fin n)) : Prop where
  chain : List.IsChain (fun p q => step m p = .ok q) (home :: (route ++ [home]))
  nodup : (home :: route).Nodup

variable {step : Mesh n χ → Fin n → Except Fault (Fin n)}
  {visit : Fin n → Mesh n χ → Except Fault (Mesh n χ)} {home : Fin n} {route : List (Fin n)}

/-- The first step leads to the beginning of the route, or back home if there is nothing to visit.
-/
theorem Leads.start_eq {m : Mesh n χ} (h : m.Leads step home route) {p : Fin n}
    {rear : List (Fin n)} (hp : route ++ [home] = p :: rear) : step m home = .ok p := by
  have hchain := h.chain
  rw [hp, List.isChain_cons_cons] at hchain
  exact hchain.1

/-- A step from a position of the route leads to the next one, or home from the last. -/
theorem Leads.step_eq {m : Mesh n χ} (h : m.Leads step home route) {done ps : List (Fin n)}
    {q r : Fin n} {rear : List (Fin n)} (hroute : route = done ++ q :: ps)
    (hr : ps ++ [home] = r :: rear) : step m q = .ok r := by
  have hchain := h.chain
  rw [hroute, List.append_assoc, List.cons_append, hr,
    List.isChain_cons_append_cons_cons] at hchain
  exact hchain.2.1

theorem Leads.length_le {m : Mesh n χ} (h : m.Leads step home route) : route.length ≤ n := by
  have hle := (List.nodup_cons.mp h.nodup).2.length_le_card
  rwa [Fintype.card_fin] at hle

/-- Visiting some positions one after another leads from one mesh to another, and in all meshes on
the way the steps lead along the same route. -/
inductive Visits (step : Mesh n χ → Fin n → Except Fault (Fin n))
    (visit : Fin n → Mesh n χ → Except Fault (Mesh n χ)) (home : Fin n) (route : List (Fin n)) :
    List (Fin n) → Mesh n χ → Mesh n χ → Prop where
  | nil {m : Mesh n χ} (hleads : m.Leads step home route) : Visits step visit home route [] m m
  | cons {m m₁ m' : Mesh n χ} {p : Fin n} {ps : List (Fin n)} (hleads : m.Leads step home route)
      (hvisit : visit p m = .ok m₁) (hrest : Visits step visit home route ps m₁ m') :
      Visits step visit home route (p :: ps) m m'

theorem Visits.leads {ps : List (Fin n)} {m m' : Mesh n χ}
    (h : Visits step visit home route ps m m') : m.Leads step home route := by
  cases h with
  | nil hleads => exact hleads
  | cons hleads _ _ => exact hleads

/-- One more visit at the end. -/
theorem Visits.concat {ps : List (Fin n)} {m m' m'' : Mesh n χ} {p : Fin n}
    (h : Visits step visit home route ps m m') (hvisit : visit p m' = .ok m'')
    (hleads : m''.Leads step home route) :
    Visits step visit home route (ps ++ [p]) m m'' := by
  induction h with
  | nil hleads' => exact .cons hleads' hvisit (.nil hleads)
  | cons hleads' hvisit' _ ih => exact .cons hleads' hvisit' (ih hvisit)

/-- A sweep that has passed a part of its route goes on with the rest. -/
private theorem Visits.sweep_go_eq {ps : List (Fin n)} {m m' : Mesh n χ}
    (h : Visits step visit home route ps m m') {done : List (Fin n)} {p : Fin n}
    {rear : List (Fin n)} {fuel : Nat} (hroute : route = done ++ ps)
    (hp : ps ++ [home] = p :: rear) (hfuel : ps.length ≤ fuel) :
    sweep.go step visit home fuel p m = .ok m' := by
  induction h generalizing done p rear fuel with
  | nil =>
    obtain ⟨rfl, -⟩ := List.cons.inj hp
    cases fuel <;> simp [sweep.go]
  | @cons m m₁ m' q ps hleads hvisit hrest ih =>
    obtain ⟨rfl, -⟩ := List.cons.inj hp
    obtain ⟨fuel, rfl⟩ : ∃ k, fuel = k + 1 := Nat.exists_eq_add_one.mpr (by
      rw [List.length_cons] at hfuel
      omega)
    have hhome : q ≠ home := by
      rintro rfl
      exact (List.nodup_cons.mp hleads.nodup).1 (by simp [hroute])
    obtain ⟨r, rear', hr⟩ : ∃ r rear', ps ++ [home] = r :: rear' :=
      List.exists_cons_of_ne_nil (by simp)
    have hstep : step m₁ q = .ok r := hrest.leads.step_eq hroute hr
    have hroute' : route = (done ++ [q]) ++ ps := by simp [hroute]
    have hgo := ih hroute' hr (Nat.le_of_succ_le_succ hfuel)
    simp only [sweep.go, if_neg hhome, hvisit, bind, Except.bind, hstep]
    exact hgo

/-- A sweep visits the positions of its route. -/
theorem Visits.sweep_eq {m m' : Mesh n χ} (h : Visits step visit home route route m m') :
    m.sweep step visit home = .ok m' := by
  obtain ⟨p, rear, hp⟩ : ∃ p rear, route ++ [home] = p :: rear :=
    List.exists_cons_of_ne_nil (by simp)
  have hstart : step m home = .ok p := h.leads.start_eq hp
  simp only [sweep, hstart, bind, Except.bind]
  exact h.sweep_go_eq (List.nil_append route).symm hp h.leads.length_le

/-- The visits to a part of a route and those to the rest of it. -/
theorem Visits.append {ps qs : List (Fin n)} {m m' m'' : Mesh n χ}
    (h : Visits step visit home route ps m m') (h' : Visits step visit home route qs m' m'') :
    Visits step visit home route (ps ++ qs) m m'' := by
  induction h with
  | nil _ => exact h'
  | cons hleads hvisit _ ih => exact .cons hleads hvisit (ih h')

/-- Visits that change nothing. -/
theorem visits_self {ps : List (Fin n)} {m : Mesh n χ} (hleads : m.Leads step home route)
    (hvisit : ∀ p ∈ ps, visit p m = .ok m) : Visits step visit home route ps m m := by
  induction ps with
  | nil => exact .nil hleads
  | cons p ps ih =>
    refine .cons hleads (hvisit p (List.mem_cons_self ..)) (ih fun q hq => ?_)
    exact hvisit q (List.mem_cons_of_mem _ hq)

section RoundTrips

variable [BEq χ] {ahead behind : Mesh n χ → Fin n → Except Fault (Fin n)}
  {forth back : Fin n → Mesh n χ → Except Fault (Mesh n χ)}

/-- Visits that make round trips lead along a part of a route that stays, and the visits that
reverse them lead back. What holds after the visits to the positions that were passed may depend on
these positions. -/
theorem exists_visits (after : List (Fin n) → Mesh n χ → Prop)
    (hbehind : ∀ {m m₁ : Mesh n χ} (p : Fin n), m.Alike m₁ → behind m₁ p = behind m p)
    (hleads : ∀ done m, after done m →
      m.Leads ahead home route ∧ m.Leads behind home route.reverse)
    {done ps : List (Fin n)} (hvisit : ∀ before p rest m, ps = before ++ p :: rest →
      after (done ++ before) m →
        ∃ m', RoundTrip (forth p) (back p) m m' ∧ after (done ++ before ++ [p]) m')
    {m : Mesh n χ} (hm : after done m) :
    ∃ m', Visits ahead forth home route ps m m' ∧
      (∀ m₁, m'.Alike m₁ →
        ∃ m₂, Visits behind back home route.reverse ps.reverse m₁ m₂ ∧ m.Alike m₂) ∧
      after (done ++ ps) m' := by
  have hback : ∀ {done : List (Fin n)} {m m₁ : Mesh n χ}, after done m → m.Alike m₁ →
      m₁.Leads behind home route.reverse := fun {done m m₁} hm hm₁ => by
    obtain ⟨hchain, hnodup⟩ := (hleads done m hm).2
    refine ⟨hchain.imp fun p q hpq => ?_, hnodup⟩
    rw [hbehind p hm₁]
    exact hpq
  induction ps generalizing done m with
  | nil =>
    rw [List.append_nil]
    exact ⟨m, .nil (hleads done m hm).1, fun m₁ hm₁ => ⟨m₁, .nil (hback hm hm₁), hm₁⟩, hm⟩
  | cons p ps ih =>
    obtain ⟨m₁, htrip, hm₁⟩ := hvisit [] p ps m rfl (by simpa using hm)
    rw [List.append_nil] at hm₁
    have hvisit' : ∀ before q rest m, ps = before ++ q :: rest → after (done ++ [p] ++ before) m →
        ∃ m', RoundTrip (forth q) (back q) m m' ∧ after (done ++ [p] ++ before ++ [q]) m' := by
      intro before q rest m hsplit hm
      rw [List.append_assoc done [p] before] at hm ⊢
      exact hvisit (p :: before) q rest m (by simp [hsplit]) hm
    obtain ⟨m', hforth, hreverse, hm'⟩ := ih hvisit' hm₁
    rw [List.append_assoc] at hm'
    refine ⟨m', .cons (hleads done m hm).1 htrip.forth_eq hforth, fun m₂ hm₂ => ?_, hm'⟩
    obtain ⟨m₃, hvisits, hm₃⟩ := hreverse m₂ hm₂
    obtain ⟨m₄, hback', hm₄⟩ := htrip.exists_back m₃ hm₃
    rw [List.reverse_cons]
    exact ⟨m₄, hvisits.concat hback' (hback hm hm₄), hm₄⟩

/-- A sweep of round trips along a route that stays, and the sweep of their reverses along the
reversed route, make a round trip. -/
theorem exists_roundTrip_sweep (route : List (Fin n))
    (forth back : Fin n → Mesh n χ → Except Fault (Mesh n χ))
    (hbehind : ∀ {m m₁ : Mesh n χ} (p : Fin n), m.Alike m₁ → behind m₁ p = behind m p)
    (after : List (Fin n) → Mesh n χ → Prop)
    (hleads : ∀ done m, after done m →
      m.Leads ahead home route ∧ m.Leads behind home route.reverse)
    (hvisit : ∀ done p rest m, route = done ++ p :: rest → after done m →
      ∃ m', RoundTrip (forth p) (back p) m m' ∧ after (done ++ [p]) m')
    {m : Mesh n χ} (hm : after [] m) :
    ∃ m', RoundTrip (sweep ahead forth home) (sweep behind back home) m m' ∧ after route m' := by
  obtain ⟨m', hforth, hreverse, hm'⟩ := exists_visits after hbehind hleads hvisit hm
  refine ⟨m', ⟨hforth.sweep_eq, fun m₁ hm₁ => ?_⟩, hm'⟩
  obtain ⟨m₂, hvisits, hm₂⟩ := hreverse m₁ hm₁
  exact ⟨m₂, hvisits.sweep_eq, hm₂⟩

end RoundTrips

/-- A ring is the route of the walk down it and, reversed, of the walk up. -/
theorem leads_of_isRing {m : Mesh n χ} {c : Fin n} {ps : List (Fin n)}
    (hring : m.down.IsRing c ps) :
    m.Leads (fun m p => .ok (m.below p)) c ps ∧
      m.Leads (fun m p => .ok (m.above p)) c ps.reverse := by
  refine ⟨⟨hring.chain.imp fun p q hpq => ?_, hring.nodup⟩, ⟨?_, ?_⟩⟩
  · exact congrArg Except.ok hpq.1
  · have hchain := List.isChain_reverse.mpr (hring.chain.imp fun p q hpq =>
      (congrArg Except.ok hpq.2 : (.ok (m.above q) : Except Fault (Fin n)) = .ok p))
    simpa using hchain
  · have hnodup := hring.nodup
    simpa using hnodup

end Mesh

end ExactCover
