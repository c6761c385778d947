import ExactCover.Proofs.Rising
import Mathlib.Logic.Relator

/-!
# Lists of links that run side by side

Two sets of links are compared along a correspondence of their positions that is one to one. They
*mirror* each other if the links out of positions that correspond lead to positions that correspond,
and taking out or putting back positions that correspond keeps them so. If in addition both lead
onward, walks along them go side by side: they meet positions that correspond, in the same order,
and come home together. None of this needs the links to form rings.

The positions of interest correspond by their places: *opposite* positions stand at the same place
of two lists.
-/

set_option autoImplicit false

namespace ExactCover

/-- The elements at the same place of two lists. -/
def Opposite {α β : Type} (as : List α) (bs : List β) (a : α) (b : β) : Prop :=
  ∃ i : Nat, as[i]? = some a ∧ bs[i]? = some b

namespace Opposite

variable {α β : Type} {as as' : List α} {bs bs' : List β} {a : α} {b : β}

theorem mem_left (h : Opposite as bs a b) : a ∈ as := by
  obtain ⟨i, ha, -⟩ := h
  exact List.mem_of_getElem? ha

theorem mem_right (h : Opposite as bs a b) : b ∈ bs := by
  obtain ⟨i, -, hb⟩ := h
  exact List.mem_of_getElem? hb

theorem append_right (h : Opposite as bs a b) (as' : List α) (bs' : List β) :
    Opposite (as ++ as') (bs ++ bs') a b := by
  obtain ⟨i, ha, hb⟩ := h
  obtain ⟨hi, -⟩ := List.getElem?_eq_some_iff.mp ha
  obtain ⟨hi', -⟩ := List.getElem?_eq_some_iff.mp hb
  refine ⟨i, ?_, ?_⟩
  · rw [List.getElem?_append_left hi, ha]
  · rw [List.getElem?_append_left hi', hb]

theorem append_left (hlength : as.length = bs.length) (h : Opposite as' bs' a b) :
    Opposite (as ++ as') (bs ++ bs') a b := by
  obtain ⟨i, ha, hb⟩ := h
  refine ⟨as.length + i, ?_, ?_⟩
  · rw [List.getElem?_append_right (Nat.le_add_right ..), Nat.add_sub_cancel_left, ha]
  · rw [hlength, List.getElem?_append_right (Nat.le_add_right ..), Nat.add_sub_cancel_left, hb]

theorem of_append (hlength : as.length = bs.length) (h : Opposite (as ++ as') (bs ++ bs') a b) :
    Opposite as bs a b ∨ Opposite as' bs' a b := by
  obtain ⟨i, ha, hb⟩ := h
  rw [List.getElem?_append] at ha hb
  by_cases hi : i < as.length
  · rw [if_pos hi] at ha
    rw [if_pos (hlength ▸ hi)] at hb
    exact .inl ⟨i, ha, hb⟩
  · rw [if_neg hi] at ha
    rw [if_neg (hlength ▸ hi), ← hlength] at hb
    exact .inr ⟨_, ha, hb⟩

/-- In lists without repetitions every element has one opposite. -/
theorem biUnique (has : as.Nodup) (hbs : bs.Nodup) : Relator.BiUnique (Opposite as bs) := by
  constructor
  · rintro a b a' ⟨i, ha, hb⟩ ⟨j, ha', hb'⟩
    obtain ⟨hi, -⟩ := List.getElem?_eq_some_iff.mp hb
    obtain rfl := (List.getElem?_inj hi hbs).mp (hb.trans hb'.symm)
    exact Option.some.inj (ha.symm.trans ha')
  · rintro a b b' ⟨i, ha, hb⟩ ⟨j, ha', hb'⟩
    obtain ⟨hi, -⟩ := List.getElem?_eq_some_iff.mp ha
    obtain rfl := (List.getElem?_inj hi has).mp (ha.trans ha'.symm)
    exact Option.some.inj (hb.symm.trans hb')

theorem forall₂ (hlength : as.length = bs.length) : List.Forall₂ (Opposite as bs) as bs := by
  rw [List.forall₂_iff_get]
  refine ⟨hlength, fun i ha hb => ⟨i, ?_, ?_⟩⟩
  · exact List.getElem?_eq_getElem ha
  · exact List.getElem?_eq_getElem hb

/-- Rows of the same lengths have opposite elements. -/
theorem forall₂_flatten {rows : List (List α)} {rows' : List (List β)}
    (hlengths : rows.map List.length = rows'.map List.length) :
    List.Forall₂ (List.Forall₂ (Opposite rows.flatten rows'.flatten)) rows rows' := by
  induction rows generalizing rows' with
  | nil =>
    obtain rfl := List.map_eq_nil_iff.mp hlengths.symm
    exact .nil
  | cons row rows ih =>
    obtain ⟨row', rest', rfl, hrow, hrest⟩ := List.map_eq_cons_iff.mp hlengths.symm
    refine .cons ((forall₂ hrow.symm).imp fun a b hab => hab.append_right _ _) ?_
    refine (ih hrest.symm).imp fun _ _ hrow' => hrow'.imp fun a b hab => ?_
    exact hab.append_left hrow.symm

variable {γ : Type} {R : α → γ → Prop} {S : β → γ → Prop} {cs : List γ}

/-- Opposite elements correspond to the same element of a third list. -/
theorem exists_common (h : Opposite as bs a b) (hR : List.Forall₂ R as cs)
    (hS : List.Forall₂ S bs cs) : ∃ c, R a c ∧ S b c := by
  obtain ⟨i, ha, hb⟩ := h
  obtain ⟨hi, rfl⟩ := List.getElem?_eq_some_iff.mp ha
  obtain ⟨hi', rfl⟩ := List.getElem?_eq_some_iff.mp hb
  rw [List.forall₂_iff_get] at hR hS
  have hbound : i < cs.length := hR.1 ▸ hi
  exact ⟨cs[i], hR.2 i hi hbound, hS.2 i hi' hbound⟩

/-- If two lists correspond to a third one, every element has an opposite. -/
theorem exists_of_mem (hR : List.Forall₂ R as cs) (hS : List.Forall₂ S bs cs) (ha : a ∈ as) :
    ∃ b c, Opposite as bs a b ∧ R a c ∧ S b c := by
  obtain ⟨i, hi, rfl⟩ := List.getElem_of_mem ha
  have hi' : i < bs.length := by rwa [hS.length_eq, ← hR.length_eq]
  have hopposite : Opposite as bs as[i] bs[i] :=
    ⟨i, List.getElem?_eq_getElem hi, List.getElem?_eq_getElem hi'⟩
  obtain ⟨c, hRc, hSc⟩ := hopposite.exists_common hR hS
  exact ⟨bs[i], c, hopposite, hRc, hSc⟩

end Opposite

variable {n n' : Nat} {χ : Type}

namespace Links

/-- The links out of positions that correspond lead to positions that correspond. -/
def Mirrors (R : Fin n → Fin n' → Prop) (links : Links n) (links' : Links n') : Prop :=
  ∀ p p', R p p' → R (links.next p) (links'.next p') ∧ R (links.prev p) (links'.prev p')

variable {R : Fin n → Fin n' → Prop} {links : Links n} {links' : Links n'} {p : Fin n}
  {p' : Fin n'}

theorem Mirrors.unlink (h : Mirrors R links links') (hR : Relator.BiUnique R) (hp : R p p') :
    Mirrors R (links.unlink p) (links'.unlink p') := by
  intro q q' hq
  obtain ⟨hnext, hprev⟩ := h p p' hp
  rw [next_unlink, prev_unlink, next_unlink, prev_unlink]
  simp only [Relator.rel_eq hR hq hnext, Relator.rel_eq hR hq hprev]
  constructor
  · split
    · exact hnext
    · exact (h q q' hq).1
  · split
    · exact hprev
    · exact (h q q' hq).2

theorem Mirrors.relink (h : Mirrors R links links') (hR : Relator.BiUnique R) (hp : R p p') :
    Mirrors R (links.relink p) (links'.relink p') := by
  intro q q' hq
  obtain ⟨hnext, hprev⟩ := h p p' hp
  rw [next_relink, prev_relink, next_relink, prev_relink]
  simp only [Relator.rel_eq hR hq hnext, Relator.rel_eq hR hq hprev]
  constructor
  · split
    · exact hp
    · exact (h q q' hq).1
  · split
    · exact hp
    · exact (h q q' hq).2

/-- Along two chains whose positions correspond, the links lead to positions that correspond. -/
theorem mirrors_of_chain (hR : Relator.BiUnique R) {ps : List (Fin n)} {ps' : List (Fin n')}
    (hrel : List.Forall₂ R ps ps') (hchain : List.IsChain links.Joined ps)
    (hchain' : List.IsChain links'.Joined ps') :
    (∀ {p p'}, p ∈ ps.dropLast → R p p' → R (links.next p) (links'.next p')) ∧
      ∀ {p p'}, p ∈ ps.tail → R p p' → R (links.prev p) (links'.prev p') := by
  induction hrel with
  | nil => exact ⟨fun hp => absurd hp List.not_mem_nil, fun hp => absurd hp List.not_mem_nil⟩
  | @cons q q' qs qs' hq hrest ih =>
    cases hrest with
    | nil => exact ⟨fun hp => absurd hp List.not_mem_nil, fun hp => absurd hp List.not_mem_nil⟩
    | @cons r r' rs rs' hr hrest =>
      obtain ⟨⟨hqr, hrq⟩, hchain⟩ := List.isChain_cons_cons.mp hchain
      obtain ⟨⟨hqr', hrq'⟩, hchain'⟩ := List.isChain_cons_cons.mp hchain'
      obtain ⟨hnext, hprev⟩ := ih hchain hchain'
      constructor
      · intro p p' hp hpp'
        rw [List.dropLast_cons_cons, List.mem_cons] at hp
        rcases hp with rfl | hp
        · obtain rfl := hR.2 hq hpp'
          rw [hqr, hqr']
          exact hr
        · exact hnext hp hpp'
      · intro p p' hp hpp'
        rw [List.tail_cons, List.mem_cons] at hp
        rcases hp with rfl | hp
        · obtain rfl := hR.2 hr hpp'
          rw [hrq, hrq']
          exact hq
        · exact hprev hp hpp'

/-- The links of two rings whose members correspond lead to positions that correspond. -/
theorem IsRing.mirrors {home : Fin n} {home' : Fin n'} {members : List (Fin n)}
    {members' : List (Fin n')} (hring : links.IsRing home members)
    (hring' : links'.IsRing home' members') (hR : Relator.BiUnique R) (hhome : R home home')
    (hmembers : List.Forall₂ R members members') (hp : p ∈ home :: members) (hpp' : R p p') :
    R (links.next p) (links'.next p') ∧ R (links.prev p) (links'.prev p') := by
  have hrel : List.Forall₂ R (home :: (members ++ [home])) (home' :: (members' ++ [home'])) :=
    .cons hhome (List.rel_append hmembers (.cons hhome .nil))
  obtain ⟨hnext, hprev⟩ := mirrors_of_chain hR hrel hring.chain hring'.chain
  constructor
  · apply hnext _ hpp'
    rwa [← List.cons_append, List.dropLast_concat]
  · apply hprev _ hpp'
    rw [List.tail_cons, List.mem_append, List.mem_singleton]
    exact (List.mem_cons.mp hp).symm

/-- A walk that is home has met everything. -/
theorem members_go_home (links : Links n) (home : Fin n) (fuel : Nat) :
    members.go links home fuel home = .ok [] := by
  cases fuel <;> rw [members.go, if_pos rfl]

/-- A walk around that is about to close. -/
theorem circuit?_go_of_home {admitted : Nat → Fin n → Bool} {home : Fin n} {fuel met : Nat}
    (hnext : links.next p = home) : circuit?.go links admitted home fuel met p =
      .ok (if links.prev home = p then some met else none) := by
  rw [circuit?.go.eq_def]
  simp only [hnext]
  by_cases hback : links.prev home = p <;> simp [hback]

/-- A walk around goes on from a position that links back and is admitted. -/
theorem circuit?_go_of_ne {admitted : Nat → Fin n → Bool} {home : Fin n} {fuel met : Nat}
    (hnext : links.next p ≠ home) : circuit?.go links admitted home (fuel + 1) met p =
      if links.prev (links.next p) = p ∧ admitted met (links.next p) then
        circuit?.go links admitted home fuel (met + 1) (links.next p)
      else .ok none := by
  rw [circuit?.go]
  by_cases hback : links.prev (links.next p) = p <;> simp [hback, hnext]

/-- Two lists whose links lead onward and mirror each other. -/
structure Parallel (R : Fin n → Fin n' → Prop) (links : Links n) (links' : Links n')
    (home : Fin n) (home' : Fin n') (members : List (Fin n)) (members' : List (Fin n')) :
    Prop where
  biUnique : Relator.BiUnique R
  mirrors : Mirrors R links links'
  rises : links.Rises home members
  rises' : links'.Rises home' members'
  homes : R home home'

namespace Parallel

variable {home : Fin n} {home' : Fin n'} {members : List (Fin n)} {members' : List (Fin n')}

/-- A step forward leads home in both lists, or in both to corresponding members that come later. -/
theorem next_cases (h : Parallel R links links' home home' members members') (hR : R p p')
    (hp : p ∈ home :: members) (hp' : p' ∈ home' :: members') :
    (links.next p = home ∧ links'.next p' = home') ∨
      (R (links.next p) (links'.next p') ∧
        (links.next p ≠ home ∧ links.next p ∈ members ∧ (p = home ∨ p < links.next p)) ∧
        (links'.next p' ≠ home' ∧ links'.next p' ∈ members' ∧
          (p' = home' ∨ p' < links'.next p'))) := by
  have hnext := (h.mirrors p p' hR).1
  have hhome : links.next p = home ↔ links'.next p' = home' :=
    Relator.rel_eq h.biUnique hnext h.homes
  by_cases hhere : links.next p = home
  · exact .inl ⟨hhere, hhome.mp hhere⟩
  · have hhere' := mt hhome.mpr hhere
    exact .inr ⟨hnext, ⟨hhere, (h.rises.next p hp).resolve_left hhere⟩,
      hhere', (h.rises'.next p' hp').resolve_left hhere'⟩

/-- A step back leads home in both lists, or in both to corresponding members that come earlier. -/
theorem prev_cases (h : Parallel R links links' home home' members members') (hR : R p p')
    (hp : p ∈ home :: members) (hp' : p' ∈ home' :: members') :
    (links.prev p = home ∧ links'.prev p' = home') ∨
      (R (links.prev p) (links'.prev p') ∧
        (links.prev p ≠ home ∧ links.prev p ∈ members ∧ (p = home ∨ links.prev p < p)) ∧
        (links'.prev p' ≠ home' ∧ links'.prev p' ∈ members' ∧
          (p' = home' ∨ links'.prev p' < p'))) := by
  have hprev := (h.mirrors p p' hR).2
  have hhome : links.prev p = home ↔ links'.prev p' = home' :=
    Relator.rel_eq h.biUnique hprev h.homes
  by_cases hhere : links.prev p = home
  · exact .inl ⟨hhere, hhome.mp hhere⟩
  · have hhere' := mt hhome.mpr hhere
    exact .inr ⟨hprev, ⟨hhere, (h.rises.prev p hp).resolve_left hhere⟩,
      hhere', (h.rises'.prev p' hp').resolve_left hhere'⟩

/-- Following the links ends in both lists and meets corresponding members. -/
theorem exists_members (h : Parallel R links links' home home' members members') :
    ∃ ps ps', links.members home = .ok ps ∧ links'.members home' = .ok ps' ∧
      List.Forall₂ (fun p p' => R p p' ∧ p ∈ members ∧ p' ∈ members') ps ps' := by
  have hgo : ∀ (fuel fuel' : Nat) (p : Fin n) (p' : Fin n'), (p = home ∧ p' = home') ∨
      (R p p' ∧ (p ≠ home ∧ p ∈ members ∧ n ≤ fuel + p.val) ∧
        (p' ≠ home' ∧ p' ∈ members' ∧ n' ≤ fuel' + p'.val)) →
      ∃ ps ps', Links.members.go links home fuel p = .ok ps ∧
        Links.members.go links' home' fuel' p' = .ok ps' ∧
          List.Forall₂ (fun p p' => R p p' ∧ p ∈ members ∧ p' ∈ members') ps ps' := by
    intro fuel
    induction fuel with
    | zero =>
      rintro fuel' p p' (⟨rfl, rfl⟩ | ⟨-, ⟨-, -, hfuel⟩, -⟩)
      · exact ⟨[], [], members_go_home .., members_go_home .., .nil⟩
      · have hbound := p.isLt
        omega
    | succ fuel ih =>
      rintro fuel' p p' (⟨rfl, rfl⟩ | ⟨hR, ⟨hne, hp, hfuel⟩, hne', hp', hfuel'⟩)
      · exact ⟨[], [], members_go_home .., members_go_home .., .nil⟩
      · have hbound := p'.isLt
        obtain ⟨fuel', rfl⟩ : ∃ k, fuel' = k + 1 := Nat.exists_eq_add_one.mpr (by omega)
        obtain ⟨ps, ps', hps, hps', hrel⟩ := ih fuel' (links.next p) (links'.next p') <| by
          rcases h.next_cases hR (List.mem_cons_of_mem _ hp) (List.mem_cons_of_mem _ hp') with
            hhome | ⟨hnext, ⟨hq, hmem, hlt⟩, hq', hmem', hlt'⟩
          · exact .inl hhome
          · have hlater := hlt.resolve_left hne
            have hlater' := hlt'.resolve_left hne'
            exact .inr ⟨hnext, ⟨hq, hmem, by omega⟩, hq', hmem', by omega⟩
        refine ⟨p :: ps, p' :: ps', ?_, ?_, .cons ⟨hR, hp, hp'⟩ hrel⟩
        · rw [Links.members.go, if_neg hne, hps]
          rfl
        · rw [Links.members.go, if_neg hne', hps']
          rfl
  apply hgo n n'
  rcases h.next_cases h.homes List.mem_cons_self List.mem_cons_self with
    hhome | ⟨hnext, ⟨hq, hmem, -⟩, hq', hmem', -⟩
  · exact .inl hhome
  · exact .inr ⟨hnext, ⟨hq, hmem, Nat.le_add_right ..⟩, hq', hmem', Nat.le_add_right ..⟩

/-- A position is linked back to in both lists or in neither. -/
theorem back_iff (h : Parallel R links links' home home' members members') (hR : R p p') :
    links.prev (links.next p) = p ↔ links'.prev (links'.next p') = p' :=
  Relator.rel_eq h.biUnique (h.mirrors _ _ (h.mirrors p p' hR).1).2 hR

theorem exists_circuit?_go_of_home (h : Parallel R links links' home home' members members')
    {admitted : Nat → Fin n → Bool} {admitted' : Nat → Fin n' → Bool} {fuel fuel' met : Nat}
    (hR : R p p') (hnext : links.next p = home) (hnext' : links'.next p' = home') :
    ∃ result, circuit?.go links admitted home fuel met p = .ok result ∧
      circuit?.go links' admitted' home' fuel' met p' = .ok result := by
  have hback := h.back_iff hR
  rw [hnext, hnext'] at hback
  rw [circuit?_go_of_home hnext, circuit?_go_of_home hnext']
  simp only [hback]
  exact ⟨_, rfl, rfl⟩

/-- Going around ends in both lists and finds the same. -/
theorem exists_circuit? (h : Parallel R links links' home home' members members')
    {admitted : Nat → Fin n → Bool} {admitted' : Nat → Fin n' → Bool}
    (hadmitted : ∀ k p p', R p p' → p ∈ members → p' ∈ members' →
      admitted k p = admitted' k p') :
    ∃ result, links.circuit? admitted home = .ok result ∧
      links'.circuit? admitted' home' = .ok result := by
  have hgo : ∀ (fuel fuel' met : Nat) (p : Fin n) (p' : Fin n'), R p p' → p ∈ home :: members →
      p' ∈ home' :: members' → (links.next p ≠ home → n ≤ fuel + (links.next p).val) →
        (links'.next p' ≠ home' → n' ≤ fuel' + (links'.next p').val) →
      ∃ result, circuit?.go links admitted home fuel met p = .ok result ∧
        circuit?.go links' admitted' home' fuel' met p' = .ok result := by
    intro fuel
    induction fuel with
    | zero =>
      intro fuel' met p p' hR hp hp' hfuel hfuel'
      rcases h.next_cases hR hp hp' with ⟨hq, hq'⟩ | ⟨-, ⟨hne, -⟩, -⟩
      · exact h.exists_circuit?_go_of_home hR hq hq'
      · have hroom := hfuel hne
        have hbound := (links.next p).isLt
        omega
    | succ fuel ih =>
      intro fuel' met p p' hR hp hp' hfuel hfuel'
      rcases h.next_cases hR hp hp' with
        ⟨hq, hq'⟩ | ⟨hnext, ⟨hne, hmem, -⟩, hne', hmem', -⟩
      · exact h.exists_circuit?_go_of_home hR hq hq'
      · have hroom := hfuel hne
        have hroom' := hfuel' hne'
        have hbound := (links'.next p').isLt
        obtain ⟨fuel', rfl⟩ : ∃ k, fuel' = k + 1 := Nat.exists_eq_add_one.mpr (by omega)
        rw [circuit?_go_of_ne hne, circuit?_go_of_ne hne']
        simp only [h.back_iff hR, hadmitted met _ _ hnext hmem hmem']
        have hmem := List.mem_cons_of_mem home hmem
        have hmem' := List.mem_cons_of_mem home' hmem'
        split
        · refine ih _ _ _ _ hnext hmem hmem' (fun hne₁ => ?_) fun hne₁ => ?_
          · have hlt := ((h.rises.next _ hmem).resolve_left hne₁).2.resolve_left hne
            omega
          · have hlt := ((h.rises'.next _ hmem').resolve_left hne₁).2.resolve_left hne'
            omega
        · exact ⟨none, rfl, rfl⟩
  exact hgo n n' 0 home home' h.homes List.mem_cons_self List.mem_cons_self
    (fun _ => Nat.le_add_right ..) fun _ => Nat.le_add_right ..

end Parallel

end Links

end ExactCover
