import ExactCover.Mesh.View
import Mathlib.Data.Fintype.Card
import Mathlib.Data.List.Chain

/-!
# Rings of links

Links presume no order of the positions that they connect. Here is the order that they have when
all is well: from `home` the forward links lead through some *members* and back to `home`, the
backward links lead the same way in the opposite direction, and no position is met twice.

The three operations that a mesh is worked with keep such rings. Taking a member out leaves a ring
of the others (`IsRing.unlink`), inserting a position in front of `home` puts it behind the last
member (`IsRing.insertBefore`), and closing a circle makes a ring of its positions
(`isRing_circle`).
Whatever else happens to the links does not matter to a ring as long as the links out of its own
positions stay (`IsRing.congr`).
-/

set_option autoImplicit false

namespace ExactCover

namespace Links

variable {n : Nat} {links links' : Links n} {home p q : Fin n} {members : List (Fin n)}

/-- Two positions that are linked to each other, the second behind the first. -/
def Joined (links : Links n) (p q : Fin n) : Prop := links.next p = q ∧ links.prev q = p

/-- Whether positions are linked one to the next depends on the links forward from all but the last
and on the links backward from all but the first. -/
theorem isChain_joined_congr {ps : List (Fin n)} (hchain : List.IsChain links.Joined ps)
    (hnext : ∀ p ∈ ps.dropLast, links'.next p = links.next p)
    (hprev : ∀ q ∈ ps.tail, links'.prev q = links.prev q) : List.IsChain links'.Joined ps := by
  induction hchain with
  | nil => exact .nil
  | singleton p => exact .singleton p
  | @cons_cons p q rest hpq hrest ih =>
    have hhere : links'.Joined p q :=
      ⟨(hnext p (by simp)).trans hpq.1, (hprev q (by simp)).trans hpq.2⟩
    refine .cons_cons hhere (ih (fun x hx => hnext x ?_) fun y hy => hprev y ?_)
    · simp [hx]
    · exact List.mem_of_mem_tail hy

theorem next_insertBefore (links : Links n) (q p x : Fin n) :
    (links.insertBefore q p).next x =
      if x = p then q else if x = links.prev q then p else links.next x := by
  rw [insertBefore, next_join, next_join]

theorem prev_insertBefore (links : Links n) (q p x : Fin n) :
    (links.insertBefore q p).prev x =
      if x = q then p else if x = p then links.prev q else links.prev x := by
  rw [insertBefore, prev_join, prev_join]

/-- From `home` the links lead through the members, each once, and back to `home`. -/
structure IsRing (links : Links n) (home : Fin n) (members : List (Fin n)) : Prop where
  /-- Each position is linked to the one after it. -/
  chain : List.IsChain links.Joined (home :: (members ++ [home]))
  /-- No position is met twice. -/
  nodup : (home :: members).Nodup

namespace IsRing

theorem home_not_mem (hring : links.IsRing home members) : home ∉ members :=
  (List.nodup_cons.mp hring.nodup).1

theorem members_nodup (hring : links.IsRing home members) : members.Nodup :=
  (List.nodup_cons.mp hring.nodup).2

/-- The members and `home` are distinct, so there is room for one position more than members. -/
theorem length_lt (hring : links.IsRing home members) : members.length < n := by
  have hle := hring.nodup.length_le_card
  rw [Fintype.card_fin, List.length_cons] at hle
  exact hle

/-- A ring depends on the links out of its own positions only. -/
theorem congr (hring : links.IsRing home members)
    (hnext : ∀ p ∈ home :: members, links'.next p = links.next p)
    (hprev : ∀ p ∈ home :: members, links'.prev p = links.prev p) :
    links'.IsRing home members := by
  refine ⟨isChain_joined_congr hring.chain (fun p hp => hnext p ?_) fun q hq => hprev q ?_,
    hring.nodup⟩
  · rwa [← List.cons_append, List.dropLast_concat] at hp
  · rw [List.tail_cons, List.mem_append, List.mem_singleton] at hq
    exact List.mem_cons.mpr hq.symm

/-- The last position of a ring is linked to `home`, which closes it. -/
theorem exists_last (hring : links.IsRing home members) :
    ∃ front a, home :: members = front ++ [a] ∧ List.IsChain links.Joined (front ++ [a]) ∧
      links.Joined a home := by
  obtain ⟨front, a, hfront⟩ := List.eq_nil_or_concat (home :: members) |>.resolve_left (by simp)
  rw [List.concat_eq_append] at hfront
  have hchain := hring.chain
  rw [← List.cons_append, hfront, List.append_assoc, List.singleton_append,
    List.isChain_append_cons_cons] at hchain
  exact ⟨front, a, hfront, hchain.1, hchain.2.1⟩

/-- A member stands between two positions of the ring that are linked to it. -/
theorem exists_neighbors {before behind : List (Fin n)}
    (hring : links.IsRing home (before ++ p :: behind)) :
    (∃ front a, home :: before = front ++ [a] ∧ links.Joined a p) ∧
      ∃ b rear, behind ++ [home] = b :: rear ∧ links.Joined p b := by
  have hchain := hring.chain
  constructor
  · obtain ⟨front, a, hfront⟩ := List.eq_nil_or_concat (home :: before) |>.resolve_left (by simp)
    rw [List.concat_eq_append] at hfront
    refine ⟨front, a, hfront, ?_⟩
    rw [← List.cons_append, ← List.cons_append, hfront] at hchain
    simp only [List.append_assoc, List.cons_append, List.nil_append,
      List.isChain_append_cons_cons] at hchain
    exact hchain.2.1
  · obtain ⟨b, rear, hrear⟩ : ∃ b rear, behind ++ [home] = b :: rear :=
      List.exists_cons_of_ne_nil (by simp)
    refine ⟨b, rear, hrear, ?_⟩
    rw [List.append_assoc, List.cons_append, hrear] at hchain
    rw [List.isChain_cons_append_cons_cons] at hchain
    exact hchain.2.1

/-- The position before a member belongs to the ring and is linked to it. -/
theorem prev_mem (hring : links.IsRing home members) (hp : p ∈ members) :
    links.prev p ∈ home :: members ∧ links.next (links.prev p) = p := by
  obtain ⟨before, behind, rfl⟩ := List.append_of_mem hp
  obtain ⟨⟨front, a, hfront, ha⟩, -⟩ := hring.exists_neighbors
  rw [ha.2]
  have hmem : a ∈ home :: before := by simp [hfront]
  exact ⟨by rw [← List.cons_append]; exact List.mem_append_left _ hmem, ha.1⟩

/-- The position behind a member belongs to the ring and is linked to it. -/
theorem next_mem (hring : links.IsRing home members) (hp : p ∈ members) :
    links.next p ∈ home :: members ∧ links.prev (links.next p) = p := by
  obtain ⟨before, behind, rfl⟩ := List.append_of_mem hp
  obtain ⟨-, b, rear, hrear, hb⟩ := hring.exists_neighbors
  rw [hb.1]
  have hmem : b ∈ behind ++ [home] := by simp [hrear]
  refine ⟨?_, hb.2⟩
  rcases List.mem_append.mp hmem with hmem | hmem
  · simp [hmem]
  · simp [List.mem_singleton.mp hmem]

/-- A member can be put back where it was taken out. -/
theorem relink_unlink (hring : links.IsRing home members) (hp : p ∈ members) :
    (links.unlink p).relink p = links :=
  Links.relink_unlink (hring.prev_mem hp).2 (hring.next_mem hp).2

/-- Without one of its members a ring is the ring of the others. -/
theorem unlink {before behind : List (Fin n)}
    (hring : links.IsRing home (before ++ p :: behind)) :
    (links.unlink p).IsRing home (before ++ behind) := by
  obtain ⟨⟨front, a, hfront, ha⟩, b, rear, hrear, hb⟩ := hring.exists_neighbors
  obtain ⟨hbefore, hbehind, hapart⟩ : (home :: before).Nodup ∧ (p :: behind).Nodup ∧
      ∀ x ∈ home :: before, ∀ y ∈ p :: behind, x ≠ y := by
    have hnodup := hring.nodup
    rwa [← List.cons_append, List.nodup_append] at hnodup
  have hbehind' : behind.Nodup := (List.nodup_cons.mp hbehind).2
  have hhome : home ∉ behind := fun hmem => hapart home (by simp) home (by simp [hmem]) rfl
  have hrearNodup : (b :: rear).Nodup := by
    rw [← hrear, ← List.concat_eq_append]
    exact List.nodup_concat _ _ |>.mpr ⟨hhome, hbehind'⟩
  -- Only the link forward from `a` and the link backward from `b` change.
  have hnext : ∀ x, x ≠ a → (links.unlink p).next x = links.next x := fun x hx => by
    rw [next_unlink, ha.2, if_neg hx]
  have hprev : ∀ y, y ≠ b → (links.unlink p).prev y = links.prev y := fun y hy => by
    rw [prev_unlink, hb.1, if_neg hy]
  have hclosed : (links.unlink p).Joined a b := by
    rw [Joined, next_unlink, prev_unlink, ha.2, hb.1, if_pos rfl, if_pos rfl]
    exact ⟨rfl, rfl⟩
  have hchain := hring.chain
  rw [← List.cons_append, ← List.cons_append, hfront, List.append_assoc, List.append_assoc,
    List.cons_append, List.cons_append, List.nil_append, List.isChain_append_cons_cons, hrear,
    List.isChain_cons_cons] at hchain
  obtain ⟨hleft, -, -, hright⟩ := hchain
  constructor
  · rw [List.append_assoc, ← List.cons_append, hrear, hfront, List.append_assoc, List.cons_append,
      List.nil_append, List.isChain_append_cons_cons]
    refine ⟨isChain_joined_congr hleft (fun x hx => hnext x ?_) fun y hy => hprev y ?_, hclosed,
      isChain_joined_congr hright (fun x hx => hnext x ?_) fun y hy => hprev y ?_⟩
    · rintro rfl
      rw [List.dropLast_concat] at hx
      rw [hfront, ← List.concat_eq_append] at hbefore
      exact (List.nodup_concat _ _ |>.mp hbefore).1 hx
    · rintro rfl
      rw [← hfront, List.tail_cons] at hy
      have hmem : y ∈ behind ++ [home] := by simp [hrear]
      rcases List.mem_append.mp hmem with hmem | hmem
      · exact hapart y (by simp [hy]) y (by simp [hmem]) rfl
      · rw [List.mem_singleton.mp hmem] at hy
        exact (List.nodup_cons.mp hbefore).1 hy
    · rintro rfl
      rw [← hrear, List.dropLast_concat] at hx
      exact hapart x (by simp [hfront]) x (by simp [hx]) rfl
    · rintro rfl
      exact (List.nodup_cons.mp hrearNodup).1 hy
  · rw [← List.cons_append, List.nodup_append]
    exact ⟨hbefore, hbehind', fun x hx y hy => hapart x hx y (by simp [hy])⟩

/-- The ring that is left is the one of the members other than the one taken out. -/
theorem unlink_erase (hring : links.IsRing home members) (hp : p ∈ members) :
    (links.unlink p).IsRing home (members.erase p) := by
  obtain ⟨before, behind, rfl⟩ := List.append_of_mem hp
  have hbefore : p ∉ before := fun hmem =>
    (List.nodup_append.mp hring.members_nodup).2.2 p hmem p (by simp) rfl
  rw [List.erase_append_right _ hbefore, List.erase_cons_head]
  exact hring.unlink

/-- Taking a member out of one ring leaves the others alone. -/
theorem unlink_of_disjoint {home' : Fin n} {members' : List (Fin n)}
    (hring : links.IsRing home members) (hp : p ∈ members)
    (hother : links.IsRing home' members')
    (hapart : (home :: members).Disjoint (home' :: members')) :
    (links.unlink p).IsRing home' members' := by
  refine hother.congr (fun x hx => ?_) fun x hx => ?_
  · rw [next_unlink, if_neg]
    rintro rfl
    exact hapart (hring.prev_mem hp).1 hx
  · rw [prev_unlink, if_neg]
    rintro rfl
    exact hapart (hring.next_mem hp).1 hx

/-- What follows `home` is the first member, or `home` itself if there are none. -/
theorem next_home_mem (hring : links.IsRing home members) : links.next home ∈ home :: members := by
  have hchain := hring.chain
  cases members with
  | nil => exact List.mem_singleton.mpr (List.isChain_pair.mp hchain).1
  | cons p rest =>
    rw [(List.isChain_cons_cons.mp hchain).1.1]
    simp

/-- What precedes `home` is the last member, or `home` itself if there are none. -/
theorem prev_home_mem (hring : links.IsRing home members) : links.prev home ∈ home :: members := by
  obtain ⟨front, a, hfront, -, ha⟩ := hring.exists_last
  rw [ha.2, hfront]
  simp

/-- A position inserted in front of `home` becomes the last member. -/
theorem insertBefore (hring : links.IsRing home members) (hp : p ∉ home :: members) :
    (links.insertBefore home p).IsRing home (members ++ [p]) := by
  obtain ⟨front, a, hfront, hleft, ha⟩ := hring.exists_last
  have hnodup := hring.nodup
  rw [hfront, ← List.concat_eq_append, List.nodup_concat] at hnodup
  have hap : a ≠ p := by
    rintro rfl
    exact hp (by simp [hfront])
  have hhome : home ≠ p := by
    rintro rfl
    exact hp (by simp)
  have hnext : ∀ x, (links.insertBefore home p).next x =
      if x = p then home else if x = a then p else links.next x := fun x => by
    rw [next_insertBefore, ha.2]
  have hprev : ∀ x, (links.insertBefore home p).prev x =
      if x = home then p else if x = p then a else links.prev x := fun x => by
    rw [prev_insertBefore, ha.2]
  constructor
  · rw [List.append_assoc, ← List.cons_append, hfront, List.append_assoc, List.singleton_append,
      List.singleton_append, List.isChain_append_cons_cons, List.isChain_pair]
    refine ⟨isChain_joined_congr hleft (fun x hx => ?_) fun y hy => ?_, ⟨?_, ?_⟩, ?_, ?_⟩
    · rw [List.dropLast_concat] at hx
      have hxp : x ≠ p := by
        rintro rfl
        exact hp (by simp [hfront, hx])
      have hxa : x ≠ a := by
        rintro rfl
        exact hnodup.1 hx
      rw [hnext, if_neg hxp, if_neg hxa]
    · rw [← hfront, List.tail_cons] at hy
      have hyhome : y ≠ home := by
        rintro rfl
        exact hring.home_not_mem hy
      have hyp : y ≠ p := by
        rintro rfl
        exact hp (by simp [hy])
      rw [hprev, if_neg hyhome, if_neg hyp]
    · rw [hnext, if_neg hap, if_pos rfl]
    · rw [hprev, if_neg hhome.symm, if_pos rfl]
    · rw [hnext, if_pos rfl]
    · rw [hprev, if_pos rfl]
  · rw [← List.cons_append, ← List.concat_eq_append, List.nodup_concat]
    exact ⟨hp, hring.nodup⟩

/-- Inserting a position changes only its own links and links within the ring. -/
theorem insertBefore_of_not_mem (hring : links.IsRing home members) {x : Fin n}
    (hx : x ∉ home :: members) (hxp : x ≠ p) :
    (links.insertBefore home p).next x = links.next x ∧
      (links.insertBefore home p).prev x = links.prev x := by
  have hlast : x ≠ links.prev home := by
    rintro rfl
    exact hx hring.prev_home_mem
  have hhome : x ≠ home := by
    rintro rfl
    exact hx List.mem_cons_self
  rw [next_insertBefore, prev_insertBefore, if_neg hxp, if_neg hlast, if_neg hhome, if_neg hxp]
  exact ⟨rfl, rfl⟩

/-- Inserting a position that is linked to itself only leaves the other rings alone. -/
theorem insertBefore_of_disjoint {home' : Fin n} {members' : List (Fin n)}
    (hring : links.IsRing home members) (hother : links.IsRing home' members')
    (hp : p ∉ home' :: members') (hapart : (home :: members).Disjoint (home' :: members')) :
    (links.insertBefore home p).IsRing home' members' := by
  have hfar : ∀ x ∈ home' :: members', (links.insertBefore home p).next x = links.next x ∧
      (links.insertBefore home p).prev x = links.prev x := by
    intro x hx
    apply hring.insertBefore_of_not_mem (fun hmem => hapart hmem hx)
    rintro rfl
    exact hp hx
  exact hother.congr (fun x hx => (hfar x hx).1) fun x hx => (hfar x hx).2

/-- A new position leaves the rings of the old ones as they were. -/
theorem push (hring : links.IsRing home members) :
    links.push.IsRing home.castSucc (members.map Fin.castSucc) := by
  constructor
  · have hchain := List.isChain_map_of_isChain (S := links.push.Joined) Fin.castSucc
      (fun p q (hpq : links.Joined p q) => ?_) hring.chain
    · simpa using hchain
    · constructor
      · rw [← hpq.1]
        exact Arrows.target_push_castSucc ..
      · rw [← hpq.2]
        exact Arrows.target_push_castSucc ..
  · rw [← List.map_cons]
    exact hring.nodup.map (Fin.castSucc_injective n)

/-- Following the links from `home` lists the members. -/
theorem members_eq (hring : links.IsRing home members) : links.members home = .ok members := by
  have hgo : ∀ (ms : List (Fin n)) (p : Fin n) (fuel : Nat),
      List.IsChain links.Joined (p :: (ms ++ [home])) → home ∉ ms → ms.length ≤ fuel →
        Links.members.go links home fuel (links.next p) = .ok ms := by
    intro ms
    induction ms with
    | nil =>
      intro p fuel hchain _ _
      rw [List.nil_append, List.isChain_pair] at hchain
      cases fuel <;> simp [Links.members.go, hchain.1]
    | cons q ms ih =>
      intro p fuel hchain hhome hfuel
      rw [List.cons_append, List.isChain_cons_cons] at hchain
      obtain ⟨fuel, rfl⟩ : ∃ k, fuel = k + 1 := Nat.exists_eq_add_one.mpr (by
        rw [List.length_cons] at hfuel
        omega)
      rw [List.mem_cons, not_or] at hhome
      rw [hchain.1.1, Links.members.go, if_neg (Ne.symm hhome.1),
        ih q fuel hchain.2 hhome.2 (Nat.le_of_succ_le_succ hfuel)]
      rfl
  exact hgo members home n hring.chain hring.home_not_mem (Nat.le_of_lt hring.length_lt)

end IsRing

/-- A position that is linked to itself is a ring without members. -/
theorem isRing_nil (hnext : links.next home = home) (hprev : links.prev home = home) :
    links.IsRing home [] :=
  ⟨List.isChain_pair.mpr ⟨hnext, hprev⟩, List.nodup_singleton home⟩

@[simp]
theorem next_push_last (links : Links n) : links.push.next (Fin.last n) = Fin.last n :=
  Arrows.target_push_last ..

@[simp]
theorem prev_push_last (links : Links n) : links.push.prev (Fin.last n) = Fin.last n :=
  Arrows.target_push_last ..

@[simp]
theorem next_push_castSucc (links : Links n) (p : Fin n) :
    links.push.next p.castSucc = (links.next p).castSucc :=
  Arrows.target_push_castSucc ..

@[simp]
theorem prev_push_castSucc (links : Links n) (p : Fin n) :
    links.push.prev p.castSucc = (links.prev p).castSucc :=
  Arrows.target_push_castSucc ..

/-- Closing a circle changes the links forward from its positions and the links backward from all
of them but the one where the closing starts, which is linked backward at the end. -/
private theorem circle_go (first p : Fin n) (rest : List (Fin n)) (links : Links n)
    (hnodup : (p :: rest).Nodup) (hfirst : first ∉ rest) :
    List.IsChain (circle.go first p rest links).Joined (p :: (rest ++ [first])) ∧
      (∀ x ∉ p :: rest, (circle.go first p rest links).next x = links.next x) ∧
      ∀ y ∉ rest ++ [first], (circle.go first p rest links).prev y = links.prev y := by
  induction rest generalizing p links with
  | nil =>
    refine ⟨List.isChain_pair.mpr ⟨?_, ?_⟩, fun x hx => ?_, fun y hy => ?_⟩
    · rw [circle.go, next_join, if_pos rfl]
    · rw [circle.go, prev_join, if_pos rfl]
    · rw [circle.go, next_join, if_neg (by simpa using hx)]
    · rw [circle.go, prev_join, if_neg (by simpa using hy)]
  | cons q rest ih =>
    obtain ⟨hp, hnodup⟩ := List.nodup_cons.mp hnodup
    rw [List.mem_cons, not_or] at hfirst
    obtain ⟨hchain, hnext, hprev⟩ := ih q (links.join p q) hnodup hfirst.2
    refine ⟨.cons_cons ⟨?_, ?_⟩ hchain, fun x hx => ?_, fun y hy => ?_⟩
    · rw [circle.go, hnext p hp, next_join, if_pos rfl]
    · have hq : q ∉ rest ++ [first] := by
        rw [List.mem_append, List.mem_singleton, not_or]
        exact ⟨(List.nodup_cons.mp hnodup).1, Ne.symm hfirst.1⟩
      rw [circle.go, hprev q hq, prev_join, if_pos rfl]
    · rw [List.mem_cons, not_or] at hx
      rw [circle.go, hnext x hx.2, next_join, if_neg hx.1]
    · rw [List.cons_append, List.mem_cons, not_or] at hy
      rw [circle.go, hprev y hy.2, prev_join, if_neg hy.1]

/-- Closing a circle makes a ring of its positions. -/
theorem isRing_circle (links : Links n) (hnodup : (p :: members).Nodup) :
    (links.circle (p :: members)).IsRing p members :=
  ⟨(circle_go p p members links hnodup (List.nodup_cons.mp hnodup).1).1, hnodup⟩

/-- Closing a circle changes the links of its own positions only. -/
theorem next_prev_circle_of_not_mem (links : Links n) {ps : List (Fin n)} (hnodup : ps.Nodup)
    {x : Fin n} (hx : x ∉ ps) :
    (links.circle ps).next x = links.next x ∧ (links.circle ps).prev x = links.prev x := by
  cases ps with
  | nil => exact ⟨rfl, rfl⟩
  | cons p rest =>
    obtain ⟨-, hnext, hprev⟩ := circle_go p p rest links hnodup (List.nodup_cons.mp hnodup).1
    refine ⟨hnext x hx, hprev x ?_⟩
    rw [List.mem_cons] at hx
    rw [List.mem_append, List.mem_singleton]
    tauto

end Links

end ExactCover
