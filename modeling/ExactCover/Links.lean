import ExactCover.Arrows

/-!
# Circular lists that remember where their members were

`Links n` arranges `n` positions in circular doubly linked lists. Taking a position out of its
list (`unlink`) redirects its two neighbors to each other and leaves the position's own links
alone. Those links still name the place that the position came from, so it can be put back
(`relink`) without a search, provided the positions taken out after it were put back before.

No list structure is presumed here: any links are a value of the type, and each operation says
only which links it changes. That a sequence of operations keeps the lists in order is a statement
about that sequence. The main statement is `relink_unlink`: putting a position back undoes taking
it out exactly when it has to, that is, where its neighbors linked to it.
-/

set_option autoImplicit false

namespace ExactCover

/-- A forward and a backward link out of each of `n` positions. -/
@[ext]
structure Links (n : Nat) where
  /-- The forward links. -/
  forward : Arrows n
  /-- The backward links. -/
  backward : Arrows n

namespace Links

variable {n : Nat}

/-- No links between no positions. -/
def empty : Links 0 := ⟨.empty, .empty⟩

/-- The position that follows `p`. -/
def next (links : Links n) (p : Fin n) : Fin n := links.forward.target p

/-- The position that precedes `p`. -/
def prev (links : Links n) (p : Fin n) : Fin n := links.backward.target p

/-- Adds a position that is a list of its own. -/
def push (links : Links n) : Links (n + 1) :=
  ⟨links.forward.push (Fin.last n), links.backward.push (Fin.last n)⟩

/-- Makes `q` the follower of `p`, in both directions. -/
def join (links : Links n) (p q : Fin n) : Links n :=
  ⟨links.forward.aim p q, links.backward.aim q p⟩

/-- Takes `p` out of its list. The links out of `p` itself stay. -/
def unlink (links : Links n) (p : Fin n) : Links n :=
  links.join (links.prev p) (links.next p)

/-- Puts `p` back between the neighbors that its own links name. -/
def relink (links : Links n) (p : Fin n) : Links n :=
  ⟨links.forward.aim (links.prev p) p, links.backward.aim (links.next p) p⟩

/-- Inserts `p` in front of `q`, which is at the end of the list that starts behind `q`. -/
def insertBefore (links : Links n) (q p : Fin n) : Links n :=
  (links.join (links.prev q) p).join p q

/-- Makes every position of a list the follower of the one before it, and the first the follower of
the last. -/
def circle (links : Links n) : List (Fin n) → Links n
  | [] => links
  | p :: rest => go p p rest links
where
  /-- Goes on behind a position that has been joined, in a circle that began with `first`. -/
  go (first p : Fin n) : List (Fin n) → Links n → Links n
    | [], links => links.join p first
    | q :: rest, links => go first q rest (links.join p q)

/-- Lets the link forward from `before` lead to `last`, and the link backward from `behind` to
`first`. A walk from either side over the end of the stretch from `first` to `last` finds the other
end there. -/
def bracket (links : Links n) (before first last behind : Fin n) : Links n :=
  ⟨links.forward.aim before last, links.backward.aim behind first⟩

/-- Links with the same followers and the same predecessors are equal. -/
theorem ext_next_prev {a b : Links n} (hnext : ∀ p, a.next p = b.next p)
    (hprev : ∀ p, a.prev p = b.prev p) : a = b :=
  Links.ext (Arrows.ext_target hnext) (Arrows.ext_target hprev)

theorem next_join (links : Links n) (p q r : Fin n) :
    (links.join p q).next r = if r = p then q else links.next r :=
  Arrows.target_aim ..

theorem prev_join (links : Links n) (p q r : Fin n) :
    (links.join p q).prev r = if r = q then p else links.prev r :=
  Arrows.target_aim ..

theorem next_unlink (links : Links n) (p r : Fin n) :
    (links.unlink p).next r = if r = links.prev p then links.next p else links.next r :=
  next_join ..

theorem prev_unlink (links : Links n) (p r : Fin n) :
    (links.unlink p).prev r = if r = links.next p then links.prev p else links.prev r :=
  prev_join ..

theorem next_relink (links : Links n) (p r : Fin n) :
    (links.relink p).next r = if r = links.prev p then p else links.next r :=
  Arrows.target_aim ..

theorem prev_relink (links : Links n) (p r : Fin n) :
    (links.relink p).prev r = if r = links.next p then p else links.prev r :=
  Arrows.target_aim ..

/-- A position that is taken out still knows its follower. -/
@[simp]
theorem next_unlink_self (links : Links n) (p : Fin n) :
    (links.unlink p).next p = links.next p := by
  simp [next_unlink]

/-- A position that is taken out still knows its predecessor. -/
@[simp]
theorem prev_unlink_self (links : Links n) (p : Fin n) :
    (links.unlink p).prev p = links.prev p := by
  simp [prev_unlink]

/-- Taking a position out of a list and putting it back changes nothing, provided its neighbors
linked to it. -/
theorem relink_unlink {links : Links n} {p : Fin n} (hprev : links.next (links.prev p) = p)
    (hnext : links.prev (links.next p) = p) : (links.unlink p).relink p = links := by
  apply ext_next_prev
  · intro r
    rw [next_relink, prev_unlink_self, next_unlink]
    by_cases h : r = links.prev p
    · rw [if_pos h, h, hprev]
    · rw [if_neg h, if_neg h]
  · intro r
    rw [prev_relink, next_unlink_self, prev_unlink]
    by_cases h : r = links.next p
    · rw [if_pos h, h, hnext]
    · rw [if_neg h, if_neg h]

end Links

end ExactCover
