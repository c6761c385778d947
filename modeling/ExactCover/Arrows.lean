/-!
# Arrows between numbered positions

A value of `Arrows n` gives every one of `n` positions a target among the same positions. The
targets are stored as numbers, so that a position can be added without touching the others, and
the bound on them is part of the type, so that following an arrow never leaves the structure.

Up to the way it is stored such a value is a function: `ext_target` says that the targets
determine it. Of the two ways of changing it, `target_aim` says what aiming an arrow does to the
targets, and `target_push_castSucc` and `target_push_last` what a new position does.
-/

set_option autoImplicit false

namespace ExactCover

/-- One arrow out of each of `n` positions. -/
@[ext]
structure Arrows (n : Nat) where
  /-- Where the arrow out of each position leads. -/
  targets : Vector Nat n
  /-- Every arrow leads to a position. -/
  targets_lt : ∀ (p : Nat) (h : p < n), targets[p] < n

namespace Arrows

variable {n : Nat}

/-- The position that the arrow out of `p` leads to. -/
def target (arrows : Arrows n) (p : Fin n) : Fin n :=
  ⟨arrows.targets[p.val], arrows.targets_lt p.val p.isLt⟩

/-- Lets the arrow out of `p` lead to `q` and leaves the other arrows as they are. -/
def aim (arrows : Arrows n) (p q : Fin n) : Arrows n where
  targets := arrows.targets.set p.val q.val p.isLt
  targets_lt r h := by
    rw [Vector.getElem_set]
    split
    · exact q.isLt
    · exact arrows.targets_lt r h

/-- Adds one position, whose arrow leads to `q`, behind the others. -/
def push (arrows : Arrows n) (q : Fin (n + 1)) : Arrows (n + 1) where
  targets := arrows.targets.push q.val
  targets_lt r h := by
    rw [Vector.getElem_push]
    split
    · exact Nat.lt_succ_of_lt (arrows.targets_lt r _)
    · exact q.isLt

/-- No arrows between no positions. -/
def empty : Arrows 0 where
  targets := #v[]
  targets_lt _ h := absurd h (Nat.not_lt_zero _)

/-- Arrows with the same targets are equal. -/
theorem ext_target {a b : Arrows n} (h : ∀ p, a.target p = b.target p) : a = b := by
  apply Arrows.ext
  apply Vector.ext
  intro i hi
  exact congrArg Fin.val (h ⟨i, hi⟩)

/-- Aiming the arrow out of one position changes the target of that position alone. -/
theorem target_aim (arrows : Arrows n) (p q r : Fin n) :
    (arrows.aim p q).target r = if r = p then q else arrows.target r := by
  apply Fin.ext
  simp only [target, aim, Vector.getElem_set]
  split
  · rw [if_pos (Fin.ext (by omega))]
  · rw [if_neg (by intro h; subst h; contradiction)]

@[simp]
theorem target_aim_self (arrows : Arrows n) (p q : Fin n) : (arrows.aim p q).target p = q := by
  simp [target_aim]

theorem target_aim_of_ne (arrows : Arrows n) {p r : Fin n} (q : Fin n) (h : r ≠ p) :
    (arrows.aim p q).target r = arrows.target r := by
  simp [target_aim, h]

/-- A new position leaves the arrows between the old ones alone. -/
theorem target_push_castSucc (arrows : Arrows n) (q : Fin (n + 1)) (p : Fin n) :
    (arrows.push q).target p.castSucc = (arrows.target p).castSucc := by
  apply Fin.ext
  simp [target, push, Vector.getElem_push_lt]

/-- The arrow out of a new position leads where it was told to. -/
@[simp]
theorem target_push_last (arrows : Arrows n) (q : Fin (n + 1)) :
    (arrows.push q).target (Fin.last n) = q := by
  apply Fin.ext
  simp [target, push]

end Arrows

end ExactCover
