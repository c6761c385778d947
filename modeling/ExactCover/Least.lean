/-!
# The first least element

A search branches where there is least to try. `leastBy?` finds the element of a list at which a
measure is smallest, and the earliest of several: every element before it measures more, and no
element after it measures less.
-/

set_option autoImplicit false

namespace ExactCover

variable {α : Type}

/-- The first of the elements at which a measure is smallest. -/
def leastBy? (measure : α → Nat) : List α → Option α
  | [] => none
  | a :: rest =>
    match leastBy? measure rest with
    | none => some a
    | some b => if measure b < measure a then some b else some a

/-- There is a least element unless the list is empty. -/
theorem leastBy?_eq_none_iff (measure : α → Nat) (as : List α) :
    leastBy? measure as = none ↔ as = [] := by
  cases as with
  | nil => simp [leastBy?]
  | cons a rest =>
    constructor
    · intro h
      simp only [leastBy?] at h
      split at h
      · contradiction
      · split at h <;> contradiction
    · intro h
      contradiction

/-- The least element splits the list: what stands before it measures more, and what stands behind
it measures no less. -/
theorem leastBy?_eq_some {measure : α → Nat} {as : List α} {a : α}
    (h : leastBy? measure as = some a) :
    ∃ before behind, as = before ++ a :: behind ∧
      (∀ b ∈ before, measure a < measure b) ∧ ∀ b ∈ behind, measure a ≤ measure b := by
  induction as generalizing a with
  | nil => contradiction
  | cons b rest ih =>
    simp only [leastBy?] at h
    split at h
    · rename_i hrest
      obtain rfl := Option.some.inj h
      rw [leastBy?_eq_none_iff] at hrest
      subst hrest
      exact ⟨[], [], rfl, by simp, by simp⟩
    · rename_i c hrest
      obtain ⟨before, behind, rfl, hbefore, hbehind⟩ := ih hrest
      split at h
      · rename_i hlt
        obtain rfl := Option.some.inj h
        refine ⟨b :: before, behind, rfl, ?_, hbehind⟩
        intro x hx
        rcases List.mem_cons.mp hx with rfl | hx
        · exact hlt
        · exact hbefore x hx
      · rename_i hle
        obtain rfl := Option.some.inj h
        refine ⟨[], before ++ c :: behind, rfl, by simp, ?_⟩
        intro x hx
        rcases List.mem_append.mp hx with hx | hx
        · exact Nat.le_of_lt (Nat.lt_of_le_of_lt (Nat.le_of_not_lt hle) (hbefore x hx))
        · rcases List.mem_cons.mp hx with rfl | hx
          · exact Nat.le_of_not_lt hle
          · exact Nat.le_trans (Nat.le_of_not_lt hle) (hbehind x hx)

end ExactCover
