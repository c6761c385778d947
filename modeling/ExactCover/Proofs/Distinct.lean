import ExactCover.Item
import Mathlib.Data.List.Induction

/-!
# Items without repetitions

`distinct` keeps the first of several equal items, so what it leaves is in the order of first
appearance, and adding items at the end adds at most those items at the end. The lemmas here are
stated for an equality of items that need not be identity.
-/

set_option autoImplicit false

namespace ExactCover

variable {ι : Type} [BEq ι] {items : List ι} {item : ι}

/-- No item of a list is equal to an earlier one. -/
abbrev Unrepeated (items : List ι) : Prop := items.Pairwise fun a b => (a == b) = false

theorem distinct_concat (items : List ι) (item : ι) : distinct (items ++ [item]) =
    if (distinct items).contains item then distinct items else distinct items ++ [item] := by
  rw [distinct, List.foldl_append]
  rfl

theorem distinct_subset : distinct items ⊆ items := by
  induction items using List.reverseRecOn with
  | nil => exact List.nil_subset _
  | append_singleton items item ih =>
    have hold : distinct items ⊆ items ++ [item] := fun _ hx => List.mem_append_left _ (ih hx)
    rw [distinct_concat]
    split
    · exact hold
    · exact List.append_subset.mpr ⟨hold, List.subset_append_right _ _⟩

variable [EquivBEq ι]

theorem exists_mem_distinct (h : item ∈ items) : ∃ x ∈ distinct items, item == x := by
  induction items using List.reverseRecOn with
  | nil => contradiction
  | append_singleton items last ih =>
    rw [distinct_concat]
    rcases List.mem_append.mp h with h | h
    · obtain ⟨x, hx, heq⟩ := ih h
      refine ⟨x, ?_, heq⟩
      split
      · exact hx
      · exact List.mem_append_left _ hx
    · rw [List.mem_singleton.mp h]
      split
      · next hkept => exact List.contains_iff_exists_mem_beq.mp hkept
      · exact ⟨last, by simp, BEq.rfl⟩

omit [EquivBEq ι] in
theorem not_contains_iff : items.contains item = false ↔ ∀ x ∈ items, (item == x) = false := by
  rw [← Bool.not_eq_true, List.contains_iff_exists_mem_beq]
  simp

theorem unrepeated_distinct (items : List ι) : Unrepeated (distinct items) := by
  induction items using List.reverseRecOn with
  | nil => exact .nil
  | append_singleton items item ih =>
    rw [distinct_concat]
    split
    · exact ih
    · next hnew =>
      rw [Bool.not_eq_true, not_contains_iff] at hnew
      rw [Unrepeated, List.pairwise_append]
      refine ⟨ih, List.pairwise_singleton _ _, ?_⟩
      intro a ha b hb
      rw [List.mem_singleton.mp hb, BEq.comm]
      exact hnew a ha

/-- Items that do not repeat are left as they are. -/
theorem Unrepeated.distinct_eq (h : Unrepeated items) : distinct items = items := by
  induction items using List.reverseRecOn with
  | nil => rfl
  | append_singleton items item ih =>
    rw [Unrepeated, List.pairwise_append] at h
    rw [distinct_concat, ih h.1, if_neg]
    rw [Bool.not_eq_true, not_contains_iff]
    intro x hx
    rw [BEq.comm]
    exact h.2.2 x hx item (by simp)

/-- Looking for a repeated item finds none exactly if no item repeats. -/
theorem firstRepeat?_eq_none_iff : firstRepeat? items = none ↔ Unrepeated items := by
  have hgo : ∀ seen, firstRepeat?.go seen items = none ↔
      (∀ item ∈ items, seen.contains item = false) ∧ Unrepeated items := by
    induction items with
    | nil => simp [firstRepeat?.go]
    | cons item rest ih =>
      intro seen
      rw [firstRepeat?.go]
      cases hseen : seen.contains item with
      | true => simp [-List.contains_eq_mem, hseen]
      | false =>
        rw [if_neg Bool.false_ne_true, ih]
        simp only [List.mem_cons, forall_eq_or_imp, hseen, true_and, Unrepeated,
          List.pairwise_cons, List.contains_cons, Bool.or_eq_false_iff, BEq.comm (a := item)]
        constructor
        · intro ⟨hseen, hrest⟩
          exact ⟨fun x hx => (hseen x hx).2, fun x hx => (hseen x hx).1, hrest⟩
        · intro ⟨hseen, hnew, hrest⟩
          exact ⟨fun x hx => ⟨hnew x hx, hseen x hx⟩, hrest⟩
  rw [firstRepeat?, hgo]
  simp

/-- A repeated item that is found is the first one: the items before it do not repeat, and it is
equal to one of them. -/
theorem exists_of_firstRepeat?_eq_some (h : firstRepeat? items = some item) :
    ∃ before after, items = before ++ item :: after ∧ Unrepeated before ∧
      ∃ x ∈ before, x == item := by
  -- The items that were seen are those passed so far, the latest first.
  have hgo : ∀ passed, Unrepeated passed → firstRepeat?.go passed.reverse items = some item →
      ∃ before after, items = before ++ item :: after ∧ Unrepeated (passed ++ before) ∧
        ∃ x ∈ passed ++ before, x == item := by
    clear h
    induction items with
    | nil =>
      intro passed _ hgo
      contradiction
    | cons first rest ih =>
      intro passed hpassed hgo
      rw [firstRepeat?.go] at hgo
      split at hgo
      · next hseen =>
        obtain rfl := Option.some.inj hgo
        obtain ⟨x, hx, heq⟩ := List.contains_iff_exists_mem_beq.mp hseen
        rw [List.mem_reverse] at hx
        rw [← List.append_nil passed] at hpassed hx
        exact ⟨[], rest, rfl, hpassed, x, hx, BEq.symm heq⟩
      · next hnew =>
        rw [Bool.not_eq_true, not_contains_iff] at hnew
        have hlonger : Unrepeated (passed ++ [first]) := by
          rw [Unrepeated, List.pairwise_append]
          refine ⟨hpassed, List.pairwise_singleton _ _, fun x hx y hy => ?_⟩
          rw [List.mem_singleton.mp hy, BEq.comm]
          exact hnew x (List.mem_reverse.mpr hx)
        have hseen : first :: passed.reverse = (passed ++ [first]).reverse := by simp
        rw [hseen] at hgo
        obtain ⟨before, after, rfl, hbefore, hearlier⟩ := ih _ hlonger hgo
        rw [List.append_assoc] at hbefore hearlier
        exact ⟨first :: before, after, rfl, hbefore, hearlier⟩
  exact hgo [] .nil h

omit [EquivBEq ι] in
/-- Leaving out repeated items does not change what is found first, if equal items are alike in what
is looked for. -/
theorem find?_distinct {p : ι → Bool} (hp : ∀ {x y : ι}, x == y → p x = p y) (items : List ι) :
    (distinct items).find? p = items.find? p := by
  induction items using List.reverseRecOn with
  | nil => rfl
  | append_singleton items item ih =>
    rw [distinct_concat, List.find?_append, ← ih]
    split
    · next hkept =>
      obtain ⟨x, hx, heq⟩ := List.contains_iff_exists_mem_beq.mp hkept
      cases hfind : (distinct items).find? p with
      | some found => rfl
      | none =>
        have hitem : ¬ p item := by
          rw [hp heq]
          exact List.find?_eq_none.mp hfind x hx
        rw [List.find?_singleton, if_neg hitem]
        rfl
    · exact List.find?_append

end ExactCover
