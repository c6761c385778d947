import ExactCover.Proofs.Depth
import ExactCover.Proofs.Tracking
import Mathlib.Data.Finset.Dedup

/-!
# Covers and what the search finds

A *cover* is a set of rows that may be chosen together and leaves no item open. This says nothing
about any order of choosing. The search on lists finds every cover and finds it once, because the
item it branches on has to be covered by exactly one row of a cover, and the branches are the rows
that can be the one.
-/

set_option autoImplicit false

namespace ExactCover

namespace Naive

variable {ι χ : Type} [BEq ι] [BEq χ] [Item ι χ]

/-- The rows in a set can be chosen together and cover all items that must be covered and are not
taken. Every row serves to cover such an item. -/
structure Problem.IsCover (problem : Problem ι) (rows : Finset Nat) : Prop where
  /-- The numbers are those of rows. -/
  lt : ∀ k ∈ rows, k < problem.rows.length
  /-- Every row lists an item that must be covered. -/
  primary : ∀ k ∈ rows, ∃ item ∈ problem.row k, isPrimaryItem item
  /-- No row lists an item that is taken. -/
  untaken : ∀ k ∈ rows, ∀ item ∈ problem.row k, ∀ x ∈ problem.taken, (x == item) = false
  /-- Items that must be covered and are not taken are covered once. -/
  covered : ∀ item ∈ problem.rows.flatten, isPrimaryItem item →
    (∀ x ∈ problem.taken, (x == item) = false) →
      ∃! k, k ∈ rows ∧ ∃ x ∈ problem.row k, x == item
  /-- Rows that share another item give it the same color. -/
  agree : ∀ j ∈ rows, ∀ k ∈ rows, j ≠ k → ∀ a ∈ problem.row j, ∀ b ∈ problem.row k,
    a == b → isPrimaryItem a = false → ∃ c d,
      (Item.kind a).color? = some c ∧ (Item.kind b).color? = some d ∧ c == d

/-- Lists of rows that are the covers, with no row twice in a cover and no cover twice. -/
structure Problem.Enumerates (problem : Problem ι) (found : List (List Nat)) : Prop where
  nodup : ∀ chosen ∈ found, chosen.Nodup
  once : (found.map List.toFinset).Nodup
  mem_iff : ∀ rows : Finset Nat, rows ∈ found.map List.toFinset ↔ problem.IsCover rows

theorem not_lists_iff {r : List ι} {item : ι} :
    lists r item = false ↔ ∀ x ∈ r, (x == item) = false := by
  simp [lists]

omit [BEq ι] in
theorem agrees_iff {a b : ι} : agrees a b ↔ ∃ c d,
    (Item.kind a).color? = some c ∧ (Item.kind b).color? = some d ∧ c == d := by
  rw [agrees]
  cases (Item.kind a).color? <;> cases (Item.kind b).color? <;> simp

theorem compatible_iff {r s : List ι} :
    compatible r s ↔ ∀ a ∈ r, ∀ b ∈ s, a == b → agrees a b := by
  simp only [compatible, List.all_eq_true, Bool.or_eq_true, Bool.not_eq_true']
  apply forall₄_congr
  intro a _ b _
  cases a == b <;> simp

theorem lists_congr [EquivBEq ι] {r : List ι} {x y : ι} (hxy : x == y) :
    lists r x ↔ lists r y := by
  rw [lists_iff, lists_iff]
  constructor
  · intro ⟨a, ha, hax⟩
    exact ⟨a, ha, BEq.trans hax hxy⟩
  · intro ⟨a, ha, hay⟩
    exact ⟨a, ha, BEq.trans hay (BEq.symm hxy)⟩

theorem compatible_symm [EquivBEq ι] [PartialEquivBEq χ] {r s : List ι} (h : compatible r s) :
    compatible s r := by
  rw [compatible_iff] at h ⊢
  intro b hb a ha hba
  obtain ⟨c, d, hc, hd, hcd⟩ := agrees_iff.mp (h a ha b hb (BEq.symm hba))
  exact agrees_iff.mpr ⟨d, c, hd, hc, BEq.symm hcd⟩

/-- Rows that share an item that must be covered cannot be chosen together. -/
theorem not_compatible_of_primary [LawfulItem ι] {r s : List ι} {item : ι}
    (hitem : isPrimaryItem item) (hr : lists r item) (hs : lists s item) : ¬compatible r s := by
  intro h
  obtain ⟨a, ha, hax⟩ := lists_iff.mp hr
  obtain ⟨b, hb, hbx⟩ := lists_iff.mp hs
  have hab : a == b := BEq.trans hax (BEq.symm hbx)
  obtain ⟨c, -, hc, -⟩ := agrees_iff.mp (compatible_iff.mp h a ha b hb hab)
  rw [← LawfulItem.isPrimary_eq hax] at hitem
  cases hkind : Item.kind a with
  | primary => simp [hkind, Kind.color?] at hc
  | secondary color => simp [isPrimaryItem, hkind, Kind.isPrimary] at hitem

namespace Problem

variable {problem : Problem ι} {chosen : List Nat} {item : ι} {k : Nat}

omit [BEq χ] in
theorem mem_openItems : item ∈ problem.openItems chosen ↔
    item ∈ distinct problem.rows.flatten ∧ isPrimaryItem item ∧
      lists problem.taken item = false ∧ ∀ k ∈ chosen, lists (problem.row k) item = false := by
  simp [openItems, and_assoc]

/-- A choice that the search can arrive at. -/
structure IsChoice (problem : Problem ι) (chosen : List Nat) : Prop where
  nodup : chosen.Nodup
  lt : ∀ k ∈ chosen, k < problem.rows.length
  primary : ∀ k ∈ chosen, ∃ item ∈ distinct problem.rows.flatten, isPrimaryItem item ∧
    lists (problem.row k) item
  untaken : ∀ k ∈ chosen, ∀ item ∈ problem.row k, lists problem.taken item = false
  compatible : chosen.Pairwise fun j k => compatible (problem.row j) (problem.row k)

theorem isChoice_nil : problem.IsChoice [] :=
  ⟨.nil, by simp, by simp, by simp, .nil⟩

/-- Trying a row leads from one choice to the next. -/
theorem IsChoice.concat (h : problem.IsChoice chosen)
    (hbranch : problem.branchItem? chosen = some item) (hk : k ∈ problem.candidates chosen item) :
    problem.IsChoice (chosen ++ [k]) := by
  obtain ⟨hlt, hlists, hlive⟩ := mem_candidates.mp hk
  obtain ⟨hmem, hitem, -, hopen⟩ := mem_openItems.mp (branchItem?_mem hbranch)
  rw [isLive, Bool.and_eq_true, List.all_eq_true, List.all_eq_true] at hlive
  have hnew : k ∉ chosen := by
    intro hmem
    rw [hopen k hmem] at hlists
    exact Bool.false_ne_true hlists
  constructor
  · rw [← List.concat_eq_append, List.nodup_concat]
    exact ⟨hnew, h.nodup⟩
  · intro j hj
    rcases List.mem_append.mp hj with hj | hj
    · exact h.lt j hj
    · rw [List.mem_singleton.mp hj]
      exact hlt
  · intro j hj
    rcases List.mem_append.mp hj with hj | hj
    · exact h.primary j hj
    · rw [List.mem_singleton.mp hj]
      exact ⟨item, hmem, hitem, hlists⟩
  · intro j hj
    rcases List.mem_append.mp hj with hj | hj
    · exact h.untaken j hj
    · rw [List.mem_singleton.mp hj]
      intro x hx
      simpa using hlive.1 x hx
  · rw [List.pairwise_append]
    refine ⟨h.compatible, List.pairwise_singleton _ _, fun j hj j' hj' => ?_⟩
    rw [List.mem_singleton.mp hj']
    exact hlive.2 j hj

/-- What the search finds are choices that leave no item open and extend the one it started from. -/
theorem IsChoice.of_mem_completions {found : List Nat} (h : problem.IsChoice chosen)
    (hfound : found ∈ problem.completions chosen) :
    problem.IsChoice found ∧ problem.openItems found = [] ∧ chosen ⊆ found := by
  induction chosen using problem.choice_induction with
  | stop chosen hbranch =>
    rw [completions_eq, hbranch, List.mem_singleton] at hfound
    rw [hfound]
    exact ⟨h, openItems_eq_nil hbranch, List.Subset.refl _⟩
  | branch chosen item hbranch ih =>
    rw [completions_eq, hbranch] at hfound
    obtain ⟨k, hk, hfound⟩ := List.mem_flatMap.mp hfound
    obtain ⟨hchoice, hnil, hsub⟩ := ih k hk (h.concat hbranch hk) hfound
    exact ⟨hchoice, hnil, fun j hj => hsub (List.mem_append_left _ hj)⟩

section Lawful

variable [LawfulItem ι] {rows : Finset Nat}

omit [BEq χ] in
/-- Where no item is open, every item that must be covered is taken or covered. -/
theorem exists_lists (hnil : problem.openItems chosen = []) (hmem : item ∈ problem.rows.flatten)
    (hitem : isPrimaryItem item) (hfree : lists problem.taken item = false) :
    ∃ k ∈ chosen, lists (problem.row k) item := by
  obtain ⟨x, hx, hxitem⟩ := exists_mem_distinct hmem
  by_contra hnone
  have hopen : x ∈ problem.openItems chosen := by
    refine mem_openItems.mpr ⟨hx, ?_, ?_, fun k hk => ?_⟩
    · rw [← LawfulItem.isPrimary_eq hxitem]
      exact hitem
    · rw [← Bool.not_eq_true, ← lists_congr hxitem, hfree]
      exact Bool.false_ne_true
    · rw [← Bool.not_eq_true, ← lists_congr hxitem]
      exact fun hlists => hnone ⟨k, hk, hlists⟩
  rw [hnil] at hopen
  contradiction

omit [LawfulItem ι] in
theorem IsChoice.compatible_of_ne [EquivBEq ι] [PartialEquivBEq χ] (h : problem.IsChoice chosen)
    {j : Nat} (hj : j ∈ chosen) (hk : k ∈ chosen) (hne : j ≠ k) :
    Naive.compatible (problem.row j) (problem.row k) := by
  have : Std.Symm fun j k => Naive.compatible (problem.row j) (problem.row k) :=
    ⟨fun _ _ => compatible_symm⟩
  exact h.compatible.forall hj hk hne

/-- A choice that leaves no item open is a cover. -/
theorem IsChoice.isCover [PartialEquivBEq χ] (h : problem.IsChoice chosen)
    (hnil : problem.openItems chosen = []) : problem.IsCover chosen.toFinset where
  lt k hk := h.lt k (List.mem_toFinset.mp hk)
  primary k hk := by
    obtain ⟨item, -, hitem, hlists⟩ := h.primary k (List.mem_toFinset.mp hk)
    obtain ⟨x, hx, hxitem⟩ := lists_iff.mp hlists
    exact ⟨x, hx, (LawfulItem.isPrimary_eq hxitem).trans hitem⟩
  untaken k hk item hitem := not_lists_iff.mp (h.untaken k (List.mem_toFinset.mp hk) item hitem)
  covered := by
    intro item hmem hitem hfree
    obtain ⟨k, hk, hlists⟩ := exists_lists hnil hmem hitem (not_lists_iff.mpr hfree)
    refine ⟨k, ⟨List.mem_toFinset.mpr hk, lists_iff.mp hlists⟩, ?_⟩
    intro j ⟨hj, hlists'⟩
    by_contra hne
    exact not_compatible_of_primary hitem (lists_iff.mpr hlists') hlists
      (h.compatible_of_ne (List.mem_toFinset.mp hj) hk hne)
  agree := by
    intro j hj k hk hne a ha b hb hab _
    have hcompatible := h.compatible_of_ne (List.mem_toFinset.mp hj) (List.mem_toFinset.mp hk) hne
    exact agrees_iff.mp (compatible_iff.mp hcompatible a ha b hb hab)

/-- The rows of a cover can be chosen one after another. -/
theorem IsCover.compatible (h : problem.IsCover rows) {j : Nat} (hj : j ∈ rows) (hk : k ∈ rows)
    (hne : j ≠ k) : Naive.compatible (problem.row j) (problem.row k) := by
  rw [compatible_iff]
  intro a ha b hb hab
  cases hitem : isPrimaryItem a with
  | true =>
    have huntaken := h.untaken j hj a ha
    obtain ⟨i, -, hunique⟩ := h.covered a (mem_flatten_of_mem_row ha) hitem huntaken
    have hji := hunique j ⟨hj, a, ha, BEq.rfl⟩
    have hki := hunique k ⟨hk, b, hb, BEq.symm hab⟩
    exact absurd (hji.trans hki.symm) hne
  | false => exact agrees_iff.mpr (h.agree j hj k hk hne a ha b hb hab hitem)

/-- The row of a cover that lists the item to branch on is among those that are tried. -/
theorem IsCover.exists_candidate (h : problem.IsCover rows)
    (hsub : ∀ k ∈ chosen, k ∈ rows) (hbranch : problem.branchItem? chosen = some item) :
    ∃ k ∈ rows, k ∈ problem.candidates chosen item := by
  obtain ⟨hmem, hitem, hfree, hopen⟩ := mem_openItems.mp (branchItem?_mem hbranch)
  obtain ⟨k, ⟨hk, hlists⟩, -⟩ :=
    h.covered item (distinct_subset hmem) hitem (not_lists_iff.mp hfree)
  refine ⟨k, hk, mem_candidates.mpr ⟨h.lt k hk, lists_iff.mpr hlists, ?_⟩⟩
  rw [isLive, Bool.and_eq_true, List.all_eq_true, List.all_eq_true]
  constructor
  · intro x hx
    rw [not_lists_iff.mpr (h.untaken k hk x hx)]
    rfl
  · intro j hj
    apply h.compatible (hsub j hj) hk
    rintro rfl
    rw [← lists_iff, hopen j hj] at hlists
    exact Bool.false_ne_true hlists

/-- A choice of rows of a cover is all of it if it leaves no item open. -/
theorem IsCover.toFinset_eq (h : problem.IsCover rows) (hsub : ∀ k ∈ chosen, k ∈ rows)
    (hnil : problem.openItems chosen = []) : chosen.toFinset = rows := by
  ext k
  rw [List.mem_toFinset]
  refine ⟨hsub k, fun hk => ?_⟩
  obtain ⟨x, hx, hitem⟩ := h.primary k hk
  have huntaken := h.untaken k hk x hx
  have hmem := mem_flatten_of_mem_row hx
  obtain ⟨j, hj, hlists⟩ := exists_lists hnil hmem hitem (not_lists_iff.mpr huntaken)
  obtain ⟨i, -, hunique⟩ := h.covered x hmem hitem huntaken
  have hji := hunique j ⟨hsub j hj, lists_iff.mp hlists⟩
  have hki := hunique k ⟨hk, x, hx, BEq.rfl⟩
  rw [hki, ← hji]
  exact hj

/-- No cover is missed: the search finds each that contains the choice it starts from. -/
theorem IsCover.exists_mem_completions (h : problem.IsCover rows) (hsub : ∀ k ∈ chosen, k ∈ rows) :
    ∃ found ∈ problem.completions chosen, found.toFinset = rows := by
  induction chosen using problem.choice_induction with
  | stop chosen hbranch =>
    rw [completions_eq, hbranch]
    exact ⟨chosen, List.mem_singleton_self _, h.toFinset_eq hsub (openItems_eq_nil hbranch)⟩
  | branch chosen item hbranch ih =>
    rw [completions_eq, hbranch]
    obtain ⟨k, hk, hcandidate⟩ := h.exists_candidate hsub hbranch
    have hsub' : ∀ j ∈ chosen ++ [k], j ∈ rows := by
      intro j hj
      rcases List.mem_append.mp hj with hj | hj
      · exact hsub j hj
      · rw [List.mem_singleton.mp hj]
        exact hk
    obtain ⟨found, hfound, heq⟩ := ih k hcandidate hsub'
    exact ⟨found, List.mem_flatMap.mpr ⟨k, hcandidate, hfound⟩, heq⟩

variable [PartialEquivBEq χ]

/-- What is found in different branches of a choice is different: the item that the search branches
on is covered by one row. -/
theorem IsChoice.disjoint_completions (h : problem.IsChoice chosen)
    (hbranch : problem.branchItem? chosen = some item) {j k : Nat}
    (hj : j ∈ problem.candidates chosen item) (hk : k ∈ problem.candidates chosen item)
    (hne : j ≠ k) :
    ((problem.completions (chosen ++ [j])).map List.toFinset).Disjoint
      ((problem.completions (chosen ++ [k])).map List.toFinset) := by
  intro rows hrows hrows'
  obtain ⟨found, hfound, rfl⟩ := List.mem_map.mp hrows
  obtain ⟨found', hfound', hsame⟩ := List.mem_map.mp hrows'
  obtain ⟨hchoice, -, hsub⟩ := (h.concat hbranch hj).of_mem_completions hfound
  obtain ⟨-, -, hsub'⟩ := (h.concat hbranch hk).of_mem_completions hfound'
  have hjFound : j ∈ found := hsub (by simp)
  have hkFound : k ∈ found := by
    rw [← List.mem_toFinset, ← hsame, List.mem_toFinset]
    exact hsub' (by simp)
  have hitem := (mem_openItems.mp (branchItem?_mem hbranch)).2.1
  exact not_compatible_of_primary hitem (mem_candidates.mp hj).2.1 (mem_candidates.mp hk).2.1
    (hchoice.compatible_of_ne hjFound hkFound hne)

/-- No cover is found twice. -/
theorem IsChoice.nodup_completions (h : problem.IsChoice chosen) :
    ((problem.completions chosen).map List.toFinset).Nodup := by
  induction chosen using problem.choice_induction with
  | stop chosen hbranch =>
    rw [completions_eq, hbranch]
    exact List.nodup_singleton _
  | branch chosen item hbranch ih =>
    rw [completions_eq, hbranch, List.map_flatMap, List.nodup_flatMap]
    constructor
    · intro k hk
      exact ih k hk (h.concat hbranch hk)
    · have hnodup : (problem.candidates chosen item).Nodup := List.nodup_range.filter _
      apply hnodup.pairwise_of_forall_ne
      intro j hj k hk hne
      exact h.disjoint_completions hbranch hj hk hne

omit [LawfulItem ι] [PartialEquivBEq χ] in
theorem isChoice_of_mem_solutions {found : List Nat} (h : found ∈ problem.solutions) :
    problem.IsChoice found ∧ problem.openItems found = [] := by
  obtain ⟨hchoice, hnil, -⟩ := isChoice_nil.of_mem_completions h
  exact ⟨hchoice, hnil⟩

/-- The solutions are the covers, each by the rows in the order in which they are chosen. -/
theorem mem_solutions_iff : rows ∈ problem.solutions.map List.toFinset ↔ problem.IsCover rows := by
  rw [List.mem_map]
  constructor
  · rintro ⟨found, hfound, rfl⟩
    obtain ⟨hchoice, hnil⟩ := isChoice_of_mem_solutions hfound
    exact hchoice.isCover hnil
  · intro h
    exact h.exists_mem_completions fun _ hk => nomatch hk

/-- The solutions are all covers, each of them once. -/
theorem solutions_enumerate : problem.Enumerates problem.solutions where
  nodup _ hchosen := (isChoice_of_mem_solutions hchosen).1.nodup
  once := isChoice_nil.nodup_completions
  mem_iff _ := mem_solutions_iff

end Lawful

end Problem

end Naive

end ExactCover
