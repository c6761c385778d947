import ExactCover.Proofs.Found

/-!
# Extensions of pre-selected options

An *extension* of pre-selected options is a set of options that contains them and covers what must
be covered once. Its options may share an item that need not be covered if they agree on a color,
and that goes for a pre-selected option and a further one as well.

A search takes the columns of all pre-selected items out before it starts, those of colored items
included. So it reports the extensions whose further options share no item with a pre-selected one,
each of them once (`reports_apart_extensions`). An extension in which a further option uses a
pre-selected item again, in the same color, is not reported.
-/

set_option autoImplicit false

namespace ExactCover

namespace Naive

variable {ι χ : Type} [BEq ι] [BEq χ] [Item ι χ]

/-- The rows in a set contain the pre-selected ones and can be chosen together, and they cover all
items that must be covered. Every further row serves to cover such an item. -/
structure IsExtension (rows : List (List ι)) (pre : List Nat) (all : Finset Nat) : Prop where
  /-- The numbers are those of rows. -/
  lt : ∀ k ∈ all, k < rows.length
  /-- The pre-selected rows are among them. -/
  contains : ∀ k ∈ pre, k ∈ all
  /-- Every further row lists an item that must be covered. -/
  primary : ∀ k ∈ all, k ∉ pre → ∃ item ∈ rows.getD k [], isPrimaryItem item
  /-- Items that must be covered are covered once. -/
  covered : ∀ item ∈ rows.flatten, isPrimaryItem item →
    ∃! k, k ∈ all ∧ lists (rows.getD k []) item
  /-- Rows that share another item give it the same color. -/
  agree : ∀ j ∈ all, ∀ k ∈ all, j ≠ k → ∀ a ∈ rows.getD j [], ∀ b ∈ rows.getD k [],
    a == b → isPrimaryItem a = false → agrees a b

/-- No further row shares an item with a pre-selected one. -/
def IsApart (rows : List (List ι)) (pre : List Nat) (all : Finset Nat) : Prop :=
  ∀ k ∈ all, k ∉ pre → ∀ j ∈ pre, ∀ a ∈ rows.getD k [], ∀ b ∈ rows.getD j [], (b == a) = false

variable {rows : List (List ι)} {pre : List Nat} {all further : Finset Nat}

/-- The problem that is left when some rows are pre-selected. -/
abbrev remaining (rows : List (List ι)) (pre : List Nat) : Problem ι :=
  ⟨rows, pre.flatMap fun k => rows.getD k []⟩

omit [BEq ι] in
theorem mem_taken_remaining {item : ι} :
    item ∈ (remaining rows pre).taken ↔ ∃ j ∈ pre, item ∈ rows.getD j [] := by
  simp

/-- The further rows of an extension that share no item with a pre-selected one are a cover. -/
theorem IsExtension.isCover_sdiff (h : IsExtension rows pre all) (hapart : IsApart rows pre all) :
    (remaining rows pre).IsCover (all \ pre.toFinset) where
  lt k hk := h.lt k (Finset.mem_sdiff.mp hk).1
  primary k hk := by
    obtain ⟨hk, hpre⟩ := Finset.mem_sdiff.mp hk
    exact h.primary k hk (by simpa using hpre)
  untaken k hk item hitem x hx := by
    obtain ⟨hk, hpre⟩ := Finset.mem_sdiff.mp hk
    obtain ⟨j, hj, hx⟩ := mem_taken_remaining.mp hx
    exact hapart k hk (by simpa using hpre) j hj item hitem x hx
  covered item hmem hitem hfree := by
    obtain ⟨k, ⟨hk, hlists⟩, hunique⟩ := h.covered item hmem hitem
    obtain ⟨x, hx, hxitem⟩ := lists_iff.mp hlists
    have hpre : k ∉ pre := by
      intro hpre
      rw [hfree x (mem_taken_remaining.mpr ⟨k, hpre, hx⟩)] at hxitem
      exact Bool.false_ne_true hxitem
    refine ⟨k, ⟨Finset.mem_sdiff.mpr ⟨hk, by simpa using hpre⟩, x, hx, hxitem⟩, ?_⟩
    intro j ⟨hj, hlists'⟩
    exact hunique j ⟨(Finset.mem_sdiff.mp hj).1, lists_iff.mpr hlists'⟩
  agree j hj k hk hne a ha b hb hab hitem :=
    agrees_iff.mp
      (h.agree j (Finset.mem_sdiff.mp hj).1 k (Finset.mem_sdiff.mp hk).1 hne a ha b hb hab hitem)

/-- The rows of a cover are none of the pre-selected ones. -/
theorem Problem.IsCover.not_mem_pre [ReflBEq ι] (h : (remaining rows pre).IsCover further) {k : Nat}
    (hk : k ∈ further) : k ∉ pre := by
  intro hpre
  obtain ⟨item, hitem, -⟩ := h.primary k hk
  have huntaken := h.untaken k hk item hitem item (mem_taken_remaining.mpr ⟨k, hpre, hitem⟩)
  rw [BEq.rfl] at huntaken
  contradiction

theorem Problem.IsCover.union_sdiff [ReflBEq ι] (h : (remaining rows pre).IsCover further) :
    (pre.toFinset ∪ further) \ pre.toFinset = further := by
  rw [Finset.union_sdiff_left, Finset.sdiff_eq_self_iff_disjoint, Finset.disjoint_left]
  exact fun k hk hpre => h.not_mem_pre hk (List.mem_toFinset.mp hpre)

/-- A cover shares no item with the pre-selected rows. -/
theorem Problem.IsCover.isApart (h : (remaining rows pre).IsCover further) :
    IsApart rows pre (pre.toFinset ∪ further) := by
  intro k hk hpre j hj a ha b hb
  have hk := (Finset.mem_union.mp hk).resolve_left (by simpa using hpre)
  exact h.untaken k hk a ha b (mem_taken_remaining.mpr ⟨j, hj, hb⟩)

/-- Pre-selected rows that can be chosen together can be chosen together with those of a cover. -/
theorem Problem.IsCover.compatible_union [LawfulItem ι] [PartialEquivBEq χ]
    (h : (remaining rows pre).IsCover further)
    (hcompatible : pre.Pairwise fun j k => Naive.compatible (rows.getD j []) (rows.getD k []))
    {j k : Nat} (hj : j ∈ pre.toFinset ∪ further) (hk : k ∈ pre.toFinset ∪ further)
    (hne : j ≠ k) : Naive.compatible (rows.getD j []) (rows.getD k []) := by
  have hmixed : ∀ {j k : Nat}, j ∈ pre → k ∈ further →
      Naive.compatible (rows.getD j []) (rows.getD k []) := by
    intro j k hj hk
    rw [compatible_iff]
    intro a ha b hb hab
    rw [h.untaken k hk b hb a (mem_taken_remaining.mpr ⟨j, hj, ha⟩)] at hab
    contradiction
  rw [Finset.mem_union, List.mem_toFinset] at hj hk
  rcases hj with hj | hj <;> rcases hk with hk | hk
  · have : Std.Symm fun j k => Naive.compatible (rows.getD j []) (rows.getD k []) :=
      ⟨fun _ _ => compatible_symm⟩
    exact hcompatible.forall hj hk hne
  · exact hmixed hj hk
  · exact compatible_symm (hmixed hk hj)
  · exact h.compatible hj hk hne

/-- Pre-selected rows that can be chosen together are extended by a cover. -/
theorem Problem.IsCover.isExtension [LawfulItem ι] [PartialEquivBEq χ]
    (h : (remaining rows pre).IsCover further) (hlt : ∀ k ∈ pre, k < rows.length)
    (hcompatible : pre.Pairwise fun j k => Naive.compatible (rows.getD j []) (rows.getD k [])) :
    IsExtension rows pre (pre.toFinset ∪ further) where
  lt k hk := by
    rcases Finset.mem_union.mp hk with hk | hk
    · exact hlt k (List.mem_toFinset.mp hk)
    · exact h.lt k hk
  contains k hk := Finset.mem_union_left _ (List.mem_toFinset.mpr hk)
  primary k hk hpre :=
    h.primary k ((Finset.mem_union.mp hk).resolve_left (by simpa using hpre))
  covered item hmem hitem := by
    have hone : ∃ k ∈ pre.toFinset ∪ further, lists (rows.getD k []) item := by
      by_cases htaken : lists (remaining rows pre).taken item
      · obtain ⟨x, hx, hxitem⟩ := lists_iff.mp htaken
        obtain ⟨j, hj, hx⟩ := mem_taken_remaining.mp hx
        exact ⟨j, by simp [hj], lists_iff.mpr ⟨x, hx, hxitem⟩⟩
      · rw [Bool.not_eq_true, not_lists_iff] at htaken
        obtain ⟨k, ⟨hk, hlists⟩, -⟩ := h.covered item hmem hitem htaken
        exact ⟨k, Finset.mem_union_right _ hk, lists_iff.mpr hlists⟩
    obtain ⟨k, hk, hlists⟩ := hone
    refine ⟨k, ⟨hk, hlists⟩, fun j ⟨hj, hlists'⟩ => ?_⟩
    by_contra hne
    exact not_compatible_of_primary hitem hlists' hlists
      (h.compatible_union hcompatible hj hk hne)
  agree j hj k hk hne a ha b hb hab _ :=
    compatible_iff.mp (h.compatible_union hcompatible hj hk hne) a ha b hb hab

/-- The covers of what remains, together with the pre-selected rows, are the extensions whose
further rows share no item with a pre-selected one. -/
theorem isExtension_and_isApart_iff [LawfulItem ι] [PartialEquivBEq χ]
    (hlt : ∀ k ∈ pre, k < rows.length)
    (hcompatible : pre.Pairwise fun j k => compatible (rows.getD j []) (rows.getD k [])) :
    IsExtension rows pre all ∧ IsApart rows pre all ↔
      ∃ further, (remaining rows pre).IsCover further ∧ pre.toFinset ∪ further = all := by
  constructor
  · rintro ⟨h, hapart⟩
    refine ⟨_, h.isCover_sdiff hapart, Finset.union_sdiff_of_subset fun k hk => ?_⟩
    exact h.contains k (List.mem_toFinset.mp hk)
  · rintro ⟨further, h, rfl⟩
    exact ⟨h.isExtension hlt hcompatible, h.isApart⟩

/-- Lists of rows, beginning with the pre-selected ones, that are the extensions whose further rows
share no item with these, with no row twice in an extension and no extension twice. -/
structure EnumeratesExtensions (rows : List (List ι)) (pre : List Nat) (found : List (List Nat)) :
    Prop where
  starts : ∀ chosen ∈ found, pre <+: chosen
  nodup : ∀ chosen ∈ found, chosen.Nodup
  once : (found.map List.toFinset).Nodup
  mem_iff : ∀ all : Finset Nat, all ∈ found.map List.toFinset ↔
    IsExtension rows pre all ∧ IsApart rows pre all

/-- The solutions of what remains enumerate the extensions. -/
theorem solutions_enumerate_extensions [LawfulItem ι] [PartialEquivBEq χ]
    (hlt : ∀ k ∈ pre, k < rows.length) (hnodup : pre.Nodup)
    (hcompatible : pre.Pairwise fun j k => compatible (rows.getD j []) (rows.getD k [])) :
    EnumeratesExtensions rows pre ((remaining rows pre).solutions.map (pre ++ ·)) := by
  have henumerate := (remaining rows pre).solutions_enumerate
  have hcover : ∀ chosen ∈ (remaining rows pre).solutions,
      (remaining rows pre).IsCover chosen.toFinset := fun chosen hchosen =>
    (henumerate.mem_iff _).mp (List.mem_map_of_mem hchosen)
  have hmap : ((remaining rows pre).solutions.map (pre ++ ·)).map List.toFinset =
      ((remaining rows pre).solutions.map List.toFinset).map (pre.toFinset ∪ ·) := by
    rw [List.map_map, List.map_map]
    apply List.map_congr_left
    intro chosen _
    simp [List.toFinset_append]
  constructor
  case starts =>
    intro chosen hchosen
    obtain ⟨further, -, rfl⟩ := List.mem_map.mp hchosen
    exact List.prefix_append pre further
  case nodup =>
    intro chosen hchosen
    obtain ⟨further, hfurther, rfl⟩ := List.mem_map.mp hchosen
    refine List.nodup_append.mpr ⟨hnodup, henumerate.nodup further hfurther, ?_⟩
    rintro k hk _ hk' rfl
    exact (hcover further hfurther).not_mem_pre (List.mem_toFinset.mpr hk') hk
  case once =>
    rw [hmap]
    refine henumerate.once.map_on fun further hfurther further' hfurther' hsame => ?_
    have hfurther := (henumerate.mem_iff further).mp hfurther
    have hfurther' := (henumerate.mem_iff further').mp hfurther'
    rw [← hfurther.union_sdiff, hsame, hfurther'.union_sdiff]
  case mem_iff =>
    intro all
    rw [isExtension_and_isApart_iff hlt hcompatible, hmap, List.mem_map]
    simp only [henumerate.mem_iff]

end Naive

namespace Solver

variable {γ ο ι χ σ ε τ : Type} [BEq ι] [BEq χ] [Item ι χ] [Describe ι]
  {callbacks : Callbacks σ ο ε τ} {options : List ο} {trace : Option (Trace σ τ)} {pre : List Nat}
  (items : ο → List ι)

omit [BEq ι] [BEq χ] [Item ι χ] [Describe ι] in
/-- The items of options that are named by their numbers. -/
theorem flatMap_filterMap_getElem? (options : List ο) (pre : List Nat) :
    (pre.filterMap fun k => options[k]?).flatMap items =
      pre.flatMap fun k => (options.map items).getD k [] := by
  induction pre with
  | nil => rfl
  | cons k pre ih =>
    rw [List.flatMap_cons, ← ih]
    cases hk : options[k]? with
    | none => simp [hk]
    | some option => simp [hk]

variable [LawfulItem ι] [EquivBEq χ]

/-- What a search reports of pre-selected options that are named by their numbers. -/
theorem reports_given_of_numbers [Grid γ ι χ] [LawfulGrid γ]
    (hitems : ∀ option ∈ options, firstRepeat? (items option) = none) (pre : List Nat)
    (htrace : ∀ observer ∈ trace, observer.Returns) (hcallbacks : callbacks.GoOn) (world : σ) :
    ((onGrid items : Solver γ ο ι σ τ).given trace options).reports callbacks
        (pre.filterMap fun k => options[k]?) world =
      (.ok (), ((Naive.remaining (options.map items) pre).solutions.map (pre ++ ·)).map
        fun chosen => chosen.filterMap fun k => options[k]?) := by
  have hpre : ∀ chosen ∈ pre.filterMap fun k => options[k]?, ∀ item ∈ items chosen,
      ∃ option ∈ options, ∃ x ∈ items option, x == item := by
    intro chosen hchosen item hitem
    obtain ⟨k, -, hk⟩ := List.mem_filterMap.mp hchosen
    exact ⟨chosen, List.mem_of_getElem? hk, item, hitem, BEq.rfl⟩
  rw [reports_given items hitems hpre htrace hcallbacks world, flatMap_filterMap_getElem?,
    List.map_map]
  congr 1
  apply List.map_congr_left
  intro chosen _
  exact List.filterMap_append.symm

/-- A search on an open or a sealed solver, with pre-selected options that can be chosen together,
reports the extensions whose further options share no item with a pre-selected one, and reports
each of them once. -/
theorem reports_apart_extensions
    (hitems : ∀ option ∈ options, firstRepeat? (items option) = none)
    (hlt : ∀ k ∈ pre, k < options.length) (hnodup : pre.Nodup)
    (hcompatible : pre.Pairwise fun j k =>
      Naive.compatible ((options.map items).getD j []) ((options.map items).getD k []))
    (htrace : ∀ observer ∈ trace, observer.Returns) (hcallbacks : callbacks.GoOn) (world : σ) :
    ∃ found, Naive.EnumeratesExtensions (options.map items) pre found ∧
      ((woven items).given trace options).reports callbacks
          (pre.filterMap fun k => options[k]?) world =
        (.ok (), found.map fun chosen => chosen.filterMap fun k => options[k]?) ∧
      ((packed items).given trace options).reports callbacks
          (pre.filterMap fun k => options[k]?) world =
        (.ok (), found.map fun chosen => chosen.filterMap fun k => options[k]?) := by
  have hlt' : ∀ k ∈ pre, k < (options.map items).length := by
    intro k hk
    rw [List.length_map]
    exact hlt k hk
  refine ⟨_, Naive.solutions_enumerate_extensions hlt' hnodup hcompatible, ?_, ?_⟩
  · exact reports_given_of_numbers items hitems pre htrace hcallbacks world
  · exact reports_given_of_numbers items hitems pre htrace hcallbacks world

/-- A pre-selected option with a colored item, and options that do and do not use it again. -/
theorem reports_apart_extensions_of_colored :
    let options : List (List (Constraint Nat Nat)) :=
      [[.primary 0, .secondary 2 (some 7)], [.primary 1, .secondary 2 (some 7)], [.primary 1]]
    let callbacks : Callbacks Unit (List (Constraint Nat Nat)) Empty Empty :=
      ⟨fun _ => pure (.ok ()), pure false⟩
    ∃ found, Naive.EnumeratesExtensions (options.map id) [0] found ∧
      ((woven id).given none options).reports callbacks ([0].filterMap fun k => options[k]?) () =
        (.ok (), found.map fun chosen => chosen.filterMap fun k => options[k]?) ∧
      ((packed id).given none options).reports callbacks ([0].filterMap fun k => options[k]?) () =
        (.ok (), found.map fun chosen => chosen.filterMap fun k => options[k]?) :=
  reports_apart_extensions id (by decide) (by decide) (by decide) (by decide) (by simp)
    ⟨fun _ world => ⟨world, rfl⟩, fun world => ⟨world, rfl⟩⟩ ()

/-- Two options with the same colored item are an extension of the first, but with that one
pre-selected the second is never tried. -/
theorem not_reports_extension_of_shared_color :
    let options : List (List (Constraint Nat Nat)) :=
      [[.primary 0, .secondary 2 (some 7)], [.primary 1, .secondary 2 (some 7)]]
    let callbacks : Callbacks Unit (List (Constraint Nat Nat)) Empty Empty :=
      ⟨fun _ => pure (.ok ()), pure false⟩
    Naive.IsExtension options [0] {0, 1} ∧
      ((woven id).given none options).reports callbacks [options[0]] () = (.ok (), []) ∧
      ((packed id).given none options).reports callbacks [options[0]] () = (.ok (), []) := by
  intro options callbacks
  have hcallbacks : callbacks.GoOn := ⟨fun _ world => ⟨world, rfl⟩, fun world => ⟨world, rfl⟩⟩
  have hsolutions : (Naive.remaining (options.map id) [0]).solutions = [] := by decide
  have hnone (γ : Type) [Grid γ (Constraint Nat Nat) Nat] [LawfulGrid γ] :
      ((onGrid id : Solver γ _ _ _ _).given none options).reports callbacks [options[0]] () =
        (.ok (), []) := by
    have hreports : ((onGrid id : Solver γ _ _ _ _).given none options).reports callbacks
        [options[0]] () = _ :=
      reports_given_of_numbers id (by decide) [0] (by simp) hcallbacks ()
    rw [hreports, hsolutions]
    rfl
  have hcovered : ∀ item ∈ options.flatten, isPrimaryItem item →
      ∃ k ∈ ({0, 1} : Finset Nat), Naive.lists (options.getD k []) item ∧
        ∀ j ∈ ({0, 1} : Finset Nat), Naive.lists (options.getD j []) item → j = k := by
    decide
  refine ⟨⟨by decide, by decide, by decide, fun item hmem hitem => ?_, by decide⟩, hnone _, hnone _⟩
  obtain ⟨k, hk, hlists, hunique⟩ := hcovered item hmem hitem
  exact ⟨k, ⟨hk, hlists⟩, fun j hj => hunique j hj.1 hj.2⟩

end Solver

end ExactCover
