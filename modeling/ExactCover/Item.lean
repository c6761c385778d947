import ExactCover.Text.Describe

/-!
# Items, the conditions of a problem

An exact cover problem asks for a choice of options that covers every *primary* item once. A
*secondary* item need not be covered at all; if it is, then by one option, or by several that
agree on a *color* for it.

The color belongs to the pair of an option and an item, not to the item. An item type therefore
has its own equality, which decides what counts as the same item, and that equality is expected to
ignore the color: otherwise each color would be an item of its own, and nothing would make two
options agree.
-/

set_option autoImplicit false

namespace ExactCover

/-- The part an item plays in a problem. -/
inductive Kind (χ : Type) where
  /-- To be covered by exactly one option of a solution. -/
  | primary
  /-- To be covered by at most one option, or by any number that give it the same color. -/
  | secondary (color : Option χ)
  deriving DecidableEq, Repr

namespace Kind

variable {χ : Type}

/-- Whether the item has to be covered. -/
def isPrimary : Kind χ → Bool
  | .primary => true
  | .secondary _ => false

/-- The color of a secondary item that has one. -/
def color? : Kind χ → Option χ
  | .primary => none
  | .secondary color => color

instance [Describe χ] : Describe (Kind χ) where
  describe
    | .primary => "Primary"
    | .secondary color => "Secondary(" ++ describe color ++ ")"

end Kind

/-- Types whose values are items, with colors from `χ`. The equality of items is that of their
`BEq` instance. -/
class Item (ι : Type) (χ : outParam Type) where
  /-- The part that an item plays. -/
  kind : ι → Kind χ

/-! Plain values are primary items and know no colors. -/

instance : Item Nat Empty := ⟨fun _ => .primary⟩

instance : Item Int Empty := ⟨fun _ => .primary⟩

instance : Item Bool Empty := ⟨fun _ => .primary⟩

instance : Item Char Empty := ⟨fun _ => .primary⟩

instance : Item String Empty := ⟨fun _ => .primary⟩

/-- The first item of a list that is equal to an earlier one. -/
def firstRepeat? {ι : Type} [BEq ι] (items : List ι) : Option ι :=
  go [] items
where
  /-- Looks for an item that is among those seen or repeated later. -/
  go (seen : List ι) : List ι → Option ι
    | [] => none
    | item :: rest => if seen.contains item then some item else go (item :: seen) rest

/-- The items of a list without those that are equal to an earlier one, in their order. -/
def distinct {ι : Type} [BEq ι] (items : List ι) : List ι :=
  items.foldl (fun kept item => if kept.contains item then kept else kept ++ [item]) []

end ExactCover
