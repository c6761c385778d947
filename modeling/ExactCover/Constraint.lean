import ExactCover.Item

/-!
# Labelled constraints

`Constraint` is a ready-made item type: a label that is tagged as primary or secondary, with a
color on the secondary ones. Equality looks at the tag and the label, so the same label with two
colors names one item, and the same label with two tags names two.
-/

set_option autoImplicit false

namespace ExactCover

/-- A label tagged with the part it plays. -/
inductive Constraint (α χ : Type) where
  /-- A label to be covered exactly once. -/
  | primary (label : α)
  /-- A label that options cover without need, in agreement on its color. -/
  | secondary (label : α) (color : Option χ)
  deriving Repr

namespace Constraint

variable {α χ : Type}

/-- The label without its tag and color. -/
def label : Constraint α χ → α
  | .primary label => label
  | .secondary label _ => label

/-- The tag and the color without the label. -/
def kind : Constraint α χ → Kind χ
  | .primary _ => .primary
  | .secondary _ color => .secondary color

/-- Equality of tags and labels. -/
def same [BEq α] : Constraint α χ → Constraint α χ → Bool
  | .primary a, .primary b => a == b
  | .secondary a _, .secondary b _ => a == b
  | _, _ => false

instance [BEq α] : BEq (Constraint α χ) := ⟨same⟩

instance : Item (Constraint α χ) χ := ⟨kind⟩

instance [Describe α] [Describe χ] : Describe (Constraint α χ) where
  describe
    | .primary label => "Primary(" ++ describe label ++ ")"
    | .secondary label color => "Secondary(" ++ describe label ++ ", " ++ describe color ++ ")"

end Constraint

end ExactCover
