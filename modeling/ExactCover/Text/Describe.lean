import ExactCover.Text.Quoted

/-!
# Descriptions of values

Messages name items, colors and kinds. `describe` gives the text they use: numbers in decimal,
labels in quotes, and a composite value as the name of its shape with the parts in brackets.
-/

set_option autoImplicit false

namespace ExactCover

/-- Types whose values have a text for use in messages. -/
class Describe (α : Type) where
  /-- The text that stands for a value. -/
  describe : α → String

export Describe (describe)

instance : Describe Nat := ⟨fun n => Nat.repr n⟩

/-- A negative number has a minus sign in front of its digits. -/
instance : Describe Int where
  describe
    | .ofNat n => Nat.repr n
    | .negSucc n => "-" ++ Nat.repr (n + 1)

instance : Describe Bool := ⟨fun b => if b then "true" else "false"⟩

instance : Describe Char := ⟨Text.quoteChar⟩

instance : Describe String := ⟨Text.quoteString⟩

instance : Describe Empty := ⟨fun e => nomatch e⟩

instance {α : Type} [Describe α] : Describe (Option α) where
  describe
    | none => "None"
    | some a => "Some(" ++ describe a ++ ")"

end ExactCover
