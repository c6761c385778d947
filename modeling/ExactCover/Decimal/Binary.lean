/-!
# The exact value of a binary64 word

A floating point number is one of finitely many fractions with a power of two below the line, an
infinity, or no number. Writing such a number in decimal starts from the exact fraction, and so do
both modules beside this one: all their arithmetic is on natural numbers.
-/

set_option autoImplicit false

namespace ExactCover.Decimal

/-- The size of a finite binary64 number, `significand * 2 ^ exponent`. -/
structure Binary where
  /-- The digits, as a whole number below `2 ^ 53`. -/
  significand : Nat
  /-- The power of two they are multiplied with. -/
  exponent : Int
  deriving DecidableEq, Repr

namespace Binary

/-- The numerator of the fraction that a number is. -/
def numerator (b : Binary) : Nat := b.significand * Nat.pow 2 b.exponent.toNat

/-- The denominator of the fraction that a number is. -/
def denominator (b : Binary) : Nat := Nat.pow 2 (-b.exponent).toNat

/-- The exponent of the numbers closest to zero. -/
def leastExponent : Int := -1074

/-- Whether the next smaller number is only half as far away as the next larger one, which is so
where a new power of two begins. -/
def isLowerNeighborCloser (b : Binary) : Bool :=
  b.significand == Nat.pow 2 52 && leastExponent < b.exponent

end Binary

/-- What a binary64 word stands for. -/
inductive Word where
  /-- No number. -/
  | nan
  /-- An infinity with its sign. -/
  | infinite (isNegative : Bool)
  /-- A number with its sign, which zero has as well. -/
  | finite (isNegative : Bool) (size : Binary)
  deriving DecidableEq, Repr

/-- Reads the three fields of a word. -/
def Word.ofBits (bits : UInt64) : Word :=
  let isNegative : Bool := Nat.pow 2 63 ≤ bits.toNat
  let field : Nat := bits.toNat / Nat.pow 2 52 % Nat.pow 2 11
  let fraction : Nat := bits.toNat % Nat.pow 2 52
  if field = Nat.pow 2 11 - 1 then
    if fraction = 0 then .infinite isNegative else .nan
  else if field = 0 then .finite isNegative ⟨fraction, Binary.leastExponent⟩
  else .finite isNegative ⟨Nat.pow 2 52 + fraction, Binary.leastExponent + ((field : Int) - 1)⟩

/-- What a floating point number stands for. -/
def Word.ofFloat (x : Float) : Word := .ofBits x.toBits

/-- The decimal digits of a number, the first of them first. -/
def digits (n : Nat) : List Char := Nat.toDigits 10 n

end ExactCover.Decimal
