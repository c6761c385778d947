import ExactCover.Decimal.Binary

/-!
# A fixed number of decimal places

A number is written with a given number of places behind the point by rounding its exact value to
the nearest multiple of the last place. A value halfway between two multiples goes to the one
whose last digit is even.
-/

set_option autoImplicit false

namespace ExactCover.Decimal

/-- The whole number nearest to a fraction, and of two that are equally near the even one. -/
def roundHalfEven (num den : Nat) : Nat :=
  let floor := num / den
  let twice := 2 * (num % den)
  if twice < den then floor
  else if den < twice then floor + 1
  else if floor % 2 = 0 then floor
  else floor + 1

/-- Digits with a point in front of the last `places` of them, and at least one digit before it. -/
def withPoint (places n : Nat) : String :=
  let ds := digits n
  let padded := List.replicate (places + 1 - ds.length) '0' ++ ds
  let whole := padded.take (padded.length - places)
  let behind := padded.drop (padded.length - places)
  String.ofList (if places = 0 then whole else whole ++ '.' :: behind)

/-- A number with a fixed number of places behind the point. -/
def fixed (places : Nat) (x : Float) : String :=
  match Word.ofFloat x with
  | .nan => "NaN"
  | .infinite isNegative => if isNegative then "-inf" else "inf"
  | .finite isNegative b =>
    let text := withPoint places (roundHalfEven (b.numerator * Nat.pow 10 places) b.denominator)
    if isNegative then "-" ++ text else text

end ExactCover.Decimal
