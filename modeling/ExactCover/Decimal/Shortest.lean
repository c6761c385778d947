import ExactCover.Decimal.Binary

/-!
# The fewest digits that read back

Every real number that is nearer to a floating point number than to its neighbors is read as that
number. The shortest text is a decimal with the fewest digits in this interval, and of these the
one nearest to the number.

For a given count of digits the decimals form a grid, and only the two points of the grid next to
the number can be nearest to it. So it is enough to try the two points on the grids for one digit,
two digits and so on. Seventeen digits always suffice. All tests are made on whole numbers: the
number and the ends of its interval are brought to a common denominator.
-/

set_option autoImplicit false

namespace ExactCover.Decimal

/-- The number `digits * 10 ^ exponent`. -/
structure Scientific where
  /-- The digits, as a whole number. -/
  digits : Nat
  /-- The power of ten they are multiplied with. -/
  exponent : Int
  deriving DecidableEq, Repr

/-- The least power of ten that is greater than a positive fraction. -/
def magnitude (num den : Nat) : Int :=
  if den ≤ num then (digits (num / den)).length
  else 1 - ((digits (den / num)).length : Int)

/-- The interval of real numbers that are read as a given number, all over one denominator. -/
structure Interval where
  /-- The number itself. -/
  center : Nat
  /-- The lower end. -/
  low : Nat
  /-- The upper end. -/
  high : Nat
  /-- The common denominator. -/
  den : Nat
  /-- Whether the ends belong to the interval. -/
  isClosed : Bool

/-- The ends of the interval lie halfway to the neighbors, and they are read as the number whose
significand is even. -/
def Binary.interval (b : Binary) : Interval :=
  let quarter : Nat := Nat.pow 2 b.exponent.toNat
  { center := 4 * b.numerator
    low := 4 * b.numerator - (if b.isLowerNeighborCloser then 1 else 2) * quarter
    high := 4 * b.numerator + 2 * quarter
    den := 4 * b.denominator
    isClosed := b.significand % 2 == 0 }

/-- The point of the grid of multiples of `10 ^ exponent` that lies in the interval and is nearest
to its center, if there is one. Of two that are equally near it is the upper one. -/
def Interval.gridPoint? (i : Interval) (exponent : Int) : Option Scientific :=
  let up := Nat.pow 10 (-exponent).toNat
  let unit := i.den * Nat.pow 10 exponent.toNat
  let isInside (k : Nat) : Bool :=
    if i.isClosed then i.low * up ≤ k * unit && k * unit ≤ i.high * up
    else i.low * up < k * unit && k * unit < i.high * up
  let below := i.center * up / unit
  let above := below + 1
  let isBelowNearer := 2 * (i.center * up) < (below + above) * unit
  if isInside below && (isBelowNearer || !isInside above) then some ⟨below, exponent⟩
  else if isInside above then some ⟨above, exponent⟩
  else none

/-- Drops zeros at the end of the digits, at most as many as the given number. -/
def Scientific.trim : Nat → Scientific → Scientific
  | 0, s => s
  | fuel + 1, s =>
    if s.digits % 10 = 0 && s.digits ≠ 0 then trim fuel ⟨s.digits / 10, s.exponent + 1⟩ else s

/-- The fewest digits that are read as a given positive number. -/
def Binary.shortest (b : Binary) : Scientific :=
  let top := magnitude b.numerator b.denominator
  let grids := (List.range 17).map fun (k : Nat) => top - ((k : Int) + 1)
  match grids.findSome? b.interval.gridPoint? with
  | some s => s.trim 17
  | none => ⟨b.significand, b.exponent⟩

/-- The range of exponents in which a number is written with a point alone. The exponent is that of
the first digit. -/
structure Positional where
  /-- The least exponent that is written out. -/
  least : Int
  /-- The greatest exponent that is written out. -/
  greatest : Int

/-- Digits with a point among them, in front of them or behind them, and at least one digit on
either side of it. -/
def Scientific.plain (s : Scientific) : String :=
  let ds := Decimal.digits s.digits
  if 0 ≤ s.exponent then
    String.ofList (ds ++ List.replicate s.exponent.toNat '0') ++ ".0"
  else
    let places := (-s.exponent).toNat
    let padded := List.replicate (places + 1 - ds.length) '0' ++ ds
    String.ofList (padded.take (padded.length - places) ++
      '.' :: padded.drop (padded.length - places))

/-- The first digit, the others behind a point, and the exponent of the first digit. -/
def Scientific.withExponent (s : Scientific) : String :=
  let ds := Decimal.digits s.digits
  let behind := ds.drop 1
  let e := s.exponent + behind.length
  let sign := if e < 0 then "-" else ""
  String.ofList (ds.take 1 ++ (if behind.isEmpty then [] else '.' :: behind)) ++ "e" ++ sign ++
    String.ofList (Decimal.digits e.natAbs)

/-- A number with the fewest digits that read back. -/
def shortest (positional : Positional) (x : Float) : String :=
  match Word.ofFloat x with
  | .nan => "NaN"
  | .infinite isNegative => if isNegative then "-inf" else "inf"
  | .finite isNegative b =>
    let s : Scientific := if b.significand = 0 then ⟨0, 0⟩ else b.shortest
    let e := s.exponent + (Decimal.digits s.digits).length - 1
    let text := if positional.least ≤ e && e ≤ positional.greatest then s.plain else s.withExponent
    if isNegative then "-" ++ text else text

end ExactCover.Decimal
