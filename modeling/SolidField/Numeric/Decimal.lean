import SolidField.Numeric.Single

/-!
# Decimal text of single-precision numbers

The digits of a number are the fewest that read back as the same number, and
among those the nearest ones; a tie between two neighbours goes to the larger
one.  A `Layout` decides how the digits are set: which magnitudes are written
positionally and whether a whole number keeps a fraction.
-/

namespace SolidField

/-- The magnitude `significand * 10 ^ exponent`. -/
structure Decimal where
  significand : Nat
  exponent : Int
deriving DecidableEq, Repr

namespace Decimal

/-- The number of units of a format, as a quotient of two naturals. -/
def unitQuotient (decimal : Decimal) (format : BinaryFormat) : Nat × Nat :=
  match decimal.exponent with
  | .ofNat power =>
      (decimal.significand * Nat.pow 10 power * Nat.pow 2 format.unitScale, 1)
  | .negSucc power =>
      (decimal.significand * Nat.pow 2 format.unitScale, Nat.pow 10 (power + 1))

/--
The finite magnitude that a word stands for.  The power of ten is the greatest one
that the exponent field allows, so a single-precision number has 112 digits at most.
-/
def ofWord (format : BinaryFormat) (word : Nat) : Decimal :=
  let exponent := word / format.binade
  let fraction := word % format.binade
  let significand := if exponent = 0 then fraction else format.binade + fraction
  let shift := exponent - 1
  let places := format.unitScale - shift
  ⟨significand * Nat.pow 2 (shift - format.unitScale) * Nat.pow 5 places,
    -(places : Int)⟩

/-- The number of decimal digits of a natural number. -/
def digitCount (n : Nat) : Nat :=
  (Nat.toDigits 10 n).length

/--
The decimal with at most the given number of digits and one more: whatever stands
behind them, zeros too, is replaced by a single `1`.
-/
def clip (limit : Nat) (decimal : Decimal) : Decimal :=
  if decimal.significand < Nat.pow 10 limit then
    decimal
  else
    let excess := digitCount decimal.significand - limit
    ⟨decimal.significand / Nat.pow 10 excess * 10 + 1,
      decimal.exponent + excess - 1⟩

/--
The nearest magnitude word.  A decimal far beyond the largest value or below
the smallest one is decided by its leading power of ten alone.
-/
def round (decimal : Decimal) (format : BinaryFormat) : Nat :=
  let leading := (digitCount decimal.significand : Int) + decimal.exponent
  if decimal.significand = 0 then
    0
  else if leading < -(format.unitScale : Int) then
    0
  else if (format.unitScale : Int) < leading then
    format.infinity
  else
    let (numerator, denominator) := decimal.unitQuotient format
    format.round numerator denominator

end Decimal

namespace Single

/--
The reals that round to a positive finite number, as bounds counted in quarter
units; the bounds themselves belong to the interval when the word is even.
-/
structure Interval where
  lower : Nat
  centre : Nat
  upper : Nat
  /-- The bounds round to the number too. -/
  closed : Bool

/-- The interval of reals that round to a positive finite number. -/
def interval (x : Single) : Interval :=
  let word := x.magnitude
  let binade := BinaryFormat.single.binade
  let gap := Nat.pow 2 (word / binade - 1)
  let centre := 4 * x.units
  { lower := centre -
      (if word % binade = 0 ∧ binade < word then gap else 2 * gap)
    centre
    upper := centre + 2 * gap
    closed := word % 2 = 0 }

namespace Interval

/-- The scaled position of a decimal grid point lies in the scaled interval. -/
def holds (interval : Interval) (scale position : Nat) : Bool :=
  if interval.closed then
    interval.lower * scale ≤ position && position ≤ interval.upper * scale
  else
    interval.lower * scale < position && position < interval.upper * scale

/--
The grid point of the powers `10 ^ power` that lies in the interval and is the
nearer one of the two neighbours of the value, if there is one.
-/
def gridPoint? (interval : Interval) (power : Int) : Option Decimal :=
  let unit := 4 * Nat.pow 2 BinaryFormat.single.unitScale
  let (scale, step) : Nat × Nat :=
    match power with
    | .ofNat n => (1, unit * Nat.pow 10 n)
    | .negSucc n => (Nat.pow 10 (n + 1), unit)
  let centre := interval.centre * scale
  let below := centre / step
  let holdsBelow := interval.holds scale (below * step)
  let holdsAbove := interval.holds scale ((below + 1) * step)
  match holdsBelow, holdsAbove with
  | true, true =>
      if 2 * (centre - below * step) < step then
        some ⟨below, power⟩
      else
        some ⟨below + 1, power⟩
  | true, false => some ⟨below, power⟩
  | false, true => some ⟨below + 1, power⟩
  | false, false => none

/-- The first grid with a point in the interval, from a coarse power down. -/
def search (interval : Interval) : Nat → Int → Decimal
  | 0, power => ⟨0, power⟩
  | steps + 1, power =>
      match interval.gridPoint? power with
      | some decimal => decimal
      | none => interval.search steps (power - 1)

end Interval

/--
The fewest digits that read back as the same positive finite number.  No
number reaches `10 ^ 40`, and the grid of `10 ^ -60` is finer than the gap
between any two numbers.
-/
def shortest (x : Single) : Decimal :=
  x.interval.search 100 40

/-- How the digits of a number are set. -/
structure Layout where
  /-- The positive magnitudes below this word are written with an exponent. -/
  positionalFrom : Nat
  /-- The finite magnitudes from this word on are written with an exponent. -/
  positionalBelow : Nat
  /-- A whole number that is written positionally ends in `.0`. -/
  keepsFraction : Bool

namespace Layout

/-- Every finite number is positional, and a whole number has no fraction. -/
def plain : Layout where
  positionalFrom := 0
  positionalBelow := BinaryFormat.single.infinity
  keepsFraction := false

/--
Numbers from `1e-4` up to but excluding `1e16` are positional, and a whole
number keeps a fraction.
-/
def detailed : Layout where
  positionalFrom := 0x38d1b717
  positionalBelow := 0x5a0e1bca
  keepsFraction := true

/-- Digits around a decimal point, without an exponent. -/
def positional (layout : Layout) (decimal : Decimal) : String :=
  let digits := Nat.toDigits 10 decimal.significand
  match decimal.exponent with
  | .ofNat power =>
      String.ofList (digits ++ List.replicate power '0') ++
        (if layout.keepsFraction then ".0" else "")
  | .negSucc power =>
      let places := power + 1
      let padded := List.replicate (places + 1 - digits.length) '0' ++ digits
      let whole := padded.length - places
      String.ofList (padded.take whole) ++ "." ++ String.ofList (padded.drop whole)

/-- One digit, the remaining ones after a decimal point, and an exponent. -/
def exponential (decimal : Decimal) : String :=
  let digits := Nat.toDigits 10 decimal.significand
  let exponent := decimal.exponent + (digits.length - 1 : Nat)
  let fraction := digits.drop 1
  String.ofList (digits.take 1) ++
    (if fraction.isEmpty then "" else "." ++ String.ofList fraction) ++
    "e" ++ toString exponent

def text (layout : Layout) (x : Single) : String :=
  if x.isNaN then
    "NaN"
  else
    let sign := if x.isNegative then "-" else ""
    let word := x.magnitude
    if word = BinaryFormat.single.infinity then
      sign ++ "inf"
    else if word = 0 then
      sign ++ layout.positional ⟨0, 0⟩
    else if layout.positionalFrom ≤ word ∧ word < layout.positionalBelow then
      sign ++ layout.positional x.shortest
    else
      sign ++ exponential x.shortest

end Layout

end Single

end SolidField
