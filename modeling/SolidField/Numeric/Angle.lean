import SolidField.Numeric.Single

/-!
# Sine and cosine

The sine and cosine of a single-precision angle, rounded correctly.  An angle
is an exact binary fraction; it is reduced to a quarter turn and expanded in a
Taylor series with 512 fractional bits, far more than any single-precision
angle needs to decide how its sine rounds.
-/

namespace SolidField

namespace FixedPoint

/-- Fractional bits of the fixed-point numbers. -/
def fractionBits : Nat := 512

def pi : Int :=
  0x3243f6a8885a308d313198a2e03707344a4093822299f31d0082efa98ec4e6c89452821e638d01377be5466cf34e90c6cc0ac29b7c97c50dd3f84d5b5b5470917

/-- The product of two fixed-point numbers, rounded down. -/
def multiply (x y : Int) : Int :=
  (x * y) / Nat.pow 2 fractionBits

/--
The alternating series whose next term is `- term * square / (n * (n + 1))`,
with `n` growing by two.
-/
def series (square : Int) : Nat → Int → Nat → Int
  | 0, _, _ => 0
  | terms + 1, term, n =>
      term + series square terms
        (-(multiply term square) / (n * (n + 1) : Nat)) (n + 2)

/-- The number of terms that exhausts the precision on a quarter turn. -/
def seriesTerms : Nat := 64

/-- The sine of an angle of at most a quarter turn. -/
def sineSeries (angle : Int) : Int :=
  series (multiply angle angle) seriesTerms angle 2

/-- The cosine of an angle of at most a quarter turn. -/
def cosineSeries (angle : Int) : Int :=
  series (multiply angle angle) seriesTerms (Nat.pow 2 fractionBits) 1

/-- The nearest multiple of a quarter turn, and what remains of the angle. -/
def reduce (angle : Int) : Int × Int :=
  let quarters := (2 * angle + pi / 2) / pi
  (quarters, angle - quarters * pi / 2)

/-- The sine of any angle, from the four ways to turn by quarters. -/
def sine (angle : Int) : Int :=
  let (quarters, rest) := reduce angle
  if quarters % 4 = 0 then sineSeries rest
  else if quarters % 4 = 1 then cosineSeries rest
  else if quarters % 4 = 2 then -(sineSeries rest)
  else -(cosineSeries rest)

/-- The cosine of any angle, from the four ways to turn by quarters. -/
def cosine (angle : Int) : Int :=
  let (quarters, rest) := reduce angle
  if quarters % 4 = 0 then cosineSeries rest
  else if quarters % 4 = 1 then -(sineSeries rest)
  else if quarters % 4 = 2 then -(cosineSeries rest)
  else sineSeries rest

end FixedPoint

namespace Single

/-- The value of a finite number in fixed point. -/
def toFixed (x : Single) : Int :=
  let magnitude : Int :=
    (x.units * Nat.pow 2 (FixedPoint.fractionBits - BinaryFormat.single.unitScale) : Nat)
  if x.isNegative then -magnitude else magnitude

/-- The number nearest to a fixed-point number. -/
def ofFixed (value : Int) : Single :=
  ofUnits (value < 0) (value.natAbs * Nat.pow 2 BinaryFormat.single.unitScale)
    (Nat.pow 2 FixedPoint.fractionBits)

/-- The sine of an angle; a zero is its own sine. -/
def sin (x : Single) : Single :=
  if !x.isFinite then nan
  else if x.magnitude = 0 then x
  else ofFixed (FixedPoint.sine x.toFixed)

/-- The cosine of an angle. -/
def cos (x : Single) : Single :=
  if !x.isFinite then nan
  else ofFixed (FixedPoint.cosine x.toFixed)

/-- The factor from degrees to radians, the nearest number to `π / 180`. -/
def radiansPerDegree : Single := ⟨0x3c8efa35⟩

/-- An angle in degrees, in radians. -/
def toRadians (degrees : Single) : Single :=
  degrees * radiansPerDegree

end Single

end SolidField
