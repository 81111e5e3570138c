/-!
# Rounding into a binary floating-point format

Magnitudes are counted in units of the smallest positive value of a format,
so every finite magnitude is a natural number and a real magnitude is a
quotient of two naturals.  `BinaryFormat.round` is the word whose value is
nearest to such a quotient; a quotient halfway between two words goes to the
even one.  A number in double precision is rounded up to a natural number.
-/

namespace SolidField

/-- The quotient rounded to the nearest natural, a tie going to the even one. -/
def roundQuotient (numerator denominator : Nat) : Nat :=
  let quotient := numerator / denominator
  let remainder := numerator % denominator
  if 2 * remainder < denominator ∨
      (2 * remainder = denominator ∧ quotient % 2 = 0) then
    quotient
  else
    quotient + 1

@[simp]
theorem roundQuotient_mul (value : Nat) {denominator : Nat}
    (positive : 0 < denominator) :
    roundQuotient (value * denominator) denominator = value := by
  simp [roundQuotient, positive]

/-- The widths of the two magnitude fields of a binary interchange format. -/
structure BinaryFormat where
  fractionBits : Nat
  exponentBits : Nat

namespace BinaryFormat

/-- The format with 32 bits. -/
def single : BinaryFormat := ⟨23, 8⟩

/-- The format with 64 bits. -/
def double : BinaryFormat := ⟨52, 11⟩

/-- The number of words in one binade. -/
def binade (format : BinaryFormat) : Nat :=
  Nat.pow 2 format.fractionBits

/-- The magnitude word of infinity; larger words are not numbers. -/
def infinity (format : BinaryFormat) : Nat :=
  (Nat.pow 2 format.exponentBits - 1) * format.binade

/-- One is `2 ^ unitScale` units. -/
def unitScale (format : BinaryFormat) : Nat :=
  Nat.pow 2 (format.exponentBits - 1) - 2 + format.fractionBits

/-- The number of units that a finite magnitude word stands for. -/
def units (format : BinaryFormat) (word : Nat) : Nat :=
  let exponent := word / format.binade
  let fraction := word % format.binade
  if exponent = 0 then
    fraction
  else
    (format.binade + fraction) * Nat.pow 2 (exponent - 1)

/--
The magnitude word nearest to a quotient of units.  A significand that rounds
up to a whole binade carries into the exponent field, and whatever exceeds the
finite words is infinity.
-/
def round (format : BinaryFormat) (numerator denominator : Nat) : Nat :=
  let shift := Nat.log2 (numerator / denominator) - format.fractionBits
  min
    (shift * format.binade +
      roundQuotient numerator (denominator * Nat.pow 2 shift))
    format.infinity

/-- What a format keeps of a natural number in its range. -/
def roundNatural (format : BinaryFormat) (n : Nat) : Nat :=
  let one := Nat.pow 2 format.unitScale
  format.units (format.round (n * one) 1) / one

/-- A rounded magnitude never lies beyond infinity. -/
theorem round_le_infinity (format : BinaryFormat)
    (numerator denominator : Nat) :
    format.round numerator denominator ≤ format.infinity :=
  Nat.min_le_right _ _

end BinaryFormat

/-- The ceiling of a finite number, which is zero if the number is negative. -/
def ceiling? (x : Float) : Option Nat :=
  let bits := x.toBits
  let word := (bits &&& 0x7fffffffffffffff).toNat
  if word < BinaryFormat.double.infinity then
    if 0x8000000000000000 ≤ bits then
      some 0
    else
      let one := Nat.pow 2 BinaryFormat.double.unitScale
      some ((BinaryFormat.double.units word + (one - 1)) / one)
  else
    none

end SolidField
