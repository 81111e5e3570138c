import SolidField.Numeric.Rounding

/-!
# Single-precision numbers

`Single` is a 32-bit floating-point number that is identified by its bits:
two zeros of different sign are different values, and every pattern that is
not a number keeps its payload.  Equality is therefore identity of bits, and
the numerical comparisons are separate functions.  Arithmetic rounds to
nearest, a tie going to the even neighbour.
-/

namespace SolidField

/-- A 32-bit floating-point number, identified by its bits. -/
structure Single where
  /-- The sign bit, eight exponent bits and 23 fraction bits. -/
  bits : UInt32
deriving DecidableEq, Inhabited

namespace Single

/-- The arithmetic value; every pattern that is not a number has the same one. -/
@[inline] def toFloat32 (x : Single) : Float32 :=
  Float32.ofBits x.bits

/-- The bits of an arithmetic result. -/
@[inline] def ofFloat32 (x : Float32) : Single :=
  ⟨x.toBits⟩

/-- The sign bit is set. -/
def isNegative (x : Single) : Bool :=
  0x80000000 ≤ x.bits

/-- The bits without the sign bit. -/
def magnitude (x : Single) : Nat :=
  (x.bits &&& 0x7fffffff).toNat

/-- The pattern stands for no number. -/
def isNaN (x : Single) : Bool :=
  BinaryFormat.single.infinity < x.magnitude

/-- Neither infinite nor not a number. -/
def isFinite (x : Single) : Bool :=
  x.magnitude < BinaryFormat.single.infinity

/-- The number with the given sign and magnitude word. -/
def ofMagnitude (negative : Bool) (word : Nat) : Single :=
  ⟨UInt32.ofNat word ||| (if negative then 0x80000000 else 0)⟩

/-- The number nearest to a quotient of units of `2 ^ -149`. -/
def ofUnits (negative : Bool) (numerator denominator : Nat) : Single :=
  ofMagnitude negative (BinaryFormat.single.round numerator denominator)

/-- The number nearest to a natural number. -/
def ofNat (n : Nat) : Single :=
  ofUnits false (n * Nat.pow 2 BinaryFormat.single.unitScale) 1

/-- The magnitude in units of `2 ^ -149`. -/
def units (x : Single) : Nat :=
  BinaryFormat.single.units x.magnitude

def zero : Single := ⟨0x00000000⟩

def one : Single := ⟨0x3f800000⟩

def half : Single := ⟨0x3f000000⟩

def two : Single := ⟨0x40000000⟩

/-- The largest finite number. -/
def largest : Single := ⟨0x7f7fffff⟩

def infinity : Single := ⟨0x7f800000⟩

/-- The pattern that stands for an undefined result. -/
def nan : Single := ⟨0x7fc00000⟩

instance : Zero Single := ⟨zero⟩
instance : One Single := ⟨one⟩

instance : Add Single :=
  ⟨fun x y => ofFloat32 (x.toFloat32 + y.toFloat32)⟩

instance : Sub Single :=
  ⟨fun x y => ofFloat32 (x.toFloat32 - y.toFloat32)⟩

instance : Mul Single :=
  ⟨fun x y => ofFloat32 (x.toFloat32 * y.toFloat32)⟩

instance : Div Single :=
  ⟨fun x y => ofFloat32 (x.toFloat32 / y.toFloat32)⟩

/-- Negation flips the sign bit, of every pattern. -/
instance : Neg Single :=
  ⟨fun x => ⟨x.bits ^^^ 0x80000000⟩⟩

def sqrt (x : Single) : Single :=
  ofFloat32 x.toFloat32.sqrt

/-- The absolute value clears the sign bit, of every pattern. -/
def abs (x : Single) : Single :=
  ⟨x.bits &&& 0x7fffffff⟩

/-- One with the sign of `x`, zeros included; a pattern without value stays. -/
def signum (x : Single) : Single :=
  if x.isNaN then x else if x.isNegative then -one else one

/-- The position on the number line; the two zeros share one. -/
def rank (x : Single) : Int :=
  if x.isNegative then -(x.magnitude : Int) else x.magnitude

/-- Numerically smaller; false if either side is not a number. -/
def less (x y : Single) : Bool :=
  !x.isNaN && !y.isNaN && x.rank < y.rank

/-- Numerically smaller or equal; false if either side is not a number. -/
def atMost (x y : Single) : Bool :=
  !x.isNaN && !y.isNaN && x.rank ≤ y.rank

/-- Numerically equal; false if either side is not a number. -/
def equal (x y : Single) : Bool :=
  !x.isNaN && !y.isNaN && x.rank = y.rank

/--
The position in the order of all patterns: the negative ones before the
positive ones, a negative zero just before the positive one, and patterns that
are not numbers at both ends.
-/
def totalRank (x : Single) : Int :=
  if x.isNegative then -(x.magnitude : Int) - 1 else x.magnitude

@[simp]
theorem isNaN_zero : zero.isNaN = false := by
  decide

/-- A rank is never ahead of itself. -/
theorem less_irrefl (x : Single) : x.less x = false := by
  simp [less]

/-! ## Double precision -/

/-- The double-precision number with the same value. -/
def toFloat (x : Single) : Float :=
  let sign : UInt64 := if x.isNegative then 0x8000000000000000 else 0
  let word :=
    if x.isFinite then
      BinaryFormat.double.round
        (x.units *
          Nat.pow 2 (BinaryFormat.double.unitScale - BinaryFormat.single.unitScale)) 1
    else if x.isNaN then
      BinaryFormat.double.infinity + 1
    else
      BinaryFormat.double.infinity
  Float.ofBits (UInt64.ofNat word ||| sign)

/-- The single-precision number nearest to a double-precision one. -/
def ofFloat (value : Float) : Single :=
  let bits := value.toBits
  let negative : Bool := 0x8000000000000000 ≤ bits
  let magnitude := (bits &&& 0x7fffffffffffffff).toNat
  if magnitude < BinaryFormat.double.infinity then
    ofUnits negative (BinaryFormat.double.units magnitude)
      (Nat.pow 2 (BinaryFormat.double.unitScale - BinaryFormat.single.unitScale))
  else if magnitude = BinaryFormat.double.infinity then
    ofMagnitude negative BinaryFormat.single.infinity
  else
    nan

end Single

end SolidField
