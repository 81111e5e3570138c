import SolidField.Numeric.Single

/-!
# Scalars

Geometry and distance kernels are written once for any `Scalar`.  The program
runs them on `Single`; the region integrals run on `Float`; and an ordered
field with square roots is a scalar in which the same formulas are exact.

The comparisons are Boolean functions of their own, because the numerical order
of floating-point numbers is not the identity of their bits.
-/

universe u

namespace SolidField

/-- A number type that geometry and distance kernels can compute with. -/
class Scalar (α : Type u) extends
    Zero α, One α, Add α, Sub α, Mul α, Div α, Neg α where
  half : α
  two : α
  /-- The distance of a shape that is nowhere near. -/
  largest : α
  ofNat : Nat → α
  sqrt : α → α
  abs : α → α
  /-- One with the sign of the argument; zero counts as positive. -/
  signum : α → α
  less : α → α → Bool
  atMost : α → α → Bool
  equal : α → α → Bool
  isFinite : α → Bool

instance : Scalar Single where
  half := .half
  two := .two
  largest := .largest
  ofNat := Single.ofNat
  sqrt := Single.sqrt
  abs := Single.abs
  signum := Single.signum
  less := Single.less
  atMost := Single.atMost
  equal := Single.equal
  isFinite := Single.isFinite

instance : Scalar Float where
  zero := 0
  one := 1
  half := 0.5
  two := 2
  largest := Float.ofBits 0x7fefffffffffffff
  ofNat := Float.ofNat
  sqrt := Float.sqrt
  abs := Float.abs
  signum x :=
    if x.isNaN then x else if 0x8000000000000000 ≤ x.toBits then -1 else 1
  less := Float.lt
  atMost := Float.le
  equal := Float.beq
  isFinite := Float.isFinite

namespace Scalar

variable {α : Type u} [Scalar α]

/--
The larger of two numbers.  A side that is not a number gives way to the other
one, and of two numerically equal sides the second is taken.
-/
def max (a b : α) : α :=
  if equal b b then (if less b a then a else b) else a

/--
The smaller of two numbers.  A side that is not a number gives way to the other
one, and of two numerically equal sides the second is taken.
-/
def min (a b : α) : α :=
  if equal b b then (if less a b then a else b) else a

/-- The nearest number between two bounds; what is not a number stays. -/
def clamp (lower upper a : α) : α :=
  let raised := if less a lower then lower else a
  if less upper raised then upper else raised

/-- Positive and of bounded size. -/
def isPositiveFinite (a : α) : Bool :=
  less 0 a && isFinite a

end Scalar

end SolidField
