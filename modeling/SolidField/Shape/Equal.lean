import SolidField.Shape.Basic

/-!
# Numerical equality of shapes

Two shapes are equal if they are the same tree with numerically equal numbers.
A shape with a number that is not equal to itself is not equal to itself.
-/

universe u

namespace SolidField

namespace Shape

variable {α : Type u} [Scalar α]

/-- The same points, compared numerically. -/
def equalPoints : List (Vec2 α) → List (Vec2 α) → Bool
  | [], [] => true
  | p :: ps, q :: qs => p.equal q && equalPoints ps qs
  | _, _ => false

mutual

/-- The same tree with numerically equal numbers. -/
def equal : Shape α → Shape α → Bool
  | rectangle a, rectangle b => a.equal b
  | circle a, circle b => Scalar.equal a b
  | polygon a, polygon b => equalPoints a b
  | sphere a, sphere b => Scalar.equal a b
  | box a, box b => a.equal b
  | cylinder a h, cylinder b k => Scalar.equal a b && Scalar.equal h k
  | extrusion a h, extrusion b k => a.equal b && Scalar.equal h k
  | revolution a, revolution b => a.equal b
  | union a r, union b s => equalAll a b && Scalar.equal r s
  | intersection a r, intersection b s => equalAll a b && Scalar.equal r s
  | subtraction a c r, subtraction b d s =>
      a.equal b && c.equal d && Scalar.equal r s
  | offset a d, offset b e => a.equal b && Scalar.equal d e
  | shell a t, shell b u => a.equal b && Scalar.equal t u
  | transformed a t, transformed b u => a.equal b && t.equal u
  | _, _ => false

/-- The same trees in the same order, with numerically equal numbers. -/
def equalAll : List (Shape α) → List (Shape α) → Bool
  | [], [] => true
  | a :: as, b :: bs => a.equal b && equalAll as bs
  | _, _ => false

end

end Shape

end SolidField
