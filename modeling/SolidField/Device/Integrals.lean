import SolidField.Geometry.Vector

/-!
# Region integrals

Integrals of the coordinates, their squares and their products over a region
made of equal cubes, each centred on its sample, or of squares in the plane.
The sums over the centres determine them: over a cube of edge `s` around `c`,
the integral of `x` is `s ^ 3 * c`, that of `x ^ 2` is
`s ^ 3 * (c ^ 2 + s ^ 2 / 12)`, and that of `x * y` is `s ^ 3 * cx * cy`.
-/

universe u

namespace SolidField

/-- Sums over the centres of the cells that are inside. -/
structure InsideSums (α : Type u) where
  count : Nat
  centre : Vec3 α
  square : Vec3 α
  /-- The sums of the products `x * y`, `x * z` and `y * z`. -/
  product : Vec3 α

/-- Integrals over a region of uniform density. -/
structure RegionIntegrals (α : Type u) where
  volume : α
  moment : Vec3 α
  secondMoment : Vec3 α
  /-- The integrals of the products `x * y`, `x * z` and `y * z`. -/
  productMoment : Vec3 α

namespace Vec3

variable {α : Type u} [Scalar α]

/-- The products of each pair of coordinates: `x * y`, `x * z` and `y * z`. -/
def pairProducts (v : Vec3 α) : Vec3 α :=
  ⟨v.x * v.y, v.x * v.z, v.y * v.z⟩

end Vec3

namespace RegionIntegrals

variable {α : Type u} [Scalar α]

def empty : RegionIntegrals α :=
  ⟨0, 0, 0, 0⟩

/-- The integrals over two disjoint regions. -/
instance : Add (RegionIntegrals α) where
  add a b :=
    { volume := a.volume + b.volume
      moment := a.moment + b.moment
      secondMoment := a.secondMoment + b.secondMoment
      productMoment := a.productMoment + b.productMoment }

end RegionIntegrals

namespace InsideSums

variable {α : Type u} [Scalar α]

def empty : InsideSums α :=
  ⟨0, 0, 0, 0⟩

/-- Take one more cell into account. -/
def add (sums : InsideSums α) (centre : Vec3 α) : InsideSums α where
  count := sums.count + 1
  centre := sums.centre + centre
  square := sums.square + centre.times centre
  product := sums.product + centre.pairProducts

/-- The integrals over cells of the given edge; planar cells are squares. -/
def integrals (sums : InsideSums α) (step : α) (planar : Bool) :
    RegionIntegrals α :=
  let measure := if planar then step * step else step * step * step
  let spread : Vec3 α := if planar then ⟨1, 1, 0⟩ else ⟨1, 1, 1⟩
  let count : α := Scalar.ofNat sums.count
  { volume := count * measure
    moment := sums.centre.scale measure
    secondMoment :=
      (sums.square +
        spread.scale (count * step * step / Scalar.ofNat 12)).scale measure
    productMoment := sums.product.scale measure }

end InsideSums

end SolidField
