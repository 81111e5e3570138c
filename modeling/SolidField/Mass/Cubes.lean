import Mathlib.Data.Fin.VecNotation
import Mathlib.Data.Matrix.Mul
import SolidField.Mass
import SolidField.Numeric.Exact

/-!
# Sums over cubes

A report counts cells of one edge and sums over their centres; a measurement adds the
integrals of reports with different edges.  In exact numbers stand beside them the cubes
themselves, with the inertia tensor of each about a point.
-/

namespace SolidField

/-! ## What reports sum up -/

/-- The sums over the centres of a list of cells, one cell after the other. -/
def InsideSums.ofCentres {α : Type} [Scalar α] (centres : List (Vec3 α)) :
    InsideSums α :=
  centres.foldl add .empty

/-- The centre of a cell, if its distance says that it is inside. -/
def CellQuery.insideCentre? (query : CellQuery) (cell : Single × Nat) :
    Option (Vec3 Float) :=
  if !query.intersects cell.1 && cell.1.less 0 then
    (unpackIndex? (UInt32.ofNat cell.2) query.dims).map (CellFrame.ofQuery query).centre
  else
    none

/-- The centres of the cells that are inside, in the order of the packing. -/
def CellQuery.insideCentres (query : CellQuery) (distances : List Single) :
    List (Vec3 Float) :=
  distances.zipIdx.filterMap query.insideCentre?

/-! ## Cubes -/

def Vec3.coordinates (v : Vec3 ℚ) : Fin 3 → ℚ :=
  ![v.x, v.y, v.z]

/-- The matrix of three columns. -/
def Matrix3.toMatrix (matrix : Matrix3 ℚ) : Matrix (Fin 3) (Fin 3) ℚ :=
  .of fun row column =>
    ![matrix.first, matrix.second, matrix.third] column |>.coordinates row

structure Cube where
  edge : ℚ
  centre : Vec3 ℚ
  positive : 0 < edge

namespace Cube

def volume (cube : Cube) : ℚ :=
  cube.edge ^ 3

/-- A sum over cubes, by volume. -/
def weigh (cubes : List Cube) (quantity : Cube → ℚ) : ℚ :=
  (cubes.map fun cube => cube.volume * quantity cube).sum

/-- The inertia tensor about a point, at unit density. -/
def inertiaAbout (cube : Cube) (point : Vec3 ℚ) : Matrix (Fin 3) (Fin 3) ℚ :=
  let offset := (cube.centre - point).coordinates
  cube.volume •
    ((cube.edge ^ 2 / 6 + offset ⬝ᵥ offset) • 1 - Matrix.vecMulVec offset offset)

end Cube

/-- A sum of the integrals of reports, each on cells of one edge, in any order. -/
inductive CubeSum where
  | empty
  | report (edge : ℚ) (positive : 0 < edge) (centres : List (Vec3 ℚ))
  | sum (first second : CubeSum)

namespace CubeSum

def total : CubeSum → RegionIntegrals ℚ
  | empty => .empty
  | report edge _ centres => (InsideSums.ofCentres centres).integrals edge false
  | sum first second => first.total + second.total

/-- The cells of all reports. -/
def cubes : CubeSum → List Cube
  | empty => []
  | report edge positive centres => centres.map fun centre => ⟨edge, centre, positive⟩
  | sum first second => first.cubes ++ second.cubes

end CubeSum

end SolidField
