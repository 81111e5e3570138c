import SolidField.Subdivision.Run

/-!
# Mass properties

Volume, centroid and inertia of a solid of uniform density.  The uniform cells
of a subdivision count as a whole; the leaf blocks are classified once more, cell
by cell at the finest resolution, with no cell left undecided.
-/

universe u

namespace SolidField

/-- Three columns of a square matrix. -/
structure Matrix3 (α : Type u) where
  first : Vec3 α
  second : Vec3 α
  third : Vec3 α

namespace RegionIntegrals

variable {α : Type u} [Scalar α]

/-- The centre of mass; of a region without volume, the origin. -/
def centroid (total : RegionIntegrals α) : Vec3 α :=
  if Scalar.less 0 total.volume then
    total.moment.divide total.volume
  else
    0

/-- The inertia tensor about a centroid; of a region without volume, zero. -/
def inertiaAbout (total : RegionIntegrals α) (centroid : Vec3 α) : Matrix3 α :=
  let v := total.volume
  if Scalar.atMost v 0 then
    ⟨0, 0, 0⟩
  else
    let c := centroid
    let s : Vec3 α :=
      total.secondMoment - ⟨v * c.x * c.x, v * c.y * c.y, v * c.z * c.z⟩
    let sxy := total.productMoment.x - v * c.x * c.y
    let sxz := total.productMoment.y - v * c.x * c.z
    let syz := total.productMoment.z - v * c.y * c.z
    ⟨⟨s.y + s.z, -sxy, -sxz⟩, ⟨-sxy, s.x + s.z, -syz⟩,
      ⟨-sxz, -syz, s.x + s.y⟩⟩

end RegionIntegrals

/-- The classification of the cells that a leaf block owns. -/
def LeafBlock.query (block : LeafBlock) : CellQuery where
  firstCentre := block.corner + Vec3.splat (block.spacing * .half)
  step := block.spacing
  dims := block.ownedCells
  threshold := 0
  recordUniform := false

/-- The lanes that integrate leaf blocks, over any classification of cells. -/
def measureLanes (classify : Classifier) (spacing : Float) :
    Lanes (LanePair (RegionIntegrals Float)) DeviceError LeafBlock
      (Except DeviceError CellReport) CellReport where
  enqueue _ block := fun pair => (classify block.query, pair)
  wait _ pending := fun pair => (pending, pair)
  process side report := fun pair =>
    (.ok [],
      pair.set side (pair.get side + report.inside.integrals spacing false))

/-- Volume, centre of mass and inertia of a solid. -/
structure MassEstimate where
  volume : Float
  /-- The centre of mass; of an empty solid, the origin. -/
  centroid : Vec3 Float
  /-- The inertia tensor about the centre of mass, at unit density. -/
  inertia : Matrix3 Float
  leafBlocks : Nat

namespace MassEstimate

def centroidSingle (estimate : MassEstimate) : Vec3 Single :=
  estimate.centroid.map Single.ofFloat

/-- The estimate of the integrals over a solid. -/
def ofIntegrals (total : RegionIntegrals Float) (leafBlocks : Nat) :
    MassEstimate :=
  let centroid := total.centroid
  { volume := total.volume
    centroid
    inertia := total.inertiaAbout centroid
    leafBlocks }

end MassEstimate

/-- The integrals over the leaf blocks of a list, one sum for each lane. -/
def integrateLeaves (classify : Classifier) (blocks : List LeafBlock)
    (resolution : Single) :
    Except SubdivisionError (LanePair (RegionIntegrals Float)) :=
  let lanes := measureLanes classify resolution.toFloat
  match interleave lanes (2 * blocks.length + 2) blocks ⟨.empty, .empty⟩ with
  | (.error error, _) => .error (.device error)
  | (.ok none, _) => .error .unfinished
  | (.ok (some _), sums) => .ok sums

/-- Measure a solid in its bounds with any classification of cells. -/
def measureWith (classify : Classifier) (bounds : Aabb Single)
    (config : SubdivisionConfig) : Except SubdivisionError MassEstimate := do
  let subdivision ← subdivideWith classify bounds Dimension.solid.axes config
  let sums ←
    integrateLeaves classify subdivision.leafBlocks config.resolution
  let total := subdivision.inside + sums.first + sums.second
  pure (.ofIntegrals total subdivision.leafBlocks.length)

/-- Measure a shape, which has to be a solid. -/
def Shape.measure (shape : Shape Single) (config : SubdivisionConfig) :
    Except SubdivisionError MassEstimate := do
  config.validate
  if shape.dimension ≠ .solid then
    .error (.precondition (.solid shape.dimension))
  let program ← compileShape shape config.compile
  let machine ← loadMachine program
  measureWith machine.classify shape.bounds config

end SolidField
