import SolidField.Executor.Protocol
import SolidField.Subdivision.Run

/-!
# Regions of the grid

The grid of the finest level has integer positions, and a cell of it is named by
the position of its corner.  Every block of a level plan owns a box of such
cells.  Boxes tile a region if they cover each of its cells once and no other.
-/

namespace SolidField

/-- A box of cells of the finest level. -/
structure GridBox where
  corner : Vec3 Nat
  size : Vec3 Nat
deriving DecidableEq

namespace GridBox

structure Contains (box : GridBox) (cell : Vec3 Nat) : Prop where
  x : box.corner.x ≤ cell.x ∧ cell.x < box.corner.x + box.size.x
  y : box.corner.y ≤ cell.y ∧ cell.y < box.corner.y + box.size.y
  z : box.corner.z ≤ cell.z ∧ cell.z < box.corner.z + box.size.z

instance (box : GridBox) (cell : Vec3 Nat) : Decidable (box.Contains cell) :=
  decidable_of_iff
    ((box.corner.x ≤ cell.x ∧ cell.x < box.corner.x + box.size.x) ∧
      (box.corner.y ≤ cell.y ∧ cell.y < box.corner.y + box.size.y) ∧
        box.corner.z ≤ cell.z ∧ cell.z < box.corner.z + box.size.z)
    ⟨fun ⟨x, y, z⟩ => ⟨x, y, z⟩, fun ⟨x, y, z⟩ => ⟨x, y, z⟩⟩

/-- The number of boxes that contain a cell. -/
def covers (boxes : List GridBox) (cell : Vec3 Nat) : Nat :=
  boxes.countP fun box => box.Contains cell

/-- A cell of the region is in exactly one of the boxes, another one in none. -/
def Tiles (boxes : List GridBox) (region : GridBox) : Prop :=
  ∀ cell, covers boxes cell = if region.Contains cell then 1 else 0

end GridBox

/-- A cell of a block with the distance that was sampled at its centre. -/
structure SampledCell where
  job : BlockJob
  /-- Its place in the packing of the block. -/
  index : Nat
  distance : Single
deriving DecidableEq

/-- The number of cells of a lattice. -/
def GridVector.cells (dims : GridVector) : Nat :=
  dims.x.toNat * dims.y.toNat * dims.z.toNat

namespace LevelPlan

/-- The cells of the finest level in one of a given size; one layer in the plane. -/
def cellExtent (plan : LevelPlan) (size : Nat) : Vec3 Nat :=
  ⟨size, size, if plan.planar then 1 else size⟩

/-- The cells of the finest level that a block of a level owns. -/
def blockExtent (plan : LevelPlan) (index : Nat) : Vec3 Nat :=
  let level := plan.level index
  if index + 1 = plan.levels.length then
    GridVector.toNat (level.lattice.map (LeafBlock.ownedCount plan.overlap))
  else
    let cell := plan.cellExtent level.cellSize
    ⟨level.lattice.x.toNat * cell.x, level.lattice.y.toNat * cell.y,
      level.lattice.z.toNat * cell.z⟩

/-- The box of a block. -/
def blockBox (plan : LevelPlan) (job : BlockJob) : GridBox :=
  ⟨job.position, plan.blockExtent job.level⟩

/-- The box that the top level covers. -/
def region (plan : LevelPlan) : GridBox :=
  plan.blockBox ⟨0, ⟨0, 0, 0⟩⟩

/-- The box of a sampled cell. -/
def cellBox (plan : LevelPlan) (cell : SampledCell) : GridBox where
  corner := plan.cellPosition cell.job (.ofNat cell.index)
  size := plan.cellExtent (plan.level cell.job.level).cellSize

/-- The cells of a block with their distances, in the order of the packing. -/
def sampledCells (job : BlockJob) (distances : List Single) : List SampledCell :=
  distances.zipIdx.map fun (distance, index) => ⟨job, index, distance⟩

/-- The cells of all blocks of a list. -/
def visited (sampled : BlockJob → List Single) (jobs : List BlockJob) :
    List SampledCell :=
  jobs.flatMap fun job => sampledCells job (sampled job)

/-- The surface may cross a sampled cell. -/
def isOpen (plan : LevelPlan) (cell : SampledCell) : Bool :=
  (plan.query cell.job).intersects cell.distance

/-- A sampled cell is a leaf block. -/
def isLeaf (plan : LevelPlan) (cell : SampledCell) : Bool :=
  plan.isOpen cell && plan.isLastCoarse cell.job.level

/-- A sampled cell is classified no further. -/
def isFinal (plan : LevelPlan) (cell : SampledCell) : Bool :=
  !plan.isOpen cell || plan.isLastCoarse cell.job.level

/-- A sampled cell as a block of the next level. -/
def childOf (plan : LevelPlan) (cell : SampledCell) : BlockJob :=
  ⟨cell.job.level + 1, plan.cellPosition cell.job (.ofNat cell.index)⟩

/-- The blocks that a block is followed by when its distances are known. -/
def children (plan : LevelPlan) (sampled : BlockJob → List Single)
    (job : BlockJob) : List BlockJob :=
  ((sampledCells job (sampled job)).filter fun cell => !plan.isFinal cell).map
    plan.childOf

/-- The leaf block of a sampled cell. -/
def leafOf (plan : LevelPlan) (cell : SampledCell) : LeafBlock :=
  plan.leafBlock (cell.job.level + 1)
    (plan.cellPosition cell.job (.ofNat cell.index))

/--
The distance at the centre of a cell proves that the cell is uniform: it is at
least half the diagonal.
-/
def isProven (plan : LevelPlan) (cell : SampledCell) : Bool :=
  (plan.query cell.job).threshold.atMost cell.distance.abs

/-- The uniform block of a sampled cell. -/
def uniformOf (plan : LevelPlan) (cell : SampledCell) : UniformBlock :=
  plan.uniformBlock cell.job (.ofNat cell.index, cell.distance.less 0)

/--
A point is that of a grid position: on every axis it is as many resolutions away from
the origin, computed in double precision and then rounded.
-/
structure PointAt (plan : LevelPlan) (position : Vec3 Nat) (point : Vec3 Single) :
    Prop where
  x : point.x =
    Single.ofFloat (plan.origin.x + Float.ofNat position.x * plan.resolution)
  y : point.y =
    Single.ofFloat (plan.origin.y + Float.ofNat position.y * plan.resolution)
  z : point.z =
    Single.ofFloat (plan.origin.z + Float.ofNat position.z * plan.resolution)

/-- A leaf block stands at a box of the grid and owns its cells. -/
structure LeafAt (plan : LevelPlan) (box : GridBox) (leaf : LeafBlock) : Prop where
  /-- The only block of a single level stands at the origin itself. -/
  corner : plan.PointAt box.corner leaf.corner ∨
    box.corner = ⟨0, 0, 0⟩ ∧ leaf.corner.map Single.toFloat = plan.origin
  /-- Neighbouring samples are one resolution apart. -/
  spacing : leaf.spacing = Single.ofFloat plan.resolution ∨
    leaf.spacing.toFloat = plan.resolution
  owned : leaf.ownedCells.toNat = box.size

/--
The last row of samples on every axis, at the end of the box, is where the first
row of a neighbouring block is, which stands at a multiple of the same size.
-/
structure SharesRows (plan : LevelPlan) (box : GridBox) (leaf : LeafBlock) :
    Prop where
  x : box.size.x ∣ box.corner.x ∧
    box.corner.x + (leaf.lattice.x.toNat - 1) = box.corner.x + box.size.x
  y : box.size.y ∣ box.corner.y ∧
    box.corner.y + (leaf.lattice.y.toNat - 1) = box.corner.y + box.size.y
  z : plan.planar = false → box.size.z ∣ box.corner.z ∧
    box.corner.z + (leaf.lattice.z.toNat - 1) = box.corner.z + box.size.z

/-- A uniform block is a cell of a level at a box of the grid. -/
structure CellAt (plan : LevelPlan) (box : GridBox) (cell : UniformBlock) :
    Prop where
  corner : plan.PointAt box.corner cell.corner
  size : ∃ level ∈ plan.levels, box.size = plan.cellExtent level.cellSize ∧
    cell.size = Single.ofFloat (Float.ofNat level.cellSize * plan.resolution)

/-- The blocks of a subdivision at boxes that tile the region of its plan. -/
structure Tiling (plan : LevelPlan) (result : Subdivision) where
  leaves : List (GridBox × LeafBlock)
  cells : List (GridBox × UniformBlock)
  leafBlocks : (leaves.map Prod.snd).Perm result.leafBlocks
  uniformBlocks : (cells.map Prod.snd).Perm result.uniformBlocks
  leafAt : ∀ leaf ∈ leaves, plan.LeafAt leaf.1 leaf.2
  cellAt : ∀ cell ∈ cells, plan.CellAt cell.1 cell.2
  tiles : GridBox.Tiles (leaves.map Prod.fst ++ cells.map Prod.fst) plan.region
  sharesRows : plan.overlap = true → ∀ leaf ∈ leaves, plan.SharesRows leaf.1 leaf.2

end LevelPlan

/--
Every report of a classifier is the report of distances that are measured at the
centres of the cells.
-/
def Classifier.Samples (classify : Classifier)
    (measured : CellQuery → List Single → Prop) : Prop :=
  ∀ query report, classify query = .ok (.ok report) →
    ∃ distances, measured query distances ∧
      distances.length = query.dims.cells ∧
        report = .ofDistances query distances

/-- The device accepts a query, and its program has these distances. -/
structure Machine.Measures (machine : Machine) (query : CellQuery)
    (distances : List Single) : Prop where
  accepted : query.rejection? = none
  evaluated : machine.evalLattice query.firstCentre query.step query.dims.toNat =
    .ok distances

/--
What a complete subdivision with a program has classified: the blocks with the
distances of their cells, and the leaf blocks with their boxes.
-/
structure LevelPlan.Inspection (plan : LevelPlan) (machine : Machine)
    (result : Subdivision) where
  sampled : BlockJob → List Single
  jobs : List BlockJob
  leaves : List (GridBox × LeafBlock)
  measured : ∀ job ∈ jobs, machine.Measures (plan.query job) (sampled job)
  /-- A single level is one leaf block; else the leaf blocks are cells. -/
  found :
    (plan.levels.length = 1 ∧ jobs = [] ∧ leaves.map Prod.fst = [plan.region]) ∨
      plan.levels.length ≠ 1 ∧
        Generates (plan.children sampled) [⟨0, ⟨0, 0, 0⟩⟩] jobs ∧
        leaves = ((LevelPlan.visited sampled jobs).filter plan.isLeaf).map
          fun cell => (plan.cellBox cell, plan.leafOf cell)
  leafBlocks : (leaves.map Prod.snd).Perm result.leafBlocks
  /-- Every other final cell is listed with its flag. -/
  recorded : plan.recordUniform = true → ∀ cell ∈ LevelPlan.visited sampled jobs,
    plan.isOpen cell = false → plan.uniformOf cell ∈ result.uniformBlocks

namespace LevelPlan.Inspection

variable {plan : LevelPlan} {machine : Machine} {result : Subdivision}

/-- All cells that were classified. -/
def cells (inspection : plan.Inspection machine result) : List SampledCell :=
  visited inspection.sampled inspection.jobs

/-- Nothing is discarded without a proof that it is uniform. -/
structure Proves (inspection : plan.Inspection machine result) : Prop where
  /-- What no leaf block owns is in a cell that is proven uniform. -/
  settled : ∀ unit, plan.region.Contains unit →
    (∃ leaf ∈ inspection.leaves, leaf.1.Contains unit) ∨
      ∃ cell ∈ inspection.cells, (plan.cellBox cell).Contains unit ∧
        plan.isProven cell = true ∧
          (plan.recordUniform = true → ∃ block ∈ result.uniformBlocks,
            plan.CellAt (plan.cellBox cell) block ∧
              block.inside = cell.distance.less 0)
  /-- Any other cell is a leaf block or a block that was classified in turn. -/
  followed : ∀ cell ∈ inspection.cells, plan.isProven cell = false →
    (plan.cellBox cell, plan.leafOf cell) ∈ inspection.leaves ∨
      plan.childOf cell ∈ inspection.jobs

end LevelPlan.Inspection

end SolidField
