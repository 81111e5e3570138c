import Mathlib.Algebra.Order.Ring.Nat
import Mathlib.Order.Interval.Finset.Nat
import Mathlib.Data.Finset.Prod
import SolidField.Mass
import SolidField.Subdivision.Region

/-!
# What a measurement counts

The runs of a measurement are logged, and the reports in the logs count cells.
Beside these counts stand the units of the grid, the cells of the finest level, that
lie inside according to the distances themselves.
-/

namespace SolidField

/-! ## Results in a log -/

section Results

variable {Job Handle Output : Type}

/-- What a call processes. -/
def LaneCall.output? : LaneCall Job Handle Output → Option Output
  | process _ output _ => some output
  | _ => none

namespace LaneLog

/-- The jobs of a lane in their order, each with what was processed for it. -/
def resultsOn (side : Side) (log : LaneLog Job Handle Output) : List (Job × Output) :=
  ((log.on side).filterMap LaneCall.job?).zip
    ((log.on side).filterMap LaneCall.output?)

/-- The results of both lanes. -/
def results (log : LaneLog Job Handle Output) : List (Job × Output) :=
  log.resultsOn .first ++ log.resultsOn .second

end LaneLog

end Results

/-- The calls that classify the blocks of a subdivision; a single level has none. -/
def Subdivision.calls (classify : Classifier) (levels : List LevelSize)
    (bounds : Aabb Single) (dimension : Dimension) (config : SubdivisionConfig) :
    LaneLog BlockJob (Except DeviceError CellReport) CellReport :=
  match levels with
  | [_] => []
  | _ =>
      let plan := plan levels bounds dimension config
      let run := interleave (subdivisionLanes classify plan).logged (turnBound plan)
        [⟨0, ⟨0, 0, 0⟩⟩]
      (run (⟨.initial, .initial⟩, [])).2.2

/-- The calls that integrate over leaf blocks. -/
def integrationCalls (classify : Classifier) (blocks : List LeafBlock)
    (resolution : Single) :
    LaneLog LeafBlock (Except DeviceError CellReport) CellReport :=
  let run := interleave (measureLanes classify resolution.toFloat).logged
    (2 * blocks.length + 2) blocks
  (run (⟨.empty, .empty⟩, [])).2.2

/-! ## Units -/

/-- The cells of the finest level in a box. -/
def GridBox.units (box : GridBox) : Finset (Vec3 Nat) :=
  (Finset.Ico box.corner.x (box.corner.x + box.size.x) ×ˢ
      Finset.Ico box.corner.y (box.corner.y + box.size.y) ×ˢ
      Finset.Ico box.corner.z (box.corner.z + box.size.z)).image
    fun unit => ⟨unit.1, unit.2.1, unit.2.2⟩

/-- The place of a unit in a box. -/
def GridBox.place (box : GridBox) (unit : Vec3 Nat) : Vec3 Nat :=
  ⟨unit.x - box.corner.x, unit.y - box.corner.y, unit.z - box.corner.z⟩

/--
The coordinate of the centre of a unit: half a unit from the corner of its block, and a
whole one for every unit before it.
-/
def centreCoordinate (corner spacing : Single) (before : Nat) : Single :=
  corner + spacing * Single.half + Single.ofNat before * spacing

/-- The centre of a unit in the box of a leaf block. -/
def LeafBlock.unitCentre (block : LeafBlock) (box : GridBox) (unit : Vec3 Nat) :
    Vec3 Single :=
  let place := box.place unit
  ⟨centreCoordinate block.corner.x block.spacing place.x,
    centreCoordinate block.corner.y block.spacing place.y,
    centreCoordinate block.corner.z block.spacing place.z⟩

/-- A query samples every unit in the box of a leaf block once, at its centre. -/
structure CellQuery.SamplesUnits (query : CellQuery) (box : GridBox)
    (block : LeafBlock) : Prop where
  dims : query.dims.toNat = box.size
  centre : ∀ unit, box.Contains unit →
    latticePoint query.firstCentre query.step (box.place unit) =
      block.unitCentre box unit

/-- The sample of a query in a unit of a box is negative. -/
def CellQuery.isNegativeAt (query : CellQuery) (distances : CellQuery → List Single)
    (box : GridBox) (unit : Vec3 Nat) : Bool :=
  (distances query)[packIndex (box.place unit) box.size]?.any (Single.less · 0)

namespace LevelPlan

/-- The cells of some blocks that are uniform according to the distances. -/
def uniformCells (plan : LevelPlan) (distances : CellQuery → List Single)
    (jobs : List BlockJob) : List SampledCell :=
  (visited (fun job => distances (plan.query job)) jobs).filter fun cell =>
    !plan.isOpen cell

/--
A unit is inside if it lies in a uniform cell whose distance is negative, or in a
leaf block whose sample in the unit is negative.
-/
def isInside (plan : LevelPlan) (distances : CellQuery → List Single)
    (cells : List SampledCell) (leaves : List (GridBox × LeafBlock))
    (unit : Vec3 Nat) : Bool :=
  (cells.any fun cell =>
      (plan.cellBox cell).Contains unit && cell.distance.less 0) ||
    leaves.any fun leaf =>
      leaf.1.Contains unit && leaf.2.query.isNegativeAt distances leaf.1 unit

/-- The units that the report on a block counts as inside. -/
def unitsCounted (plan : LevelPlan) (result : BlockJob × CellReport) : Nat :=
  let size := (plan.level result.1.level).cellSize
  result.2.inside.count * (size * size * size)

end LevelPlan

/-! ## Accounts -/

/-- The integrals over disjoint regions, added one after the other. -/
def RegionIntegrals.total (parts : List (RegionIntegrals Float)) :
    RegionIntegrals Float :=
  parts.foldl (· + ·) .empty

namespace LevelPlan

/-- The integrals over the cells that the reports on some blocks count as inside. -/
def integralsOf (plan : LevelPlan) (results : List (BlockJob × CellReport)) :
    RegionIntegrals Float :=
  .total <| results.map fun result =>
    result.2.inside.integrals (plan.step (plan.level result.1.level)) plan.planar

/-- The integrals over the units that the reports on leaf blocks count as inside. -/
def integralsOfLeaves (plan : LevelPlan) (results : List (LeafBlock × CellReport)) :
    RegionIntegrals Float :=
  .total <| results.map fun result => result.2.inside.integrals plan.resolution false

end LevelPlan

/--
The account of a measurement from the logs of its two runs, the subdivision and the
integration over the leaf blocks, and from boxes for the leaf blocks.
-/
structure MassAccount (plan : LevelPlan)
    (dispatched : LaneLog BlockJob (Except DeviceError CellReport) CellReport)
    (integrated : LaneLog LeafBlock (Except DeviceError CellReport) CellReport)
    (distances : CellQuery → List Single) (subdivision : Subdivision)
    (leaves : List (GridBox × LeafBlock)) (estimate : MassEstimate) : Prop where
  dispatches : dispatched.results.length = subdivision.stats.dispatches
  /-- Every leaf block is integrated once, on either lane. -/
  integratedOnce : (integrated.results.map Prod.fst).Perm subdivision.leafBlocks
  placed : (leaves.map Prod.snd).Perm subdivision.leafBlocks
  leafAt : ∀ leaf ∈ leaves, plan.LeafAt leaf.1 leaf.2
  /-- A leaf block is integrated over samples at the centres of its units. -/
  sampled : ∀ leaf ∈ leaves, leaf.2.query.SamplesUnits leaf.1 leaf.2
  /-- A unit of the region is owned by one leaf block or lies in one uniform cell. -/
  tiles : GridBox.Tiles
    (leaves.map Prod.fst ++
      (plan.uniformCells distances (dispatched.results.map Prod.fst)).map plan.cellBox)
    plan.region
  /-- All reports together count the units that are inside. -/
  counted :
    (dispatched.results.map plan.unitsCounted).sum +
        (integrated.results.map fun result => result.2.inside.count).sum =
      (plan.region.units.filter fun unit =>
        plan.isInside distances
          (plan.uniformCells distances (dispatched.results.map Prod.fst)) leaves
          unit).card
  /-- The estimate is computed from the same reports. -/
  total :
    let uniform :=
      .empty + plan.integralsOf (dispatched.resultsOn .first) +
        plan.integralsOf (dispatched.resultsOn .second)
    estimate =
      .ofIntegrals
        (uniform + plan.integralsOfLeaves (integrated.resultsOn .first) +
          plan.integralsOfLeaves (integrated.resultsOn .second))
        subdivision.leafBlocks.length

end SolidField
