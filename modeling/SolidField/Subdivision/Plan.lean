import SolidField.Subdivision.Block
import SolidField.Subdivision.Level

/-!
# Level plans

A plan turns the integer positions of a level hierarchy into device work: which
cells of a block to sample, and which blocks a classified block is followed by.
A cell whose distance is at least half its diagonal is uniform; every other one
is a block of the next level, or a leaf block where the next level is the finest.
-/

namespace SolidField

/-- What the blocks of one run have in common. -/
structure LevelPlan where
  /-- The levels, the coarsest first. -/
  levels : List LevelSize
  origin : Vec3 Float
  resolution : Float
  overlap : Bool
  recordUniform : Bool
  planar : Bool

/-- A block to classify. -/
structure BlockJob where
  level : Nat
  /-- Its corner, in cells of the finest level. -/
  position : Vec3 Nat
deriving DecidableEq

/-- A grid position in double precision. -/
def gridPosition (position : Vec3 Nat) : Vec3 Float :=
  ⟨.ofNat position.x, .ofNat position.y, .ofNat position.z⟩

namespace LevelPlan

/-- The level at a position of the plan; beyond the finest level nothing is left. -/
def level (plan : LevelPlan) (index : Nat) : LevelSize :=
  plan.levels.getD index ⟨0, ⟨0, 0, 0⟩⟩

/-- The next finer level is the finest one. -/
def isLastCoarse (plan : LevelPlan) (index : Nat) : Bool :=
  index + 2 = plan.levels.length

/-- The point of a grid position. -/
def corner (plan : LevelPlan) (position : Vec3 Nat) : Vec3 Single :=
  (plan.origin + (gridPosition position).scale plan.resolution).map Single.ofFloat

/-- The edge of a cell of a level. -/
def step (plan : LevelPlan) (level : LevelSize) : Float :=
  Float.ofNat level.cellSize * plan.resolution

/-- The way from the corner of a cell to its centre, in cells of the finest level. -/
def centreOffset (plan : LevelPlan) (cell : Float) : Vec3 Float :=
  let middle := cell * 0.5
  if plan.planar then ⟨middle, middle, 0⟩ else ⟨middle, middle, middle⟩

/-- Half the diagonal of a cell with the given edge. -/
def threshold (plan : LevelPlan) (step : Float) : Float :=
  let axes : Float := if plan.planar then 2 else 3
  step * axes.sqrt * 0.5

/-- The classification of a block. -/
def query (plan : LevelPlan) (job : BlockJob) : CellQuery :=
  let level := plan.level job.level
  let step := plan.step level
  let firstCentre :=
    plan.origin +
      (gridPosition job.position +
        plan.centreOffset (Float.ofNat level.cellSize)).scale plan.resolution
  { firstCentre := firstCentre.map Single.ofFloat
    step := Single.ofFloat step
    dims := level.lattice
    threshold := Single.ofFloat (plan.threshold step)
    recordUniform := plan.recordUniform }

/-- The grid position of a cell of a block. -/
def cellPosition (plan : LevelPlan) (job : BlockJob) (index : UInt32) : Vec3 Nat :=
  let level := plan.level job.level
  match unpackIndex? index level.lattice with
  | some cell =>
      ⟨job.position.x + cell.x.toNat * level.cellSize,
        job.position.y + cell.y.toNat * level.cellSize,
        job.position.z + cell.z.toNat * level.cellSize⟩
  | none => job.position

/-- The leaf block at a grid position. -/
def leafBlock (plan : LevelPlan) (level : Nat) (position : Vec3 Nat) :
    LeafBlock where
  corner := plan.corner position
  spacing := Single.ofFloat plan.resolution
  lattice := (plan.level level).lattice
  overlap := plan.overlap
  planar := plan.planar

/-- The uniform block of a cell. -/
def uniformBlock (plan : LevelPlan) (job : BlockJob) (cell : UInt32 × Bool) :
    UniformBlock where
  corner := plan.corner (plan.cellPosition job cell.1)
  size := Single.ofFloat (plan.step (plan.level job.level))
  inside := cell.2
  planar := plan.planar

/-- The leaf blocks that a classified block is followed by. -/
def leavesOf (plan : LevelPlan) (job : BlockJob) (report : CellReport) :
    List LeafBlock :=
  if plan.isLastCoarse job.level then
    report.intersecting.map fun index =>
      plan.leafBlock (job.level + 1) (plan.cellPosition job index)
  else
    []

/-- The blocks of the next level that a classified block is followed by. -/
def followUps (plan : LevelPlan) (job : BlockJob) (report : CellReport) :
    List BlockJob :=
  if plan.isLastCoarse job.level then
    []
  else
    report.intersecting.map fun index =>
      ⟨job.level + 1, plan.cellPosition job index⟩

/-- The number of cells of a block of a level. -/
def cellCount (plan : LevelPlan) (index : Nat) : Nat :=
  (plan.level index).lattice.cellWord.toNat

/-- A bound on the blocks of the coarse levels, from a number of blocks on. -/
def blockBound : List LevelSize → Nat → Nat
  | [], _ => 0
  | level :: levels, blocks =>
      blocks + blockBound levels (blocks * level.lattice.cellWord.toNat)

end LevelPlan

end SolidField
