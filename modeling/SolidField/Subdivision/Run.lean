import SolidField.Shape.Bounds
import SolidField.Subdivision.Lane

/-!
# Subdivision

A subdivision finds the blocks of the finest level that need full evaluation.
From the top level down, blocks are classified on two lanes; the leaf blocks of
both lanes are put into one order that does not depend on who found them.
-/

namespace SolidField

/-- What a subdivision counts. -/
structure SubdivisionStats where
  dispatches : Nat
  cellsClassified : Nat
  /-- The largest number of submissions under way at once. -/
  maxInFlight : Nat
deriving DecidableEq, Repr

/-- The result of a subdivision. -/
structure Subdivision where
  dimension : Dimension
  levels : List LevelSize
  /-- The leaf blocks, in the order of their corners. -/
  leafBlocks : List LeafBlock
  /-- The uniform blocks, those of the first lane in front. -/
  uniformBlocks : List UniformBlock
  inside : RegionIntegrals Float
  stats : SubdivisionStats

/-- The order of two numbers among all patterns. -/
def Single.totalCompare (x y : Single) : Ordering :=
  compare x.totalRank y.totalRank

namespace LeafBlock

/-- The order of two blocks by their corners: the last axis counts first. -/
def compareCorners (a b : LeafBlock) : Ordering :=
  ((a.corner.z.totalCompare b.corner.z).then
    (a.corner.y.totalCompare b.corner.y)).then
    (a.corner.x.totalCompare b.corner.x)

/-- The blocks in the order of their corners; equal corners keep their order. -/
def sortByCorner (blocks : List LeafBlock) : List LeafBlock :=
  blocks.mergeSort fun a b => (compareCorners a b).isLE

end LeafBlock

namespace Subdivision

/-- The region that the top level covers, from the corner of the grid. -/
def coverage (subdivision : Subdivision) (bounds : Aabb Single)
    (resolution : Single) : Aabb Single :=
  let origin := (gridBounds bounds resolution subdivision.dimension).min
  let span : Vec3 Single :=
    match subdivision.levels with
    | [] => 0
    | [_] =>
        match subdivision.leafBlocks with
        | [] => 0
        | leaf :: _ => leaf.extent.size
    | top :: _ :: _ =>
        top.lattice.toSingle.scale (Single.ofNat top.cellSize * resolution)
  let span :=
    match subdivision.dimension with
    | .planar => { span with z := 0 }
    | .solid => span
  ⟨origin, origin + span⟩

/-- The plan of a level hierarchy over the bounds of a shape. -/
def plan (levels : List LevelSize) (bounds : Aabb Single) (dimension : Dimension)
    (config : SubdivisionConfig) : LevelPlan where
  levels
  origin := (gridBounds bounds config.resolution dimension).min.map Single.toFloat
  resolution := config.resolution.toFloat
  overlap := config.overlapEdgeSamples
  recordUniform := config.recordUniformCells
  planar := dimension = .planar

/-- The subdivision of a single level: one leaf block and no device work. -/
def ofSingleLevel (level : LevelSize) (bounds : Aabb Single)
    (dimension : Dimension) (config : SubdivisionConfig) : Subdivision where
  dimension
  levels := [level]
  leafBlocks :=
    [ { corner := (gridBounds bounds config.resolution dimension).min
        spacing := config.resolution
        lattice := level.lattice
        overlap := config.overlapEdgeSamples
        planar := dimension = .planar } ]
  uniformBlocks := []
  inside := .empty
  stats := ⟨0, 0, 0⟩

/-- The results of both lanes together. -/
def ofLanes (dimension : Dimension) (levels : List LevelSize)
    (lanes : LanePair SubdivisionLane) (stats : RunStats) : Subdivision :=
  let first := lanes.first.output
  let second := lanes.second.output
  { dimension
    levels
    leafBlocks :=
      LeafBlock.sortByCorner (first.leafBlocks.toList ++ second.leafBlocks.toList)
    uniformBlocks := first.uniformBlocks.toList ++ second.uniformBlocks.toList
    inside := .empty + first.inside + second.inside
    stats :=
      { dispatches := first.dispatches + second.dispatches
        cellsClassified := first.cellsClassified + second.cellsClassified
        maxInFlight := stats.maxInFlight } }

/-- Enough turns for every block of the coarse levels. -/
def turnBound (plan : LevelPlan) : Nat :=
  2 * LevelPlan.blockBound plan.levels 1 + 2

/-- Subdivide a level hierarchy with any classification of cells. -/
def ofLevels (classify : Classifier) (levels : List LevelSize)
    (bounds : Aabb Single) (dimension : Dimension) (config : SubdivisionConfig) :
    Except SubdivisionError Subdivision :=
  match levels with
  | [level] => .ok (ofSingleLevel level bounds dimension config)
  | _ =>
      let plan := plan levels bounds dimension config
      let run :=
        interleave (subdivisionLanes classify plan) (turnBound plan) [⟨0, ⟨0, 0, 0⟩⟩]
      match run ⟨.initial, .initial⟩ with
      | (.error error, _) => .error (.device error)
      | (.ok none, _) => .error .unfinished
      | (.ok (some stats), lanes) => .ok (ofLanes dimension levels lanes stats)

end Subdivision

/-- Subdivide bounds with any classification of cells. -/
def subdivideWith (classify : Classifier) (bounds : Aabb Single) (axes : Nat)
    (config : SubdivisionConfig) : Except SubdivisionError Subdivision := do
  let levels ← levelSizes bounds axes config
  let dimension ← checkDimension axes
  Subdivision.ofLevels classify levels bounds dimension config

namespace Machine

/-- Subdivide bounds with a loaded program. -/
def subdivide (machine : Machine) (bounds : Aabb Single) (axes : Nat)
    (config : SubdivisionConfig) : Except SubdivisionError Subdivision :=
  subdivideWith machine.classify bounds axes config

end Machine

/-- Load a program, or report why it cannot be loaded. -/
def loadMachine (program : Program) : Except SubdivisionError Machine :=
  program |> Machine.load |>.mapError .program

/-- Compile a shape, or report why it cannot be compiled. -/
def compileShape (shape : Shape Single) (config : CompileConfig) :
    Except SubdivisionError Program :=
  (shape.compile config).mapError .compile

namespace Program

/-- Subdivide bounds with a program. -/
def subdivide (program : Program) (bounds : Aabb Single) (axes : Nat)
    (config : SubdivisionConfig) : Except SubdivisionError Subdivision := do
  config.validate
  let dimension ← checkDimension axes
  let _ ← gridExtent bounds config.resolution dimension
  let machine ← loadMachine program
  machine.subdivide bounds axes config

end Program

namespace Shape

/-- Compile a shape and subdivide its bounding box. -/
def subdivide (shape : Shape Single) (config : SubdivisionConfig) :
    Except SubdivisionError Subdivision := do
  config.validate
  let program ← compileShape shape config.compile
  program.subdivide shape.bounds shape.dimension.axes config

end Shape

end SolidField
