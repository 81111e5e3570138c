import SolidField.Subdivision.Block
import SolidField.Subdivision.Level

/-!
# What a level hierarchy is

The levels of a grid extent are described here apart from their computation: how
the cells of neighbouring levels fit, what the top block covers and how few
levels there are.  The same arithmetic in machine words stands beside it, without
any test for overflow.
-/

namespace SolidField

/-! ## Machine words -/

/-- A quotient of two words, rounded up. -/
def coverCountWord (length part : UInt64) : UInt64 :=
  if length % part = 0 then length / part else length / part + 1

/-- The cells of the top level on one axis, in words. -/
def topCellsWord (config : SubdivisionConfig) (cell overlap axis : UInt64)
    (limit : UInt32) : UInt32 :=
  let multiple := config.levelSizeMultiplier.toUInt64
  let cells :=
    coverCountWord (coverCountWord axis cell + overlap) multiple * multiple
  (min (max cells 1) limit.toUInt64).toUInt32

namespace SubdivisionConfig

/-- The rows of samples that a block shares with its neighbour on an axis. -/
def sharedRows (config : SubdivisionConfig) (finest : Bool) : Nat :=
  if finest && config.overlapEdgeSamples then 1 else 0

/-- The cells that a whole block owns on an axis. -/
def ownedCount (config : SubdivisionConfig) (finest : Bool) : Nat :=
  config.latticeSize.toNat - config.sharedRows finest

def sharedRowsWord (config : SubdivisionConfig) (finest : Bool) : UInt64 :=
  if finest && config.overlapEdgeSamples then 1 else 0

def ownedCountWord (config : SubdivisionConfig) (finest : Bool) : UInt64 :=
  config.latticeSize.toUInt64 - config.sharedRowsWord finest

/-- An axis of the top lattice is within the limits of a block. -/
structure AdmitsTop (config : SubdivisionConfig) (samples : UInt32) : Prop where
  multiple : config.levelSizeMultiplier.toNat ∣ samples.toNat
  atMost : samples.toNat ≤ config.latticeSize.toNat

end SubdivisionConfig

namespace LevelSize

/-- The cells that a block of the level owns on every axis. -/
def ownedCells (level : LevelSize) (config : SubdivisionConfig) (finest : Bool) :
    Vec3 Nat :=
  GridVector.toNat <|
    if finest then
      level.lattice.map (LeafBlock.ownedCount config.overlapEdgeSamples)
    else
      level.lattice

end LevelSize

/-! ## Hierarchies -/

/-- A number of cells on every axis that can be counted; one layer in the plane. -/
structure CountedExtent (extent : Vec3 Nat) (dimension : Dimension) : Prop where
  x : 0 < extent.x ∧ extent.x < maxGridExtent
  y : 0 < extent.y ∧ extent.y < maxGridExtent
  z : 0 < extent.z ∧ extent.z < maxGridExtent
  layer : dimension = .planar → extent.z = 1

/-- The top level and the finer levels, the coarsest first, of an extent. -/
structure Hierarchy (extent : Vec3 Nat) (dimension : Dimension)
    (config : SubdivisionConfig) (top : LevelSize) (finer : List LevelSize) :
    Prop where
  finest : ((top :: finer).getLast (List.cons_ne_nil _ _)).cellSize = 1
  /-- A cell is what one block of the next level owns. -/
  nested : ∀ index coarse fine,
    (top :: finer)[index]? = some coarse → finer[index]? = some fine →
      coarse.cellSize =
        fine.cellSize * config.ownedCount (index + 1 = finer.length)
  /-- Below the top every block has the whole lattice. -/
  below : ∀ level ∈ finer,
    level.lattice = blockLattice config.latticeSize dimension
  /-- What the top block owns covers the extent on every axis. -/
  covers :
    let owned := top.ownedCells config finer.isEmpty
    extent.x ≤ owned.x * top.cellSize ∧ extent.y ≤ owned.y * top.cellSize ∧
      extent.z ≤ owned.z * top.cellSize
  /-- In the plane the third axis has one layer of cells. -/
  admitted :
    config.AdmitsTop top.lattice.x ∧ config.AdmitsTop top.lattice.y ∧
      match dimension with
      | .planar => top.lattice.z = 1
      | .solid => config.AdmitsTop top.lattice.z
  /-- There are no more levels than the extent needs. -/
  minimal : finer ≠ [] → top.cellSize < largestExtent extent
  /-- No product of a cell and a block leaves the words. -/
  products : ∀ index level, (top :: finer)[index]? = some level →
    (UInt64.ofNat level.cellSize *
        config.ownedCountWord (index = finer.length)).toNat =
      level.cellSize * config.ownedCount (index = finer.length)
  /-- The top lattice is the same in words. -/
  words :
    let block := blockLattice config.latticeSize dimension
    let axis := topCellsWord config (.ofNat top.cellSize)
      (config.sharedRowsWord finer.isEmpty)
    top.lattice =
      ⟨axis (.ofNat extent.x) block.x, axis (.ofNat extent.y) block.y,
        axis (.ofNat extent.z) block.z⟩

end SolidField
