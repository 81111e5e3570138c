import SolidField.Device.Basic
import SolidField.Geometry.Aabb
import SolidField.Shape.Basic

/-!
# Blocks

A leaf block is a lattice of the finest level that needs full evaluation.  A
uniform block is a cell that lies inside or outside as a whole.
-/

namespace SolidField

/-- A lattice of the finest level that needs full evaluation. -/
structure LeafBlock where
  corner : Vec3 Single
  spacing : Single
  lattice : GridVector
  /-- The last row of samples is shared with the neighbouring block. -/
  overlap : Bool
  /-- There is one layer of samples, in the plane. -/
  planar : Bool
deriving DecidableEq

namespace LeafBlock

/-- The samples on an axis that are cells of their own. -/
def ownedCount (overlap : Bool) (samples : UInt32) : UInt32 :=
  if overlap then (if samples ≤ 2 then 1 else samples - 1) else samples

/-- The number of cells that the block owns on every axis. -/
def ownedCells (block : LeafBlock) : GridVector :=
  block.lattice.map (ownedCount block.overlap)

/-- The region of the owned cells; flat for a planar block. -/
def extent (block : LeafBlock) : Aabb Single :=
  let size := block.ownedCells.toSingle.scale block.spacing
  let size := if block.planar then { size with z := 0 } else size
  ⟨block.corner, block.corner + size⟩

/-- The position of a sample. -/
def samplePosition (block : LeafBlock) (index : GridVector) : Vec3 Single :=
  block.corner + index.toSingle.scale block.spacing

/-- The evaluation of every sample, as a kernel. -/
def kernel (block : LeafBlock) : DeviceKernel (List Single) :=
  fun machine => DeviceKernel.ofFault <|
    machine.evalLattice block.corner block.spacing block.lattice.toNat

end LeafBlock

/-- A cell that lies inside or outside as a whole. -/
structure UniformBlock where
  corner : Vec3 Single
  size : Single
  inside : Bool
  /-- It is a square in the plane. -/
  planar : Bool
deriving DecidableEq

namespace UniformBlock

/-- The region of the cell; flat for a planar cell. -/
def extent (block : UniformBlock) : Aabb Single :=
  let depth := if block.planar then 0 else block.size
  ⟨block.corner, block.corner + ⟨block.size, block.size, depth⟩⟩

end UniformBlock

end SolidField
