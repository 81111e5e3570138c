import SolidField.Subdivision.Config

/-!
# Level hierarchies

All sizes are counted in cells of the finest level.  A cell of a coarser level is
what one block of the next finer level owns, and the top level has just enough
cells to cover the bounds.  A leaf block that shares its last row of samples owns
one cell less on every axis than it has samples.
-/

namespace SolidField

/-- One level of a hierarchy. -/
structure LevelSize where
  cellSize : Nat
  /-- The cells of a block on every axis; of a leaf block, the samples. -/
  lattice : GridVector
deriving DecidableEq

/-- The lattice of a block below the top level. -/
def blockLattice (size : UInt32) : Dimension → GridVector
  | .planar => ⟨size, size, 1⟩
  | .solid => ⟨size, size, size⟩

/-- The bounds grown by half a cell; the bounds of a planar shape are flat. -/
def gridBounds (bounds : Aabb Single) (resolution : Single)
    (dimension : Dimension) : Aabb Single :=
  let grid := bounds.expanded (resolution * .half)
  match dimension with
  | .planar => ⟨{ grid.min with z := 0 }, { grid.max with z := 0 }⟩
  | .solid => grid

/-- Counts of cells beyond this are no longer exact. -/
def maxGridExtent : Nat := Nat.pow 2 53

/-- The cells that cover a length, if they can be counted. -/
def cellsAlong? (length resolution : Single) : Option Nat :=
  match ceiling? (length.toFloat / resolution.toFloat) with
  | some cells => if cells < maxGridExtent then some (max cells 1) else none
  | none => none

/-- The cells that cover the grown bounds on every axis. -/
def gridExtent (bounds : Aabb Single) (resolution : Single)
    (dimension : Dimension) : Except SubdivisionError (Vec3 Nat) :=
  if !bounds.isValid then
    .error (.precondition (.bounds bounds))
  else
    let size := (gridBounds bounds resolution dimension).size
    match cellsAlong? size.x resolution, cellsAlong? size.y resolution,
        cellsAlong? size.z resolution with
    | some x, some y, some z => .ok ⟨x, y, z⟩
    | _, _, _ => .error (.precondition (.gridTooFine resolution bounds.size))

/-- The largest component. -/
def largestExtent (extent : Vec3 Nat) : Nat :=
  max extent.x (max extent.y extent.z)

/-- The smallest number of parts that cover a length. -/
def coverCount (length part : Nat) : Nat :=
  (length + part - 1) / part

/-- The least multiple that is not below a number. -/
def roundUp (value multiple : Nat) : Nat :=
  coverCount value multiple * multiple

/--
The cell sizes from a level on up to the first one whose block reaches the
extent, the coarsest first; the levels below it follow.
-/
def climb (lattice extent cell : Nat) (finer : List Nat) : Option (List Nat) :=
  let next := cell * lattice
  if UInt64.size ≤ next then
    none
  else if extent ≤ next then
    some (cell :: finer)
  else if cell < next then
    climb lattice extent next (cell :: finer)
  else
    none
termination_by extent - cell

/--
The cell sizes of all levels, the coarsest first.  The finest cells have size
one, and what a leaf block owns is the cell of the next level.
-/
def cellSizes (lattice overlap extent : Nat) : Option (List Nat) :=
  let leaf := lattice - overlap
  if extent ≤ leaf then some [1] else climb lattice extent leaf [1]

/-- The cells of the top level on one axis. -/
def topCells (config : SubdivisionConfig) (cell overlap axis : Nat)
    (limit : UInt32) : UInt32 :=
  let cells :=
    roundUp (coverCount axis cell + overlap) config.levelSizeMultiplier.toNat
  UInt32.ofNat (min (max cells 1) limit.toNat)

/-- The level hierarchy of a grid extent, the coarsest level first. -/
def levelsOfExtent (extent : Vec3 Nat) (dimension : Dimension)
    (config : SubdivisionConfig) : Except SubdivisionError (List LevelSize) :=
  let block := blockLattice config.latticeSize dimension
  let overlap := if config.overlapEdgeSamples then 1 else 0
  match cellSizes config.latticeSize.toNat overlap (largestExtent extent) with
  | some (top :: finer) =>
      let shared := if finer.isEmpty then overlap else 0
      let lattice : GridVector :=
        ⟨topCells config top shared extent.x block.x,
          topCells config top shared extent.y block.y,
          topCells config top shared extent.z block.z⟩
      .ok (⟨top, lattice⟩ :: finer.map fun cell => ⟨cell, block⟩)
  | _ => .error (.precondition (.levelOverflow config.resolution))

/-- The level hierarchy of the bounds of a shape, the coarsest level first. -/
def levelSizes (bounds : Aabb Single) (axes : Nat)
    (config : SubdivisionConfig) : Except SubdivisionError (List LevelSize) := do
  config.validate
  let dimension ← checkDimension axes
  let extent ← gridExtent bounds config.resolution dimension
  levelsOfExtent extent dimension config

end SolidField
