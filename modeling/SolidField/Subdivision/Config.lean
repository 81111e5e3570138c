import SolidField.Device.Basic
import SolidField.Program.Compile

/-!
# Settings and errors of subdivision

The settings are checked before anything is computed, so that no later division
is by zero and no block is larger than the device admits.
-/

namespace SolidField

/-- The settings of a subdivision. -/
structure SubdivisionConfig where
  /-- The edge of a cell of the finest level. -/
  resolution : Single := ⟨0x3d4ccccd⟩
  /-- The number of samples on every axis of a block. -/
  latticeSize : UInt32 := 128
  /-- Whether neighbouring leaf blocks share a row of samples. -/
  overlapEdgeSamples : Bool := true
  /-- The lattice of the top level is a multiple of this number. -/
  levelSizeMultiplier : UInt32 := 1
  /-- Whether to list the uniform cells. -/
  recordUniformCells : Bool := false
  compile : CompileConfig := {}
deriving DecidableEq

/-- What a request must meet before any device work. -/
inductive Precondition where
  | resolution (value : Single)
  | latticeTooSmall (size : UInt32)
  | latticeTooLarge (size : UInt32)
  | multiplier (size multiplier : UInt32)
  | dimension (axes : Nat)
  | bounds (aabb : Aabb Single)
  | gridTooFine (resolution : Single) (size : Vec3 Single)
  | levelOverflow (resolution : Single)
  | solid (dimension : Dimension)
deriving DecidableEq

def Precondition.message : Precondition → String
  | resolution value =>
      "resolution must be positive and finite, got " ++ value.plainText
  | latticeTooSmall size =>
      "lattice_size must be greater than 1, got " ++ toString size.toNat
  | latticeTooLarge size =>
      "lattice_size must not exceed " ++ toString maxLatticeSize ++ ", got " ++
        toString size.toNat
  | multiplier size factor =>
      "lattice_size " ++ toString size.toNat ++
        " is not a multiple of level_size_multiplier " ++ toString factor.toNat
  | dimension axes => "dimension must be 2 or 3, got " ++ toString axes
  | bounds aabb => "invalid bounds " ++ aabb.text
  | gridTooFine value size =>
      "resolution " ++ value.plainText ++
        " is too fine for bounds of size " ++ size.text
  | levelOverflow value =>
      "level cell size overflows at resolution " ++ value.plainText
  | solid found =>
      "mass properties need a 3D shape, got a " ++ toString found.axes ++ "D one"

/-- Why a shape has no subdivision. -/
inductive SubdivisionError where
  | precondition (condition : Precondition)
  | compile (error : CompileError)
  | program (error : ProgramError)
  | device (error : DeviceError)
  | unfinished
deriving DecidableEq

def SubdivisionError.message : SubdivisionError → String
  | .precondition condition =>
      "Subdivision precondition violated: " ++ condition.message
  | compile error => error.message
  | program error => error.message
  | device error => error.message
  | unfinished => "Subdivision did not finish"

namespace SubdivisionConfig

def ofResolution (resolution : Single) : SubdivisionConfig :=
  { resolution }

/-- The first precondition that the settings do not meet. -/
def violation? (config : SubdivisionConfig) : Option Precondition :=
  if !Scalar.isPositiveFinite config.resolution then
    some (.resolution config.resolution)
  else if config.latticeSize ≤ 1 then
    some (.latticeTooSmall config.latticeSize)
  else if maxLatticeSize < config.latticeSize.toNat then
    some (.latticeTooLarge config.latticeSize)
  else if config.levelSizeMultiplier = 0 ∨
      config.latticeSize % config.levelSizeMultiplier ≠ 0 then
    some (.multiplier config.latticeSize config.levelSizeMultiplier)
  else
    none

/-- Refuse settings that do not meet a precondition. -/
def validate (config : SubdivisionConfig) : Except SubdivisionError Unit :=
  match config.violation? with
  | some condition => .error (.precondition condition)
  | none => .ok ()

end SubdivisionConfig

/-- The dimension with a number of axes, or the precondition that fails. -/
def checkDimension (axes : Nat) : Except SubdivisionError Dimension :=
  match Dimension.ofAxes? axes with
  | some dimension => .ok dimension
  | none => .error (.precondition (.dimension axes))

end SolidField
