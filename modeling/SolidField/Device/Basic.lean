import SolidField.Device.Integrals
import SolidField.Device.Lattice
import SolidField.Geometry.Text

/-!
# The device

A device runs lattice kernels over one loaded program.  A submission is checked
at once and refused if its lattice is empty or too large; what goes wrong while
a kernel runs is reported when its result is read back.
-/

namespace SolidField

/-- The largest number of samples on an axis of a block. -/
def maxLatticeSize : Nat := 256

/-- The largest number of cells of a submission. -/
def maxLatticeCells : Nat :=
  maxLatticeSize * maxLatticeSize * maxLatticeSize

/-- Why a submission is refused. -/
inductive Rejection where
  | lattice (dims : GridVector) (cells : Nat)
  | cellStep (step : Single)
  | unmatchedReadBack
  | refused (reason : String)
deriving DecidableEq

/-- Why device work has no result. -/
inductive DeviceError where
  | kernelAssertion (text : String)
  | disconnected
  | rejected (reason : Rejection)
deriving DecidableEq

def Rejection.message : Rejection → String
  | lattice dims cells =>
      "lattice " ++ dims.text ++ " has " ++ toString cells ++ " cells"
  | cellStep step => "cell step " ++ step.plainText
  | unmatchedReadBack => "read-back without a submission"
  | refused reason => reason

def DeviceError.message : DeviceError → String
  | kernelAssertion text => "Kernel assertion failed: " ++ text
  | disconnected => "Device work was dropped before completion"
  | rejected reason => "Submission rejected: " ++ reason.message

/-- What a kernel that hits an assertion leaves behind. -/
inductive AssertionPayload where
  | text (value : String)
  | other
deriving DecidableEq

def AssertionPayload.message : AssertionPayload → String
  | text value => value
  | other => "kernel panicked"

/-- The work of a kernel on a loaded program, or the assertion it hits. -/
abbrev DeviceKernel (β : Type) := Machine → Except AssertionPayload β

/-- Run a kernel and read its result back. -/
def Machine.submit {β : Type} (machine : Machine) (kernel : DeviceKernel β) :
    Except DeviceError β :=
  match kernel machine with
  | .ok result => .ok result
  | .error payload => .error (.kernelAssertion payload.message)

/-- A fault of a machine inside a kernel is an assertion of the kernel. -/
def DeviceKernel.ofFault {β : Type} (result : Except MachineFault β) :
    Except AssertionPayload β :=
  result.mapError fun fault => .text fault.message

/-- One classification of the cells of a block. -/
structure CellQuery where
  firstCentre : Vec3 Single
  step : Single
  dims : GridVector
  /-- A cell whose distance is nearer to zero than this is intersecting. -/
  threshold : Single
  /-- Whether to list the uniform cells. -/
  recordUniform : Bool
deriving DecidableEq

/-- What a classification finds out. -/
structure CellReport where
  intersecting : List UInt32
  inside : InsideSums Float
  /-- The packed indices of the uniform cells, and whether they are inside. -/
  uniform : List (UInt32 × Bool)

namespace CellQuery

def rejection? (query : CellQuery) : Option Rejection :=
  let cells := query.dims.cellWord.toNat
  if cells = 0 ∨ maxLatticeCells < cells then
    some (.lattice query.dims cells)
  else if !Scalar.isPositiveFinite query.step then
    some (.cellStep query.step)
  else
    none

/-- The distance marks a cell that the surface may cross. -/
def intersects (query : CellQuery) (distance : Single) : Bool :=
  distance.abs.less query.threshold

end CellQuery

/-- Where the cells of a query lie, in double precision. -/
structure CellFrame where
  firstCentre : Vec3 Float
  step : Float

namespace CellFrame

def ofQuery (query : CellQuery) : CellFrame :=
  ⟨query.firstCentre.map Single.toFloat, query.step.toFloat⟩

def centre (frame : CellFrame) (position : GridVector) : Vec3 Float :=
  frame.firstCentre + position.toFloat.scale frame.step

end CellFrame

namespace CellReport

def empty : CellReport :=
  ⟨[], .empty, []⟩

/-- Take the next cell into account; the lists grow at their front. -/
def add (query : CellQuery) (frame : CellFrame) (report : CellReport)
    (cell : Single × Nat) : CellReport :=
  let (distance, position) := cell
  let index := UInt32.ofNat position
  if query.intersects distance then
    { report with intersecting := index :: report.intersecting }
  else
    let isInside := distance.less 0
    { report with
      inside :=
        match isInside, unpackIndex? index query.dims with
        | true, some position => report.inside.add (frame.centre position)
        | _, _ => report.inside
      uniform :=
        if query.recordUniform then
          (index, isInside) :: report.uniform
        else
          report.uniform }

/-- The report of the distances of all cells, in the order of the packing. -/
def ofDistances (query : CellQuery) (distances : List Single) : CellReport :=
  let report := distances.zipIdx.foldl (add query (.ofQuery query)) empty
  { report with
    intersecting := report.intersecting.reverse
    uniform := report.uniform.reverse }

end CellReport

/-- The classification of a query, as a kernel. -/
def CellQuery.kernel (query : CellQuery) : DeviceKernel CellReport :=
  fun machine => DeviceKernel.ofFault <|
    (machine.evalLattice query.firstCentre query.step query.dims.toNat).map
      (CellReport.ofDistances query)

/-- Submit a classification: refused at once, or a result to be read back. -/
def Machine.classify (machine : Machine) (query : CellQuery) :
    Except DeviceError (Except DeviceError CellReport) :=
  match query.rejection? with
  | some reason => .error (.rejected reason)
  | none => .ok (machine.submit query.kernel)

end SolidField
