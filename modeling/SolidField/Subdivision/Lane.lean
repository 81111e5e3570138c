import SolidField.Executor.Interleave
import SolidField.Subdivision.Plan

/-!
# Lanes of a subdivision

A lane submits one block at a time and collects what its blocks are found to
contain.  The two lanes of a run share nothing but the plan.
-/

namespace SolidField

/-- What one lane has found out. -/
structure LaneOutput where
  /-- The leaf blocks, in the order of processing. -/
  leafBlocks : Array LeafBlock
  /-- The uniform blocks, in the order of processing. -/
  uniformBlocks : Array UniformBlock
  inside : RegionIntegrals Float
  dispatches : Nat
  cellsClassified : Nat

/-- A lane: the block it has submitted, and what it has found out. -/
structure SubdivisionLane where
  /-- The block whose result is awaited. -/
  job : Option BlockJob
  output : LaneOutput

namespace SubdivisionLane

def initial : SubdivisionLane :=
  ⟨none, ⟨#[], #[], .empty, 0, 0⟩⟩

/-- The lane has submitted a block. -/
def submitted (lane : SubdivisionLane) (job : BlockJob) : SubdivisionLane :=
  { job := some job
    output := { lane.output with dispatches := lane.output.dispatches + 1 } }

/-- The lane has processed the report of its block. -/
def processed (lane : SubdivisionLane) (plan : LevelPlan) (job : BlockJob)
    (report : CellReport) : SubdivisionLane :=
  { job := none
    output :=
      { lane.output with
        leafBlocks := lane.output.leafBlocks ++ plan.leavesOf job report
        uniformBlocks :=
          lane.output.uniformBlocks ++ report.uniform.map (plan.uniformBlock job)
        inside :=
          lane.output.inside +
            report.inside.integrals (plan.step (plan.level job.level)) plan.planar
        cellsClassified :=
          lane.output.cellsClassified + plan.cellCount job.level } }

end SubdivisionLane

/-- One state for each of the two lanes. -/
structure LanePair (β : Type) where
  first : β
  second : β

namespace LanePair

variable {β : Type}

def get (pair : LanePair β) : Side → β
  | .first => pair.first
  | .second => pair.second

/-- Replace the state of a lane. -/
def set (pair : LanePair β) (side : Side) (value : β) : LanePair β :=
  match side with
  | .first => { pair with first := value }
  | .second => { pair with second := value }

@[simp]
theorem get_set (pair : LanePair β) (side : Side) (value : β) :
    (pair.set side value).get side = value := by
  cases side <;> rfl

@[simp]
theorem get_set_opposite (pair : LanePair β) (side : Side) (value : β) :
    (pair.set side value).get side.opposite = pair.get side.opposite := by
  cases side <;> rfl

end LanePair

/-- The answer of a device to a query: refused at once, or read back later. -/
abbrev Classifier :=
  CellQuery → Except DeviceError (Except DeviceError CellReport)

/-- The lanes of a subdivision, over any classification of cells. -/
def subdivisionLanes (classify : Classifier) (plan : LevelPlan) :
    Lanes (LanePair SubdivisionLane) DeviceError BlockJob
      (Except DeviceError CellReport) CellReport where
  enqueue side job := fun pair =>
    match classify (plan.query job) with
    | .error error => (.error error, pair)
    | .ok pending => (.ok pending, pair.set side ((pair.get side).submitted job))
  wait _ pending := fun pair => (pending, pair)
  process side report := fun pair =>
    let lane := pair.get side
    match lane.job with
    | none => (.error (.rejected .unmatchedReadBack), pair)
    | some job =>
        (.ok (plan.followUps job report),
          pair.set side (lane.processed plan job report))

end SolidField
