import Mathlib.Algebra.Order.Ring.Nat
import SolidField.Subdivision.Region

/-!
# Searching the cells in sequence

The plain recursion over the blocks of a plan: a block is classified, and every
block that follows from it is searched in turn.  It is what the two lanes of a
subdivision compute together.
-/

namespace SolidField

/-- What a search finds. -/
structure SearchResult where
  leafBlocks : List LeafBlock
  uniformBlocks : List UniformBlock
  dispatches : Nat
  cellsClassified : Nat

namespace SearchResult

def empty : SearchResult :=
  ⟨[], [], 0, 0⟩

/-- What two searches find together. -/
def append (a b : SearchResult) : SearchResult where
  leafBlocks := a.leafBlocks ++ b.leafBlocks
  uniformBlocks := a.uniformBlocks ++ b.uniformBlocks
  dispatches := a.dispatches + b.dispatches
  cellsClassified := a.cellsClassified + b.cellsClassified

instance : Append SearchResult := ⟨append⟩

/-- What a block itself contributes. -/
def ofReport (plan : LevelPlan) (job : BlockJob) (report : CellReport) :
    SearchResult where
  leafBlocks := plan.leavesOf job report
  uniformBlocks := report.uniform.map (plan.uniformBlock job)
  dispatches := 1
  cellsClassified := plan.cellCount job.level

/-- What a list of blocks contributes, whatever led to them. -/
def ofBlocks (plan : LevelPlan) (report : BlockJob → CellReport)
    (jobs : List BlockJob) : SearchResult where
  leafBlocks := jobs.flatMap fun job => plan.leavesOf job (report job)
  uniformBlocks :=
    jobs.flatMap fun job => (report job).uniform.map (plan.uniformBlock job)
  dispatches := jobs.length
  cellsClassified := (jobs.map fun job => plan.cellCount job.level).sum

/-- What two lanes have found out. -/
def ofLanes (lanes : LanePair SubdivisionLane) : SearchResult :=
  let first := lanes.first.output
  let second := lanes.second.output
  { leafBlocks := first.leafBlocks.toList ++ second.leafBlocks.toList
    uniformBlocks := first.uniformBlocks.toList ++ second.uniformBlocks.toList
    dispatches := first.dispatches + second.dispatches
    cellsClassified := first.cellsClassified + second.cellsClassified }

/-- Two searches find the same, in any order. -/
structure Agrees (a b : SearchResult) : Prop where
  leafBlocks : a.leafBlocks.Perm b.leafBlocks
  uniformBlocks : a.uniformBlocks.Perm b.uniformBlocks
  dispatches : a.dispatches = b.dispatches
  cellsClassified : a.cellsClassified = b.cellsClassified

end SearchResult

namespace LevelPlan

/-- Search a block and every block that follows from it, to a depth of levels. -/
def search (plan : LevelPlan) (classify : CellQuery → CellReport) :
    Nat → BlockJob → SearchResult
  | 0, _ => .empty
  | depth + 1, job =>
      let report := classify (plan.query job)
      (plan.followUps job report).foldl
        (fun found next => found ++ plan.search classify depth next)
        (.ofReport plan job report)

/-- Search the whole region of a plan. -/
def searchAll (plan : LevelPlan) (classify : CellQuery → CellReport) :
    SearchResult :=
  plan.search classify plan.levels.length ⟨0, ⟨0, 0, 0⟩⟩

/-- A block of a coarse level with cells enough for a submission and not too many. -/
structure Dispatches (plan : LevelPlan) (job : BlockJob) : Prop where
  coarse : job.level + 1 < plan.levels.length
  cells : 1 ≤ (plan.query job).dims.cells ∧
    (plan.query job).dims.cells ≤ maxLatticeCells

end LevelPlan

/-- A classifier that has a report on every query. -/
def Classifier.ofReports (report : CellQuery → CellReport) : Classifier :=
  fun query => .ok (.ok (report query))

namespace Subdivision

/-- What a subdivision has found. -/
def found (result : Subdivision) : SearchResult where
  leafBlocks := result.leafBlocks
  uniformBlocks := result.uniformBlocks
  dispatches := result.stats.dispatches
  cellsClassified := result.stats.cellsClassified

/--
A subdivision finds what a search finds, and its leaf blocks are in the order
that any two lanes would put them in, whichever of them each lane has collected.
-/
structure Refines (result : Subdivision) (search : SearchResult) : Prop where
  agrees : result.found.Agrees search
  ordered : ∀ first second, (first ++ second).Perm search.leafBlocks →
    LeafBlock.sortByCorner (first ++ second) = result.leafBlocks

end Subdivision

end SolidField
