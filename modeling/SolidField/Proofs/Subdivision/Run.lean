import Mathlib.Data.List.Induction
import SolidField.Proofs.Executor.Account
import SolidField.Proofs.Subdivision.Ordering
import SolidField.Subdivision.Search

/-!
# What a run of two lanes collects

The lanes of a subdivision keep the protocol of the executor.  A complete run
has therefore classified the forest of the top block, every block once, and what
the lanes have collected belongs to these blocks, whoever classified which.
-/

namespace SolidField

namespace LevelPlan

/-- The report of a classifier on a block, if there is one. -/
def reportOn (plan : LevelPlan) (classify : Classifier) (job : BlockJob) :
    CellReport :=
  match classify (plan.query job) with
  | .ok (.ok report) => report
  | _ => .empty

/-- The classifier has a report on a block. -/
def Answers (plan : LevelPlan) (classify : Classifier) (job : BlockJob) : Prop :=
  classify (plan.query job) = .ok (.ok (plan.reportOn classify job))

variable {plan : LevelPlan} {classify : Classifier} {job : BlockJob}

theorem reportOn_eq {report : CellReport}
    (answered : classify (plan.query job) = .ok (.ok report)) :
    plan.reportOn classify job = report := by
  rw [reportOn, answered]

theorem answers_of_eq {report : CellReport}
    (answered : classify (plan.query job) = .ok (.ok report)) :
    plan.Answers classify job := by
  rw [Answers, reportOn_eq answered, answered]

end LevelPlan

namespace SubdivisionLane

variable {plan : LevelPlan} {classify : Classifier}

/-- A lane after the reports on some blocks. -/
def after (plan : LevelPlan) (report : BlockJob → CellReport)
    (jobs : List BlockJob) : SubdivisionLane :=
  jobs.foldl
    (fun lane job => (lane.submitted job).processed plan job (report job)) initial

theorem after_append_singleton (report : BlockJob → CellReport)
    (jobs : List BlockJob) (job : BlockJob) :
    after plan report (jobs ++ [job]) =
      ((after plan report jobs).submitted job).processed plan job (report job) := by
  rw [after, List.foldl_append]
  rfl

/-- What a lane has found out belongs to its blocks. -/
structure Collected (plan : LevelPlan) (report : BlockJob → CellReport)
    (jobs : List BlockJob) (lane : SubdivisionLane) : Prop where
  leafBlocks :
    lane.output.leafBlocks.toList =
      (SearchResult.ofBlocks plan report jobs).leafBlocks
  uniformBlocks :
    lane.output.uniformBlocks.toList =
      (SearchResult.ofBlocks plan report jobs).uniformBlocks
  dispatches : lane.output.dispatches = jobs.length
  cellsClassified :
    lane.output.cellsClassified =
      (SearchResult.ofBlocks plan report jobs).cellsClassified

theorem collected_after (report : BlockJob → CellReport) (jobs : List BlockJob) :
    Collected plan report jobs (after plan report jobs) := by
  induction jobs using List.reverseRecOn with
  | nil => exact ⟨rfl, rfl, rfl, rfl⟩
  | append_singleton jobs job collected =>
      rw [after_append_singleton]
      constructor
      · simp [processed, submitted, collected.leafBlocks, SearchResult.ofBlocks]
      · simp [processed, submitted, collected.uniformBlocks, SearchResult.ofBlocks]
      · simp [processed, submitted, collected.dispatches]
      · simp [processed, submitted, collected.cellsClassified,
          SearchResult.ofBlocks]

/-- What two lanes have found out together belongs to the blocks of both. -/
theorem agrees_ofLanes {report : BlockJob → CellReport}
    {first second all : List BlockJob} {lanes : LanePair SubdivisionLane}
    (ofFirst : lanes.first = after plan report first)
    (ofSecond : lanes.second = after plan report second)
    (everyJob : (first ++ second).Perm all) :
    (SearchResult.ofLanes lanes).Agrees (.ofBlocks plan report all) := by
  have one : Collected plan report first lanes.first :=
    ofFirst ▸ collected_after report first
  have two : Collected plan report second lanes.second :=
    ofSecond ▸ collected_after report second
  constructor
  · simp only [SearchResult.ofLanes, one.leafBlocks, two.leafBlocks,
      SearchResult.ofBlocks, ← List.flatMap_append]
    exact everyJob.flatMap_right _
  · simp only [SearchResult.ofLanes, one.uniformBlocks, two.uniformBlocks,
      SearchResult.ofBlocks, ← List.flatMap_append]
    exact everyJob.flatMap_right _
  · simp only [SearchResult.ofLanes, one.dispatches, two.dispatches,
      ← List.length_append]
    exact everyJob.length_eq
  · simp only [SearchResult.ofLanes, one.cellsClassified, two.cellsClassified,
      SearchResult.ofBlocks, ← List.sum_append, ← List.map_append]
    exact (everyJob.map _).sum_nat

/-- What is true of a lane while it has a status. -/
def Holds (plan : LevelPlan) (classify : Classifier) :
    LaneStatus BlockJob (Except DeviceError CellReport) CellReport →
      SubdivisionLane → Prop
  | .idle processed, lane =>
      (∀ job ∈ processed, plan.Answers classify job) ∧
        lane = after plan (plan.reportOn classify) processed
  | .submitted processed job handle, lane =>
      (∀ job ∈ processed, plan.Answers classify job) ∧
        lane = (after plan (plan.reportOn classify) processed).submitted job ∧
        classify (plan.query job) = .ok handle
  | .readBack processed job report, lane =>
      (∀ job ∈ processed, plan.Answers classify job) ∧
        lane = (after plan (plan.reportOn classify) processed).submitted job ∧
        classify (plan.query job) = .ok (.ok report)

/-- The lanes of a subdivision keep the protocol. -/
theorem follows (plan : LevelPlan) (classify : Classifier) :
    (subdivisionLanes classify plan).Follows
      (fun job => plan.followUps job (plan.reportOn classify job))
      (fun side status pair => Holds plan classify status (pair.get side)) where
  enqueue := by
    intro side processed job handle other pair reached idle otherHolds enqueued
    simp only [subdivisionLanes] at enqueued
    split at enqueued
    · cases enqueued
    · next pending answered =>
        cases enqueued
        refine ⟨⟨idle.1, ?_, answered⟩, ?_⟩
        · rw [LanePair.get_set, idle.2]
        · rwa [LanePair.get_set_opposite]
  wait := by
    intro side processed job handle report other pair reached submitted otherHolds
      waited
    rw [subdivisionLanes, Prod.mk.injEq] at waited
    rcases waited with ⟨rfl, rfl⟩
    exact ⟨submitted, otherHolds⟩
  process := by
    intro side processed job report jobs other pair reached readBack otherHolds
      completed
    rcases readBack with ⟨earlier, lane, answered⟩
    have pending : (pair.get side).job = some job := by
      rw [lane]
      rfl
    simp only [subdivisionLanes, pending, Prod.mk.injEq, Except.ok.injEq]
      at completed
    rcases completed with ⟨rfl, rfl⟩
    have own := LevelPlan.reportOn_eq answered
    refine ⟨by rw [own], ⟨?_, ?_⟩, ?_⟩
    · rw [List.forall_mem_append]
      exact ⟨earlier, by simpa using LevelPlan.answers_of_eq answered⟩
    · rw [LanePair.get_set, lane, after_append_singleton, own]
    · rwa [LanePair.get_set_opposite]

/-- Before the run both lanes are idle. -/
theorem holds_initial (plan : LevelPlan) (classify : Classifier) (side : Side) :
    Holds plan classify (.idle [])
      ((⟨.initial, .initial⟩ : LanePair SubdivisionLane).get side) := by
  refine ⟨nofun, ?_⟩
  cases side <;> rfl

/-- When both lanes are idle again, they have found out what their blocks tell. -/
theorem agrees_of_holds {processed : Side → List BlockJob} {all : List BlockJob}
    {lanes : LanePair SubdivisionLane}
    (everyJob : (processed .first ++ processed .second).Perm all)
    (idle : ∀ side, Holds plan classify (.idle (processed side)) (lanes.get side)) :
    (∀ job ∈ all, plan.Answers classify job) ∧
      (SearchResult.ofLanes lanes).Agrees
        (.ofBlocks plan (plan.reportOn classify) all) := by
  rcases idle .first with ⟨firstAnswers, first⟩
  rcases idle .second with ⟨secondAnswers, second⟩
  refine ⟨fun job member => ?_, agrees_ofLanes first second everyJob⟩
  rcases List.mem_append.mp (everyJob.mem_iff.mpr member) with held | held
  · exact firstAnswers job held
  · exact secondAnswers job held

end SubdivisionLane

namespace Subdivision

variable {classify : Classifier} {levels : List LevelSize} {bounds : Aabb Single}
  {dimension : Dimension} {config : SubdivisionConfig} {result : Subdivision}

/-- A subdivision tells what it has subdivided. -/
theorem levels_of_ofLevels
    (completed :
      ofLevels classify levels bounds dimension config = .ok result) :
    result.levels = levels ∧ result.dimension = dimension := by
  simp only [ofLevels] at completed
  split at completed
  · cases completed
    exact ⟨rfl, rfl⟩
  · split at completed <;> cases completed
    exact ⟨rfl, rfl⟩

/-- The results of a complete run are those of the forest of the top block. -/
theorem exists_forest_of_ofLevels (several : levels.length ≠ 1)
    (completed :
      ofLevels classify levels bounds dimension config = .ok result) :
    let plan := plan levels bounds dimension config
    ∃ all, Generates (fun job => plan.followUps job (plan.reportOn classify job))
        [⟨0, ⟨0, 0, 0⟩⟩] all ∧
      (∀ job ∈ all, plan.Answers classify job) ∧
      result.leafBlocks.Perm
        (all.flatMap fun job => plan.leavesOf job (plan.reportOn classify job)) ∧
      result.uniformBlocks.Perm
        (all.flatMap fun job =>
          (plan.reportOn classify job).uniform.map (plan.uniformBlock job)) := by
  intro plan
  simp only [ofLevels] at completed
  split at completed
  · exact absurd rfl several
  · split at completed
    · cases completed
    · cases completed
    · next stats lanes ran =>
        cases completed
        rcases exists_forest_of_interleave (SubdivisionLane.follows plan classify)
          (SubdivisionLane.holds_initial plan classify) ran with
          ⟨all, generated, -, -, processed, everyJob, reached⟩
        rcases SubdivisionLane.agrees_of_holds everyJob reached with
          ⟨answers, agrees⟩
        exact ⟨all, generated, answers,
          (LeafBlock.sortByCorner_perm _).trans agrees.leafBlocks,
          agrees.uniformBlocks⟩

end Subdivision

end SolidField
