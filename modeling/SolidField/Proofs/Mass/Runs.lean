import SolidField.Proofs.Executor.Results
import SolidField.Proofs.Subdivision.Run

/-!
# The two runs of a measurement

Both runs, the subdivision and the integration over its leaf blocks, process every
job once.  Each lane adds up the integrals of the reports that its log shows.
-/

namespace SolidField

/-! ## Answers of a classifier -/

namespace Classifier

/-- The report of a classifier on a query, if there is one. -/
def reportOf (classify : Classifier) (query : CellQuery) : CellReport :=
  match classify query with
  | .ok (.ok report) => report
  | _ => .empty

/-- The classifier has a report on a query. -/
def Reports (classify : Classifier) (query : CellQuery) : Prop :=
  classify query = .ok (.ok (classify.reportOf query))

variable {classify : Classifier} {query : CellQuery} {report : CellReport}

theorem reportOf_eq (answered : classify query = .ok (.ok report)) :
    classify.reportOf query = report := by
  rw [reportOf, answered]

theorem reports_of_eq (answered : classify query = .ok (.ok report)) :
    classify.Reports query := by
  rw [Reports, reportOf_eq answered, answered]

end Classifier

namespace RegionIntegrals

theorem total_append_singleton (parts : List (RegionIntegrals Float))
    (part : RegionIntegrals Float) : total (parts ++ [part]) = total parts + part := by
  rw [total, List.foldl_append]
  rfl

end RegionIntegrals

/-! ## Blocks of the coarse levels -/

namespace SubdivisionLane

variable {plan : LevelPlan} {classify : Classifier}

/-- A lane has added up the integrals of the reports on its blocks. -/
theorem inside_after (report : BlockJob → CellReport) (jobs : List BlockJob) :
    (after plan report jobs).output.inside =
      plan.integralsOf (jobs.map fun job => (job, report job)) := by
  induction jobs using List.reverseRecOn with
  | nil => rfl
  | append_singleton jobs job induction =>
      rw [after_append_singleton, LevelPlan.integralsOf, List.map_append,
        List.map_append, List.map_singleton, List.map_singleton,
        RegionIntegrals.total_append_singleton]
      exact congrArg (· + _) induction

theorem answers_holds (plan : LevelPlan) (classify : Classifier) :
    Lanes.Answers (fun side status pair =>
      Holds plan classify status (LanePair.get pair side))
      fun job => classify.reportOf (plan.query job) := by
  intro side processed job report pair holds
  exact (Classifier.reportOf_eq holds.2.2).symm

end SubdivisionLane

namespace Subdivision

variable {classify : Classifier} {levels : List LevelSize} {bounds : Aabb Single}
  {dimension : Dimension} {config : SubdivisionConfig} {result : Subdivision}

/-- The log of a complete subdivision shows the forest of the top block. -/
theorem exists_dispatches_of_ofLevels (several : levels.length ≠ 1)
    (completed : ofLevels classify levels bounds dimension config = .ok result) :
    let plan := plan levels bounds dimension config
    let calls := calls classify levels bounds dimension config
    let report job := classify.reportOf (plan.query job)
    ∃ all, Generates (fun job => plan.followUps job (report job)) [⟨0, ⟨0, 0, 0⟩⟩] all ∧
      (∀ job ∈ all, classify.Reports (plan.query job)) ∧
      calls.results.Perm (all.map fun job => (job, report job)) ∧
      result.stats.dispatches = all.length ∧
      result.leafBlocks.Perm
        (all.flatMap fun job => plan.leavesOf job (report job)) ∧
      result.inside = .empty + plan.integralsOf (calls.resultsOn .first) +
        plan.integralsOf (calls.resultsOn .second) := by
  intro plan calls report
  have logged : calls =
      (interleave (subdivisionLanes classify plan).logged (turnBound plan)
        [⟨0, ⟨0, 0, 0⟩⟩] (⟨.initial, .initial⟩, [])).2.2 := by
    simp only [calls, Subdivision.calls]
    split
    · exact absurd rfl several
    · rfl
  simp only [ofLevels] at completed
  split at completed
  · exact absurd rfl several
  · split at completed
    · cases completed
    · cases completed
    · next stats lanes ran =>
        cases completed
        rcases exists_results_of_interleave (SubdivisionLane.follows plan classify)
          (SubdivisionLane.answers_holds plan classify)
          (SubdivisionLane.holds_initial plan classify) ran with
          ⟨all, generated, processed, everyJob, reached⟩
        rw [← logged] at reached
        rcases SubdivisionLane.agrees_of_holds everyJob
          (fun side => (reached side).1) with ⟨answers, agrees⟩
        refine ⟨all, generated, answers, ?_, ?_, ?_, ?_⟩
        · rw [LaneLog.results, (reached .first).2, (reached .second).2,
            ← List.map_append]
          exact everyJob.map _
        · exact agrees.dispatches
        · exact (LeafBlock.sortByCorner_perm _).trans agrees.leafBlocks
        · have inside : ∀ side, (lanes.get side).output.inside =
              plan.integralsOf (calls.resultsOn side) := by
            intro side
            rw [(reached side).1.2, (reached side).2]
            exact SubdivisionLane.inside_after _ _
          rw [← inside .first, ← inside .second]
          rfl

end Subdivision

/-! ## Leaf blocks -/

/-- Jobs that ask for nothing are their own forest. -/
theorem Generates.eq_of_none {Job : Type} {jobs all : List Job}
    (generated : Generates (fun _ => []) jobs all) : all = jobs := by
  induction generated with
  | nil => rfl
  | cons _ _ below rest => rw [below, rest, List.nil_append]

namespace LeafBlock

/-- The integrals over what the reports on leaf blocks count as inside. -/
def integrals (classify : Classifier) (spacing : Float) (blocks : List LeafBlock) :
    RegionIntegrals Float :=
  .total <| blocks.map fun block =>
    (classify.reportOf block.query).inside.integrals spacing false

/-- What is true of the sum of a lane while the lane has a status. -/
def Integrates (classify : Classifier) (spacing : Float) :
    LaneStatus LeafBlock (Except DeviceError CellReport) CellReport →
      RegionIntegrals Float → Prop
  | .idle processed, sum =>
      (∀ block ∈ processed, classify.Reports block.query) ∧
        sum = integrals classify spacing processed
  | .submitted processed block handle, sum =>
      (∀ block ∈ processed, classify.Reports block.query) ∧
        sum = integrals classify spacing processed ∧
        classify block.query = .ok handle
  | .readBack processed block report, sum =>
      (∀ block ∈ processed, classify.Reports block.query) ∧
        sum = integrals classify spacing processed ∧
        classify block.query = .ok (.ok report)

/-- The lanes of an integration keep the protocol. -/
theorem follows_measureLanes (classify : Classifier) (spacing : Float) :
    (measureLanes classify spacing).Follows (fun _ => [])
      (fun side status pair => Integrates classify spacing status (pair.get side)) where
  enqueue := by
    intro side processed block handle other pair reached idle otherHolds enqueued
    rw [measureLanes, Prod.mk.injEq] at enqueued
    rcases enqueued with ⟨answered, rfl⟩
    exact ⟨⟨idle.1, idle.2, answered⟩, otherHolds⟩
  wait := by
    intro side processed block handle report other pair reached submitted otherHolds
      waited
    rw [measureLanes, Prod.mk.injEq] at waited
    rcases waited with ⟨rfl, rfl⟩
    exact ⟨submitted, otherHolds⟩
  process := by
    intro side processed block report jobs other pair reached readBack otherHolds
      completed
    rcases readBack with ⟨earlier, sum, answered⟩
    rw [measureLanes, Prod.mk.injEq, Except.ok.injEq] at completed
    rcases completed with ⟨rfl, rfl⟩
    refine ⟨rfl, ⟨?_, ?_⟩, ?_⟩
    · rw [List.forall_mem_append]
      exact ⟨earlier, by simpa using Classifier.reports_of_eq answered⟩
    · rw [LanePair.get_set, sum, integrals, integrals, List.map_append,
        List.map_singleton, RegionIntegrals.total_append_singleton,
        Classifier.reportOf_eq answered]
    · rwa [LanePair.get_set_opposite]

/-- A complete integration has processed every leaf block once. -/
theorem exists_processed_of_integrateLeaves {classify : Classifier}
    {blocks : List LeafBlock} {resolution : Single}
    {sums : LanePair (RegionIntegrals Float)}
    (completed : integrateLeaves classify blocks resolution = .ok sums) :
    let calls := integrationCalls classify blocks resolution
    (∀ block ∈ blocks, classify.Reports block.query) ∧
      calls.results.Perm
        (blocks.map fun block => (block, classify.reportOf block.query)) ∧
      ∀ side, sums.get side = .total ((calls.resultsOn side).map fun result =>
        result.2.inside.integrals resolution.toFloat false) := by
  intro calls
  have initial : ∀ side, Integrates classify resolution.toFloat (.idle [])
      ((⟨.empty, .empty⟩ : LanePair (RegionIntegrals Float)).get side) := by
    rintro (_ | _) <;> exact ⟨nofun, rfl⟩
  rw [integrateLeaves] at completed
  split at completed
  · cases completed
  · cases completed
  · next stats reached ran =>
      cases completed
      rcases exists_results_of_interleave
        (follows_measureLanes classify resolution.toFloat)
        (fun holds => (Classifier.reportOf_eq holds.2.2).symm) initial ran with
        ⟨all, generated, processed, everyBlock, idle⟩
      obtain rfl := generated.eq_of_none
      have shown : ∀ side, calls.resultsOn side =
          (processed side).map fun block => (block, classify.reportOf block.query) :=
        fun side => (idle side).2
      refine ⟨fun block member => ?_, ?_, fun side => ?_⟩
      · rcases List.mem_append.mp (everyBlock.mem_iff.mpr member) with held | held
        · exact (idle .first).1.1 block held
        · exact (idle .second).1.1 block held
      · rw [LaneLog.results, shown, shown, ← List.map_append]
        exact everyBlock.map _
      · rw [(idle side).1.2, shown, List.map_map]
        rfl

end LeafBlock

end SolidField
