import Mathlib.Algebra.Order.BigOperators.Group.List
import Mathlib.Algebra.Order.Ring.Nat
import SolidField.Proofs.Executor.Logging
import SolidField.Proofs.Subdivision.Grid
import SolidField.Proofs.Subdivision.Hierarchy
import SolidField.Proofs.Subdivision.Run

/-!
# Two lanes and the plain recursion

A search of the cells of a plan and a run of its two lanes classify one forest of
blocks, the search in the order of the recursion and the lanes in the order of
their stack.  What they find depends on the blocks of the forest alone, and the
leaf blocks have one sorted list because they differ in their corners only.
-/

namespace SolidField

namespace SearchResult

theorem append_empty (result : SearchResult) : result ++ empty = result := by
  cases result
  show append _ _ = _
  simp only [append, empty, List.append_nil, Nat.add_zero]

theorem append_assoc (a b c : SearchResult) : a ++ b ++ c = a ++ (b ++ c) := by
  show append (append a b) c = append a (append b c)
  simp only [append, List.append_assoc, Nat.add_assoc]

variable {plan : LevelPlan} {report : BlockJob → CellReport}

theorem ofBlocks_nil : ofBlocks plan report [] = empty := rfl

theorem ofBlocks_singleton (job : BlockJob) :
    ofBlocks plan report [job] = ofReport plan job (report job) := by
  simp [ofBlocks, ofReport]

theorem ofBlocks_append (jobs others : List BlockJob) :
    ofBlocks plan report (jobs ++ others) =
      ofBlocks plan report jobs ++ ofBlocks plan report others := by
  show _ = append _ _
  simp [ofBlocks, append]

end SearchResult

/-! ## The forest of a search -/

namespace LevelPlan

variable {plan : LevelPlan} {report : CellQuery → CellReport}

/-- Blocks of a coarse level are followed by blocks of the next one. -/
theorem level_of_mem_followUps {job next : BlockJob} {found : CellReport}
    (coarse : job.level + 1 < plan.levels.length)
    (member : next ∈ plan.followUps job found) :
    next.level = job.level + 1 ∧ next.level + 1 < plan.levels.length := by
  rw [followUps] at member
  split at member
  · cases member
  · next notLast =>
      have notLast : job.level + 2 ≠ plan.levels.length :=
        mt decide_eq_true notLast
      rcases List.mem_map.mp member with ⟨index, -, rfl⟩
      refine ⟨rfl, ?_⟩
      show job.level + 1 + 1 < plan.levels.length
      omega

/-- The blocks that a block is followed by if a classifier has these reports. -/
def next (plan : LevelPlan) (report : CellQuery → CellReport) (job : BlockJob) :
    List BlockJob :=
  plan.followUps job (plan.reportOn (.ofReports report) job)

/-- What a search of one block after the other finds belongs to their forest. -/
theorem exists_forest_of_foldl {depth : Nat} {jobs : List BlockJob}
    (each : ∀ job ∈ jobs, ∃ all,
      Generates (plan.next report) [job] all ∧
        (∀ block ∈ all, block.level + 1 < plan.levels.length) ∧
        plan.search report depth job =
          .ofBlocks plan (plan.reportOn (.ofReports report)) all) :
    ∃ all, Generates (plan.next report) jobs all ∧
      (∀ block ∈ all, block.level + 1 < plan.levels.length) ∧
      ∀ found, jobs.foldl
          (fun found job => found ++ plan.search report depth job) found =
        found ++ .ofBlocks plan (plan.reportOn (.ofReports report)) all := by
  induction jobs with
  | nil =>
      refine ⟨[], .nil, nofun, fun found => ?_⟩
      rw [List.foldl_nil, SearchResult.ofBlocks_nil, SearchResult.append_empty]
  | cons job jobs induction =>
      rw [List.forall_mem_cons] at each
      rcases each with ⟨⟨first, tree, firstCoarse, searched⟩, others⟩
      rcases induction others with ⟨rest, forest, restCoarse, folded⟩
      refine ⟨first ++ rest, tree.append forest, ?_, fun found => ?_⟩
      · rw [List.forall_mem_append]
        exact ⟨firstCoarse, restCoarse⟩
      · rw [List.foldl_cons, folded, searched, SearchResult.ofBlocks_append,
          SearchResult.append_assoc]

/--
A search that is as deep as there are levels left reaches every block of a finite
forest.
-/
theorem exists_forest_of_search {depth : Nat} {job : BlockJob}
    (coarse : job.level + 1 < plan.levels.length)
    (deep : plan.levels.length ≤ job.level + depth) :
    ∃ all, Generates (plan.next report) [job] all ∧
      (∀ block ∈ all, block.level + 1 < plan.levels.length) ∧
      plan.search report depth job =
        .ofBlocks plan (plan.reportOn (.ofReports report)) all := by
  induction depth generalizing job with
  | zero => omega
  | succ depth induction =>
      have each : ∀ block ∈ plan.next report job, ∃ all,
          Generates (plan.next report) [block] all ∧
            (∀ block ∈ all, block.level + 1 < plan.levels.length) ∧
            plan.search report depth block =
              .ofBlocks plan (plan.reportOn (.ofReports report)) all := by
        intro block member
        rcases level_of_mem_followUps coarse member with ⟨level, stillCoarse⟩
        exact induction stillCoarse (by omega)
      rcases exists_forest_of_foldl each with ⟨below, forest, belowCoarse, folded⟩
      refine ⟨job :: below, ?_, ?_, ?_⟩
      · rw [← List.append_nil (plan.next report job)] at forest
        exact forest.of_followUps
      · rw [List.forall_mem_cons]
        exact ⟨coarse, belowCoarse⟩
      · rw [← List.singleton_append, SearchResult.ofBlocks_append,
          SearchResult.ofBlocks_singleton]
        exact folded _

/-! ## The size of the forest -/

/-- The first of the levels that are left, and those below it. -/
theorem drop_levels {index : Nat} {level : LevelSize} {levels : List LevelSize}
    (left : plan.levels.drop index = level :: levels) :
    index < plan.levels.length ∧ plan.level index = level ∧
      plan.levels.drop (index + 1) = levels := by
  have inside : index < plan.levels.length := by
    apply Decidable.byContradiction
    intro outside
    rw [List.drop_eq_nil_of_le (Nat.le_of_not_lt outside)] at left
    cases left
  refine ⟨inside, ?_, ?_⟩
  · have head := congrArg List.head? left
    rw [List.head?_drop, List.head?_cons] at head
    rw [LevelPlan.level, List.getD_eq_getElem?_getD, head, Option.getD_some]
  · rw [← List.drop_drop, left, List.drop_one, List.tail_cons]

/-- A block is followed by as many blocks as cells intersect, or by none. -/
theorem length_next_le (job : BlockJob) :
    (plan.next report job).length ≤
      (plan.reportOn (.ofReports report) job).intersecting.length := by
  rw [next, followUps]
  split
  · exact Nat.zero_le _
  · rw [List.length_map]

/-- Blocks with as many followers as cells at most stay within the bound. -/
theorem length_le_blockBound
    (few : ∀ job : BlockJob, job.level < plan.levels.length →
      (plan.reportOn (.ofReports report) job).intersecting.length ≤
        plan.cellCount job.level)
    {levels : List LevelSize} {index blocks : Nat} {jobs all : List BlockJob}
    (left : plan.levels.drop index = levels)
    (placed : ∀ job ∈ jobs, job.level = index ∧
      job.level + 1 < plan.levels.length)
    (counted : jobs.length ≤ blocks)
    (generated : Generates (plan.next report) jobs all) :
    all.length ≤ blockBound levels blocks := by
  induction levels generalizing index blocks jobs all with
  | nil =>
      cases generated with
      | nil => exact Nat.le_refl 0
      | @cons job =>
          rw [List.drop_eq_nil_iff] at left
          have := placed job (List.mem_cons_self ..)
          omega
  | cons level levels induction =>
      rcases generated.exists_layer with ⟨below, forest, perm⟩
      rcases drop_levels left with ⟨inside, here, rest⟩
      have follow : ∀ job ∈ jobs,
          (plan.next report job).length ≤ level.lattice.cellWord.toNat := by
        intro job member
        have own := few job (by rw [(placed job member).1]; exact inside)
        rw [cellCount, (placed job member).1, here] at own
        exact Nat.le_trans (length_next_le job) own
      have layer : (jobs.flatMap (plan.next report)).length ≤
          blocks * level.lattice.cellWord.toNat := by
        rw [List.length_flatMap]
        refine Nat.le_trans (List.sum_le_card_nsmul _ level.lattice.cellWord.toNat ?_) ?_
        · rw [List.forall_mem_map]
          exact follow
        · rw [List.length_map, Nat.nsmul_eq_mul]
          exact Nat.mul_le_mul_right _ counted
      have deeper := induction rest (by
        intro block member
        rcases List.mem_flatMap.mp member with ⟨job, ofJob, asked⟩
        have := level_of_mem_followUps (placed job ofJob).2 asked
        have := (placed job ofJob).1
        omega) layer forest
      rw [perm.length_eq, List.length_append, blockBound]
      omega

end LevelPlan

/-! ## What a log shows -/

namespace LaneLog

variable {Job Handle Output : Type}

/-- The jobs that were submitted were submitted on one lane or on the other. -/
theorem submitted_perm (log : LaneLog Job Handle Output) :
    log.submitted.Perm ((log.on .first).submitted ++ (log.on .second).submitted) := by
  have sides : log.on .second =
      log.filter fun call => !decide (call.side = .first) := by
    refine List.filter_congr fun call _ => ?_
    cases call.side <;> rfl
  rw [sides, submitted, submitted, submitted, ← List.filterMap_append]
  exact ((List.filter_append_perm _ log).symm).filterMap _

/-- Whole rounds show the jobs that they are for. -/
theorem submitted_of_shows {followUps : Job → List Job} {side : Side}
    {processed : List Job} {log : LaneLog Job Handle Output}
    (shows : log.Shows followUps side (.idle processed)) :
    (log.on side).submitted = processed := by
  rcases shows with ⟨rounds, _, calls, rfl, rfl, -⟩
  rw [calls, List.append_nil, submitted, List.filterMap_flatMap, List.map_eq_flatMap]
  rfl

end LaneLog

/-! ## Runs of two lanes -/

namespace SubdivisionLane

variable {plan : LevelPlan} {report : CellQuery → CellReport}

/-- No call of a lane fails if every query has a report. -/
theorem succeeds (plan : LevelPlan) (report : CellQuery → CellReport) :
    (subdivisionLanes (.ofReports report) plan).Succeeds
      (fun side status pair =>
        Holds plan (.ofReports report) status (pair.get side)) where
  enqueue := by
    intro side processed pair job idle
    exact ⟨_, _, rfl⟩
  wait := by
    intro side processed job handle pair submitted
    have answered := submitted.2.2
    cases answered
    exact ⟨_, _, rfl⟩
  process := by
    intro side processed job output pair readBack
    have pending : (pair.get side).job = some job := by
      rw [readBack.2.1]
      rfl
    simp only [subdivisionLanes, pending]
    exact ⟨_, _, rfl⟩

end SubdivisionLane

namespace LevelPlan

variable {plan : LevelPlan} {report : CellQuery → CellReport}

/-- The leaf blocks of a plan differ in their corners only. -/
theorem leaves_alike {report : BlockJob → CellReport} {jobs : List BlockJob}
    {a b : LeafBlock} (ofA : a ∈ (SearchResult.ofBlocks plan report jobs).leafBlocks)
    (ofB : b ∈ (SearchResult.ofBlocks plan report jobs).leafBlocks) :
    { a with corner := b.corner } = b := by
  have shape : ∀ leaf ∈ (SearchResult.ofBlocks plan report jobs).leafBlocks,
      ∃ position, leaf = plan.leafBlock (plan.levels.length - 1) position := by
    intro leaf member
    rcases List.mem_flatMap.mp member with ⟨job, -, ofJob⟩
    rw [LevelPlan.leavesOf] at ofJob
    split at ofJob
    · next last =>
        have last : job.level + 2 = plan.levels.length := of_decide_eq_true last
        rcases List.mem_map.mp ofJob with ⟨index, -, rfl⟩
        exact ⟨_, by rw [← last]; rfl⟩
    · cases ofJob
  rcases shape a ofA with ⟨position, rfl⟩
  rcases shape b ofB with ⟨other, rfl⟩
  rfl

/-- Lanes that have found what a search finds put the leaf blocks in its order. -/
theorem refines_ofLanes {dimension : Dimension} {levels : List LevelSize}
    {lanes : LanePair SubdivisionLane} {stats : RunStats}
    {report : BlockJob → CellReport} {all : List BlockJob}
    (agrees : (SearchResult.ofLanes lanes).Agrees (.ofBlocks plan report all)) :
    (Subdivision.ofLanes dimension levels lanes stats).Refines
      (.ofBlocks plan report all) where
  agrees :=
    { agrees with
      leafBlocks := (LeafBlock.sortByCorner_perm _).trans agrees.leafBlocks }
  ordered := by
    intro first second spread
    refine LeafBlock.sortByCorner_eq_of_perm (spread.trans agrees.leafBlocks.symm) ?_
    intro a ofA b ofB
    exact leaves_alike (spread.mem_iff.mp ofA) (spread.mem_iff.mp ofB)

/-- A run that is long enough for the forest of the top block submits it once. -/
theorem exists_run {all : List BlockJob} {bound : Nat}
    (generated : Generates (plan.next report) [⟨0, ⟨0, 0, 0⟩⟩] all)
    (enough : 2 * all.length ≤ bound) :
    let lanes := subdivisionLanes (.ofReports report) plan
    ∃ (stats : RunStats) (reached : LanePair SubdivisionLane)
      (log : LaneLog BlockJob (Except DeviceError CellReport) CellReport),
      interleave lanes bound [⟨0, ⟨0, 0, 0⟩⟩] ⟨.initial, .initial⟩ =
        (.ok (some stats), reached) ∧
      interleave lanes.logged bound [⟨0, ⟨0, 0, 0⟩⟩] (⟨.initial, .initial⟩, []) =
        (.ok (some stats), (reached, log)) ∧
      (SearchResult.ofLanes reached).Agrees
        (.ofBlocks plan (plan.reportOn (.ofReports report)) all) ∧
      log.submitted.Perm all := by
  intro lanes
  have follows := (SubdivisionLane.follows plan (.ofReports report)).logged
  have idle : ∀ side, Lanes.LoggedHolds (plan.next report)
      (fun side status (pair : LanePair SubdivisionLane) =>
        SubdivisionLane.Holds plan (.ofReports report) status (pair.get side))
      side (.idle []) (⟨.initial, .initial⟩, []) := by
    intro side
    exact ⟨SubdivisionLane.holds_initial plan _ side, [], [], rfl, rfl, rfl, nofun⟩
  have succeeds := SubdivisionLane.succeeds plan report
  rcases exists_interleave follows succeeds.logged idle generated enough with
    ⟨stats, ⟨reached, log⟩, completed⟩
  have visible := projects_interleave lanes bound [⟨0, ⟨0, 0, 0⟩⟩]
    (⟨.initial, .initial⟩, [])
  rw [completed] at visible
  rcases exists_forest_of_interleave follows idle completed with
    ⟨forest, again, -, -, processed, everyJob, shows⟩
  obtain rfl := generated.unique again
  refine ⟨stats, reached, log, visible, completed, ?_, ?_⟩
  · exact (SubdivisionLane.agrees_of_holds everyJob fun side => (shows side).1).2
  · have submitted := LaneLog.submitted_perm log
    rw [LaneLog.submitted_of_shows (shows .first).2,
      LaneLog.submitted_of_shows (shows .second).2] at submitted
    exact submitted.trans everyJob

/-- The blocks of the coarse levels of a plan can be submitted. -/
theorem dispatches_of_coarse (fits : plan.Fits) {job : BlockJob}
    (coarse : job.level + 1 < plan.levels.length) : plan.Dispatches job := by
  have admitted := fits.admitted job.level (Nat.lt_of_succ_lt coarse)
  exact ⟨coarse, admitted.cells_pos, admitted.cells_le⟩

end LevelPlan

namespace Subdivision

variable {bounds : Aabb Single} {axes : Nat} {dimension : Dimension}
  {config : SubdivisionConfig} {levels : List LevelSize}

/-- With several levels, a subdivision is what a complete run has collected. -/
theorem ofLevels_eq_ok {classify : Classifier} {stats : RunStats}
    {lanes : LanePair SubdivisionLane} (several : 2 ≤ levels.length)
    (ran : interleave
      (subdivisionLanes classify (plan levels bounds dimension config))
      (turnBound (plan levels bounds dimension config)) [⟨0, ⟨0, 0, 0⟩⟩]
      ⟨.initial, .initial⟩ = (.ok (some stats), lanes)) :
    ofLevels classify levels bounds dimension config =
      .ok (ofLanes dimension levels lanes stats) := by
  rcases levels with _ | ⟨coarse, _ | ⟨fine, finer⟩⟩
  · exact absurd several (by decide)
  · exact absurd several (Nat.lt_irrefl 1)
  · simp only [ofLevels, ran]

/--
Whatever is reported on the cells, two lanes find what the plain recursion finds.
They classify as many blocks, each of them a block of a coarse level that can be
submitted, and no call fails.  The bound of a subdivision is large enough if no
report lists more cells than its query has.
-/
theorem interleave_refines_search (checked : checkDimension axes = .ok dimension)
    (computed : levelSizes bounds axes config = .ok levels)
    (several : 2 ≤ levels.length) (report : CellQuery → CellReport) :
    let plan := plan levels bounds dimension config
    let lanes := subdivisionLanes (.ofReports report) plan
    let search := plan.searchAll report
    (∀ bound, 2 * search.dispatches ≤ bound →
      ∃ (stats : RunStats) (reached : LanePair SubdivisionLane)
        (log : LaneLog BlockJob (Except DeviceError CellReport) CellReport),
        interleave lanes bound [⟨0, ⟨0, 0, 0⟩⟩] ⟨.initial, .initial⟩ =
          (.ok (some stats), reached) ∧
        interleave lanes.logged bound [⟨0, ⟨0, 0, 0⟩⟩] (⟨.initial, .initial⟩, []) =
          (.ok (some stats), (reached, log)) ∧
        (ofLanes dimension levels reached stats).Refines search ∧
        log.submitted.length = search.dispatches ∧
        ∀ job ∈ log.submitted, plan.Dispatches job) ∧
    ((∀ query, (report query).intersecting.length ≤ query.dims.cells) →
      ∃ result,
        ofLevels (.ofReports report) levels bounds dimension config = .ok result ∧
        result.Refines search) := by
  intro plan lanes search
  have fits : plan.Fits := fits_plan checked computed
  have top : (0 : Nat) + 1 < plan.levels.length := several
  have deep : plan.levels.length ≤ 0 + plan.levels.length := Nat.le_add_left _ _
  have ofSearch : ∃ all, Generates (plan.next report) [⟨0, ⟨0, 0, 0⟩⟩] all ∧
      (∀ block ∈ all, block.level + 1 < plan.levels.length) ∧
      search = .ofBlocks plan (plan.reportOn (.ofReports report)) all :=
    LevelPlan.exists_forest_of_search top deep
  rcases ofSearch with ⟨all, generated, coarse, found⟩
  have dispatches : search.dispatches = all.length := by
    rw [found]
    rfl
  constructor
  · intro bound enough
    rw [dispatches] at enough
    rcases LevelPlan.exists_run generated enough with
      ⟨stats, reached, log, completed, logged, agrees, submitted⟩
    refine ⟨stats, reached, log, completed, logged, ?_, ?_, ?_⟩
    · rw [found]
      exact LevelPlan.refines_ofLanes agrees
    · rw [dispatches]
      exact submitted.length_eq
    · intro job member
      exact LevelPlan.dispatches_of_coarse fits (coarse job (submitted.mem_iff.mp member))
  · intro few
    have bounded : all.length ≤ LevelPlan.blockBound levels 1 := by
      refine LevelPlan.length_le_blockBound ?_ plan.levels.drop_zero ?_
        (Nat.le_of_eq List.length_singleton) generated
      · intro job inside
        rw [LevelPlan.cellCount, (fits.admitted _ inside).toNat_cellWord]
        exact few (plan.query job)
      · rw [List.forall_mem_singleton]
        exact ⟨rfl, top⟩
    have enough : 2 * all.length ≤ turnBound plan :=
      Nat.le_add_right_of_le (Nat.mul_le_mul_left 2 bounded)
    rcases LevelPlan.exists_run generated enough with
      ⟨stats, reached, log, completed, -, agrees, -⟩
    refine ⟨ofLanes dimension levels reached stats, ?_, ?_⟩
    · exact ofLevels_eq_ok several completed
    · rw [found]
      exact LevelPlan.refines_ofLanes agrees

/-- Reports that call the first two cells intersecting and the third one inside. -/
def firstTwoCells (query : CellQuery) : CellReport :=
  ⟨((List.range query.dims.cells).map UInt32.ofNat).take 2, .empty, [(2, true)]⟩

/-- Three blocks of the cube are classified, one of them at the top. -/
theorem wideCube_refines_search :
    let levels : List LevelSize := [⟨12, ⟨3, 3, 3⟩⟩, ⟨3, ⟨4, 4, 4⟩⟩, ⟨1, ⟨4, 4, 4⟩⟩]
    let plan := plan levels wideCube .solid fourSamples
    let search := plan.searchAll firstTwoCells
    levelSizes wideCube 3 fourSamples = .ok levels ∧ 2 ≤ levels.length ∧
      (search.leafBlocks.length, search.uniformBlocks.length, search.dispatches,
        search.cellsClassified) = (4, 3, 3, 155) ∧
      (∃ (stats : RunStats) (reached : LanePair SubdivisionLane)
        (log : LaneLog BlockJob (Except DeviceError CellReport) CellReport),
        interleave (subdivisionLanes (.ofReports firstTwoCells) plan) 6
            [⟨0, ⟨0, 0, 0⟩⟩] ⟨.initial, .initial⟩ = (.ok (some stats), reached) ∧
        interleave (subdivisionLanes (.ofReports firstTwoCells) plan).logged 6
            [⟨0, ⟨0, 0, 0⟩⟩] (⟨.initial, .initial⟩, []) =
          (.ok (some stats), (reached, log)) ∧
        (ofLanes .solid levels reached stats).Refines search ∧
        log.submitted.length = search.dispatches ∧
        ∀ job ∈ log.submitted, plan.Dispatches job) ∧
      ∃ result,
        ofLevels (.ofReports firstTwoCells) levels wideCube .solid fourSamples =
          .ok result ∧
        result.Refines search := by
  intro levels plan search
  have computed : levelSizes wideCube 3 fourSamples = .ok levels :=
    eq_ok_of_toOption (by decide +kernel)
  have counts : (search.leafBlocks.length, search.uniformBlocks.length,
      search.dispatches, search.cellsClassified) = (4, 3, 3, 155) := by
    decide +kernel
  have dispatches : search.dispatches = 3 :=
    congrArg (fun counts => counts.2.2.1) counts
  rcases interleave_refines_search (show checkDimension 3 = .ok .solid from rfl)
    computed (by decide) firstTwoCells with ⟨run, complete⟩
  refine ⟨computed, by decide, counts, ?_, ?_⟩
  · exact run 6 (by rw [show (LevelPlan.searchAll _ _).dispatches = 3 from dispatches])
  · refine complete fun query => ?_
    simp only [firstTwoCells, List.length_take, List.length_map, List.length_range]
    exact Nat.min_le_right 2 _

end Subdivision

end SolidField
