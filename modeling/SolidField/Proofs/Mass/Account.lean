import SolidField.Proofs.Mass.Runs
import SolidField.Proofs.Mass.Units
import SolidField.Proofs.Subdivision.Tiling

/-!
# Every unit is counted once

A report counts the cells that are uniform with a negative distance; on a leaf block
no cell is anything but uniform.  The uniform cells of the blocks that were classified
and the leaf blocks tile the region, so the reports of both runs together count every
unit of the region that is inside, and no unit twice.
-/

namespace SolidField

/-! ## What a report counts -/

/-- No absolute value is below zero. -/
theorem Single.less_abs_zero (x : Single) : x.abs.less 0 = false := by
  have positive : x.abs.isNegative = false := by
    rw [isNegative, abs, decide_eq_false_iff_not, UInt32.le_iff_toNat_le,
      UInt32.toNat_and]
    have small := Nat.and_le_right (n := x.bits.toNat) (m := 0x7fffffff)
    exact Nat.not_le_of_lt (Nat.lt_of_le_of_lt small (by decide))
  have zero : (0 : Single).rank = 0 := rfl
  rw [less, zero, rank, positive]
  simp

/-- A report counts the cells that are uniform with a negative distance. -/
theorem CellReport.count_inside_ofDistances {query : CellQuery}
    {distances : List Single} (admitted : query.dims.Admitted)
    (complete : distances.length = query.dims.cells) :
    (ofDistances query distances).inside.count =
      distances.countP fun distance =>
        !query.intersects distance && distance.less 0 := by
  have folded : ∀ (cells : List (Single × Nat)) (report : CellReport),
      (∀ cell ∈ cells, cell.2 < query.dims.cells) →
        (cells.foldl (add query (.ofQuery query)) report).inside.count =
          report.inside.count + (cells.map Prod.fst).countP fun distance =>
            !query.intersects distance && distance.less 0 := by
    intro cells
    induction cells with
    | nil =>
        intro report _
        rfl
    | cons cell cells induction =>
        intro report inside
        rw [List.forall_mem_cons] at inside
        rcases admitted.unpackIndex? inside.1 with ⟨position, unpacked, -⟩
        rw [List.foldl_cons, induction _ inside.2, List.map_cons, List.countP_cons]
        by_cases crossed : query.intersects cell.1 = true
        · simp [add, crossed]
        · cases negative : cell.1.less 0 with
          | false => simp [add, crossed, negative]
          | true =>
              simp [add, crossed, negative, unpacked, InsideSums.add]
              omega
  have counted := folded distances.zipIdx .empty fun cell member => by
    rw [← complete]
    exact Nat.zero_add distances.length ▸ List.snd_lt_of_mem_zipIdx member
  rw [List.zipIdx_map_fst] at counted
  rw [ofDistances]
  exact counted.trans (Nat.zero_add _)

namespace LeafBlock

/-- The cells that a leaf block owns are sampled at the centres of its units. -/
theorem samplesUnits_query {block : LeafBlock} {box : GridBox}
    (owned : block.ownedCells.toNat = box.size) : block.query.SamplesUnits box block :=
  ⟨owned, fun _ _ => rfl⟩

theorem admitted_ownedCells {block : LeafBlock} (admitted : block.lattice.Admitted) :
    block.ownedCells.Admitted := by
  have axis : ∀ {samples : UInt32}, 0 < samples.toNat ∧ samples.toNat ≤ maxLatticeSize →
      0 < (ownedCount block.overlap samples).toNat ∧
        (ownedCount block.overlap samples).toNat ≤ maxLatticeSize := by
    intro samples bounds
    rw [toNat_ownedCount]
    have room : 1 ≤ maxLatticeSize := by decide
    split <;> omega
  exact ⟨axis admitted.x, axis admitted.y, axis admitted.z⟩

/-- The report on a leaf block counts the units of its box with negative samples. -/
theorem count_inside_ofDistances {block : LeafBlock} {box : GridBox}
    {distances : CellQuery → List Single} (admitted : block.lattice.Admitted)
    (owned : block.ownedCells.toNat = box.size)
    (complete : (distances block.query).length = block.query.dims.cells) :
    (CellReport.ofDistances block.query (distances block.query)).inside.count =
      (box.units.filter fun unit => block.query.isNegativeAt distances box unit).card := by
  have uniform : ∀ distance, block.query.intersects distance = false :=
    Single.less_abs_zero
  have size : (distances block.query).length =
      box.size.x * box.size.y * box.size.z := by
    rw [complete, ← owned]
    rfl
  rw [CellReport.count_inside_ofDistances (admitted_ownedCells admitted) complete]
  simp only [uniform, Bool.not_false, Bool.true_and]
  exact @GridBox.countP_eq_card_units box.corner box.size _ size _

end LeafBlock

namespace LevelPlan

variable {plan : LevelPlan} {distances : CellQuery → List Single} {job : BlockJob}

/-- The units of a cell, if its distance is negative. -/
def unitsInside (plan : LevelPlan) (cell : SampledCell) : Nat :=
  if cell.distance.less 0 then (plan.cellBox cell).units.card else 0

/-- The report on a block counts the units of its uniform cells that are inside. -/
theorem unitsCounted_ofDistances (solid : plan.planar = false)
    (admitted : (plan.query job).dims.Admitted)
    (complete : (distances (plan.query job)).length =
      (plan.query job).dims.cells) :
    plan.unitsCounted
        (job, .ofDistances (plan.query job) (distances (plan.query job))) =
      ((plan.uniformCells distances [job]).map plan.unitsInside).sum := by
  have size : ∀ sample : Single × Nat,
      plan.unitsInside ⟨job, sample.2, sample.1⟩ =
        if sample.1.less 0 then
          (plan.level job.level).cellSize *
            ((plan.level job.level).cellSize * (plan.level job.level).cellSize)
        else 0 := by
    intro sample
    rw [unitsInside, GridBox.card_units, cellBox, cellExtent, solid]
    rfl
  have samples : (distances (plan.query job)).countP (fun distance =>
        !(plan.query job).intersects distance && distance.less 0) =
      ((distances (plan.query job)).zipIdx.filter fun sample =>
        !(plan.query job).intersects sample.1).countP fun sample =>
          sample.1.less 0 := by
    conv_lhs => rw [← List.zipIdx_map_fst 0 (distances (plan.query job))]
    rw [List.countP_map, List.countP_filter]
    exact List.countP_congr fun sample _ => by simp [and_comm]
  rw [unitsCounted, CellReport.count_inside_ofDistances admitted complete, samples,
    Nat.mul_assoc, ← sum_map_ite_eq_countP_mul, uniformCells, visited,
    List.flatMap_singleton, filter_sampledCells, List.map_map]
  exact congrArg List.sum (List.map_congr_left fun sample _ => (size sample).symm)

/-- The reports on some blocks count the units of all their uniform cells. -/
theorem sum_unitsCounted_ofDistances (solid : plan.planar = false)
    {jobs : List BlockJob}
    (measured : ∀ job ∈ jobs, (plan.query job).dims.Admitted ∧
      (distances (plan.query job)).length = (plan.query job).dims.cells) :
    (jobs.map fun job => plan.unitsCounted
        (job, .ofDistances (plan.query job) (distances (plan.query job)))).sum =
      ((plan.uniformCells distances jobs).map plan.unitsInside).sum := by
  induction jobs with
  | nil => rfl
  | cons job jobs induction =>
      rw [List.forall_mem_cons] at measured
      have split : plan.uniformCells distances (job :: jobs) =
          plan.uniformCells distances [job] ++ plan.uniformCells distances jobs := by
        simp only [uniformCells, visited, List.flatMap_cons, List.flatMap_nil,
          List.append_nil, List.filter_append]
      rw [List.map_cons, List.sum_cons, induction measured.2, split, List.map_append,
        List.sum_append,
        unitsCounted_ofDistances solid measured.1.1 measured.1.2]

/-- What is counted in leaf blocks and cells that tile the region is what is inside. -/
theorem card_isInside_of_tiles {cells : List SampledCell}
    {leaves : List (GridBox × LeafBlock)}
    (tiles : GridBox.Tiles (leaves.map Prod.fst ++ cells.map plan.cellBox) plan.region) :
    (cells.map plan.unitsInside).sum +
        (leaves.map fun leaf => (leaf.1.units.filter fun unit =>
          leaf.2.query.isNegativeAt distances leaf.1 unit).card).sum =
      (plan.region.units.filter fun unit =>
        plan.isInside distances cells leaves unit).card := by
  let tile : (GridBox × LeafBlock) ⊕ SampledCell → GridBox :=
    Sum.elim Prod.fst plan.cellBox
  let counts : (GridBox × LeafBlock) ⊕ SampledCell → Vec3 Nat → Bool :=
    Sum.elim (fun leaf => leaf.2.query.isNegativeAt distances leaf.1)
      fun cell _ => cell.distance.less 0
  let tiling : List ((GridBox × LeafBlock) ⊕ SampledCell) :=
    leaves.map Sum.inl ++ cells.map Sum.inr
  have all : tiling.map tile = leaves.map Prod.fst ++ cells.map plan.cellBox := by
    rw [List.map_append, List.map_map, List.map_map]
    rfl
  have uniform : ∀ cell, ((plan.cellBox cell).units.filter fun _ =>
      cell.distance.less 0 = true).card = plan.unitsInside cell := by
    intro cell
    rw [Finset.filter_const, unitsInside]
    split <;> rfl
  rw [← all] at tiles
  have counted := tiles.sum_card_filter_units counts
  simp only [tiling] at counted
  rw [List.map_append, List.map_map, List.map_map, List.sum_append] at counted
  simp only [Function.comp_def, tile, counts, Sum.elim_inl, Sum.elim_inr,
    List.any_append, List.any_map] at counted
  have units : (cells.map plan.unitsInside).sum = _ :=
    congrArg List.sum (List.map_congr_left fun cell _ => (uniform cell).symm)
  rw [Nat.add_comm, units]
  refine counted.trans (congrArg Finset.card (Finset.filter_congr fun unit _ => ?_))
  rw [isInside, Bool.or_comm]
  rfl

end LevelPlan

/-! ## Measurements -/

/-- A report of a classifier is that of the distances it measures. -/
theorem Classifier.Reports.eq_ofDistances {classify : Classifier}
    {distances : CellQuery → List Single} {query : CellQuery}
    (reports : classify.Reports query)
    (samples : classify.Samples fun query found => found = distances query) :
    classify.reportOf query = .ofDistances query (distances query) ∧
      (distances query).length = query.dims.cells := by
  rcases samples _ _ reports with ⟨_, rfl, complete, same⟩
  exact ⟨same, complete⟩

/--
What the log of a complete subdivision shows, with boxes for the leaf blocks of its
result.
-/
structure LevelPlan.Surveyed (plan : LevelPlan)
    (calls : LaneLog BlockJob (Except DeviceError CellReport) CellReport)
    (distances : CellQuery → List Single) (result : Subdivision)
    (leaves : List (GridBox × LeafBlock)) : Prop where
  dispatches : calls.results.length = result.stats.dispatches
  reported : ∀ call ∈ calls.results,
    call.2 = .ofDistances (plan.query call.1) (distances (plan.query call.1))
  measured : ∀ job ∈ calls.results.map Prod.fst, (plan.query job).dims.Admitted ∧
    (distances (plan.query job)).length = (plan.query job).dims.cells
  inside : result.inside = .empty + plan.integralsOf (calls.resultsOn .first) +
    plan.integralsOf (calls.resultsOn .second)
  placed : (leaves.map Prod.snd).Perm result.leafBlocks
  leafAt : ∀ leaf ∈ leaves, plan.LeafAt leaf.1 leaf.2
  admitted : ∀ leaf ∈ leaves, leaf.2.lattice.Admitted
  tiles : GridBox.Tiles
    (leaves.map Prod.fst ++
      (plan.uniformCells distances (calls.results.map Prod.fst)).map plan.cellBox)
    plan.region

namespace Subdivision

variable {classify : Classifier} {distances : CellQuery → List Single}
  {levels : List LevelSize} {bounds : Aabb Single} {dimension : Dimension}
  {config : SubdivisionConfig} {result : Subdivision}

open LevelPlan

/-- A single level is one leaf block, and nothing is dispatched. -/
theorem exists_surveyed_ofSingleLevel {level : LevelSize}
    (fits : (plan [level] bounds dimension config).Fits) :
    ∃ leaves, (plan [level] bounds dimension config).Surveyed
      (calls classify [level] bounds dimension config) distances
      (ofSingleLevel level bounds dimension config) leaves := by
  let tiling := tilingOfSingleLevel fits
  let plan := plan [level] bounds dimension config
  let calls := calls classify [level] bounds dimension config
  have none : ∀ side, plan.integralsOf (calls.resultsOn side) = .empty := by
    rintro (_ | _) <;> rfl
  refine ⟨tiling.leaves, ?_⟩
  exact {
    dispatches := rfl
    reported := nofun
    measured := nofun
    inside := by
      rw [none, none]
      rfl
    placed := tiling.leafBlocks
    leafAt := tiling.leafAt
    admitted := by
      intro leaf member
      cases List.mem_singleton.mp member
      exact fits.admitted 0 Nat.one_pos
    tiles := tiling.tiles }

/-- The leaf blocks of several levels stand at the boxes of their cells. -/
theorem exists_surveyed_of_several (several : levels.length ≠ 1)
    (samples : classify.Samples fun query found => found = distances query)
    (fits : (plan levels bounds dimension config).Fits)
    (completed : ofLevels classify levels bounds dimension config = .ok result) :
    ∃ leaves, (plan levels bounds dimension config).Surveyed
      (calls classify levels bounds dimension config) distances result leaves := by
  rcases exists_dispatches_of_ofLevels several completed with
    ⟨all, generated, reports, results, dispatches, leafBlocks, inside⟩
  replace several : (plan levels bounds dimension config).levels.length ≠ 1 := several
  generalize plan levels bounds dimension config = plan at *
  generalize calls classify levels bounds dimension config = calls at *
  let sampled := fun job => distances (plan.query job)
  have measured : ∀ job ∈ all,
      classify.reportOf (plan.query job) = .ofDistances (plan.query job) (sampled job) ∧
        (sampled job).length = (plan.query job).dims.cells :=
    fun job member => (reports job member).eq_ofDistances samples
  have same : ∀ job ∈ all,
      classify.reportOf (plan.query job) = .ofDistances (plan.query job) (sampled job) :=
    fun job member => (measured job member).1
  have forest : Generates (plan.children sampled) [⟨0, ⟨0, 0, 0⟩⟩] all :=
    generates_children generated same
  have jobs := LaneLog.map_fst_results_perm results
  have cells : (plan.uniformCells distances (calls.results.map Prod.fst)).Perm
      ((visited sampled all).filter fun cell => !plan.isOpen cell) :=
    (jobs.flatMap_right _).filter _
  refine ⟨((visited sampled all).filter plan.isLeaf).map fun cell =>
    (plan.cellBox cell, plan.leafOf cell), ?_⟩
  exact {
    dispatches := by
      rw [dispatches, results.length_eq, List.length_map]
    reported := by
      intro call member
      rw [results.mem_iff, List.mem_map] at member
      rcases member with ⟨job, member, rfl⟩
      exact same job member
    measured := by
      intro job member
      rw [jobs.mem_iff] at member
      have coarse := (fits.aligned_of_generates several forest job member).coarse
      exact ⟨fits.admitted _ (Nat.lt_of_succ_lt coarse), (measured job member).2⟩
    inside
    placed := by
      refine List.Perm.trans (List.Perm.of_eq ?_) leafBlocks.symm
      rw [List.map_map]
      exact (flatMap_leavesOf same).symm
    leafAt := by
      rw [List.forall_mem_map]
      exact fun cell member => fits.leafAt_leafOf (List.mem_filter.mp member).2
    admitted := by
      rw [List.forall_mem_map]
      intro cell member
      rw [List.mem_filter] at member
      have coarse := (fits.aligned_of_mem_visited several forest member.1).coarse
      exact fits.admitted _ coarse
    tiles := by
      intro unit
      have tiles := tiles_of_generates fits several forest
        (fun job member => (measured job member).2) unit
      rw [List.map_map, ← tiles]
      exact ((List.Perm.refl _).append (cells.map plan.cellBox)).countP_eq _ }

theorem exists_surveyed
    (samples : classify.Samples fun query found => found = distances query)
    (fits : (plan levels bounds dimension config).Fits)
    (completed : ofLevels classify levels bounds dimension config = .ok result) :
    ∃ leaves, (plan levels bounds dimension config).Surveyed
      (calls classify levels bounds dimension config) distances result leaves := by
  by_cases several : levels.length = 1
  · rcases List.length_eq_one_iff.mp several with ⟨level, rfl⟩
    cases completed
    exact exists_surveyed_ofSingleLevel fits
  · exact exists_surveyed_of_several several samples fits completed

end Subdivision

/-- A measurement that succeeds is a subdivision and an integration over its leaves. -/
theorem measureWith_eq_ok {classify : Classifier} {bounds : Aabb Single}
    {config : SubdivisionConfig} {estimate : MassEstimate}
    (completed : measureWith classify bounds config = .ok estimate) :
    ∃ subdivision sums,
      subdivideWith classify bounds Dimension.solid.axes config = .ok subdivision ∧
      integrateLeaves classify subdivision.leafBlocks config.resolution = .ok sums ∧
      estimate = .ofIntegrals (subdivision.inside + sums.first + sums.second)
        subdivision.leafBlocks.length := by
  rw [measureWith] at completed
  cases subdivided : subdivideWith classify bounds Dimension.solid.axes config with
  | error error =>
      rw [subdivided] at completed
      cases completed
  | ok subdivision =>
      rw [subdivided] at completed
      replace completed : (integrateLeaves classify subdivision.leafBlocks
          config.resolution >>= fun sums => _) = _ := completed
      cases integrated : integrateLeaves classify subdivision.leafBlocks
          config.resolution with
      | error error =>
          rw [integrated] at completed
          cases completed
      | ok sums =>
          rw [integrated] at completed
          cases completed
          exact ⟨subdivision, sums, rfl, integrated, rfl⟩

namespace LevelPlan.Surveyed

variable {plan : LevelPlan} {classify : Classifier}
  {calls : LaneLog BlockJob (Except DeviceError CellReport) CellReport}
  {integrated : LaneLog LeafBlock (Except DeviceError CellReport) CellReport}
  {distances : CellQuery → List Single} {result : Subdivision}
  {leaves : List (GridBox × LeafBlock)}

/-- The reports of both runs count every unit inside once. -/
theorem counted (surveyed : plan.Surveyed calls distances result leaves)
    (solid : plan.planar = false)
    (integratedOnce : integrated.results.Perm (result.leafBlocks.map fun block =>
      (block, .ofDistances block.query (distances block.query))))
    (complete : ∀ block ∈ result.leafBlocks,
      (distances block.query).length = block.query.dims.cells) :
    (calls.results.map plan.unitsCounted).sum +
        (integrated.results.map fun call => call.2.inside.count).sum =
      (plan.region.units.filter fun unit => plan.isInside distances
        (plan.uniformCells distances (calls.results.map Prod.fst)) leaves unit).card := by
  have ofBlocks : (calls.results.map plan.unitsCounted).sum =
      ((plan.uniformCells distances (calls.results.map Prod.fst)).map
        plan.unitsInside).sum := by
    rw [← sum_unitsCounted_ofDistances solid surveyed.measured, List.map_map]
    refine congrArg List.sum (List.map_congr_left fun call member => ?_)
    rw [Function.comp_apply, ← surveyed.reported call member]
  have ofLeaf : ∀ leaf ∈ leaves,
      (CellReport.ofDistances leaf.2.query (distances leaf.2.query)).inside.count =
        (leaf.1.units.filter fun unit =>
          leaf.2.query.isNegativeAt distances leaf.1 unit).card := by
    intro leaf member
    have held := surveyed.placed.mem_iff.mp (List.mem_map_of_mem member)
    exact LeafBlock.count_inside_ofDistances (surveyed.admitted leaf member)
      (surveyed.leafAt leaf member).owned (complete _ held)
  have ofLeaves : (integrated.results.map fun call => call.2.inside.count).sum =
      (leaves.map fun leaf => (leaf.1.units.filter fun unit =>
        leaf.2.query.isNegativeAt distances leaf.1 unit).card).sum := by
    rw [← List.map_congr_left ofLeaf]
    have placed := (surveyed.placed.map fun block =>
      (block, CellReport.ofDistances block.query (distances block.query))).symm
    have sums := ((integratedOnce.trans placed).map fun call => call.2.inside.count).sum_eq
    rwa [List.map_map, List.map_map] at sums
  rw [ofBlocks, ofLeaves]
  exact card_isInside_of_tiles surveyed.tiles

end LevelPlan.Surveyed

/--
The two runs of a measurement that succeeds count every unit of the region once if
it lies inside, in a uniform cell or in a leaf block, and not at all otherwise,
whichever lane has processed what.
-/
theorem measureWith_counts_units_once {classify : Classifier}
    {distances : CellQuery → List Single} {bounds : Aabb Single}
    {config : SubdivisionConfig} {estimate : MassEstimate}
    (samples : classify.Samples fun query found => found = distances query)
    (completed : measureWith classify bounds config = .ok estimate) :
    ∃ subdivision leaves,
      subdivideWith classify bounds Dimension.solid.axes config = .ok subdivision ∧
      MassAccount (Subdivision.plan subdivision.levels bounds .solid config)
        (Subdivision.calls classify subdivision.levels bounds .solid config)
        (integrationCalls classify subdivision.leafBlocks config.resolution)
        distances subdivision leaves estimate := by
  rcases measureWith_eq_ok completed with
    ⟨subdivision, sums, subdivided, integrated, rfl⟩
  rcases Subdivision.subdivideWith_eq_ok subdivided with ⟨hierarchy, checked, ran⟩
  have fits : (Subdivision.plan subdivision.levels bounds subdivision.dimension
      config).Fits := Subdivision.fits_plan checked hierarchy
  have solid : subdivision.dimension = .solid := (Except.ok.inj checked).symm
  rw [solid] at fits ran
  rcases Subdivision.exists_surveyed samples fits ran with ⟨leaves, surveyed⟩
  rcases LeafBlock.exists_processed_of_integrateLeaves integrated with
    ⟨reports, results, sides⟩
  have measured := fun block member => (reports block member).eq_ofDistances samples
  have leafResults := results
  rw [List.map_congr_left fun block member =>
    congrArg (Prod.mk block) (measured block member).1] at leafResults
  refine ⟨subdivision, leaves, subdivided, ?_⟩
  exact {
    dispatches := surveyed.dispatches
    integratedOnce := LaneLog.map_fst_results_perm results
    placed := surveyed.placed
    leafAt := surveyed.leafAt
    sampled := fun leaf member =>
      LeafBlock.samplesUnits_query (surveyed.leafAt leaf member).owned
    tiles := surveyed.tiles
    counted := surveyed.counted rfl leafResults fun block member =>
      (measured block member).2
    total := by
      have first : sums.first = _ := sides .first
      have second : sums.second = _ := sides .second
      rw [surveyed.inside, first, second]
      rfl }

namespace Machine

/-- The distances that the program of a machine has for a query, if it has any. -/
def distances (machine : Machine) (query : CellQuery) : List Single :=
  match machine.evalLattice query.firstCentre query.step query.dims.toNat with
  | .ok distances => distances
  | .error _ => []

theorem samples_distances (machine : Machine) :
    Classifier.Samples machine.classify fun query found =>
      found = machine.distances query := by
  intro query report answered
  rcases machine.samples_classify query report answered with ⟨found, measures, facts⟩
  refine ⟨found, ?_, facts⟩
  simp only [distances, measures.evaluated]

/-- A ball of radius 12.5 around the origin. -/
def ball : Machine :=
  ⟨[⟨.sphere, 0, 0, 0, [.ofNat 25 * .half]⟩], 1, 0⟩

/-- A bar that the surface of the ball cuts in two. -/
def bar : Aabb Single :=
  ⟨⟨.ofNat 10, 0, 0⟩, ⟨.ofNat 14, .one, .one⟩⟩

theorem exists_measure_bar :
    ∃ estimate, measureWith ball.classify bar coarse = .ok estimate ∧
      estimate.leafBlocks = 1 :=
  exists_eq_ok_of_map (by decide +kernel)

theorem exists_subdivide_bar :
    ∃ subdivision, ball.subdivide bar Dimension.solid.axes coarse = .ok subdivision ∧
      (subdivision.stats.dispatches, subdivision.uniformBlocks.map UniformBlock.inside) =
        (1, [true, false]) :=
  exists_eq_ok_of_map (by decide +kernel)

/-- In a bar a uniform cell and a leaf block are counted once. -/
theorem bar_counts_units_once :
    ∃ (estimate : MassEstimate) (subdivision : Subdivision)
      (leaves : List (GridBox × LeafBlock)),
      measureWith ball.classify bar coarse = .ok estimate ∧
      estimate.leafBlocks = 1 ∧
      subdivideWith ball.classify bar Dimension.solid.axes coarse = .ok subdivision ∧
      subdivision.uniformBlocks.map UniformBlock.inside = [true, false] ∧
      MassAccount (Subdivision.plan subdivision.levels bar .solid coarse)
        (Subdivision.calls ball.classify subdivision.levels bar .solid coarse)
        (integrationCalls ball.classify subdivision.leafBlocks coarse.resolution)
        ball.distances subdivision leaves estimate := by
  rcases exists_measure_bar with ⟨estimate, completed, blocks⟩
  rcases measureWith_counts_units_once ball.samples_distances completed with
    ⟨subdivision, leaves, subdivided, account⟩
  rcases exists_subdivide_bar with ⟨again, subdivides, seen⟩
  obtain rfl := Except.ok.inj (subdivided.symm.trans subdivides)
  exact ⟨estimate, subdivision, leaves, completed, blocks, subdivided,
    (Prod.mk.inj seen).2, account⟩

end Machine

end SolidField
