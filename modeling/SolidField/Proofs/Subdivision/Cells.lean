import SolidField.Proofs.Device.Reports
import SolidField.Proofs.Subdivision.Grid

/-!
# Sampled cells

The report on a block says of each of its cells, from the distance at its
centre, whether it is uniform, a leaf block or a block of the next level.  The
cells tile the box of the block, and so do, over a whole forest of blocks, the
cells that are classified no further.
-/

namespace SolidField

namespace LevelPlan

variable {plan : LevelPlan} {job : BlockJob} {distances : List Single}

theorem job_of_mem_sampledCells {cell : SampledCell}
    (member : cell ∈ sampledCells job distances) : cell.job = job := by
  rw [sampledCells, List.mem_map] at member
  rcases member with ⟨_, -, rfl⟩
  rfl

theorem filter_sampledCells (property : SampledCell → Bool) :
    (sampledCells job distances).filter property =
      (distances.zipIdx.filter fun cell =>
        property ⟨job, cell.2, cell.1⟩).map
          fun cell => ⟨job, cell.2, cell.1⟩ := by
  rw [sampledCells, List.filter_map]
  rfl

/-- A block is followed by those of its cells that need a closer look. -/
theorem followUps_ofDistances :
    plan.followUps job (.ofDistances (plan.query job) distances) =
      ((sampledCells job distances).filter fun cell => !plan.isFinal cell).map
        plan.childOf := by
  rw [followUps, CellReport.intersecting_ofDistances, filter_sampledCells]
  cases last : plan.isLastCoarse job.level with
  | true => simp [isFinal, last]
  | false => simp [isFinal, isOpen, last, childOf, Function.comp_def]

theorem leavesOf_ofDistances :
    plan.leavesOf job (.ofDistances (plan.query job) distances) =
      ((sampledCells job distances).filter plan.isLeaf).map plan.leafOf := by
  rw [leavesOf, CellReport.intersecting_ofDistances, filter_sampledCells]
  cases last : plan.isLastCoarse job.level with
  | true => simp [isLeaf, isOpen, last, leafOf, Function.comp_def]
  | false => simp [isLeaf, last]

theorem uniform_map_ofDistances (recorded : plan.recordUniform = true) :
    (CellReport.ofDistances (plan.query job) distances).uniform.map
        (plan.uniformBlock job) =
      ((sampledCells job distances).filter fun cell => !plan.isOpen cell).map
        plan.uniformOf := by
  have all : (plan.query job).recordUniform = true := recorded
  rw [CellReport.uniform_ofDistances, all, filter_sampledCells]
  simp [isOpen, uniformOf, Function.comp_def]

/-! ## The boxes of the cells of a block -/

/-- A block above the finest level is a box of cells of its level. -/
theorem blockBox_eq_ofParts (coarse : job.level + 1 < plan.levels.length) :
    plan.blockBox job =
      .ofParts job.position (plan.level job.level).lattice.toNat
        (plan.cellExtent (plan.level job.level).cellSize) := by
  rw [blockBox, blockExtent, if_neg (Nat.ne_of_lt coarse)]
  rfl

theorem Fits.cellBox_eq_part (fits : plan.Fits) {cell : SampledCell}
    (level : cell.job.level < plan.levels.length)
    (inside : cell.index < (plan.level cell.job.level).lattice.cells) :
    plan.cellBox cell =
      .part cell.job.position (plan.level cell.job.level).lattice.toNat
        (plan.cellExtent (plan.level cell.job.level).cellSize) cell.index := by
  have admitted := fits.admitted _ level
  rcases admitted.unpackIndex? inside with ⟨position, unpacked, places⟩
  rw [GridVector.toNat, Vec3.mk.injEq] at places
  rcases places with ⟨placeX, placeY, placeZ⟩
  simp only [cellBox, cellPosition, unpacked, GridBox.part, cellExtent,
    placeX, placeY, placeZ, GridVector.toNat, GridBox.mk.injEq, Vec3.mk.injEq,
    and_true, true_and]
  cases flat : plan.planar with
  | false => rfl
  | true =>
      -- In the plane every cell lies in the one layer that there is.
      have bottom : cell.index / ((plan.level cell.job.level).lattice.x.toNat *
          (plan.level cell.job.level).lattice.y.toNat) = 0 := by
        apply Nat.div_eq_of_lt
        have layer := fits.layer flat _ level
        rwa [GridVector.cells, layer, Nat.mul_one] at inside
      rw [bottom, Nat.zero_mul, Nat.zero_mul]

/-- The cells of a block tile its box. -/
theorem Fits.covers_sampledCells (fits : plan.Fits)
    (coarse : job.level + 1 < plan.levels.length)
    (complete : distances.length = (plan.level job.level).lattice.cells)
    (cell : Vec3 Nat) :
    GridBox.covers ((sampledCells job distances).map plan.cellBox) cell =
      if (plan.blockBox job).Contains cell then 1 else 0 := by
  have boxes : (sampledCells job distances).map plan.cellBox =
      (List.range (plan.level job.level).lattice.cells).map
        (.part job.position (plan.level job.level).lattice.toNat
          (plan.cellExtent (plan.level job.level).cellSize)) := by
    rw [← complete, List.range_eq_range', ← List.zipIdx_map_snd 0 distances,
      sampledCells, List.map_map, List.map_map]
    apply List.map_congr_left
    intro sample member
    have inside := List.snd_lt_of_mem_zipIdx member
    rw [complete, Nat.add_zero] at inside
    exact @Fits.cellBox_eq_part plan fits ⟨job, sample.2, sample.1⟩
      (Nat.lt_of_succ_lt coarse) inside
  rw [boxes, blockBox_eq_ofParts coarse]
  exact GridBox.covers_parts cell

/-! ## Forests of blocks -/

/-- A cell that needs a closer look is a block above the finest level. -/
theorem coarse_of_mem_children {sampled : BlockJob → List Single}
    (coarse : job.level + 1 < plan.levels.length) {child : BlockJob}
    (member : child ∈ plan.children sampled job) :
    child.level + 1 < plan.levels.length := by
  rw [children, List.mem_map] at member
  rcases member with ⟨cell, member, rfl⟩
  rcases List.mem_filter.mp member with ⟨member, followed⟩
  have notLast : plan.isLastCoarse cell.job.level = false := by
    simp only [isFinal, Bool.not_or, Bool.and_eq_true, Bool.not_eq_true'] at followed
    exact followed.2
  have different := of_decide_eq_false notLast
  rw [job_of_mem_sampledCells member] at different
  rw [childOf, job_of_mem_sampledCells member]
  exact Nat.lt_of_le_of_ne coarse different

/-- As a block of the next level a cell has the same box. -/
theorem Fits.blockBox_childOf (fits : plan.Fits) {cell : SampledCell}
    (coarse : cell.job.level + 1 < plan.levels.length) :
    plan.blockBox (plan.childOf cell) = plan.cellBox cell := by
  rw [blockBox, childOf, cellBox, fits.nested _ coarse]

/-- As a leaf block a cell of the last coarse level owns the same box. -/
theorem Fits.toNat_ownedCells_leafOf (fits : plan.Fits) {cell : SampledCell}
    (last : plan.isLastCoarse cell.job.level = true) :
    (plan.leafOf cell).ownedCells.toNat = (plan.cellBox cell).size := by
  have next : cell.job.level + 2 = plan.levels.length := by
    simpa [isLastCoarse] using last
  rw [cellBox, ← fits.nested _ (by omega), blockExtent, if_pos (by omega)]
  rfl

end LevelPlan

namespace GridBox

@[simp]
theorem covers_append (boxes others : List GridBox) (cell : Vec3 Nat) :
    covers (boxes ++ others) cell = covers boxes cell + covers others cell :=
  List.countP_append

theorem covers_cons (box : GridBox) (boxes : List GridBox) (cell : Vec3 Nat) :
    covers (box :: boxes) cell =
      (if box.Contains cell then 1 else 0) + covers boxes cell := by
  simp only [covers, List.countP_cons, Nat.add_comm, decide_eq_true_eq]

/-- Boxes of a list are those with a property and those without it. -/
theorem covers_filter {β : Type} (box : β → GridBox) (property : β → Bool)
    (items : List β) (cell : Vec3 Nat) :
    covers (items.map box) cell =
      covers ((items.filter property).map box) cell +
        covers ((items.filter fun item => !property item).map box) cell := by
  simp only [covers, List.countP_map]
  rw [List.countP_eq_countP_filter_add _ _ property]

end GridBox

namespace LevelPlan

variable {plan : LevelPlan} {sampled : BlockJob → List Single}

/-- The final cells of a forest of blocks cover what its roots cover. -/
theorem Fits.covers_visited (fits : plan.Fits) {jobs all : List BlockJob}
    (generated : Generates (plan.children sampled) jobs all)
    (coarse : ∀ job ∈ jobs, job.level + 1 < plan.levels.length)
    (complete : ∀ job ∈ all,
      (sampled job).length = (plan.level job.level).lattice.cells)
    (cell : Vec3 Nat) :
    GridBox.covers (((visited sampled all).filter plan.isFinal).map plan.cellBox)
        cell =
      GridBox.covers (jobs.map plan.blockBox) cell := by
  induction generated with
  | nil => rfl
  | @cons job jobs below rest belowGenerated _ belowInduction restInduction =>
      rw [List.forall_mem_cons, List.forall_mem_append] at complete
      rw [List.forall_mem_cons] at coarse
      rcases complete with ⟨own, belowComplete, restComplete⟩
      have children : GridBox.covers ((plan.children sampled job).map plan.blockBox)
          cell = GridBox.covers (((sampledCells job (sampled job)).filter fun cell =>
            !plan.isFinal cell).map plan.cellBox) cell := by
        rw [LevelPlan.children, List.map_map]
        congr 1
        apply List.map_congr_left
        intro child member
        apply fits.blockBox_childOf
        rw [job_of_mem_sampledCells (List.mem_filter.mp member).1]
        exact coarse.1
      have parts := GridBox.covers_filter plan.cellBox plan.isFinal
        (sampledCells job (sampled job)) cell
      rw [fits.covers_sampledCells coarse.1 own] at parts
      rw [List.map_cons, GridBox.covers_cons, parts, ← children,
        ← belowInduction (fun child => coarse_of_mem_children coarse.1)
          belowComplete, ← restInduction coarse.2 restComplete]
      simp [visited, Nat.add_assoc]

/-- The final cells are the leaf blocks and the uniform cells. -/
theorem covers_final (cells : List SampledCell) (cell : Vec3 Nat) :
    GridBox.covers ((cells.filter plan.isFinal).map plan.cellBox) cell =
      GridBox.covers ((cells.filter plan.isLeaf).map plan.cellBox) cell +
        GridBox.covers
          ((cells.filter fun cell => !plan.isOpen cell).map plan.cellBox) cell := by
  have leaves : ∀ cell, (plan.isLeaf cell && plan.isFinal cell) = plan.isLeaf cell := by
    intro cell
    simp only [isLeaf, isFinal]
    cases plan.isOpen cell <;> simp
  have uniform : ∀ cell,
      (!plan.isLeaf cell && plan.isFinal cell) = !plan.isOpen cell := by
    intro cell
    simp only [isLeaf, isFinal]
    cases plan.isOpen cell <;> simp
  rw [GridBox.covers_filter plan.cellBox plan.isLeaf, List.filter_filter,
    List.filter_filter]
  simp only [leaves, uniform]

end LevelPlan

end SolidField
