import SolidField.Proofs.Device.Distances
import SolidField.Proofs.Subdivision.Cells
import SolidField.Proofs.Subdivision.Run

/-!
# A subdivision tiles its region

Whatever distances are measured, the leaf blocks and the uniform cells of a
complete subdivision tile the region of the top level.
-/

namespace SolidField

/-! ## Forests -/

namespace Generates

variable {Job : Type} {followUps others : Job → List Job} {jobs all : List Job}

/-- What holds of the roots and of all that follows holds of the forest. -/
theorem forall_mem {property : Job → Prop}
    (generated : Generates followUps jobs all)
    (roots : ∀ job ∈ jobs, property job)
    (follow : ∀ job, property job → ∀ next ∈ followUps job, property next) :
    ∀ job ∈ all, property job := by
  induction generated with
  | nil => exact nofun
  | cons _ _ belowInduction restInduction =>
      rw [List.forall_mem_cons] at roots
      rw [List.forall_mem_cons, List.forall_mem_append]
      exact ⟨roots.1, belowInduction (follow _ roots.1), restInduction roots.2⟩

/-- A forest depends on what its own jobs ask for only. -/
theorem congr (generated : Generates followUps jobs all)
    (same : ∀ job ∈ all, followUps job = others job) :
    Generates others jobs all := by
  induction generated with
  | nil => exact .nil
  | cons _ _ belowInduction restInduction =>
      rw [List.forall_mem_cons, List.forall_mem_append] at same
      rcases same with ⟨own, below, rest⟩
      have generatedBelow := belowInduction below
      rw [own] at generatedBelow
      exact .cons generatedBelow (restInduction rest)

end Generates

/-! ## Positions -/

namespace LevelPlan

variable {plan : LevelPlan} {sampled : BlockJob → List Single}

/-- A block of a coarse level stands at a multiple of its cells. -/
structure Aligned (plan : LevelPlan) (job : BlockJob) : Prop where
  coarse : job.level + 1 < plan.levels.length
  x : (plan.level job.level).cellSize ∣ job.position.x
  y : (plan.level job.level).cellSize ∣ job.position.y
  z : (plan.level job.level).cellSize ∣ job.position.z

/-- The cells of an aligned block stand at multiples of their size. -/
theorem Aligned.cellPosition {job : BlockJob} (aligned : plan.Aligned job)
    (index : UInt32) :
    (plan.level job.level).cellSize ∣ (plan.cellPosition job index).x ∧
      (plan.level job.level).cellSize ∣ (plan.cellPosition job index).y ∧
        (plan.level job.level).cellSize ∣ (plan.cellPosition job index).z := by
  simp only [LevelPlan.cellPosition]
  split
  · exact ⟨Nat.dvd_add aligned.x (Nat.dvd_mul_left _ _),
      Nat.dvd_add aligned.y (Nat.dvd_mul_left _ _),
      Nat.dvd_add aligned.z (Nat.dvd_mul_left _ _)⟩
  · exact ⟨aligned.x, aligned.y, aligned.z⟩

theorem Fits.aligned_child (fits : plan.Fits) {job : BlockJob}
    (aligned : plan.Aligned job) :
    ∀ child ∈ plan.children sampled job, plan.Aligned child := by
  intro child member
  have coarse := coarse_of_mem_children aligned.coarse member
  rw [children, List.mem_map] at member
  rcases member with ⟨cell, member, rfl⟩
  have own := job_of_mem_sampledCells (List.mem_filter.mp member).1
  rcases aligned.cellPosition (.ofNat cell.index) with ⟨x, y, z⟩
  have divides := fits.divides _ aligned.coarse
  rw [← own] at x y z divides
  exact ⟨coarse, Nat.dvd_trans divides x, Nat.dvd_trans divides y,
    Nat.dvd_trans divides z⟩

/-- Every block of the forest of the top block is aligned. -/
theorem Fits.aligned_of_generates (fits : plan.Fits)
    (several : plan.levels.length ≠ 1) {all : List BlockJob}
    (generated : Generates (plan.children sampled) [⟨0, ⟨0, 0, 0⟩⟩] all) :
    ∀ job ∈ all, plan.Aligned job := by
  refine generated.forall_mem ?_ (fun _ => fits.aligned_child)
  intro job member
  rw [List.mem_singleton] at member
  subst member
  have nonempty := fits.nonempty
  exact ⟨by show 0 + 1 < plan.levels.length; omega, Nat.dvd_zero _,
    Nat.dvd_zero _, Nat.dvd_zero _⟩

theorem Fits.aligned_of_mem_visited (fits : plan.Fits)
    (several : plan.levels.length ≠ 1) {all : List BlockJob}
    (generated : Generates (plan.children sampled) [⟨0, ⟨0, 0, 0⟩⟩] all)
    {cell : SampledCell} (member : cell ∈ visited sampled all) :
    plan.Aligned cell.job := by
  rw [visited, List.mem_flatMap] at member
  rcases member with ⟨job, held, member⟩
  rw [job_of_mem_sampledCells member]
  exact fits.aligned_of_generates several generated job held

/-- The corner of a block is the point of its grid position. -/
theorem pointAt_corner (plan : LevelPlan) (position : Vec3 Nat) :
    plan.PointAt position (plan.corner position) :=
  ⟨rfl, rfl, rfl⟩

/-- The leaf block of a cell stands at its box. -/
theorem Fits.leafAt_leafOf (fits : plan.Fits) {cell : SampledCell}
    (leaf : plan.isLeaf cell = true) :
    plan.LeafAt (plan.cellBox cell) (plan.leafOf cell) := by
  rw [isLeaf, Bool.and_eq_true] at leaf
  exact ⟨Or.inl (plan.pointAt_corner _), Or.inl rfl,
    fits.toNat_ownedCells_leafOf leaf.2⟩

theorem cellAt_uniformOf {cell : SampledCell}
    (inside : cell.job.level < plan.levels.length) :
    plan.CellAt (plan.cellBox cell) (plan.uniformOf cell) := by
  refine ⟨plan.pointAt_corner _, plan.level cell.job.level, ?_, rfl, rfl⟩
  rw [level, List.getD_eq_getElem _ _ inside]
  exact List.getElem_mem inside

/-- A row of samples that is shared is one more than the cells that are owned. -/
theorem owned_eq_of_shared {samples : UInt32} (several : 2 ≤ samples.toNat) :
    samples.toNat - 1 = (LeafBlock.ownedCount true samples).toNat := by
  rw [LeafBlock.toNat_ownedCount, if_pos rfl]
  omega

/-- A leaf block that shares its last rows has them at the end of its box. -/
theorem Fits.sharesRows (fits : plan.Fits) {box : GridBox} {leaf : LeafBlock}
    (shared : plan.overlap = true) (overlap : leaf.overlap = plan.overlap)
    (finest : leaf.lattice = (plan.level (plan.levels.length - 1)).lattice)
    (placed : plan.LeafAt box leaf)
    (alignedX : box.size.x ∣ box.corner.x) (alignedY : box.size.y ∣ box.corner.y)
    (alignedZ : plan.planar = false → box.size.z ∣ box.corner.z) :
    plan.SharesRows box leaf := by
  rcases fits.shared shared with ⟨severalX, severalY, severalZ⟩
  have owned := placed.owned
  rw [LeafBlock.ownedCells, overlap, shared] at owned
  rw [← finest] at severalX severalY severalZ
  refine ⟨⟨alignedX, ?_⟩, ⟨alignedY, ?_⟩, fun solid => ⟨alignedZ solid, ?_⟩⟩
  · rw [owned_eq_of_shared severalX, ← owned]
    rfl
  · rw [owned_eq_of_shared severalY, ← owned]
    rfl
  · rw [owned_eq_of_shared (severalZ solid), ← owned]
    rfl

theorem Fits.sharesRows_leafOf (fits : plan.Fits) {cell : SampledCell}
    (shared : plan.overlap = true) (leaf : plan.isLeaf cell = true)
    (aligned : plan.Aligned cell.job) :
    plan.SharesRows (plan.cellBox cell) (plan.leafOf cell) := by
  have placed := fits.leafAt_leafOf leaf
  rw [isLeaf, Bool.and_eq_true] at leaf
  have last : cell.job.level + 2 = plan.levels.length := of_decide_eq_true leaf.2
  rcases aligned.cellPosition (.ofNat cell.index) with ⟨x, y, z⟩
  refine fits.sharesRows shared rfl ?_ placed x y ?_
  · rw [← last]
    rfl
  · intro solid
    rw [cellBox, cellExtent, solid]
    exact z

/-! ## Sampled blocks -/

section Sampled

variable {reports : BlockJob → CellReport} {jobs all : List BlockJob}

/-- Blocks that report their samples ask for their children. -/
theorem generates_children
    (generated : Generates (fun job => plan.followUps job (reports job)) jobs all)
    (same : ∀ job ∈ all, reports job = .ofDistances (plan.query job) (sampled job)) :
    Generates (plan.children sampled) jobs all := by
  refine generated.congr ?_
  intro job member
  rw [same job member, followUps_ofDistances]
  rfl

/-- Blocks that report their samples leave the leaves among their cells. -/
theorem flatMap_leavesOf
    (same : ∀ job ∈ all, reports job = .ofDistances (plan.query job) (sampled job)) :
    (all.flatMap fun job => plan.leavesOf job (reports job)) =
      ((visited sampled all).filter plan.isLeaf).map plan.leafOf := by
  rw [visited, List.filter_flatMap, List.map_flatMap]
  apply List.flatMap_congr
  intro job member
  rw [same job member, leavesOf_ofDistances]

end Sampled

end LevelPlan

namespace Subdivision

variable {classify : Classifier} {measured : CellQuery → List Single → Prop}
  {levels : List LevelSize} {bounds : Aabb Single} {dimension : Dimension}
  {config : SubdivisionConfig} {result : Subdivision}

open LevelPlan

/-- A complete run has visited a forest of sampled blocks. -/
theorem exists_visited (samples : classify.Samples measured)
    (several : levels.length ≠ 1)
    (completed : ofLevels classify levels bounds dimension config = .ok result) :
    let plan := plan levels bounds dimension config
    ∃ (sampled : BlockJob → List Single) (all : List BlockJob),
      Generates (plan.children sampled) [⟨0, ⟨0, 0, 0⟩⟩] all ∧
      (∀ job ∈ all, measured (plan.query job) (sampled job) ∧
        (sampled job).length = (plan.level job.level).lattice.cells) ∧
      result.leafBlocks.Perm
        (((visited sampled all).filter plan.isLeaf).map plan.leafOf) ∧
      (config.recordUniformCells = true → result.uniformBlocks.Perm
        (((visited sampled all).filter fun cell => !plan.isOpen cell).map
          plan.uniformOf)) := by
  intro plan
  rcases exists_forest_of_ofLevels several completed with
    ⟨all, generated, answered, leaves, uniform⟩
  have distances : ∀ job, ∃ distances, plan.Answers classify job →
      measured (plan.query job) distances ∧
        distances.length = (plan.level job.level).lattice.cells ∧
          plan.reportOn classify job =
            .ofDistances (plan.query job) distances := by
    intro job
    by_cases answers : plan.Answers classify job
    · rcases samples _ _ answers with ⟨distances, facts⟩
      exact ⟨distances, fun _ => facts⟩
    · exact ⟨[], fun answers' => absurd answers' answers⟩
  rcases Classical.axiomOfChoice distances with ⟨sampled, facts⟩
  have same : ∀ job ∈ all,
      plan.reportOn classify job = .ofDistances (plan.query job) (sampled job) :=
    fun job member => (facts job (answered job member)).2.2
  refine ⟨sampled, all, generates_children generated same, ?_, ?_, ?_⟩
  · intro job member
    rcases facts job (answered job member) with ⟨measures, complete, -⟩
    exact ⟨measures, complete⟩
  · rw [flatMap_leavesOf same] at leaves
    exact leaves
  · intro recorded
    refine uniform.trans (List.Perm.of_eq ?_)
    rw [visited, List.filter_flatMap, List.map_flatMap]
    apply List.flatMap_congr
    intro job member
    rw [same job member, uniform_map_ofDistances recorded]

/-- A complete subdivision is one of the level hierarchy of its bounds. -/
theorem subdivideWith_eq_ok {axes : Nat}
    (completed : subdivideWith classify bounds axes config = .ok result) :
    levelSizes bounds axes config = .ok result.levels ∧
      checkDimension axes = .ok result.dimension ∧
        ofLevels classify result.levels bounds result.dimension config =
          .ok result := by
  rw [subdivideWith] at completed
  cases hierarchy : levelSizes bounds axes config with
  | error error =>
      rw [hierarchy] at completed
      cases completed
  | ok levels =>
      cases checked : checkDimension axes with
      | error error =>
          rw [hierarchy, checked] at completed
          cases completed
      | ok dimension =>
          rw [hierarchy, checked] at completed
          rcases levels_of_ofLevels completed with ⟨rfl, rfl⟩
          exact ⟨rfl, rfl, completed⟩

/-- The final cells of a forest of sampled blocks cover the region. -/
theorem covers_of_generates {plan : LevelPlan} (fits : plan.Fits)
    (several : plan.levels.length ≠ 1) {sampled : BlockJob → List Single}
    {all : List BlockJob}
    (generated : Generates (plan.children sampled) [⟨0, ⟨0, 0, 0⟩⟩] all)
    (complete : ∀ job ∈ all,
      (sampled job).length = (plan.level job.level).lattice.cells)
    (cell : Vec3 Nat) :
    GridBox.covers (((visited sampled all).filter plan.isFinal).map plan.cellBox)
        cell =
      if plan.region.Contains cell then 1 else 0 := by
  have nonempty := fits.nonempty
  rw [fits.covers_visited generated ?_ complete, List.map_singleton,
    GridBox.covers_cons]
  · rfl
  · intro job member
    rw [List.mem_singleton] at member
    subst member
    show 0 + 1 < plan.levels.length
    omega

/-- The leaves and the uniform cells of a forest of sampled blocks tile the region. -/
theorem tiles_of_generates {plan : LevelPlan} (fits : plan.Fits)
    (several : plan.levels.length ≠ 1) {sampled : BlockJob → List Single}
    {all : List BlockJob}
    (generated : Generates (plan.children sampled) [⟨0, ⟨0, 0, 0⟩⟩] all)
    (complete : ∀ job ∈ all,
      (sampled job).length = (plan.level job.level).lattice.cells) :
    GridBox.Tiles
      (((visited sampled all).filter plan.isLeaf).map plan.cellBox ++
        ((visited sampled all).filter fun cell => !plan.isOpen cell).map plan.cellBox)
      plan.region := by
  intro cell
  have covered := covers_of_generates fits several generated complete cell
  rw [covers_final, ← GridBox.covers_append] at covered
  exact covered

/-- The only block of a single level is its region. -/
def tilingOfSingleLevel {level : LevelSize}
    (fits : (plan [level] bounds dimension config).Fits) :
    (plan [level] bounds dimension config).Tiling
      (ofSingleLevel level bounds dimension config) where
  leaves :=
    (ofSingleLevel level bounds dimension config).leafBlocks.map fun leaf =>
      ((plan [level] bounds dimension config).region, leaf)
  cells := []
  leafBlocks := List.Perm.refl _
  uniformBlocks := List.Perm.refl _
  leafAt := by
    intro leaf member
    cases List.mem_singleton.mp member
    exact ⟨Or.inr ⟨rfl, rfl⟩, Or.inr rfl, rfl⟩
  cellAt := nofun
  tiles := by
    intro cell
    rw [List.map_nil, List.append_nil]
    exact GridBox.covers_cons _ [] cell
  sharesRows := by
    intro shared leaf member
    cases List.mem_singleton.mp member
    exact fits.sharesRows shared rfl rfl ⟨Or.inr ⟨rfl, rfl⟩, Or.inr rfl, rfl⟩
      (Nat.dvd_zero _) (Nat.dvd_zero _) (fun _ => Nat.dvd_zero _)

/-- The final cells of a forest of sampled blocks tile the region. -/
def tilingOfForest {plan : LevelPlan} (fits : plan.Fits)
    (several : plan.levels.length ≠ 1) {sampled : BlockJob → List Single}
    {all : List BlockJob}
    (generated : Generates (plan.children sampled) [⟨0, ⟨0, 0, 0⟩⟩] all)
    (complete : ∀ job ∈ all,
      (sampled job).length = (plan.level job.level).lattice.cells)
    (leafBlocks : result.leafBlocks.Perm
      (((visited sampled all).filter plan.isLeaf).map plan.leafOf))
    (uniformBlocks : result.uniformBlocks.Perm
      (((visited sampled all).filter fun cell => !plan.isOpen cell).map
        plan.uniformOf)) :
    plan.Tiling result where
  leaves := ((visited sampled all).filter plan.isLeaf).map fun cell =>
    (plan.cellBox cell, plan.leafOf cell)
  cells := ((visited sampled all).filter fun cell => !plan.isOpen cell).map
    fun cell => (plan.cellBox cell, plan.uniformOf cell)
  leafBlocks := by
    rw [List.map_map]
    exact leafBlocks.symm
  uniformBlocks := by
    rw [List.map_map]
    exact uniformBlocks.symm
  leafAt := by
    rw [List.forall_mem_map]
    intro cell member
    exact fits.leafAt_leafOf (List.mem_filter.mp member).2
  cellAt := by
    rw [List.forall_mem_map]
    intro cell member
    have aligned := fits.aligned_of_mem_visited several generated
      (List.mem_filter.mp member).1
    exact cellAt_uniformOf (Nat.lt_of_succ_lt aligned.coarse)
  tiles := by
    rw [List.map_map, List.map_map]
    exact tiles_of_generates fits several generated complete
  sharesRows := by
    intro shared
    rw [List.forall_mem_map]
    intro cell member
    rcases List.mem_filter.mp member with ⟨member, leaf⟩
    exact fits.sharesRows_leafOf shared leaf
      (fits.aligned_of_mem_visited several generated member)

theorem nonempty_tiling_of_ofLevels (samples : classify.Samples measured)
    (fits : (plan levels bounds dimension config).Fits)
    (recorded : config.recordUniformCells = true)
    (completed : ofLevels classify levels bounds dimension config = .ok result) :
    Nonempty ((plan levels bounds dimension config).Tiling result) := by
  by_cases several : levels.length = 1
  · rcases List.length_eq_one_iff.mp several with ⟨level, rfl⟩
    cases completed
    exact ⟨tilingOfSingleLevel fits⟩
  · rcases exists_visited samples several completed with
      ⟨sampled, all, generated, facts, leaves, uniform⟩
    exact ⟨tilingOfForest fits several generated
      (fun job member => (facts job member).2) leaves (uniform recorded)⟩

/--
Whatever distances are measured, the leaf blocks and the uniform cells of a
complete subdivision stand at boxes of the grid that tile the region of the top
level, and leaf blocks that share their last rows of samples have them where
their neighbours begin.
-/
theorem exists_tiling (samples : classify.Samples measured) {axes : Nat}
    (recorded : config.recordUniformCells = true)
    (completed : subdivideWith classify bounds axes config = .ok result) :
    levelSizes bounds axes config = .ok result.levels ∧
      checkDimension axes = .ok result.dimension ∧
        Nonempty
          ((plan result.levels bounds result.dimension config).Tiling result) := by
  rcases subdivideWith_eq_ok completed with ⟨hierarchy, checked, ran⟩
  have fits := fits_plan checked hierarchy
  exact ⟨hierarchy, checked, nonempty_tiling_of_ofLevels samples fits recorded ran⟩

end Subdivision

namespace Machine

/-- A unit disc around the origin. -/
def disc : Machine :=
  ⟨[⟨.circle, 0, 0, 0, [.one]⟩], 1, 0⟩

/-- A square with a quarter of the disc in one corner. -/
def quarter : Aabb Single :=
  ⟨0, ⟨.ofNat 8, .ofNat 8, 0⟩⟩

/-- Three rows of samples on every axis of a block, at a distance of one. -/
def coarse : SubdivisionConfig :=
  { resolution := .one, latticeSize := 3, recordUniformCells := true }

theorem exists_subdivide_disc :
    ∃ result, disc.subdivide quarter 2 coarse = .ok result ∧
      (result.levels.map LevelSize.cellSize, result.leafBlocks.length,
        result.uniformBlocks.length) = ([6, 2, 1], 1, 11) :=
  exists_eq_ok_of_map (by decide +kernel)

/-- Three levels of cells tile the square of the disc. -/
theorem disc_tiles_square :
    ∃ result, disc.subdivide quarter 2 coarse = .ok result ∧
      (result.levels.map LevelSize.cellSize, result.leafBlocks.length,
        result.uniformBlocks.length) = ([6, 2, 1], 1, 11) ∧
      levelSizes quarter 2 coarse = .ok result.levels ∧
      checkDimension 2 = .ok result.dimension ∧
      Nonempty ((Subdivision.plan result.levels quarter result.dimension
        coarse).Tiling result) := by
  rcases exists_subdivide_disc with ⟨result, completed, found⟩
  exact ⟨result, completed, found,
    Subdivision.exists_tiling disc.samples_classify rfl completed⟩

end Machine

end SolidField
