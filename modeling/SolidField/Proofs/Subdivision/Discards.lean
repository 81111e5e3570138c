import SolidField.Proofs.Device.Distances
import SolidField.Proofs.Numeric.NotANumber
import SolidField.Proofs.Subdivision.Tiling

/-!
# What a subdivision discards

A cell is discarded when its distance is not below the threshold.  That proves
the cell uniform if the distance is a number; a distance that is not a number is
not below the threshold either.  Nothing is discarded without a proof if and
only if all distances are numbers.
-/

namespace SolidField

/-! ## Thresholds -/

theorem isNaN_of_isPositiveFinite {x : Single}
    (positive : Scalar.isPositiveFinite x = true) : x.isNaN = false := by
  rw [Scalar.isPositiveFinite, Bool.and_eq_true] at positive
  have less : Single.less 0 x = true := positive.1
  simp only [Single.less, Bool.and_eq_true, Bool.not_eq_true'] at less
  exact less.1.2

namespace LevelPlan

variable {plan : LevelPlan}

/-- The threshold of an accepted query is a number. -/
theorem isNaN_threshold {job : BlockJob}
    (accepted : (plan.query job).rejection? = none) :
    (plan.query job).threshold.isNaN = false := by
  have step : (plan.query job).step.isNaN = false :=
    isNaN_of_isPositiveFinite (CellQuery.rejection?_eq_none_iff.mp accepted).2
  have half : DoublePrecision.isRegular 0.5 = true := by decide +kernel
  have planarRoot : DoublePrecision.isRegular (Float.sqrt 2) = true := by
    decide +kernel
  have solidRoot : DoublePrecision.isRegular (Float.sqrt 3) = true := by
    decide +kernel
  have root : DoublePrecision.isRegular
      (Float.sqrt (if plan.planar then 2 else 3)) = true := by
    cases plan.planar with
    | true => exact planarRoot
    | false => exact solidRoot
  rw [query, Single.isNaN_ofFloat] at step
  rw [query, Single.isNaN_ofFloat, threshold,
    DoublePrecision.isNaN_mul _ half, DoublePrecision.isNaN_mul _ root, step]

/-- A cell is proven uniform if its distance is a number that is not too small. -/
theorem isProven_iff {cell : SampledCell}
    (accepted : (plan.query cell.job).rejection? = none) :
    plan.isProven cell = true ↔
      plan.isOpen cell = false ∧ cell.distance.isNaN = false := by
  rw [isProven, Single.atMost_eq_true_iff (isNaN_threshold accepted),
    Single.isNaN_abs]
  rfl

/-- A distance that is not a number is not below a threshold. -/
theorem isOpen_of_isNaN {cell : SampledCell}
    (undefined : cell.distance.isNaN = true) : plan.isOpen cell = false := by
  rw [isOpen, CellQuery.intersects, Single.less, Single.isNaN_abs, undefined]
  rfl

end LevelPlan

/-! ## Cells that are covered once -/

theorem Generates.roots_mem {Job : Type} {followUps : Job → List Job}
    {jobs all : List Job} (generated : Generates followUps jobs all) :
    ∀ job ∈ jobs, job ∈ all := by
  induction generated with
  | nil => exact nofun
  | cons _ _ _ restInduction =>
      rw [List.forall_mem_cons]
      exact ⟨List.mem_cons_self .., fun job member =>
        List.mem_cons_of_mem _ (List.mem_append_right _ (restInduction job member))⟩

/-- A forest has all that its jobs ask for. -/
theorem Generates.followUps_mem {Job : Type} {followUps : Job → List Job}
    {jobs all : List Job} (generated : Generates followUps jobs all) :
    ∀ job ∈ all, ∀ next ∈ followUps job, next ∈ all := by
  induction generated with
  | nil => exact nofun
  | @cons job jobs below rest belowGenerated _ belowInduction restInduction =>
      rw [List.forall_mem_cons, List.forall_mem_append]
      refine ⟨?_, ?_, ?_⟩
      · intro next member
        exact List.mem_cons_of_mem _
          (List.mem_append_left _ (belowGenerated.roots_mem next member))
      · intro job held next member
        exact List.mem_cons_of_mem _
          (List.mem_append_left _ (belowInduction job held next member))
      · intro job held next member
        exact List.mem_cons_of_mem _
          (List.mem_append_right _ (restInduction job held next member))

namespace GridBox

variable {β : Type} {box : β → GridBox} {items : List β} {cell : Vec3 Nat}

theorem covers_pos_iff :
    0 < covers (items.map box) cell ↔ ∃ item ∈ items, (box item).Contains cell := by
  rw [covers, List.countP_map, List.countP_pos_iff]
  simp

/-- A cell that is covered once is in the box of one item only. -/
theorem eq_of_covers_eq_one {item other : β}
    (once : covers (items.map box) cell = 1) (member : item ∈ items)
    (otherMember : other ∈ items) (inside : (box item).Contains cell)
    (otherInside : (box other).Contains cell) : item = other := by
  rw [covers, List.countP_map, List.countP_eq_length_filter,
    List.length_eq_one_iff] at once
  rcases once with ⟨single, held⟩
  have only : ∀ item ∈ items, (box item).Contains cell → item = single := by
    intro item member inside
    have found : item ∈ [single] := by
      rw [← held, List.mem_filter]
      exact ⟨member, decide_eq_true inside⟩
    exact List.mem_singleton.mp found
  rw [only item member inside, only other otherMember otherInside]

end GridBox

namespace LevelPlan

variable {plan : LevelPlan}

/-- The box of a cell has its corner. -/
theorem Fits.cellBox_contains_corner (fits : plan.Fits) {cell : SampledCell}
    (level : cell.job.level < plan.levels.length) :
    (plan.cellBox cell).Contains (plan.cellBox cell).corner := by
  have positive := fits.positive _ level
  have layer : 0 < (plan.cellBox cell).size.z := by
    simp only [cellBox, cellExtent]
    split
    · exact Nat.one_pos
    · exact positive
  exact ⟨⟨Nat.le_refl _, Nat.lt_add_of_pos_right positive⟩,
    ⟨Nat.le_refl _, Nat.lt_add_of_pos_right positive⟩,
    ⟨Nat.le_refl _, Nat.lt_add_of_pos_right layer⟩⟩

theorem isFinal_of_not_isOpen {cell : SampledCell}
    (uniform : plan.isOpen cell = false) : plan.isFinal cell = true := by
  rw [isFinal, uniform]
  rfl

theorem isFinal_of_isLeaf {cell : SampledCell} (leaf : plan.isLeaf cell = true) :
    plan.isFinal cell = true := by
  rw [isLeaf, Bool.and_eq_true] at leaf
  rw [isFinal, leaf.2, Bool.or_true]

theorem not_isLeaf_of_not_isOpen {cell : SampledCell}
    (uniform : plan.isOpen cell = false) : plan.isLeaf cell = false := by
  rw [isLeaf, uniform]
  rfl

/-! ## What an inspection proves -/

namespace Inspection

variable {machine : Machine} {result : Subdivision}
  (inspection : plan.Inspection machine result)

theorem accepted {cell : SampledCell} (member : cell ∈ inspection.cells) :
    (plan.query cell.job).rejection? = none := by
  rw [cells, visited, List.mem_flatMap] at member
  rcases member with ⟨job, held, member⟩
  rw [job_of_mem_sampledCells member]
  exact (inspection.measured job held).accepted

theorem complete {job : BlockJob} (member : job ∈ inspection.jobs) :
    (inspection.sampled job).length =
      (plan.level job.level).lattice.cells :=
  (inspection.measured job member).length_eq

section Forest

variable (fits : plan.Fits) (several : plan.levels.length ≠ 1)
  (generated : Generates (plan.children inspection.sampled) [⟨0, ⟨0, 0, 0⟩⟩]
    inspection.jobs)
  (leaves : inspection.leaves = (inspection.cells.filter plan.isLeaf).map
    fun cell => (plan.cellBox cell, plan.leafOf cell))

include fits several generated

/-- The final cells that were classified cover the region once. -/
theorem covers_final_cells (unit : Vec3 Nat) :
    GridBox.covers ((inspection.cells.filter plan.isFinal).map plan.cellBox) unit =
      if plan.region.Contains unit then 1 else 0 :=
  Subdivision.covers_of_generates fits several generated
    (fun _ => inspection.complete) unit

theorem exists_final_cell {unit : Vec3 Nat} (inRegion : plan.region.Contains unit) :
    ∃ cell ∈ inspection.cells,
      plan.isFinal cell = true ∧ (plan.cellBox cell).Contains unit := by
  have once := inspection.covers_final_cells fits several generated unit
  rw [if_pos inRegion] at once
  rcases GridBox.covers_pos_iff.mp (once ▸ Nat.one_pos) with ⟨cell, held, inside⟩
  rcases List.mem_filter.mp held with ⟨member, final⟩
  exact ⟨cell, member, final, inside⟩

theorem region_contains {cell : SampledCell} (member : cell ∈ inspection.cells)
    (final : plan.isFinal cell = true) {unit : Vec3 Nat}
    (inside : (plan.cellBox cell).Contains unit) : plan.region.Contains unit := by
  have covered : 0 < GridBox.covers
      ((inspection.cells.filter plan.isFinal).map plan.cellBox) unit :=
    GridBox.covers_pos_iff.mpr ⟨cell, List.mem_filter.mpr ⟨member, final⟩, inside⟩
  rw [inspection.covers_final_cells fits several generated unit] at covered
  by_contra outside
  rw [if_neg outside] at covered
  exact Nat.lt_irrefl 0 covered

/-- Two final cells do not overlap. -/
theorem eq_of_isFinal {cell other : SampledCell}
    (member : cell ∈ inspection.cells) (otherMember : other ∈ inspection.cells)
    (final : plan.isFinal cell = true) (otherFinal : plan.isFinal other = true)
    {unit : Vec3 Nat} (inside : (plan.cellBox cell).Contains unit)
    (otherInside : (plan.cellBox other).Contains unit) : cell = other := by
  have once := inspection.covers_final_cells fits several generated unit
  rw [if_pos (inspection.region_contains fits several generated member final inside)]
    at once
  exact GridBox.eq_of_covers_eq_one once (List.mem_filter.mpr ⟨member, final⟩)
    (List.mem_filter.mpr ⟨otherMember, otherFinal⟩) inside otherInside

include leaves

/-- Where nothing is discarded without a proof, every distance is a number. -/
theorem isNaN_of_proves (proves : inspection.Proves) {cell : SampledCell}
    (member : cell ∈ inspection.cells) : cell.distance.isNaN = false := by
  rw [← Bool.not_eq_true]
  intro undefined
  have uniform := plan.isOpen_of_isNaN undefined
  have final := isFinal_of_not_isOpen uniform
  have corner := fits.cellBox_contains_corner
    (Nat.lt_of_succ_lt (fits.aligned_of_mem_visited several generated member).coarse)
  -- Only this cell contains its corner, and it is neither a leaf nor proven.
  rcases proves.settled _ (inspection.region_contains fits several generated member
    final corner) with ⟨leaf, held, inside⟩ | ⟨other, held, inside, proven, -⟩
  · rw [leaves, List.mem_map] at held
    rcases held with ⟨other, held, rfl⟩
    rcases List.mem_filter.mp held with ⟨held, isLeaf⟩
    cases inspection.eq_of_isFinal fits several generated member held final
      (isFinal_of_isLeaf isLeaf) corner inside
    rw [not_isLeaf_of_not_isOpen uniform] at isLeaf
    cases isLeaf
  · rw [isProven_iff (inspection.accepted held)] at proven
    cases inspection.eq_of_isFinal fits several generated member held final
      (isFinal_of_not_isOpen proven.1) corner inside
    rw [undefined] at proven
    cases proven.2

/-- Among numbers every discard is a proof. -/
theorem proves_of_isNaN
    (numbers : ∀ cell ∈ inspection.cells, cell.distance.isNaN = false) :
    inspection.Proves := by
  have leaf_mem : ∀ cell ∈ inspection.cells, plan.isOpen cell = true →
      plan.isLastCoarse cell.job.level = true →
        (plan.cellBox cell, plan.leafOf cell) ∈ inspection.leaves := by
    intro cell member crossed last
    rw [leaves]
    refine List.mem_map_of_mem (List.mem_filter.mpr ⟨member, ?_⟩)
    rw [isLeaf, crossed, last]
    rfl
  constructor
  · intro unit inRegion
    rcases inspection.exists_final_cell fits several generated inRegion with
      ⟨cell, member, final, inside⟩
    cases crossed : plan.isOpen cell with
    | true =>
        rw [isFinal, crossed] at final
        exact Or.inl ⟨_, leaf_mem cell member crossed final, inside⟩
    | false =>
        have aligned := fits.aligned_of_mem_visited several generated member
        refine Or.inr ⟨cell, member, inside, ?_, ?_⟩
        · rw [isProven_iff (inspection.accepted member)]
          exact ⟨crossed, numbers cell member⟩
        · intro recorded
          exact ⟨plan.uniformOf cell, inspection.recorded recorded cell member crossed,
            cellAt_uniformOf (Nat.lt_of_succ_lt aligned.coarse), rfl⟩
  · intro cell member unproven
    have crossed : plan.isOpen cell = true := by
      rw [← Bool.not_eq_false]
      intro uniform
      rw [(isProven_iff (inspection.accepted member)).mpr
        ⟨uniform, numbers cell member⟩] at unproven
      cases unproven
    cases last : plan.isLastCoarse cell.job.level with
    | true => exact Or.inl (leaf_mem cell member crossed last)
    | false =>
        right
        rw [cells, visited, List.mem_flatMap] at member
        rcases member with ⟨job, held, member⟩
        refine generated.followUps_mem job held _ ?_
        refine List.mem_map_of_mem (List.mem_filter.mpr ⟨member, ?_⟩)
        rw [isFinal, crossed, last]
        rfl

end Forest

/--
Nothing is discarded without a proof of uniformity if and only if every distance
that was measured is a number.
-/
theorem proves_iff (fits : plan.Fits) :
    inspection.Proves ↔
      ∀ cell ∈ inspection.cells, cell.distance.isNaN = false := by
  rcases inspection.found with ⟨-, none, single⟩ | ⟨several, generated, leaves⟩
  · have noCells : inspection.cells = [] := by
      rw [cells, none]
      rfl
    rw [noCells]
    refine iff_of_true ⟨?_, ?_⟩ nofun
    · intro unit inRegion
      left
      have held : plan.region ∈ inspection.leaves.map Prod.fst := by
        rw [single]
        exact List.mem_singleton_self _
      rcases List.mem_map.mp held with ⟨leaf, member, box⟩
      exact ⟨leaf, member, box ▸ inRegion⟩
    · rw [noCells]
      exact nofun
  · exact ⟨fun proves _ =>
      inspection.isNaN_of_proves fits several generated leaves proves,
      inspection.proves_of_isNaN fits several generated leaves⟩

/-- A top cell whose distance is not a number is discarded without a proof. -/
theorem not_proves_of_top (fits : plan.Fits) (several : plan.levels.length ≠ 1)
    {distances : List Single}
    (evaluated : machine.evalLattice (plan.query ⟨0, ⟨0, 0, 0⟩⟩).firstCentre
      (plan.query ⟨0, ⟨0, 0, 0⟩⟩).step (plan.query ⟨0, ⟨0, 0, 0⟩⟩).dims.toNat =
        .ok distances)
    (undefined : ∃ distance ∈ distances, distance.isNaN = true) :
    ¬inspection.Proves := by
  rw [inspection.proves_iff fits]
  intro numbers
  rcases inspection.found with ⟨single, -⟩ | ⟨-, generated, -⟩
  · exact several single
  · have top := generated.roots_mem _ (List.mem_singleton_self _)
    have measured := (inspection.measured _ top).evaluated
    rw [evaluated, Except.ok.injEq] at measured
    rcases undefined with ⟨distance, member, undefined⟩
    rw [measured] at member
    rcases List.mem_iff_getElem?.mp member with ⟨index, found⟩
    have cell : (⟨⟨0, ⟨0, 0, 0⟩⟩, index, distance⟩ : SampledCell) ∈
        inspection.cells := by
      rw [cells, visited, List.mem_flatMap]
      refine ⟨_, top, List.mem_map.mpr ⟨(distance, index), ?_, rfl⟩⟩
      rw [List.mem_zipIdx_iff_getElem?]
      exact found
    rw [numbers _ cell] at undefined
    cases undefined

end Inspection

end LevelPlan

/-! ## Complete subdivisions -/

namespace Machine

variable {machine : Machine} {bounds : Aabb Single} {axes : Nat}
  {config : SubdivisionConfig} {result : Subdivision}

theorem nonempty_inspection_of_ofLevels {levels : List LevelSize}
    {dimension : Dimension}
    (completed : Subdivision.ofLevels machine.classify levels bounds dimension config =
      .ok result) :
    Nonempty ((Subdivision.plan levels bounds dimension config).Inspection
      machine result) := by
  by_cases several : levels.length = 1
  · rcases List.length_eq_one_iff.mp several with ⟨level, rfl⟩
    cases completed
    exact ⟨
      { sampled := fun _ => []
        jobs := []
        leaves := [(_, _)]
        measured := nofun
        found := Or.inl ⟨rfl, rfl, rfl⟩
        leafBlocks := List.Perm.refl _
        recorded := nofun }⟩
  · rcases Subdivision.exists_visited machine.samples_classify several completed with
      ⟨sampled, all, generated, facts, leaves, uniform⟩
    exact ⟨
      { sampled
        jobs := all
        leaves := _
        measured := fun job member => (facts job member).1
        found := Or.inr ⟨several, generated, rfl⟩
        leafBlocks := by
          rw [List.map_map]
          exact leaves.symm
        recorded := by
          intro recorded cell member settled
          rw [(uniform recorded).mem_iff]
          refine List.mem_map_of_mem (List.mem_filter.mpr ⟨member, ?_⟩)
          rw [settled]
          rfl }⟩

/-- A complete subdivision has classified a forest of blocks of its plan. -/
theorem exists_inspection
    (completed : machine.subdivide bounds axes config = .ok result) :
    let plan := Subdivision.plan result.levels bounds result.dimension config
    plan.Fits ∧ Nonempty (plan.Inspection machine result) := by
  rcases Subdivision.subdivideWith_eq_ok completed with ⟨hierarchy, checked, ran⟩
  exact ⟨Subdivision.fits_plan checked hierarchy, nonempty_inspection_of_ofLevels ran⟩

/--
A complete subdivision with a program discards nothing without a proof of
uniformity if and only if the program has a number as its distance at the centre
of every cell that was classified.
-/
theorem discards_proven_iff
    (completed : machine.subdivide bounds axes config = .ok result) :
    let plan := Subdivision.plan result.levels bounds result.dimension config
    Nonempty (plan.Inspection machine result) ∧
      ∀ inspection : plan.Inspection machine result, inspection.Proves ↔
        ∀ cell ∈ inspection.cells, cell.distance.isNaN = false := by
  rcases exists_inspection completed with ⟨fits, inspected⟩
  exact ⟨inspected, fun inspection => inspection.proves_iff fits⟩

/-- A disc discards most of the square. -/
theorem disc_discards_proven :
    ∃ result, disc.subdivide quarter 2 coarse = .ok result ∧
      (result.leafBlocks.length, result.uniformBlocks.length) = (1, 11) ∧
        (let plan := Subdivision.plan result.levels quarter result.dimension coarse
        Nonempty (plan.Inspection disc result) ∧
          ∀ inspection : plan.Inspection disc result, inspection.Proves ↔
            ∀ cell ∈ inspection.cells, cell.distance.isNaN = false) := by
  rcases exists_subdivide_disc with ⟨result, completed, found⟩
  exact ⟨result, completed, (Prod.mk.inj found).2, discards_proven_iff completed⟩

/-- A disc whose surface is moved by what is not a number. -/
def undefinedDisc : Shape Single :=
  .offset (.circle .one) ⟨0x7fc00000⟩

/-- The machine of the disc. -/
def undefinedMachine : Machine :=
  ⟨[⟨.circle, 0, 0, 0, [.one]⟩, ⟨.offset, 0, 0, 0, [⟨0x7fc00000⟩]⟩], 1, 0⟩

theorem exists_load_undefinedDisc :
    ∃ program, undefinedDisc.compile coarse.compile = .ok program ∧
      load program = .ok undefinedMachine := by
  have compiles : ∃ program, undefinedDisc.compile coarse.compile = .ok program ∧
      (load program).toOption.map id = some undefinedMachine :=
    exists_eq_ok_of_map (by decide +kernel)
  rcases compiles with ⟨program, compiled, found⟩
  rcases exists_eq_ok_of_map found with ⟨machine, loaded, rfl⟩
  exact ⟨program, compiled, loaded⟩

theorem exists_subdivide_undefinedDisc :
    ∃ result, undefinedMachine.subdivide undefinedDisc.bounds
        undefinedDisc.dimension.axes coarse = .ok result ∧
      (result.levels, result.dimension, result.leafBlocks,
        result.uniformBlocks.map UniformBlock.inside) =
          ([⟨2, ⟨2, 2, 1⟩⟩, ⟨1, ⟨3, 3, 1⟩⟩], .planar, [],
            [false, false, false, false]) :=
  exists_eq_ok_of_map (by decide +kernel)

/--
The subdivision of a shape whose distances are not numbers is complete, and has
discarded everything without a proof.
-/
theorem undefinedDisc_discards_all :
    ∃ program result,
      undefinedDisc.compile coarse.compile = .ok program ∧
      load program = .ok undefinedMachine ∧
      undefinedMachine.subdivide undefinedDisc.bounds undefinedDisc.dimension.axes
        coarse = .ok result ∧
      result.leafBlocks = [] ∧
      result.uniformBlocks.map UniformBlock.inside = [false, false, false, false] ∧
      (let plan := Subdivision.plan result.levels undefinedDisc.bounds
        result.dimension coarse
      Nonempty (plan.Inspection undefinedMachine result) ∧
        ∀ inspection : plan.Inspection undefinedMachine result,
          ¬inspection.Proves) := by
  rcases exists_load_undefinedDisc with ⟨program, compiled, loaded⟩
  rcases exists_subdivide_undefinedDisc with ⟨result, completed, found⟩
  rcases exists_inspection completed with ⟨fits, inspected⟩
  rw [Prod.mk.injEq, Prod.mk.injEq, Prod.mk.injEq] at found
  rcases found with ⟨levels, dimension, noLeaves, outside⟩
  rw [levels, dimension] at fits inspected
  refine ⟨program, result, compiled, loaded, completed, noLeaves, outside, ?_⟩
  rw [levels, dimension]
  refine ⟨inspected, fun inspection => ?_⟩
  have measured :
      let plan := Subdivision.plan [⟨2, ⟨2, 2, 1⟩⟩, ⟨1, ⟨3, 3, 1⟩⟩]
        undefinedDisc.bounds .planar coarse
      let query := plan.query (BlockJob.mk 0 ⟨0, 0, 0⟩);
      (undefinedMachine.evalLattice query.firstCentre query.step
        query.dims.toNat).toOption.map (List.any · Single.isNaN) = some true := by
    decide +kernel
  rcases exists_eq_ok_of_map measured with ⟨distances, evaluated, undefined⟩
  exact inspection.not_proves_of_top fits (by decide) evaluated
    (List.any_eq_true.mp undefined)

end Machine

end SolidField
