import Mathlib.Data.List.GetD
import SolidField.Subdivision.Region

/-!
# Level hierarchies fit together

In the hierarchy of accepted settings and bounds a block of a level owns exactly
the cells of one cell of the next coarser level, and every lattice has at least
one cell and not more than the device admits on each axis.
-/

namespace SolidField

/-! ## Cell sizes -/

/--
Cell sizes, the coarsest first, where a cell of a level is a block of the next
finer one: `leaf` cells of the finest level, or `lattice` cells of another one.
-/
inductive Nested (lattice leaf : Nat) : List Nat → Prop where
  | finest : Nested lattice leaf [1]
  | leaf : Nested lattice leaf [leaf, 1]
  | coarser {cell next : Nat} {finer : List Nat} :
      Nested lattice leaf (cell :: next :: finer) →
        Nested lattice leaf (cell * lattice :: cell :: next :: finer)

namespace Nested

variable {lattice leaf : Nat} {sizes : List Nat}

theorem of_climb {extent cell next : Nat} {finer : List Nat}
    (nested : Nested lattice leaf (cell :: next :: finer))
    (climbed : climb lattice extent cell (next :: finer) = some sizes) :
    Nested lattice leaf sizes := by
  rw [climb] at climbed
  split at climbed
  · cases climbed
  · split at climbed
    · cases climbed
      exact nested
    · split at climbed
      · next below grows => exact of_climb nested.coarser climbed
      · cases climbed
termination_by extent - cell

theorem of_cellSizes {overlap extent : Nat}
    (computed : cellSizes lattice overlap extent = some sizes) :
    Nested lattice (lattice - overlap) sizes := by
  simp only [cellSizes] at computed
  split at computed
  · cases computed
    exact finest
  · exact of_climb leaf computed

/-- A cell is a block of the next level. -/
theorem getD_eq (nested : Nested lattice leaf sizes) {index : Nat}
    (inside : index + 1 < sizes.length) :
    sizes.getD index 0 =
      if index + 2 = sizes.length then leaf
      else sizes.getD (index + 1) 0 * lattice := by
  induction nested generalizing index with
  | finest => exact absurd inside (by simp)
  | leaf =>
      cases index with
      | zero => rfl
      | succ index =>
          simp only [List.length_cons, List.length_nil] at inside
          omega
  | @coarser cell next finer nested induction =>
      cases index with
      | zero => simp
      | succ index =>
          have below : index + 1 < (cell :: next :: finer).length := by
            simpa using inside
          simpa using induction below

/-- The finest cells have size one. -/
theorem getD_last (nested : Nested lattice leaf sizes) :
    sizes.getD (sizes.length - 1) 0 = 1 := by
  induction nested with
  | finest => rfl
  | leaf => rfl
  | coarser nested induction => exact induction

theorem positive (nested : Nested lattice leaf sizes) (cells : 0 < lattice)
    (leafCells : 0 < leaf) : ∀ size ∈ sizes, 0 < size := by
  induction nested with
  | finest => simp
  | leaf => simpa using leafCells
  | coarser nested induction =>
      rw [List.forall_mem_cons]
      exact ⟨Nat.mul_pos (induction _ (List.mem_cons_self ..)) cells, induction⟩

end Nested

/-! ## Lattices -/

/-- There is a cell, and on no axis there are more than the device admits. -/
structure GridVector.Admitted (lattice : GridVector) : Prop where
  x : 0 < lattice.x.toNat ∧ lattice.x.toNat ≤ maxLatticeSize
  y : 0 < lattice.y.toNat ∧ lattice.y.toNat ≤ maxLatticeSize
  z : 0 < lattice.z.toNat ∧ lattice.z.toNat ≤ maxLatticeSize

/-- A block owns all of its samples, or all but the last one on every axis. -/
theorem LeafBlock.toNat_ownedCount (overlap : Bool) (samples : UInt32) :
    (ownedCount overlap samples).toNat =
      if overlap then max 1 (samples.toNat - 1) else samples.toNat := by
  cases overlap with
  | false => rfl
  | true =>
      simp only [ownedCount, if_true]
      split
      · next few =>
          have : samples.toNat ≤ 2 := few
          simp only [UInt32.toNat_one]
          omega
      · next many =>
          have : 2 < samples.toNat := Nat.lt_of_not_le many
          rw [UInt32.toNat_sub_of_le]
          · simp only [UInt32.toNat_one]
            omega
          · show 1 ≤ samples.toNat
            omega

namespace SubdivisionConfig

variable {config : SubdivisionConfig}

/-- What settings meet that are accepted. -/
structure Accepted (config : SubdivisionConfig) : Prop where
  resolution : Scalar.isPositiveFinite config.resolution = true
  several : 1 < config.latticeSize.toNat
  few : config.latticeSize.toNat ≤ maxLatticeSize
  multiplier : 0 < config.levelSizeMultiplier.toNat

theorem accepted_of_validate (validated : config.validate = .ok ()) :
    config.Accepted := by
  have clear : config.violation? = none := by
    simp only [validate] at validated
    split at validated
    · cases validated
    · assumption
  simp only [violation?] at clear
  split at clear
  · cases clear
  · next resolution =>
      split at clear
      · cases clear
      · next several =>
          split at clear
          · cases clear
          · next few =>
              split at clear
              · cases clear
              · next multiplier =>
                  rw [not_or] at multiplier
                  refine ⟨by simpa using resolution, Nat.lt_of_not_le several,
                    Nat.le_of_not_lt few, Nat.pos_of_ne_zero ?_⟩
                  intro zero
                  exact multiplier.1 (UInt32.toNat_inj.mp zero)

end SubdivisionConfig

theorem le_roundUp (value : Nat) {multiple : Nat} (positive : 0 < multiple) :
    value ≤ roundUp value multiple := by
  have enough := Nat.lt_div_mul_add (a := value + multiple - 1) positive
  rw [roundUp, coverCount]
  omega

theorem toNat_topCells (config : SubdivisionConfig) (cell overlap axis : Nat)
    (limit : UInt32) :
    (topCells config cell overlap axis limit).toNat =
      min (max (roundUp (coverCount axis cell + overlap)
        config.levelSizeMultiplier.toNat) 1) limit.toNat :=
  UInt32.toNat_ofNat_of_lt'
    (Nat.lt_of_le_of_lt (Nat.min_le_right _ _) limit.toNat_lt)

/-- The cells of the top level are at least one and within the limit. -/
theorem topCells_bounds (config : SubdivisionConfig) (cell overlap axis : Nat)
    {limit : UInt32} (positive : 0 < limit.toNat) :
    0 < (topCells config cell overlap axis limit).toNat ∧
      (topCells config cell overlap axis limit).toNat ≤ limit.toNat := by
  rw [toNat_topCells]
  omega

/-- A top level that shares its last row has a row to share. -/
theorem two_le_topCells {config : SubdivisionConfig} (accepted : config.Accepted)
    {cell axis : Nat} {limit : UInt32} (covered : 0 < axis)
    (positive : 0 < cell) (room : 2 ≤ limit.toNat) :
    2 ≤ (topCells config cell 1 axis limit).toNat := by
  have cover : 0 < coverCount axis cell := Nat.div_pos (by omega) positive
  have rounded := le_roundUp (coverCount axis cell + 1) accepted.multiplier
  rw [toNat_topCells]
  omega

/-! ## Plans -/

/-- The levels of a plan fit together. -/
structure LevelPlan.Fits (plan : LevelPlan) : Prop where
  nonempty : 0 < plan.levels.length
  admitted : ∀ index < plan.levels.length,
    (plan.level index).lattice.Admitted
  /-- In the plane there is one layer of cells. -/
  layer : plan.planar = true → ∀ index < plan.levels.length,
    (plan.level index).lattice.z.toNat = 1
  positive : ∀ index < plan.levels.length, 0 < (plan.level index).cellSize
  /-- The cells of a level divide those of the next coarser one. -/
  divides : ∀ index, index + 1 < plan.levels.length →
    (plan.level (index + 1)).cellSize ∣ (plan.level index).cellSize
  /-- A block owns a cell of the next coarser level. -/
  nested : ∀ index, index + 1 < plan.levels.length →
    plan.blockExtent (index + 1) = plan.cellExtent (plan.level index).cellSize
  /-- A leaf block that shares a row of samples has one to share. -/
  shared : plan.overlap = true →
    let lattice := (plan.level (plan.levels.length - 1)).lattice
    2 ≤ lattice.x.toNat ∧ 2 ≤ lattice.y.toNat ∧
      (plan.planar = false → 2 ≤ lattice.z.toNat)

/-- What the levels of an extent consist of. -/
theorem levelsOfExtent_eq_ok {extent : Vec3 Nat} {dimension : Dimension}
    {config : SubdivisionConfig} {levels : List LevelSize}
    (computed : levelsOfExtent extent dimension config = .ok levels) :
    ∃ top finer,
      Nested config.latticeSize.toNat
          (config.latticeSize.toNat - if config.overlapEdgeSamples then 1 else 0)
          (top :: finer) ∧
        levels =
          ⟨top,
            let block := blockLattice config.latticeSize dimension
            let shared :=
              if finer.isEmpty then if config.overlapEdgeSamples then 1 else 0
              else 0
            ⟨topCells config top shared extent.x block.x,
              topCells config top shared extent.y block.y,
              topCells config top shared extent.z block.z⟩⟩ ::
            finer.map fun cell => ⟨cell, blockLattice config.latticeSize dimension⟩ := by
  simp only [levelsOfExtent] at computed
  split at computed
  · next top finer sizes =>
      cases computed
      exact ⟨top, finer, Nested.of_cellSizes sizes, rfl⟩
  · cases computed

/-- A length is covered by at least one cell, and their number is exact. -/
theorem cellsAlong?_bounds {length resolution : Single} {cells : Nat}
    (counted : cellsAlong? length resolution = some cells) :
    0 < cells ∧ cells < maxGridExtent := by
  simp only [cellsAlong?] at counted
  split at counted
  · split at counted
    · next small =>
        cases counted
        have room : 1 < maxGridExtent := by decide
        omega
    · cases counted
  · cases counted

/-- The cells of grown bounds are at least one on every axis. -/
theorem gridExtent_positive {bounds : Aabb Single} {resolution : Single}
    {dimension : Dimension} {extent : Vec3 Nat}
    (counted : gridExtent bounds resolution dimension = .ok extent) :
    0 < extent.x ∧ 0 < extent.y ∧ 0 < extent.z := by
  simp only [gridExtent] at counted
  split at counted
  · cases counted
  · split at counted
    · next x y z =>
        cases counted
        exact ⟨(cellsAlong?_bounds x).1, (cellsAlong?_bounds y).1,
          (cellsAlong?_bounds z).1⟩
    · cases counted

/-- What accepted bounds and settings give their levels. -/
theorem levelSizes_eq_ok {bounds : Aabb Single} {axes : Nat}
    {dimension : Dimension} {config : SubdivisionConfig} {levels : List LevelSize}
    (checked : checkDimension axes = .ok dimension)
    (computed : levelSizes bounds axes config = .ok levels) :
    config.Accepted ∧ ∃ extent : Vec3 Nat,
      (0 < extent.x ∧ 0 < extent.y ∧ 0 < extent.z) ∧
        levelsOfExtent extent dimension config = .ok levels := by
  rw [levelSizes, checked] at computed
  cases validated : config.validate with
  | error error =>
      rw [validated] at computed
      cases computed
  | ok =>
      rw [validated] at computed
      change (gridExtent bounds config.resolution dimension >>= fun extent =>
        levelsOfExtent extent dimension config) = .ok levels at computed
      cases counted : gridExtent bounds config.resolution dimension with
      | error error =>
          rw [counted] at computed
          cases computed
      | ok extent =>
          rw [counted] at computed
          exact ⟨SubdivisionConfig.accepted_of_validate validated, extent,
            gridExtent_positive counted, computed⟩

theorem admitted_blockLattice {config : SubdivisionConfig}
    (accepted : config.Accepted) (dimension : Dimension) :
    (blockLattice config.latticeSize dimension).Admitted := by
  have several := accepted.several
  have few := accepted.few
  have axis : 0 < config.latticeSize.toNat ∧
      config.latticeSize.toNat ≤ maxLatticeSize := ⟨by omega, few⟩
  cases dimension with
  | planar => exact ⟨axis, axis, by show 0 < 1 ∧ 1 ≤ maxLatticeSize; decide⟩
  | solid => exact ⟨axis, axis, axis⟩

namespace Subdivision

variable {levels : List LevelSize} {bounds : Aabb Single} {dimension : Dimension}
  {config : SubdivisionConfig}

/-- A leaf block below another level owns a cell of it. -/
theorem toNat_ownedCells_blockLattice (accepted : config.Accepted) :
    GridVector.toNat ((blockLattice config.latticeSize dimension).map
        (LeafBlock.ownedCount config.overlapEdgeSamples)) =
      (plan levels bounds dimension config).cellExtent
        (config.latticeSize.toNat - if config.overlapEdgeSamples then 1 else 0) := by
  have several := accepted.several
  have axis : (LeafBlock.ownedCount config.overlapEdgeSamples
      config.latticeSize).toNat =
        config.latticeSize.toNat - if config.overlapEdgeSamples then 1 else 0 := by
    rw [LeafBlock.toNat_ownedCount]
    cases config.overlapEdgeSamples with
    | false => simp
    | true =>
        simp only [if_true]
        omega
  have layer : (LeafBlock.ownedCount config.overlapEdgeSamples 1).toNat = 1 := by
    cases config.overlapEdgeSamples <;> rfl
  cases dimension with
  | planar =>
      simp only [blockLattice, Vec3.map, GridVector.toNat, axis, layer,
        LevelPlan.cellExtent, plan, decide_true, if_true]
  | solid =>
      simp [blockLattice, Vec3.map, GridVector.toNat, axis,
        LevelPlan.cellExtent, plan]

/-- The block of any other level has a whole lattice of cells. -/
theorem blockLattice_mul_cellExtent (size : Nat) :
    let plan := plan levels bounds dimension config
    let block := blockLattice config.latticeSize dimension
    (⟨block.x.toNat * (plan.cellExtent size).x,
        block.y.toNat * (plan.cellExtent size).y,
        block.z.toNat * (plan.cellExtent size).z⟩ : Vec3 Nat) =
      plan.cellExtent (size * config.latticeSize.toNat) := by
  cases dimension <;>
    simp [blockLattice, LevelPlan.cellExtent, plan, Nat.mul_comm]

/-- What the levels of accepted settings and bounds are. -/
structure Stacked (levels : List LevelSize) (dimension : Dimension)
    (config : SubdivisionConfig) : Prop where
  nonempty : 0 < levels.length
  nested : Nested config.latticeSize.toNat
    (config.latticeSize.toNat - if config.overlapEdgeSamples then 1 else 0)
    (levels.map LevelSize.cellSize)
  below : ∀ index level, levels[index + 1]? = some level →
    level.lattice = blockLattice config.latticeSize dimension
  /-- The top level has just the cells that it needs. -/
  top : ∃ (extent : Vec3 Nat) (cell shared : Nat),
    (0 < extent.x ∧ 0 < extent.y ∧ 0 < extent.z) ∧ 0 < cell ∧
      (levels.length = 1 → config.overlapEdgeSamples = true → shared = 1) ∧
      ∀ level, levels[0]? = some level → level.lattice =
        let block := blockLattice config.latticeSize dimension
        ⟨topCells config cell shared extent.x block.x,
          topCells config cell shared extent.y block.y,
          topCells config cell shared extent.z block.z⟩

theorem stacked_of_levelSizes {axes : Nat}
    (checked : checkDimension axes = .ok dimension)
    (computed : levelSizes bounds axes config = .ok levels) :
    config.Accepted ∧ Stacked levels dimension config := by
  rcases levelSizes_eq_ok checked computed with
    ⟨accepted, extent, covered, assembled⟩
  rcases levelsOfExtent_eq_ok assembled with ⟨top, finer, nested, rfl⟩
  have several := accepted.several
  have positive : 0 < top := by
    refine nested.positive (by omega) ?_ top (List.mem_cons_self ..)
    split <;> omega
  refine ⟨accepted, Nat.succ_pos _, ?_, ?_, extent, top, _, covered, positive, ?_,
    fun _ found => by cases found; rfl⟩
  · simpa [Function.comp_def] using nested
  · intro index level found
    rw [List.getElem?_cons_succ, List.getElem?_map, Option.map_eq_some_iff]
      at found
    rcases found with ⟨cell, -, rfl⟩
    rfl
  · intro single overlapping
    have empty : finer = [] := by simpa using single
    simp [empty, overlapping]

theorem cellSize_level (levels : List LevelSize) (bounds : Aabb Single)
    (dimension : Dimension) (config : SubdivisionConfig) (index : Nat) :
    ((plan levels bounds dimension config).level index).cellSize =
      (levels.map LevelSize.cellSize).getD index 0 :=
  (List.getD_map levels ⟨0, ⟨0, 0, 0⟩⟩ LevelSize.cellSize).symm

namespace Stacked

variable (stacked : Stacked levels dimension config) (bounds)

include stacked

theorem positive (accepted : config.Accepted) {index : Nat}
    (inside : index < levels.length) :
    0 < ((plan levels bounds dimension config).level index).cellSize := by
  have several := accepted.several
  rw [cellSize_level levels bounds, List.getD_eq_getElem _ _ (by simpa using inside)]
  refine stacked.nested.positive (by omega) ?_ _ (List.getElem_mem _)
  split <;> omega

/-- The size of a cell in those of the next level. -/
theorem cellSize_eq {index : Nat} (inside : index + 1 < levels.length) :
    ((plan levels bounds dimension config).level index).cellSize =
      if index + 2 = levels.length then
        config.latticeSize.toNat - if config.overlapEdgeSamples then 1 else 0
      else
        ((plan levels bounds dimension config).level (index + 1)).cellSize *
          config.latticeSize.toNat := by
  have below := stacked.nested.getD_eq (by simpa using inside)
  rwa [List.length_map, ← cellSize_level levels bounds, ← cellSize_level levels bounds]
    at below

theorem lattice_below {index : Nat} (inside : index + 1 < levels.length) :
    ((plan levels bounds dimension config).level (index + 1)).lattice =
      blockLattice config.latticeSize dimension := by
  apply stacked.below index
  simp only [plan, LevelPlan.level]
  rw [List.getD_eq_getElem _ _ inside, List.getElem?_eq_getElem inside]

theorem lattice_top : ∃ (extent : Vec3 Nat) (cell shared : Nat),
    (0 < extent.x ∧ 0 < extent.y ∧ 0 < extent.z) ∧ 0 < cell ∧
      (levels.length = 1 → config.overlapEdgeSamples = true → shared = 1) ∧
      ((plan levels bounds dimension config).level 0).lattice =
        let block := blockLattice config.latticeSize dimension
        ⟨topCells config cell shared extent.x block.x,
          topCells config cell shared extent.y block.y,
          topCells config cell shared extent.z block.z⟩ := by
  rcases stacked.top with ⟨extent, cell, shared, covered, positive, overlaps, top⟩
  refine ⟨extent, cell, shared, covered, positive, overlaps, top _ ?_⟩
  simp only [plan, LevelPlan.level]
  rw [List.getD_eq_getElem _ _ stacked.nonempty,
    List.getElem?_eq_getElem stacked.nonempty]

theorem admitted (accepted : config.Accepted) {index : Nat}
    (inside : index < levels.length) :
    ((plan levels bounds dimension config).level index).lattice.Admitted := by
  have block := admitted_blockLattice accepted dimension
  cases index with
  | succ index =>
      rw [stacked.lattice_below bounds inside]
      exact block
  | zero =>
      rcases stacked.lattice_top bounds with
        ⟨extent, cell, shared, -, -, -, same⟩
      rw [same]
      have axis : ∀ {axis : Nat} {limit : UInt32}, 0 < limit.toNat ∧
          limit.toNat ≤ maxLatticeSize →
            0 < (topCells config cell shared axis limit).toNat ∧
              (topCells config cell shared axis limit).toNat ≤ maxLatticeSize := by
        intro axis limit ⟨positive, few⟩
        have bounds := topCells_bounds config cell shared axis positive
        exact ⟨bounds.1, Nat.le_trans bounds.2 few⟩
      exact ⟨axis block.x, axis block.y, axis block.z⟩

/-- In the plane there is one layer of cells. -/
theorem layer (flat : dimension = .planar) {index : Nat}
    (inside : index < levels.length) :
    ((plan levels bounds dimension config).level index).lattice.z.toNat = 1 := by
  subst flat
  cases index with
  | succ index =>
      rw [stacked.lattice_below bounds inside]
      rfl
  | zero =>
      rcases stacked.lattice_top bounds with
        ⟨extent, cell, shared, -, -, -, same⟩
      rw [same]
      have one : (0 : Nat) < (1 : UInt32).toNat := by decide
      have bounds := topCells_bounds config cell shared extent.z one
      exact Nat.le_antisymm bounds.2 bounds.1

theorem divides {index : Nat} (inside : index + 1 < levels.length) :
    ((plan levels bounds dimension config).level (index + 1)).cellSize ∣
      ((plan levels bounds dimension config).level index).cellSize := by
  rw [stacked.cellSize_eq bounds inside]
  split
  · next last =>
      have finest := stacked.nested.getD_last
      rw [List.length_map, ← last, ← cellSize_level levels bounds]
        at finest
      rw [show index + 1 = index + 2 - 1 from rfl, finest]
      exact Nat.one_dvd _
  · exact Nat.dvd_mul_right _ _

/-- A block owns a cell of the next coarser level. -/
theorem blockExtent_eq (accepted : config.Accepted) {index : Nat}
    (inside : index + 1 < levels.length) :
    (plan levels bounds dimension config).blockExtent (index + 1) =
      (plan levels bounds dimension config).cellExtent
        ((plan levels bounds dimension config).level index).cellSize := by
  rw [stacked.cellSize_eq bounds inside, LevelPlan.blockExtent,
    stacked.lattice_below bounds inside]
  show (if index + 2 = levels.length then _ else _) = _
  split
  · exact toNat_ownedCells_blockLattice accepted
  · exact blockLattice_mul_cellExtent _

theorem shared (accepted : config.Accepted)
    (overlapping : config.overlapEdgeSamples = true) :
    let lattice := ((plan levels bounds dimension config).level
      (levels.length - 1)).lattice
    2 ≤ lattice.x.toNat ∧ 2 ≤ lattice.y.toNat ∧
      (dimension = .solid → 2 ≤ lattice.z.toNat) := by
  have several : 2 ≤ config.latticeSize.toNat := accepted.several
  have nonempty := stacked.nonempty
  by_cases single : levels.length = 1
  · rcases stacked.lattice_top bounds with
      ⟨extent, cell, shared, ⟨coveredX, coveredY, coveredZ⟩, positive, overlaps,
        same⟩
    rw [single, same, overlaps single overlapping]
    refine ⟨?_, ?_, ?_⟩
    · exact two_le_topCells accepted coveredX positive (by cases dimension <;> exact several)
    · exact two_le_topCells accepted coveredY positive (by cases dimension <;> exact several)
    · rintro rfl
      exact two_le_topCells accepted coveredZ positive several
  · have last : levels.length - 1 = levels.length - 2 + 1 := by omega
    simp only [last, stacked.lattice_below bounds (show levels.length - 2 + 1 <
      levels.length by omega)]
    cases dimension with
    | planar => exact ⟨several, several, nofun⟩
    | solid => exact ⟨several, several, fun _ => several⟩

end Stacked

/-- The levels of accepted settings and bounds fit together. -/
theorem fits_plan {axes : Nat} (checked : checkDimension axes = .ok dimension)
    (computed : levelSizes bounds axes config = .ok levels) :
    (plan levels bounds dimension config).Fits := by
  rcases stacked_of_levelSizes checked computed with ⟨accepted, stacked⟩
  constructor
  · exact stacked.nonempty
  · intro index inside
    exact stacked.admitted bounds accepted inside
  · intro flat index inside
    exact stacked.layer bounds (of_decide_eq_true flat) inside
  · intro index inside
    exact stacked.positive bounds accepted inside
  · intro index inside
    exact stacked.divides bounds inside
  · intro index inside
    exact stacked.blockExtent_eq bounds accepted inside
  · intro overlapping
    rcases stacked.shared bounds accepted overlapping with ⟨x, y, z⟩
    refine ⟨x, y, fun solid => z ?_⟩
    cases dimension with
    | planar => cases solid
    | solid => rfl

end Subdivision

end SolidField
