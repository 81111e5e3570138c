import SolidField.Proofs.Subdivision.Words

/-!
# Accepted settings have a level hierarchy

For accepted settings and every extent that can be counted the cell sizes grow
until a block reaches the extent, long before a product leaves the words.  The
top level is then as large as the extent needs: rounding up and sharing a row of
samples never lead beyond the lattice of a block.
-/

namespace SolidField

/-! ## The extent -/

section Plane

open Float.Model Float.Model.UnpackedFloat

theorem ceiling?_pack_zero (sign : Sign) :
    ceiling? ⟨Float.Model.pack (.zero sign)⟩ = some 0 := by
  cases sign <;> decide +kernel

theorem ceiling?_pack_notANumber :
    ceiling? ⟨Float.Model.pack .notANumber⟩ = none := by
  decide +kernel

/-- A length of zero has no cells, however fine they are. -/
theorem eq_zero_of_ceiling?_zero_div {x : Float} {cells : Nat}
    (counted : ceiling? (0 / x) = some cells) : cells = 0 := by
  have quotient : (0 / x : Float) =
      ⟨Float.Model.pack
        (UnpackedFloat.div Format.binary64 (.zero .positive) x.toModel.unpack)⟩ := rfl
  rw [quotient] at counted
  cases unpacked : x.toModel.unpack with
  | notANumber =>
      rw [unpacked] at counted
      cases ceiling?_pack_notANumber.symm.trans counted
  | zero sign =>
      rw [unpacked] at counted
      cases ceiling?_pack_notANumber.symm.trans counted
  | infinity sign =>
      rw [unpacked] at counted
      cases (ceiling?_pack_zero _).symm.trans counted
      rfl
  | finite sign mantissa exponent positive =>
      rw [unpacked] at counted
      cases (ceiling?_pack_zero _).symm.trans counted
      rfl

end Plane

theorem le_largestExtent (extent : Vec3 Nat) :
    extent.x ≤ largestExtent extent ∧ extent.y ≤ largestExtent extent ∧
      extent.z ≤ largestExtent extent := by
  rw [largestExtent]
  omega

theorem CountedExtent.largest {extent : Vec3 Nat} {dimension : Dimension}
    (counted : CountedExtent extent dimension) :
    0 < largestExtent extent ∧ largestExtent extent < maxGridExtent := by
  have onX := counted.x
  have onY := counted.y
  have onZ := counted.z
  rw [largestExtent]
  omega

theorem countedExtent_of_gridExtent {bounds : Aabb Single} {resolution : Single}
    {dimension : Dimension} {extent : Vec3 Nat}
    (counted : gridExtent bounds resolution dimension = .ok extent) :
    CountedExtent extent dimension := by
  simp only [gridExtent] at counted
  split at counted
  · cases counted
  · split at counted
    · next x y z foundX foundY foundZ =>
        cases counted
        refine ⟨cellsAlong?_bounds foundX, cellsAlong?_bounds foundY,
          cellsAlong?_bounds foundZ, ?_⟩
        rintro rfl
        have flat : ((0 : Single) - 0).toFloat = 0 := by decide +kernel
        change cellsAlong? (0 - 0) resolution = some z at foundZ
        simp only [cellsAlong?, flat] at foundZ
        split at foundZ
        · next cells ceiled =>
            cases eq_zero_of_ceiling?_zero_div ceiled
            split at foundZ
            · cases foundZ
              rfl
            · cases foundZ
        · cases foundZ
    · cases counted

/-! ## Cell sizes -/

/-- Cell sizes whose top block just reaches an extent. -/
structure Reaches (lattice extent top : Nat) (finer : List Nat) : Prop where
  /-- The cells of the top level, if it is not the only one, are too small alone. -/
  below : ∀ size ∈ top :: finer, size < extent
  covers : extent ≤ top * lattice

/-- Climbing ends, and no product on the way leaves the words. -/
theorem exists_climb {lattice extent cell : Nat} {finer : List Nat}
    (several : 1 < lattice) (few : lattice ≤ maxLatticeSize)
    (small : extent < maxGridExtent) (positive : 0 < cell)
    (below : ∀ size ∈ cell :: finer, size < extent) (nonempty : finer ≠ []) :
    ∃ top rest, climb lattice extent cell finer = some (top :: rest) ∧
      rest ≠ [] ∧ Reaches lattice extent top rest := by
  have inside : cell < extent := below cell (List.mem_cons_self ..)
  have fits : cell * lattice < UInt64.size := by
    have grown : cell * lattice ≤ maxGridExtent * maxLatticeSize :=
      Nat.mul_le_mul (Nat.le_of_lt (Nat.lt_trans inside small)) few
    exact Nat.lt_of_le_of_lt grown (by decide)
  have grows : cell < cell * lattice := by
    rw [← Nat.mul_one cell, Nat.mul_assoc, Nat.one_mul]
    exact Nat.mul_lt_mul_of_pos_left several positive
  rw [climb, if_neg (Nat.not_le.mpr fits)]
  by_cases reached : extent ≤ cell * lattice
  · rw [if_pos reached]
    exact ⟨cell, finer, rfl, nonempty, below, reached⟩
  · rw [if_neg reached, if_pos grows]
    refine exists_climb several few small (Nat.lt_trans positive grows) ?_
      (List.cons_ne_nil _ _)
    rw [List.forall_mem_cons]
    exact ⟨Nat.lt_of_not_le reached, below⟩
termination_by extent - cell

/-- There are cell sizes for every extent that can be counted. -/
theorem exists_cellSizes {lattice overlap extent : Nat} (several : 1 < lattice)
    (few : lattice ≤ maxLatticeSize) (overlaps : overlap ≤ 1) (positive : 0 < extent)
    (small : extent < maxGridExtent) :
    ∃ top finer, cellSizes lattice overlap extent = some (top :: finer) ∧
      (finer = [] ∧ top = 1 ∧ extent ≤ lattice - overlap ∨
        finer ≠ [] ∧ Reaches lattice extent top finer) := by
  rw [cellSizes]
  by_cases single : extent ≤ lattice - overlap
  · exact ⟨1, [], if_pos single, Or.inl ⟨rfl, rfl, single⟩⟩
  · have below : ∀ size ∈ [lattice - overlap, 1], size < extent := by
      simp only [List.forall_mem_cons, List.not_mem_nil, false_implies, implies_true,
        and_true]
      omega
    rcases exists_climb several few small (by omega) below (List.cons_ne_nil _ _) with
      ⟨top, finer, climbed, nonempty, reaches⟩
    exact ⟨top, finer, (if_neg single).trans climbed, Or.inr ⟨nonempty, reaches⟩⟩

namespace Nested

variable {lattice leaf : Nat} {sizes : List Nat}

theorem getLast_eq (nested : Nested lattice leaf sizes) (nonempty : sizes ≠ []) :
    sizes.getLast nonempty = 1 := by
  induction nested with
  | finest => rfl
  | leaf => rfl
  | coarser nested induction => exact induction (List.cons_ne_nil _ _)

/-- Neighbouring cell sizes: the coarser one is a block of the finer one. -/
theorem eq_mul (nested : Nested lattice leaf sizes) {index coarse fine : Nat}
    (found : sizes[index]? = some coarse) (next : sizes[index + 1]? = some fine) :
    coarse = fine * if index + 2 = sizes.length then leaf else lattice := by
  induction nested generalizing index with
  | finest => cases next
  | leaf =>
      cases index with
      | zero =>
          cases found
          cases next
          exact (Nat.one_mul leaf).symm
      | succ index => cases next
  | coarser nested induction =>
      cases index with
      | zero =>
          cases found
          cases next
          rw [if_neg (by simp)]
      | succ index => simpa using induction found next

end Nested

/-! ## The top level -/

/-- The lattice of a block is a multiple of what the top lattice is rounded to. -/
theorem multiplier_dvd_of_validate {config : SubdivisionConfig}
    (validated : config.validate = .ok ()) :
    config.levelSizeMultiplier.toNat ∣ config.latticeSize.toNat := by
  apply Decidable.byContradiction
  intro indivisible
  have refused : config.levelSizeMultiplier = 0 ∨
      config.latticeSize % config.levelSizeMultiplier ≠ 0 := by
    right
    intro zero
    apply indivisible
    apply Nat.dvd_of_mod_eq_zero
    rw [← UInt32.toNat_mod, zero]
    rfl
  simp only [SubdivisionConfig.validate, SubdivisionConfig.violation?,
    if_pos refused] at validated
  split at validated
  · cases validated
  · next clear => (repeat' split at clear) <;> cases clear

theorem toNat_topCells_of_le {config : SubdivisionConfig} (accepted : config.Accepted)
    (divides : config.levelSizeMultiplier.toNat ∣ config.latticeSize.toNat)
    {cell shared axis : Nat} (counted : 0 < axis) (positive : 0 < cell)
    (fits : coverCount axis cell + shared ≤ config.latticeSize.toNat) :
    (topCells config cell shared axis config.latticeSize).toNat =
      roundUp (coverCount axis cell + shared) config.levelSizeMultiplier.toNat := by
  have cover : 0 < coverCount axis cell := Nat.div_pos (by omega) positive
  have atLeast := le_roundUp (coverCount axis cell + shared) accepted.multiplier
  have atMost := roundUp_le accepted.multiplier divides fits
  rw [toNat_topCells]
  omega

theorem admitsTop_and_covers {config : SubdivisionConfig} (accepted : config.Accepted)
    (divides : config.levelSizeMultiplier.toNat ∣ config.latticeSize.toNat)
    {cell axis : Nat} {finest : Bool} (counted : 0 < axis) (positive : 0 < cell)
    (fits : coverCount axis cell + config.sharedRows finest ≤
      config.latticeSize.toNat) :
    let samples := topCells config cell (config.sharedRows finest) axis
      config.latticeSize
    config.AdmitsTop samples ∧
      axis ≤ (if finest then LeafBlock.ownedCount config.overlapEdgeSamples samples
        else samples).toNat * cell := by
  intro samples
  have same : samples.toNat = roundUp (coverCount axis cell + config.sharedRows finest)
      config.levelSizeMultiplier.toNat :=
    toNat_topCells_of_le accepted divides counted positive fits
  refine ⟨⟨?_, ?_⟩, ?_⟩
  · rw [same]
    exact Nat.dvd_mul_left _ _
  · rw [same]
    exact roundUp_le accepted.multiplier divides fits
  · have atLeast := le_roundUp (coverCount axis cell + config.sharedRows finest)
      accepted.multiplier
    have owned := config.sub_sharedRows_le finest samples
    calc
      axis ≤ coverCount axis cell * cell := le_roundUp axis positive
      _ ≤ _ := Nat.mul_le_mul_right cell (by omega)

/-- What cell sizes leave to the top level, the first of them. -/
structure TopFits (config : SubdivisionConfig) (extent : Vec3 Nat) (cell : Nat)
    (cells : List Nat) : Prop where
  nested : Nested config.latticeSize.toNat
    (config.latticeSize.toNat - if config.overlapEdgeSamples then 1 else 0)
    (cell :: cells)
  counted : ∀ size ∈ cell :: cells, 0 < size ∧ size ≤ maxGridExtent
  cover : ∀ axis ≤ largestExtent extent,
    coverCount axis cell + config.sharedRows cells.isEmpty ≤
      config.latticeSize.toNat
  minimal : cells ≠ [] → cell < largestExtent extent

/-- The top level of an extent. -/
def topLevel (config : SubdivisionConfig) (dimension : Dimension)
    (extent : Vec3 Nat) (cell : Nat) (finest : Bool) : LevelSize :=
  let block := blockLattice config.latticeSize dimension
  let axis := topCells config cell (config.sharedRows finest)
  ⟨cell, ⟨axis extent.x block.x, axis extent.y block.y, axis extent.z block.z⟩⟩

/-- The levels below the top level. -/
def lowerLevels (config : SubdivisionConfig) (dimension : Dimension)
    (cells : List Nat) : List LevelSize :=
  cells.map fun cell => ⟨cell, blockLattice config.latticeSize dimension⟩

section TopLevel

variable {config : SubdivisionConfig} {extent : Vec3 Nat} {dimension : Dimension}
  {cell : Nat} {cells : List Nat}

theorem exists_levelsOfExtent (accepted : config.Accepted)
    (counted : CountedExtent extent dimension) :
    ∃ cell cells, TopFits config extent cell cells ∧
      levelsOfExtent extent dimension config =
        .ok (topLevel config dimension extent cell cells.isEmpty ::
          lowerLevels config dimension cells) := by
  rcases counted.largest with ⟨positive, small⟩
  have several := accepted.several
  have overlaps : (if config.overlapEdgeSamples then 1 else 0) ≤ 1 := by
    split <;> decide
  rcases exists_cellSizes several accepted.few overlaps positive small with
    ⟨cell, cells, computed, shape⟩
  have nested := Nested.of_cellSizes computed
  have sizes := nested.positive (by omega) (by omega)
  refine ⟨cell, cells, ?_, ?_⟩
  · rcases shape with ⟨rfl, rfl, single⟩ | ⟨nonempty, reaches⟩
    · refine ⟨nested, ?_, ?_, nofun⟩
      · simp only [List.mem_singleton, forall_eq]
        decide
      · intro axis atMost
        have cover := coverCount_le_self axis Nat.one_pos
        rw [config.sharedRows_eq]
        simp only [List.isEmpty_nil, if_true]
        omega
    · refine ⟨nested, ?_, ?_, fun _ => reaches.below cell (List.mem_cons_self ..)⟩
      · intro size member
        exact ⟨sizes size member,
          Nat.le_of_lt (Nat.lt_trans (reaches.below size member) small)⟩
      · intro axis atMost
        rw [config.sharedRows_eq, if_neg (mt List.isEmpty_iff.mp nonempty)]
        exact coverCount_le (sizes cell (List.mem_cons_self ..))
          (Nat.le_trans atMost reaches.covers)
  · simp only [levelsOfExtent, computed, topLevel, config.sharedRows_eq]
    rfl

/-- In the plane the top level has one layer. -/
theorem z_topLevel_planar (finest : Bool) :
    (topLevel config .planar extent cell finest).lattice.z = 1 := by
  have bounds := topCells_bounds config cell (config.sharedRows finest) extent.z
    (show 0 < (1 : UInt32).toNat by decide)
  exact UInt32.toNat_inj.mp (Nat.le_antisymm bounds.2 bounds.1)

theorem map_cellSize_levels (finest : Bool) :
    (topLevel config dimension extent cell finest ::
        lowerLevels config dimension cells).map LevelSize.cellSize =
      cell :: cells := by
  simp [topLevel, lowerLevels, Function.comp_def]

theorem isEmpty_lowerLevels :
    (lowerLevels config dimension cells).isEmpty = cells.isEmpty :=
  List.isEmpty_map

theorem ownedCells_eq (level : LevelSize) (config : SubdivisionConfig) (finest : Bool) :
    level.ownedCells config finest =
      GridVector.toNat (level.lattice.map fun samples =>
        if finest then LeafBlock.ownedCount config.overlapEdgeSamples samples
        else samples) := by
  rw [LevelSize.ownedCells]
  cases finest <;> rfl

namespace TopFits

variable (fits : TopFits config extent cell cells)

include fits

theorem positive : 0 < cell :=
  (fits.counted cell (List.mem_cons_self ..)).1

/-- A whole axis of the top level is within the limits and covers its extent. -/
theorem onAxis (accepted : config.Accepted)
    (divides : config.levelSizeMultiplier.toNat ∣ config.latticeSize.toNat)
    {axis : Nat} {limit : UInt32} (whole : limit = config.latticeSize)
    (counted : 0 < axis) (atMost : axis ≤ largestExtent extent) :
    let samples := topCells config cell (config.sharedRows cells.isEmpty) axis limit
    config.AdmitsTop samples ∧
      axis ≤ (if cells.isEmpty then
        LeafBlock.ownedCount config.overlapEdgeSamples samples
        else samples).toNat * cell := by
  subst whole
  exact admitsTop_and_covers accepted divides counted fits.positive
    (fits.cover axis atMost)

/-- The one layer of a plane covers it. -/
theorem layer_covers (counted : CountedExtent extent .planar) :
    extent.z ≤ ((topLevel config .planar extent cell cells.isEmpty).ownedCells config
      cells.isEmpty).z * cell := by
  rw [counted.layer rfl, ownedCells_eq]
  show 1 ≤ (if cells.isEmpty then LeafBlock.ownedCount config.overlapEdgeSamples
    (topLevel config .planar extent cell cells.isEmpty).lattice.z
    else (topLevel config .planar extent cell cells.isEmpty).lattice.z).toNat * cell
  rw [z_topLevel_planar]
  have layer : 1 ≤ (if cells.isEmpty then
      LeafBlock.ownedCount config.overlapEdgeSamples 1 else 1).toNat := by
    cases cells.isEmpty <;> cases config.overlapEdgeSamples <;> decide
  exact Nat.mul_le_mul layer fits.positive

/-- A cell is what one block of the next level owns. -/
theorem cellSize_eq {index : Nat}
    {coarse fine : LevelSize}
    (found : (topLevel config dimension extent cell cells.isEmpty ::
      lowerLevels config dimension cells)[index]? = some coarse)
    (next : (lowerLevels config dimension cells)[index]? = some fine) :
    coarse.cellSize = fine.cellSize *
      config.ownedCount (index + 1 = (lowerLevels config dimension cells).length) := by
  have coarseSize := congrArg (Option.map LevelSize.cellSize) found
  rw [← List.getElem?_map, map_cellSize_levels] at coarseSize
  rw [lowerLevels, List.getElem?_map, Option.map_eq_some_iff] at next
  rcases next with ⟨size, fineSize, rfl⟩
  rw [fits.nested.eq_mul coarseSize fineSize, config.ownedCount_eq]
  simp [lowerLevels]

/-- The top lattice is the same in words. -/
theorem topCellsWord_eq_topCells (accepted : config.Accepted)
    (counted : CountedExtent extent dimension) {length : Nat}
    (atMost : length ≤ largestExtent extent) (limit : UInt32) :
    topCellsWord config (.ofNat cell) (.ofNat (config.sharedRows cells.isEmpty))
        (.ofNat length) limit =
      topCells config cell (config.sharedRows cells.isEmpty) length limit :=
  topCellsWord_eq accepted limit fits.positive
    (fits.counted cell (List.mem_cons_self ..)).2
    (Nat.le_trans atMost (Nat.le_of_lt counted.largest.2)) (config.sharedRows_le _)

/-- The levels of an extent are a hierarchy. -/
theorem hierarchy (accepted : config.Accepted)
    (divides : config.levelSizeMultiplier.toNat ∣ config.latticeSize.toNat)
    (counted : CountedExtent extent dimension) :
    Hierarchy extent dimension config
      (topLevel config dimension extent cell cells.isEmpty)
      (lowerLevels config dimension cells) := by
  rcases le_largestExtent extent with ⟨atMostX, atMostY, atMostZ⟩
  have blockX : (blockLattice config.latticeSize dimension).x = config.latticeSize := by
    cases dimension <;> rfl
  have blockY : (blockLattice config.latticeSize dimension).y = config.latticeSize := by
    cases dimension <;> rfl
  rcases fits.onAxis accepted divides blockX counted.x.1 atMostX with
    ⟨admittedX, coversX⟩
  rcases fits.onAxis accepted divides blockY counted.y.1 atMostY with
    ⟨admittedY, coversY⟩
  constructor
  case finest =>
    rw [← List.getLast_map (f := LevelSize.cellSize) (by simp)]
    simp only [map_cellSize_levels]
    exact fits.nested.getLast_eq _
  case nested =>
    intro index coarse fine found next
    exact fits.cellSize_eq found next
  case below =>
    rw [lowerLevels, List.forall_mem_map]
    intro size member
    rfl
  case covers =>
    rw [isEmpty_lowerLevels]
    refine ⟨?_, ?_, ?_⟩
    · rw [ownedCells_eq]
      exact coversX
    · rw [ownedCells_eq]
      exact coversY
    · cases dimension with
      | planar => exact fits.layer_covers counted
      | solid =>
          rw [ownedCells_eq]
          exact (fits.onAxis accepted divides rfl counted.z.1 atMostZ).2
  case admitted =>
    refine ⟨admittedX, admittedY, ?_⟩
    cases dimension with
    | planar => exact z_topLevel_planar _
    | solid => exact (fits.onAxis accepted divides rfl counted.z.1 atMostZ).1
  case minimal =>
    intro nonempty
    exact fits.minimal (mt List.map_eq_nil_iff.mpr nonempty)
  case products =>
    intro index level found
    have size := congrArg (Option.map LevelSize.cellSize) found
    rw [← List.getElem?_map, map_cellSize_levels, Option.map_some] at size
    exact toNat_mul_ownedCountWord accepted
      (fits.counted _ (List.mem_of_getElem? size)).2 _
  case words =>
    rw [isEmpty_lowerLevels, config.sharedRowsWord_eq]
    simp only [topLevel, fits.topCellsWord_eq_topCells accepted counted atMostX,
      fits.topCellsWord_eq_topCells accepted counted atMostY,
      fits.topCellsWord_eq_topCells accepted counted atMostZ]

end TopFits

end TopLevel

/--
Accepted settings have a level hierarchy for every extent that can be counted,
and the machine words in which it is computed are exact.
-/
theorem exists_hierarchy {bounds : Aabb Single} {axes : Nat} {dimension : Dimension}
    {config : SubdivisionConfig} {extent : Vec3 Nat}
    (validated : config.validate = .ok ())
    (checked : checkDimension axes = .ok dimension)
    (counted : gridExtent bounds config.resolution dimension = .ok extent) :
    CountedExtent extent dimension ∧
      ∃ top finer, levelSizes bounds axes config = .ok (top :: finer) ∧
        Hierarchy extent dimension config top finer := by
  have accepted := SubdivisionConfig.accepted_of_validate validated
  have extents := countedExtent_of_gridExtent counted
  rcases exists_levelsOfExtent accepted extents with ⟨cell, cells, fits, computed⟩
  refine ⟨extents, _, _, ?_, fits.hierarchy accepted
    (multiplier_dvd_of_validate validated) extents⟩
  rw [levelSizes, validated, checked]
  change (gridExtent bounds config.resolution dimension >>= fun extent =>
    levelsOfExtent extent dimension config) = _
  rw [counted]
  exact computed

namespace Subdivision

/-- A cube with edges of thirty units. -/
def wideCube : Aabb Single :=
  .ofCenter 0 (.splat (.ofNat 15))

/-- Four samples on every axis of a block, at a distance of one. -/
def fourSamples : SubdivisionConfig :=
  { resolution := .one, latticeSize := 4 }

/-- Three cells of twelve units on every axis cover the cube. -/
theorem wideCube_hierarchy :
    levelSizes wideCube 3 fourSamples =
        .ok [⟨12, ⟨3, 3, 3⟩⟩, ⟨3, ⟨4, 4, 4⟩⟩, ⟨1, ⟨4, 4, 4⟩⟩] ∧
      CountedExtent ⟨31, 31, 31⟩ .solid ∧
      Hierarchy ⟨31, 31, 31⟩ .solid fourSamples ⟨12, ⟨3, 3, 3⟩⟩
        [⟨3, ⟨4, 4, 4⟩⟩, ⟨1, ⟨4, 4, 4⟩⟩] := by
  have validated : fourSamples.validate = .ok () :=
    eq_ok_of_toOption (by decide +kernel)
  have counted : gridExtent wideCube fourSamples.resolution .solid =
      .ok ⟨31, 31, 31⟩ :=
    eq_ok_of_toOption (by decide +kernel)
  have computed : levelSizes wideCube 3 fourSamples =
      .ok [⟨12, ⟨3, 3, 3⟩⟩, ⟨3, ⟨4, 4, 4⟩⟩, ⟨1, ⟨4, 4, 4⟩⟩] :=
    eq_ok_of_toOption (by decide +kernel)
  rcases exists_hierarchy validated (show checkDimension 3 = .ok .solid from rfl)
    counted with ⟨extents, top, finer, found, hierarchy⟩
  rw [computed, Except.ok.injEq, List.cons.injEq] at found
  rcases found with ⟨rfl, rfl⟩
  exact ⟨computed, extents, hierarchy⟩

end Subdivision

end SolidField
