import SolidField.Proofs.Device.Packing

/-!
# The reports of a device

A report lists the cells that the surface may cross and, if it is to record them, all
other cells, each list in the order of the packing.  An index in a report leads to
the cell at whose centre the distance was sampled.
-/

namespace SolidField

namespace CellReport

variable {query : CellQuery}

/-- The cells that the surface may cross are listed in their order. -/
theorem intersecting_ofDistances (distances : List Single) :
    (ofDistances query distances).intersecting =
      (distances.zipIdx.filter fun cell => query.intersects cell.1).map
        fun cell => UInt32.ofNat cell.2 := by
  have folded : ∀ (cells : List (Single × Nat)) (report : CellReport),
      (cells.foldl (add query (.ofQuery query)) report).intersecting =
        ((cells.filter fun cell => query.intersects cell.1).map
          fun cell => UInt32.ofNat cell.2).reverse ++ report.intersecting := by
    intro cells
    induction cells with
    | nil =>
        intro report
        rfl
    | cons cell cells induction =>
        intro report
        rw [List.foldl_cons, induction]
        by_cases crossed : query.intersects cell.1 = true
        · simp [add, crossed]
        · simp [add, crossed]
  simp [ofDistances, folded, empty]

/-- All other cells are listed in their order, if they are to be recorded. -/
theorem uniform_ofDistances (distances : List Single) :
    (ofDistances query distances).uniform =
      if query.recordUniform then
        (distances.zipIdx.filter fun cell => !query.intersects cell.1).map
          fun cell => (UInt32.ofNat cell.2, cell.1.less 0)
      else [] := by
  have folded : ∀ (cells : List (Single × Nat)) (report : CellReport),
      (cells.foldl (add query (.ofQuery query)) report).uniform =
        (if query.recordUniform then
          (cells.filter fun cell => !query.intersects cell.1).map
            fun cell => (UInt32.ofNat cell.2, cell.1.less 0)
        else []).reverse ++ report.uniform := by
    intro cells
    induction cells with
    | nil =>
        intro report
        simp
    | cons cell cells induction =>
        intro report
        rw [List.foldl_cons, induction]
        by_cases crossed : query.intersects cell.1 = true
        · simp [add, crossed]
        · cases recorded : query.recordUniform <;> simp [add, crossed, recorded]
  rw [ofDistances]
  simp [folded, empty]

/-! ## Cells that are numbered in order -/

theorem zipIdx_map_range (distance : Nat → Single) (count : Nat) :
    ((List.range count).map distance).zipIdx =
      (List.range count).map fun index => (distance index, index) :=
  List.ext_getElem (by simp) (by simp)

theorem intersecting_map_range (distance : Nat → Single) (count : Nat) :
    (ofDistances query ((List.range count).map distance)).intersecting =
      ((List.range count).filter fun index =>
        query.intersects (distance index)).map UInt32.ofNat := by
  rw [intersecting_ofDistances, zipIdx_map_range, List.filter_map, List.map_map]
  rfl

theorem uniform_map_range (distance : Nat → Single) (count : Nat) :
    (ofDistances query ((List.range count).map distance)).uniform =
      if query.recordUniform then
        ((List.range count).filter fun index =>
          !query.intersects (distance index)).map
            fun index => (UInt32.ofNat index, (distance index).less 0)
      else [] := by
  rw [uniform_ofDistances, zipIdx_map_range, List.filter_map, List.map_map]
  rfl

theorem uniform_fst_map_range (distance : Nat → Single) (count : Nat) :
    (ofDistances query ((List.range count).map distance)).uniform.map Prod.fst =
      if query.recordUniform then
        ((List.range count).filter fun index =>
          !query.intersects (distance index)).map UInt32.ofNat
      else [] := by
  rw [uniform_map_range]
  cases query.recordUniform with
  | false => rfl
  | true =>
      rw [if_pos rfl, if_pos rfl, List.map_map]
      rfl

/-- The words of some of the cells are in the order of the cells. -/
theorem pairwise_map_ofNat {count : Nat} (few : count < UInt32.size)
    (property : Nat → Bool) :
    (((List.range count).filter property).map UInt32.ofNat).Pairwise (· < ·) := by
  rw [List.pairwise_map]
  have word : ∀ index ∈ (List.range count).filter property,
      (UInt32.ofNat index).toNat = index := by
    intro index member
    have inside := List.mem_range.mp (List.mem_filter.mp member).1
    exact UInt32.toNat_ofNat_of_lt' (Nat.lt_trans inside few)
  refine (List.pairwise_lt_range.filter property).imp_of_mem ?_
  intro first second left right less
  rw [UInt32.lt_iff_toNat_lt, word first left, word second right]
  exact less

end CellReport

namespace CellQuery

/-- Where the distance of a cell is sampled. -/
def samplePosition (query : CellQuery) (position : GridVector) : Vec3 Single :=
  latticePoint query.firstCentre query.step position.toNat

/--
A report on a query names cells by indices that lead back to them: those with a
distance near zero, and the others with their side of the surface.
-/
structure Describes (query : CellQuery) (distance : Vec3 Single → Single)
    (report : CellReport) : Prop where
  intersecting : ∀ index, index ∈ report.intersecting ↔
    ∃ position, unpackIndex? index query.dims = some position ∧
      InGrid position.toNat query.dims.toNat ∧
      query.intersects (distance (query.samplePosition position)) = true
  uniform : ∀ index inside, (index, inside) ∈ report.uniform ↔
    query.recordUniform = true ∧
      ∃ position, unpackIndex? index query.dims = some position ∧
        InGrid position.toNat query.dims.toNat ∧
        query.intersects (distance (query.samplePosition position)) = false ∧
        inside = (distance (query.samplePosition position)).less 0
  intersecting_increasing : report.intersecting.Pairwise (· < ·)
  uniform_increasing : (report.uniform.map Prod.fst).Pairwise (· < ·)
  /-- Every cell is in one of the lists once if all are recorded. -/
  once : query.recordUniform = true →
    (report.intersecting ++ report.uniform.map Prod.fst).Perm
      ((List.range query.dims.cells).map UInt32.ofNat)

variable {query : CellQuery}

/-- An index and the position that it is unpacked to are sampled at one point. -/
theorem samples_iff (positive : 0 < query.dims.cells)
    (few : query.dims.cells < UInt32.size) (property : Vec3 Single → Prop)
    (index : UInt32) :
    (∃ position, unpackIndex? index query.dims = some position ∧
        InGrid position.toNat query.dims.toNat ∧
        property (query.samplePosition position)) ↔
      ∃ place < query.dims.cells, UInt32.ofNat place = index ∧
        property (latticePoint query.firstCentre query.step
          (indexPosition place query.dims.toNat)) := by
  constructor
  · rintro ⟨position, unpacked, inside, holds⟩
    have same := (GridVector.unpackIndex?_eq_some_iff positive few).mp unpacked
    have packed : packIndex position.toNat query.dims.toNat = index.toNat := by
      rw [same, packIndex_indexPosition]
    refine ⟨index.toNat, packed ▸ inside.packIndex_lt, UInt32.ofNat_toNat, ?_⟩
    rwa [← same]
  · rintro ⟨place, inside, rfl, holds⟩
    rcases GridVector.exists_unpackIndex? positive few inside with
      ⟨position, unpacked, same⟩
    rw [← same] at holds
    exact ⟨position, unpacked, same ▸ inGrid_indexPosition inside, holds⟩

/-- The report of the distances of all cells names each by its packed index. -/
theorem describes_ofDistances (positive : 0 < query.dims.cells)
    (few : query.dims.cells < UInt32.size) (distance : Vec3 Single → Single) :
    query.Describes distance (.ofDistances query
      ((List.range query.dims.cells).map fun index => distance
        (latticePoint query.firstCentre query.step
          (indexPosition index query.dims.toNat)))) where
  intersecting index := by
    rw [CellReport.intersecting_map_range]
    simp only [List.mem_map, List.mem_filter, List.mem_range]
    rw [samples_iff positive few fun sample => query.intersects (distance sample) = true]
    constructor
    · rintro ⟨place, ⟨inside, crossed⟩, same⟩
      exact ⟨place, inside, same, crossed⟩
    · rintro ⟨place, inside, same, crossed⟩
      exact ⟨place, ⟨inside, crossed⟩, same⟩
  uniform index inside := by
    rw [CellReport.uniform_map_range,
      samples_iff positive few fun sample => query.intersects (distance sample) = false ∧
        inside = (distance sample).less 0]
    cases query.recordUniform with
    | false => simp
    | true =>
        simp only [if_pos, List.mem_map, List.mem_filter, List.mem_range,
          Bool.not_eq_true', Prod.mk.injEq, true_and]
        constructor
        · rintro ⟨place, ⟨cell, clear⟩, same, side⟩
          exact ⟨place, cell, same, clear, side.symm⟩
        · rintro ⟨place, cell, same, clear, side⟩
          exact ⟨place, ⟨cell, clear⟩, same, side.symm⟩
  intersecting_increasing := by
    rw [CellReport.intersecting_map_range]
    exact CellReport.pairwise_map_ofNat few _
  uniform_increasing := by
    rw [CellReport.uniform_fst_map_range]
    split
    · exact CellReport.pairwise_map_ofNat few _
    · exact .nil
  once recorded := by
    rw [CellReport.intersecting_map_range, CellReport.uniform_fst_map_range,
      if_pos recorded, ← List.map_append]
    exact (List.filter_append_perm _ _).map _

end CellQuery

end SolidField
