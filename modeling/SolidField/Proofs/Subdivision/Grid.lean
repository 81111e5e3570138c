import SolidField.Proofs.Device.Packing
import SolidField.Proofs.Subdivision.Levels

/-!
# The cells of a block

A packed index and a position in a lattice determine each other.  The cells of a
block therefore tile the box of the block: every cell of the finest level in the
box is in exactly one of them.
-/

namespace SolidField

/-! ## Admitted lattices -/

namespace GridVector

variable {dims : GridVector}

theorem Admitted.plane_le (admitted : dims.Admitted) :
    dims.x.toNat * dims.y.toNat ≤ maxLatticeSize * maxLatticeSize :=
  Nat.mul_le_mul admitted.x.2 admitted.y.2

theorem Admitted.cells_le (admitted : dims.Admitted) :
    dims.cells ≤ maxLatticeCells :=
  Nat.mul_le_mul admitted.plane_le admitted.z.2

theorem Admitted.cells_pos (admitted : dims.Admitted) : 0 < dims.cells :=
  Nat.mul_pos (Nat.mul_pos admitted.x.1 admitted.y.1) admitted.z.1

theorem Admitted.cells_lt (admitted : dims.Admitted) : dims.cells < UInt32.size :=
  Nat.lt_of_le_of_lt admitted.cells_le (by decide)

/-- The cells of an admitted lattice are counted without overflow. -/
theorem Admitted.toNat_cellWord (admitted : dims.Admitted) :
    dims.cellWord.toNat = dims.cells := by
  rw [GridVector.toNat_cellWord,
    Nat.mod_eq_of_lt (Nat.lt_trans admitted.cells_lt (by decide))]

/-- In an admitted lattice no word of the packing overflows. -/
theorem Admitted.unpackIndex? (admitted : dims.Admitted) {index : Nat}
    (inside : index < dims.cells) :
    ∃ cell, unpackIndex? (.ofNat index) dims = some cell ∧
      cell.toNat = ⟨index % dims.x.toNat,
        index % (dims.x.toNat * dims.y.toNat) / dims.x.toNat,
        index / (dims.x.toNat * dims.y.toNat)⟩ :=
  exists_unpackIndex? admitted.cells_pos admitted.cells_lt inside

end GridVector

/-! ## Boxes -/

/-- An interval of equal parts contains what exactly one of the parts contains. -/
theorem mem_part_iff {first count edge coordinate part : Nat} (inside : part < count) :
    (first + part * edge ≤ coordinate ∧ coordinate < first + part * edge + edge) ↔
      (first ≤ coordinate ∧ coordinate < first + count * edge) ∧
        (coordinate - first) / edge = part := by
  have last : (part + 1) * edge ≤ count * edge := Nat.mul_le_mul_right _ inside
  rw [Nat.succ_mul] at last
  constructor
  · rintro ⟨lower, upper⟩
    refine ⟨⟨by omega, by omega⟩, ?_⟩
    exact Nat.div_eq_of_lt_le (by omega) (by rw [Nat.succ_mul]; omega)
  · rintro ⟨⟨lower, upper⟩, rfl⟩
    have positive : 0 < edge := by
      rcases Nat.eq_zero_or_pos edge with rfl | positive
      · omega
      · exact positive
    have start := Nat.div_mul_le_self (coordinate - first) edge
    have stop := Nat.lt_div_mul_add (a := coordinate - first) positive
    exact ⟨by omega, by omega⟩

theorem part_lt {first count edge coordinate : Nat}
    (inside : first ≤ coordinate ∧ coordinate < first + count * edge) :
    (coordinate - first) / edge < count := by
  apply Nat.div_lt_of_lt_mul
  rw [Nat.mul_comm]
  omega

namespace GridBox

/-- The box of parts of a given size. -/
def ofParts (corner dims edge : Vec3 Nat) : GridBox :=
  ⟨corner, ⟨dims.x * edge.x, dims.y * edge.y, dims.z * edge.z⟩⟩

/-- One of the parts of a box. -/
def part (corner dims edge : Vec3 Nat) (index : Nat) : GridBox where
  corner :=
    ⟨corner.x + index % dims.x * edge.x,
      corner.y + index % (dims.x * dims.y) / dims.x * edge.y,
      corner.z + index / (dims.x * dims.y) * edge.z⟩
  size := edge

/-- The index of the part that a cell is in. -/
def partIndex (corner dims edge cell : Vec3 Nat) : Nat :=
  packIndex ⟨(cell.x - corner.x) / edge.x, (cell.y - corner.y) / edge.y,
    (cell.z - corner.z) / edge.z⟩ dims

variable {corner dims edge cell : Vec3 Nat} {index : Nat}

theorem partPosition_inGrid (inside : (ofParts corner dims edge).Contains cell) :
    InGrid ⟨(cell.x - corner.x) / edge.x, (cell.y - corner.y) / edge.y,
      (cell.z - corner.z) / edge.z⟩ dims :=
  ⟨part_lt inside.x, part_lt inside.y, part_lt inside.z⟩

/-- A cell of a box is in the part of its index, and in no other one. -/
theorem part_contains_iff (inside : index < dims.x * dims.y * dims.z) :
    (part corner dims edge index).Contains cell ↔
      (ofParts corner dims edge).Contains cell ∧
        partIndex corner dims edge cell = index := by
  rcases inGrid_indexPosition inside with ⟨insideX, insideY, insideZ⟩
  constructor
  · rintro ⟨x, y, z⟩
    rcases (mem_part_iff insideX).mp x with ⟨x, partX⟩
    rcases (mem_part_iff insideY).mp y with ⟨y, partY⟩
    rcases (mem_part_iff insideZ).mp z with ⟨z, partZ⟩
    refine ⟨⟨x, y, z⟩, ?_⟩
    rw [partIndex, partX, partY, partZ]
    exact packIndex_indexPosition index dims
  · rintro ⟨⟨x, y, z⟩, rfl⟩
    have place := (partPosition_inGrid ⟨x, y, z⟩).indexPosition_packIndex
    rw [indexPosition, Vec3.mk.injEq] at place
    rcases place with ⟨partX, partY, partZ⟩
    exact ⟨(mem_part_iff insideX).mpr ⟨x, partX.symm⟩,
      (mem_part_iff insideY).mpr ⟨y, partY.symm⟩,
      (mem_part_iff insideZ).mpr ⟨z, partZ.symm⟩⟩

/-- A cell of a box is in one of its parts. -/
theorem partIndex_lt (inside : (ofParts corner dims edge).Contains cell) :
    partIndex corner dims edge cell < dims.x * dims.y * dims.z :=
  (partPosition_inGrid inside).packIndex_lt

/-- The parts of a box tile it. -/
theorem covers_parts (cell : Vec3 Nat) :
    covers ((List.range (dims.x * dims.y * dims.z)).map (part corner dims edge))
        cell =
      if (ofParts corner dims edge).Contains cell then 1 else 0 := by
  have parts : ∀ index ∈ List.range (dims.x * dims.y * dims.z),
      decide ((part corner dims edge index).Contains cell) = true ↔
        decide ((ofParts corner dims edge).Contains cell ∧
          partIndex corner dims edge cell = index) = true := by
    intro index member
    rw [decide_eq_true_iff, decide_eq_true_iff,
      part_contains_iff (List.mem_range.mp member)]
  rw [covers, List.countP_map]
  show List.countP (fun index => decide ((part corner dims edge index).Contains cell))
    _ = _
  rw [List.countP_congr parts]
  by_cases inside : (ofParts corner dims edge).Contains cell
  · have once := @List.count_range (partIndex corner dims edge cell)
      (dims.x * dims.y * dims.z)
    rw [if_pos (partIndex_lt inside)] at once
    simp only [inside, true_and, if_true, ← once, List.count]
    apply List.countP_congr
    intro index _
    rw [decide_eq_true_iff, beq_iff_eq]
    exact eq_comm
  · simp [inside]

end GridBox

end SolidField
