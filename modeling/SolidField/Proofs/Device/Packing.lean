import SolidField.Subdivision.Region

/-!
# Packing

A packed index and a position in a grid determine each other.  An index is packed
and unpacked in words of 32 bits, and for a lattice with no more cells than a
submission can have no word on the way overflows.
-/

namespace SolidField

/-- A position in a grid. -/
structure InGrid (position dims : Vec3 Nat) : Prop where
  x : position.x < dims.x
  y : position.y < dims.y
  z : position.z < dims.z

/-- The position of a packed index. -/
def indexPosition (index : Nat) (dims : Vec3 Nat) : Vec3 Nat :=
  ⟨index % dims.x, index % (dims.x * dims.y) / dims.x, index / (dims.x * dims.y)⟩

/-- Packing undoes unpacking. -/
theorem packIndex_indexPosition (index : Nat) (dims : Vec3 Nat) :
    packIndex (indexPosition index dims) dims = index := by
  rw [packIndex, indexPosition, Nat.mod_mul_right_div_self,
    ← Nat.div_div_eq_div_mul, Nat.mod_add_div, Nat.mod_add_div]

/-- The index of a cell leads to a position in the grid. -/
theorem inGrid_indexPosition {index : Nat} {dims : Vec3 Nat}
    (inside : index < dims.x * dims.y * dims.z) :
    InGrid (indexPosition index dims) dims := by
  have positive : 0 < dims.x * dims.y * dims.z := by omega
  have plane : 0 < dims.x * dims.y := Nat.pos_of_mul_pos_right positive
  have row : 0 < dims.x := Nat.pos_of_mul_pos_right plane
  have column : 0 < dims.y := Nat.pos_of_mul_pos_left plane
  refine ⟨Nat.mod_lt _ row, ?_, ?_⟩
  · rw [indexPosition, Nat.mod_mul_right_div_self]
    exact Nat.mod_lt _ column
  · rwa [indexPosition, Nat.div_lt_iff_lt_mul plane, Nat.mul_comm]

namespace InGrid

variable {position dims : Vec3 Nat}

/-- Unpacking undoes packing. -/
theorem indexPosition_packIndex (inside : InGrid position dims) :
    indexPosition (packIndex position dims) dims = position := by
  have first : packIndex position dims / dims.x =
      position.y + dims.y * position.z := by
    rw [packIndex, Nat.add_mul_div_left _ _ (Nat.zero_lt_of_lt inside.x),
      Nat.div_eq_of_lt inside.x, Nat.zero_add]
  ext
  case x => rw [indexPosition, packIndex, Nat.add_mul_mod_self_left,
    Nat.mod_eq_of_lt inside.x]
  case y => rw [indexPosition, Nat.mod_mul_right_div_self, first,
    Nat.add_mul_mod_self_left, Nat.mod_eq_of_lt inside.y]
  case z => rw [indexPosition, ← Nat.div_div_eq_div_mul, first,
    Nat.add_mul_div_left _ _ (Nat.zero_lt_of_lt inside.y),
    Nat.div_eq_of_lt inside.y, Nat.zero_add]

/-- The packed index of a position is that of a cell. -/
theorem packIndex_lt (inside : InGrid position dims) :
    packIndex position dims < dims.x * dims.y * dims.z := by
  have plane : 0 < dims.x * dims.y :=
    Nat.mul_pos (Nat.zero_lt_of_lt inside.x) (Nat.zero_lt_of_lt inside.y)
  have layer : packIndex position dims / (dims.x * dims.y) = position.z :=
    congrArg Vec3.z inside.indexPosition_packIndex
  rw [Nat.mul_comm, ← Nat.div_lt_iff_lt_mul plane, layer]
  exact inside.z

end InGrid

namespace GridVector

theorem toNat_inj {left right : GridVector} :
    left.toNat = right.toNat ↔ left = right := by
  simp only [toNat, Vec3.ext_iff, UInt32.toNat_inj]

/-- The cells of a lattice are counted in a machine word. -/
theorem toNat_cellWord (dims : GridVector) :
    dims.cellWord.toNat = dims.cells % UInt64.size := by
  simp only [cellWord, cells, UInt64.toNat_mul, UInt32.toNat_toUInt64,
    Nat.mod_mul_mod, UInt64.size]

/-- The words that unpack the index of a cell hold what they stand for. -/
structure Packs (dims : GridVector) : Prop where
  /-- The number of cells in a plane does not overflow. -/
  plane : (dims.x * dims.y).toNat = dims.x.toNat * dims.y.toNat
  /-- Nothing is divided by zero. -/
  divisors : dims.x ≠ 0 ∧ dims.x * dims.y ≠ 0
  /-- The index of a cell fits a word. -/
  index : ∀ index < dims.cells, (UInt32.ofNat index).toNat = index
  unpacked : ∀ index < dims.cells, ∃ position,
    unpackIndex? (.ofNat index) dims = some position ∧
      InGrid position.toNat dims.toNat ∧
      packIndex position.toNat dims.toNat = index
  packed : ∀ position : GridVector, InGrid position.toNat dims.toNat →
    packIndex position.toNat dims.toNat < dims.cells ∧
      unpackIndex? (.ofNat (packIndex position.toNat dims.toNat)) dims = some position

section

variable {dims : GridVector}

theorem plane_pos (positive : 0 < dims.cells) : 0 < dims.x.toNat * dims.y.toNat :=
  Nat.pos_of_mul_pos_right positive

theorem plane_le_cells (positive : 0 < dims.cells) :
    dims.x.toNat * dims.y.toNat ≤ dims.cells :=
  Nat.le_mul_of_pos_right _ (Nat.pos_of_mul_pos_left positive)

theorem toNat_plane (positive : 0 < dims.cells) (few : dims.cells < UInt32.size) :
    (dims.x * dims.y).toNat = dims.x.toNat * dims.y.toNat := by
  rw [UInt32.toNat_mul,
    Nat.mod_eq_of_lt (Nat.lt_of_le_of_lt (plane_le_cells positive) few)]

theorem divisors_ne_zero (positive : 0 < dims.cells) (few : dims.cells < UInt32.size) :
    dims.x ≠ 0 ∧ dims.x * dims.y ≠ 0 := by
  have plane := plane_pos positive
  have row : 0 < dims.x.toNat := Nat.pos_of_mul_pos_right plane
  rw [← toNat_plane positive few] at plane
  rw [Ne, Ne, ← UInt32.toNat_inj, ← UInt32.toNat_inj]
  exact ⟨Nat.ne_of_gt row, Nat.ne_of_gt plane⟩

/-- An index is unpacked as numbers are if the words that divide it do not overflow. -/
theorem unpackIndex?_eq_some_iff (positive : 0 < dims.cells)
    (few : dims.cells < UInt32.size) {index : UInt32} {position : GridVector} :
    unpackIndex? index dims = some position ↔
      position.toNat = indexPosition index.toNat dims.toNat := by
  have divisors := divisors_ne_zero positive few
  rw [unpackIndex?, if_neg (not_or.mpr divisors), Option.some.injEq,
    ← toNat_inj, eq_comm]
  simp only [toNat, indexPosition, UInt32.toNat_mod, UInt32.toNat_div,
    toNat_plane positive few]

/-- In a lattice of a few cells no word of the packing overflows. -/
theorem exists_unpackIndex? (positive : 0 < dims.cells)
    (few : dims.cells < UInt32.size) {index : Nat} (inside : index < dims.cells) :
    ∃ position, unpackIndex? (.ofNat index) dims = some position ∧
      position.toNat = indexPosition index dims.toNat := by
  have word : (UInt32.ofNat index).toNat = index :=
    UInt32.toNat_ofNat_of_lt' (Nat.lt_trans inside few)
  obtain ⟨position, unpacked⟩ :
      ∃ position, unpackIndex? (.ofNat index) dims = some position :=
    ⟨_, if_neg (not_or.mpr (divisors_ne_zero positive few))⟩
  refine ⟨position, unpacked, ?_⟩
  rw [(unpackIndex?_eq_some_iff positive few).mp unpacked, word]

theorem packs (positive : 0 < dims.cells) (few : dims.cells < UInt32.size) :
    dims.Packs where
  plane := toNat_plane positive few
  divisors := divisors_ne_zero positive few
  index index inside := UInt32.toNat_ofNat_of_lt' (Nat.lt_trans inside few)
  unpacked index inside := by
    rcases exists_unpackIndex? positive few inside with ⟨position, unpacked, place⟩
    refine ⟨position, unpacked, ?_, ?_⟩
    · rw [place]
      exact inGrid_indexPosition inside
    · rw [place, packIndex_indexPosition]
  packed position inside := by
    have cell : packIndex position.toNat dims.toNat < dims.cells :=
      inside.packIndex_lt
    refine ⟨cell, ?_⟩
    rw [unpackIndex?_eq_some_iff positive few,
      UInt32.toNat_ofNat_of_lt' (Nat.lt_trans cell few),
      inside.indexPosition_packIndex]

end

end GridVector

end SolidField
