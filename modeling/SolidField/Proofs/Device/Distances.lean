import SolidField.Proofs.Device.Packing

/-!
# The distances that a device measures

The distances of a lattice are those of a batch of its points, unless the number of
them overflows a machine word or a buffer.  A classification that succeeds reports
the distances of its cells, one for each of them, that the program of the device has
at their centres.
-/

namespace SolidField

theorem length_latticePoints (origin : Vec3 Single) (spacing : Single)
    (dims : Vec3 Nat) :
    (latticePoints origin spacing dims).length = dims.x * dims.y * dims.z := by
  rw [latticePoints]
  split
  · next empty =>
      rcases empty with empty | empty | empty <;> simp [empty]
  · simp [sampleCoordinates, List.length_flatMap, Function.comp_def,
      List.map_const', Nat.mul_comm, Nat.mul_left_comm]

/-! ## Buffers -/

namespace LatticeBuffer

variable {dims : Vec3 Nat}

theorem size_ofDims (dims : Vec3 Nat) :
    (ofDims dims).size = dims.x * dims.y * dims.z % UInt64.size := rfl

/-- A buffer of the full size has room for every layer. -/
theorem ofDims_of_lt (positive : 0 < dims.x * dims.y * dims.z)
    (counted : dims.x * dims.y * dims.z < UInt64.size) :
    ofDims dims = ⟨dims.x * dims.y * dims.z, dims.z, 0⟩ := by
  have plane : 0 < dims.x * dims.y := Nat.pos_of_mul_pos_right positive
  have small : dims.x * dims.y < UInt64.size :=
    Nat.lt_of_le_of_lt (Nat.le_mul_of_pos_right _ (Nat.pos_of_mul_pos_left positive))
      counted
  rw [ofDims, Nat.mod_eq_of_lt small, Nat.mod_eq_of_lt counted, if_pos rfl,
    Nat.mul_div_cancel_left _ plane, Nat.mul_comm dims.z, Nat.sub_self, Nat.min_zero]

/-- A buffer without a rest is as large as its layers. -/
theorem mul_layers_of_rest (some : (ofDims dims).size ≠ 0)
    (full : (ofDims dims).rest = 0) :
    dims.x * dims.y * (ofDims dims).layers = (ofDims dims).size := by
  have slice : dims.x * dims.y % UInt64.size ≠ 0 := by
    intro none
    rw [size_ofDims, Nat.mul_mod, none, Nat.zero_mul, Nat.zero_mod] at some
    exact some rfl
  -- Slices have room for something, so it is the buffer that has no room left.
  have used : (ofDims dims).size ≤ (ofDims dims).layers * (dims.x * dims.y) := by
    have least : min (dims.x * dims.y % UInt64.size)
        ((ofDims dims).size - (ofDims dims).layers * (dims.x * dims.y)) = 0 := full
    omega
  refine Nat.le_antisymm ?_ (Nat.mul_comm _ _ ▸ used)
  rw [Nat.mul_comm]
  simp only [ofDims]
  split
  · exact Nat.div_mul_le_self _ _
  · simp

/-- A single layer is more than the buffer, which ends within it. -/
theorem ofDims_of_size_lt (whole : dims.x * dims.y < UInt64.size)
    (short : (ofDims dims).size < dims.x * dims.y) :
    ofDims dims = ⟨(ofDims dims).size, 0, (ofDims dims).size⟩ := by
  have none : (ofDims dims).size / (dims.x * dims.y) = 0 :=
    Nat.div_eq_of_lt short
  rw [size_ofDims] at none short ⊢
  rw [ofDims, Nat.mod_eq_of_lt whole, if_pos rfl, none, Nat.zero_mul, Nat.sub_zero,
    Nat.min_eq_right (Nat.le_of_lt short)]

end LatticeBuffer

namespace Machine

variable {machine : Machine} {origin : Vec3 Single} {spacing : Single}
  {dims : Vec3 Nat}

theorem size_of_evalAll {points : List (Vec3 Single)}
    {registers left : RegisterFile} {values reached : Array Register}
    (evaluated : machine.evalAll points registers values = .ok (reached, left)) :
    reached.size = values.size + points.length := by
  induction points generalizing registers values with
  | nil =>
      cases evaluated
      rfl
  | cons point points induction =>
      rw [evalAll] at evaluated
      split at evaluated
      · cases evaluated
      · rw [induction evaluated, Array.size_push, List.length_cons]
        omega

theorem length_of_evalBatch {points : List (Vec3 Single)} {values : List Register}
    (evaluated : machine.evalBatch points = .ok values) :
    values.length = points.length := by
  rw [evalBatch] at evaluated
  cases all : machine.evalAll points machine.registerFile #[] with
  | error fault =>
      rw [all] at evaluated
      cases evaluated
  | ok reached =>
      rw [all] at evaluated
      cases evaluated
      rw [Array.length_toList, size_of_evalAll all, Array.size_empty, Nat.zero_add]

/-- A lattice that a buffer can hold is evaluated as a batch of its points. -/
theorem evalLattice_of_le (few : dims.x * dims.y * dims.z ≤ maxDistances) :
    machine.evalLattice origin spacing dims =
      (machine.evalBatch (latticePoints origin spacing dims)).map
        (List.map Vec4.w) := by
  have counted : dims.x * dims.y * dims.z < UInt64.size :=
    Nat.lt_of_le_of_lt few (by decide)
  rcases Nat.eq_zero_or_pos (dims.x * dims.y * dims.z) with none | positive
  · have noPoints : latticePoints origin spacing dims = [] := by
      rw [← List.length_eq_zero_iff, length_latticePoints, none]
    have empty : (LatticeBuffer.ofDims dims).size = 0 := by
      rw [LatticeBuffer.size_ofDims, none, Nat.zero_mod]
    rw [evalLattice, if_pos empty, noPoints]
    rfl
  · rw [evalLattice, LatticeBuffer.ofDims_of_lt positive counted]
    simp only [if_neg (Nat.ne_of_gt positive), if_neg (Nat.not_lt.mpr few)]
    cases machine.evalBatch (latticePoints origin spacing dims) <;> rfl

/-- The distances of a lattice are as many as the machine word counts. -/
theorem length_of_evalLattice {distances : List Single}
    (evaluated : machine.evalLattice origin spacing dims = .ok distances) :
    distances.length = dims.x * dims.y * dims.z % UInt64.size := by
  rw [evalLattice] at evaluated
  split at evaluated
  · next none =>
      cases evaluated
      exact none.symm
  · next some =>
      split at evaluated
      · cases evaluated
      · cases batch : machine.evalBatch (latticePoints origin spacing
            { dims with z := (LatticeBuffer.ofDims dims).layers }) with
        | error fault =>
            rw [batch] at evaluated
            cases evaluated
        | ok values =>
            rw [batch] at evaluated
            simp only [bind, Except.bind] at evaluated
            split at evaluated
            · next full =>
                cases evaluated
                rw [List.length_map, length_of_evalBatch batch,
                  length_latticePoints, LatticeBuffer.mul_layers_of_rest some full,
                  LatticeBuffer.size_ofDims]
            · split at evaluated <;> cases evaluated

/-- The point behind the end of a buffer that is too short for a layer is a fault. -/
theorem evalLattice_of_size_lt (some : (LatticeBuffer.ofDims dims).size ≠ 0)
    (few : (LatticeBuffer.ofDims dims).size ≤ maxDistances)
    (whole : dims.x * dims.y < UInt64.size)
    (short : (LatticeBuffer.ofDims dims).size < dims.x * dims.y) :
    machine.evalLattice origin spacing dims =
      machine.distance (latticePoint origin spacing ⟨0, 0, 0⟩) >>= fun _ =>
        .error (.missingSample (LatticeBuffer.ofDims dims).size
          (LatticeBuffer.ofDims dims).size) := by
  have noLayers : machine.evalBatch
      (latticePoints origin spacing { dims with z := 0 }) = .ok [] := by
    simp [latticePoints, evalBatch, evalAll, Except.map]
  rw [evalLattice, LatticeBuffer.ofDims_of_size_lt whole short]
  simp only [if_neg some, if_neg (Nat.not_lt.mpr few), noLayers]
  rfl

end Machine

/-! ## Queries -/

namespace GridVector

variable {dims : GridVector}

theorem plane_lt (dims : GridVector) : dims.x.toNat * dims.y.toNat < UInt64.size :=
  Nat.mul_lt_mul'' dims.x.toNat_lt dims.y.toNat_lt

/-- A layer of a lattice that overflows has more cells than any submission. -/
theorem le_plane_of_wrapped (wrapped : UInt64.size ≤ dims.cells) :
    UInt32.size ≤ dims.x.toNat * dims.y.toNat := by
  rcases Nat.lt_or_ge (dims.x.toNat * dims.y.toNat) UInt32.size with small | large
  · have few : dims.cells < UInt32.size * UInt32.size :=
      Nat.mul_lt_mul'' small dims.z.toNat_lt
    exact absurd wrapped (Nat.not_le.mpr few)
  · exact large

end GridVector

/-- A query is accepted by the number of cells that the machine word counts. -/
theorem CellQuery.rejection?_eq_none_iff {query : CellQuery} :
    query.rejection? = none ↔
      (0 < query.dims.cells % UInt64.size ∧
        query.dims.cells % UInt64.size ≤ maxLatticeCells) ∧
        Scalar.isPositiveFinite query.step = true := by
  rw [rejection?, GridVector.toNat_cellWord]
  by_cases few : 0 < query.dims.cells % UInt64.size ∧
      query.dims.cells % UInt64.size ≤ maxLatticeCells
  · rw [if_neg (by omega)]
    cases positive : Scalar.isPositiveFinite query.step <;> simp [few]
  · rw [if_pos (by omega)]
    exact ⟨nofun, fun accepted => absurd accepted.1 few⟩

namespace Machine

variable {machine : Machine}

/--
The distances of a lattice whose number of cells overflows to an acceptable one do
not fit their buffer.
-/
theorem evalLattice_of_wrapped {dims : GridVector} {origin : Vec3 Single}
    {spacing : Single} (wrapped : UInt64.size ≤ dims.cells)
    (some : 0 < dims.cells % UInt64.size)
    (few : dims.cells % UInt64.size ≤ maxLatticeCells) :
    machine.evalLattice origin spacing dims.toNat =
      machine.distance (latticePoint origin spacing ⟨0, 0, 0⟩) >>= fun _ =>
        .error (.missingSample (dims.cells % UInt64.size)
          (dims.cells % UInt64.size)) := by
  have short : dims.cells % UInt64.size < dims.x.toNat * dims.y.toNat :=
    Nat.lt_of_le_of_lt few
      (Nat.lt_of_lt_of_le (by decide) (GridVector.le_plane_of_wrapped wrapped))
  exact evalLattice_of_size_lt (Nat.ne_of_gt some) (Nat.le_trans few (by decide))
    dims.plane_lt short

namespace Measures

variable {query : CellQuery} {distances : List Single}

/-- A lattice that has distances is counted without overflow. -/
theorem cells_lt (measures : machine.Measures query distances) :
    query.dims.cells < UInt64.size := by
  rcases Nat.lt_or_ge query.dims.cells UInt64.size with counted | wrapped
  · exact counted
  · have evaluated := measures.evaluated
    rcases CellQuery.rejection?_eq_none_iff.mp measures.accepted with ⟨⟨some, few⟩, -⟩
    rw [evalLattice_of_wrapped wrapped some few] at evaluated
    cases first : machine.distance
        (latticePoint query.firstCentre query.step ⟨0, 0, 0⟩) <;>
      rw [first] at evaluated <;> cases evaluated

theorem length_eq (measures : machine.Measures query distances) :
    distances.length = query.dims.cells := by
  rw [length_of_evalLattice measures.evaluated]
  exact Nat.mod_eq_of_lt measures.cells_lt

end Measures

/-- A device reports the distances that its program has. -/
theorem samples_classify (machine : Machine) :
    Classifier.Samples machine.classify machine.Measures := by
  intro query report answered
  rw [classify] at answered
  split at answered
  · cases answered
  · next accepted =>
      rw [Except.ok.injEq, submit, CellQuery.kernel] at answered
      cases measured : machine.evalLattice query.firstCentre query.step
          query.dims.toNat with
      | error fault =>
          rw [measured] at answered
          cases answered
      | ok distances =>
          rw [measured] at answered
          cases answered
          have measures : machine.Measures query distances := ⟨accepted, measured⟩
          exact ⟨distances, measures, measures.length_eq, rfl⟩

end Machine

end SolidField
