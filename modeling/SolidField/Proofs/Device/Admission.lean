import SolidField.Proofs.Device.Distances

/-!
# The lattices that a device admits

A device counts the cells of a lattice in a machine word.  If the number of cells
does not overflow, a lattice is admitted with at most as many cells as a submission
can have: all its indices fit, and every cell has a place in the buffer.  A lattice
whose number of cells overflows to such a number is admitted too, but it is never
reported on, as its first layer does not fit the buffer.
-/

namespace SolidField

/-- The lattice of a query can be sampled and its cells can be named by words. -/
structure CellQuery.Indexed (query : CellQuery) : Prop where
  positive : 0 < query.dims.cells
  few : query.dims.cells ≤ maxLatticeCells
  packs : query.dims.Packs
  /-- The buffer has one place for every cell, in slices of the size of a layer. -/
  buffer : LatticeBuffer.ofDims query.dims.toNat =
    ⟨query.dims.cells, query.dims.z.toNat, 0⟩

theorem CellQuery.indexed_of_le {query : CellQuery} (positive : 0 < query.dims.cells)
    (few : query.dims.cells ≤ maxLatticeCells) : query.Indexed where
  positive := positive
  few := few
  packs := GridVector.packs positive (Nat.lt_of_le_of_lt few (by decide))
  buffer := LatticeBuffer.ofDims_of_lt positive (Nat.lt_of_le_of_lt few (by decide))

theorem CellQuery.rejection?_of_count {query : CellQuery}
    (outside : ¬(0 < query.dims.cells % UInt64.size ∧
      query.dims.cells % UInt64.size ≤ maxLatticeCells)) :
    query.rejection? =
      some (.lattice query.dims (query.dims.cells % UInt64.size)) := by
  rw [rejection?, GridVector.toNat_cellWord]
  exact if_pos (by omega)

theorem CellQuery.rejection?_of_step {query : CellQuery}
    (inside : 0 < query.dims.cells % UInt64.size ∧
      query.dims.cells % UInt64.size ≤ maxLatticeCells)
    (bad : Scalar.isPositiveFinite query.step = false) :
    query.rejection? = some (.cellStep query.step) := by
  rw [rejection?, GridVector.toNat_cellWord, if_neg (by omega), bad]
  rfl

namespace Machine

variable {machine : Machine} {query : CellQuery}

theorem classify_of_rejected {reason : Rejection}
    (rejected : query.rejection? = some reason) :
    machine.classify query = .error (.rejected reason) := by
  rw [classify, rejected]

theorem classify_of_accepted (accepted : query.rejection? = none) :
    machine.classify query = .ok (machine.submit query.kernel) := by
  rw [classify, accepted]

/-- A lattice whose number of cells overflows to an acceptable one is not reported on. -/
theorem submit_kernel_of_wrapped (wrapped : UInt64.size ≤ query.dims.cells)
    (some : 0 < query.dims.cells % UInt64.size)
    (few : query.dims.cells % UInt64.size ≤ maxLatticeCells) :
    ∃ text, machine.submit query.kernel = .error (.kernelAssertion text) := by
  rw [submit, CellQuery.kernel, evalLattice_of_wrapped wrapped some few]
  cases machine.distance (latticePoint query.firstCentre query.step ⟨0, 0, 0⟩) with
  | error fault => exact ⟨fault.message, rfl⟩
  | ok distance => exact ⟨_, rfl⟩

/--
A device refuses a query by the number of cells that the machine word counts.  An
admitted query whose number of cells does not overflow is one whose indices and
buffer fit, and its report is that of one distance for every cell; one whose number
of cells overflows ends in an assertion of the kernel.
-/
theorem classify_admits (machine : Machine) (query : CellQuery) :
    let counted := query.dims.cells % UInt64.size
    (¬(0 < counted ∧ counted ≤ maxLatticeCells) →
      machine.classify query = .error (.rejected (.lattice query.dims counted))) ∧
    (0 < counted ∧ counted ≤ maxLatticeCells →
      Scalar.isPositiveFinite query.step = false →
        machine.classify query = .error (.rejected (.cellStep query.step))) ∧
    (0 < counted ∧ counted ≤ maxLatticeCells →
      Scalar.isPositiveFinite query.step = true →
        ∃ answer, machine.classify query = .ok answer ∧
          (query.dims.cells < UInt64.size → query.Indexed ∧
            ∀ report, answer = .ok report →
              ∃ distances, machine.Measures query distances ∧
                distances.length = query.dims.cells ∧
                report = .ofDistances query distances) ∧
          (UInt64.size ≤ query.dims.cells →
            ∃ text, answer = .error (.kernelAssertion text))) := by
  refine ⟨fun outside => classify_of_rejected (CellQuery.rejection?_of_count outside),
    fun inside bad => classify_of_rejected (CellQuery.rejection?_of_step inside bad),
    fun inside good => ?_⟩
  have accepted : machine.classify query = .ok (machine.submit query.kernel) :=
    classify_of_accepted (CellQuery.rejection?_eq_none_iff.mpr ⟨inside, good⟩)
  refine ⟨_, accepted, fun whole => ?_,
    fun wrapped => submit_kernel_of_wrapped wrapped inside.1 inside.2⟩
  rw [Nat.mod_eq_of_lt whole] at inside
  refine ⟨CellQuery.indexed_of_le inside.1 inside.2, fun report answered => ?_⟩
  exact machine.samples_classify query report
    (accepted.trans (congrArg Except.ok answered))

/-- A unit ball around the origin. -/
def unitBall : Machine :=
  ⟨[⟨.sphere, 0, 0, 0, [.one]⟩], 1, 0⟩

/-- A query on a lattice at unit spacing that records all cells. -/
def unitQuery (dims : GridVector) : CellQuery :=
  ⟨⟨0, 0, 0⟩, .one, dims, .one, true⟩

/-- The largest cube is admitted, and refused with one more layer of cells. -/
theorem unitBall_admits_largest_cube :
    (unitQuery ⟨256, 256, 256⟩).Indexed ∧
      (∃ answer, unitBall.classify (unitQuery ⟨256, 256, 256⟩) = .ok answer) ∧
      unitBall.classify (unitQuery ⟨257, 256, 256⟩) =
        .error (.rejected (.lattice ⟨257, 256, 256⟩ 16842752)) := by
  rcases classify_admits unitBall (unitQuery ⟨256, 256, 256⟩) with ⟨-, -, admitted⟩
  rcases classify_admits unitBall (unitQuery ⟨257, 256, 256⟩) with ⟨refused, -, -⟩
  rcases admitted (by decide) (by decide) with ⟨answer, answered, whole, -⟩
  exact ⟨(whole (by decide)).1, ⟨answer, answered⟩, refused (by decide)⟩

/-- The number of these cells overflows to one. -/
def overflowingDims : GridVector := ⟨4194305, 4065217, 4327489⟩

/-- A lattice of too many cells is admitted, and sampled into a single place. -/
theorem overflowing_lattice_is_admitted :
    overflowingDims.cells = 73786976294838206465 ∧
      maxLatticeCells < overflowingDims.cells ∧
      unitBall.classify (unitQuery overflowingDims) = .ok (.error (.kernelAssertion
        "index out of bounds: the len is 1 but the index is 1")) :=
  ⟨by decide, by decide, rfl⟩

end Machine

end SolidField
