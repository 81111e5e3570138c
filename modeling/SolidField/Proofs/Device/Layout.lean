import SolidField.Proofs.Device.Admission
import SolidField.Proofs.Device.Reports
import SolidField.Proofs.Program.RoundTrip

/-!
# The layout of lattices

The distances of a lattice stand in the order of the packing, however its layers are
shared out: each is the distance that the program has at the position of its index.
Reports on cells and samples of blocks therefore speak of the same positions.
-/

namespace SolidField

/-! ## Points in the order of the packing -/

/-- Rows of equal length, one after the other. -/
theorem flatMap_range_map {α : Type} (count length : Nat) (place : Nat → Nat → α) :
    ((List.range count).flatMap fun row =>
        (List.range length).map fun column => place column row) =
      (List.range (length * count)).map fun index =>
        place (index % length) (index / length) := by
  induction count with
  | zero => rfl
  | succ count induction =>
      rw [List.range_succ, List.flatMap_append, induction, Nat.mul_succ,
        List.range_add, List.map_append, List.map_map]
      congr 1
      -- The last row starts behind all others.
      rw [List.flatMap_singleton]
      refine List.map_congr_left fun column member => ?_
      have inside := List.mem_range.mp member
      rw [Function.comp_apply, Nat.mul_add_mod, Nat.mod_eq_of_lt inside,
        Nat.mul_add_div (Nat.zero_lt_of_lt inside), Nat.div_eq_of_lt inside,
        Nat.add_zero]

/-- The point of an index is that of its position. -/
theorem latticePoints_eq_map_range (origin : Vec3 Single) (spacing : Single)
    (dims : Vec3 Nat) :
    latticePoints origin spacing dims =
      (List.range (dims.x * dims.y * dims.z)).map fun index =>
        latticePoint origin spacing (indexPosition index dims) := by
  rw [latticePoints]
  split
  · next empty =>
      rcases empty with empty | empty | empty <;> simp [empty]
  · simp only [sampleCoordinates, List.flatMap_map, List.map_map,
      Function.comp_def]
    -- The rows of every layer make up the layer, and the layers the lattice.
    rw [List.flatMap_congr fun z _ => flatMap_range_map dims.y dims.x fun x y =>
      (⟨sampleCoordinate origin.x spacing x, sampleCoordinate origin.y spacing y,
        sampleCoordinate origin.z spacing z⟩ : Vec3 Single),
      flatMap_range_map]
    simp only [Nat.mod_mul_right_mod]
    rfl

/-- The entry of a packed index is the distance at its position. -/
theorem getElem?_map_latticePoints {position dims : Vec3 Nat}
    (inside : InGrid position dims) (origin : Vec3 Single) (spacing : Single)
    (distance : Vec3 Single → Single) :
    ((latticePoints origin spacing dims).map distance)[packIndex position dims]? =
      some (distance (latticePoint origin spacing position)) := by
  rw [latticePoints_eq_map_range, List.map_map, List.getElem?_map,
    List.getElem?_range inside.packIndex_lt, Option.map_some,
    Function.comp_apply, inside.indexPosition_packIndex]

/-! ## Machines with values -/

namespace Machine

/-- Every point has a value, and a batch has the values of its points. -/
structure Evaluates (machine : Machine) (value : Vec3 Single → Register) : Prop where
  eval : ∀ point, machine.eval point = .ok (value point)
  batch : ∀ points, machine.evalBatch points = .ok (points.map value)

/--
The distances of a lattice are as many as it has points, each where its position is
packed, and they do not depend on how the points are shared out among workers with
registers of their own.
-/
structure LaysOut (machine : Machine) (distance : Vec3 Single → Single)
    (origin : Vec3 Single) (spacing : Single) (dims : Vec3 Nat)
    (distances : List Single) : Prop where
  evaluated : machine.evalLattice origin spacing dims = .ok distances
  length : distances.length = dims.x * dims.y * dims.z
  entry : ∀ position, InGrid position dims →
    distances[packIndex position dims]? =
      some (distance (latticePoint origin spacing position))
  shared : ∀ parts : List (List (Vec3 Single)),
    parts.flatten = latticePoints origin spacing dims →
      ∃ values, parts.mapM machine.evalBatch = .ok values ∧
        values.flatten.map Vec4.w = distances

variable {machine : Machine} {value : Vec3 Single → Register}

theorem exists_evaluates
    (batches : ∀ points, ∃ values, machine.evalBatch points = .ok values ∧
      values.map .ok = points.map machine.eval) :
    ∃ value, machine.Evaluates value := by
  have alone : ∀ point, ∃ value, machine.eval point = .ok value := by
    intro point
    rcases batches [point] with ⟨values, -, same⟩
    cases values with
    | nil => cases same
    | cons value values => exact ⟨value, (List.cons.inj same).1.symm⟩
  choose value evaluated using alone
  refine ⟨value, evaluated, fun points => ?_⟩
  rcases batches points with ⟨values, batch, same⟩
  have wrapped : values.map .ok =
      (points.map value).map (Except.ok (ε := MachineFault)) := by
    rw [same, List.map_map]
    exact List.map_congr_left fun point _ => evaluated point
  rw [batch, List.map_injective_iff.mpr (fun _ _ => Except.ok.inj) wrapped]

namespace Evaluates

variable (evaluates : machine.Evaluates value)
include evaluates

theorem distance_eq (point : Vec3 Single) :
    machine.distance point = .ok (value point).w := by
  rw [distance, evaluates.eval]
  rfl

theorem evalLattice_eq {origin : Vec3 Single} {spacing : Single} {dims : Vec3 Nat}
    (few : dims.x * dims.y * dims.z ≤ maxDistances) :
    machine.evalLattice origin spacing dims =
      .ok ((latticePoints origin spacing dims).map fun point => (value point).w) := by
  rw [evalLattice_of_le few, evaluates.batch, Except.map, List.map_map]
  rfl

theorem mapM_evalBatch (parts : List (List (Vec3 Single))) :
    parts.mapM machine.evalBatch = .ok (parts.map (List.map value)) := by
  rw [funext evaluates.batch]
  exact List.mapM_pure

theorem laysOut (origin : Vec3 Single) (spacing : Single) (dims : Vec3 Nat)
    (few : dims.x * dims.y * dims.z ≤ maxDistances) :
    machine.LaysOut (fun point => (value point).w) origin spacing dims
      ((latticePoints origin spacing dims).map fun point => (value point).w) where
  evaluated := evaluates.evalLattice_eq few
  length := by rw [List.length_map, length_latticePoints]
  entry _ inside := getElem?_map_latticePoints inside origin spacing _
  shared parts all := by
    refine ⟨_, evaluates.mapM_evalBatch parts, ?_⟩
    rw [← List.map_flatten, all, List.map_map]
    rfl

/-- Whatever is reported on a query names cells by where they were sampled. -/
theorem describes {query : CellQuery} {report : CellReport}
    (answered : machine.classify query = .ok (.ok report)) :
    query.Describes (fun point => (value point).w) report := by
  rcases machine.samples_classify query report answered with
    ⟨distances, measures, -, rfl⟩
  rcases CellQuery.rejection?_eq_none_iff.mp measures.accepted with
    ⟨⟨positive, few⟩, -⟩
  -- What is reported on is counted without overflow, so that it fits a buffer.
  rw [Nat.mod_eq_of_lt measures.cells_lt] at positive few
  have evaluated := measures.evaluated
  rw [evaluates.evalLattice_eq (Nat.le_trans few (by decide)), Except.ok.injEq,
    latticePoints_eq_map_range, List.map_map] at evaluated
  rw [← evaluated]
  exact CellQuery.describes_ofDistances positive
    (Nat.lt_of_le_of_lt few (by decide)) _

theorem exists_report {query : CellQuery} (positive : 0 < query.dims.cells)
    (few : query.dims.cells ≤ maxLatticeCells)
    (step : Scalar.isPositiveFinite query.step = true) :
    ∃ report, machine.classify query = .ok (.ok report) := by
  have counted : query.dims.cells % UInt64.size = query.dims.cells :=
    Nat.mod_eq_of_lt (Nat.lt_of_le_of_lt few (by decide))
  have accepted : query.rejection? = none := by
    rw [CellQuery.rejection?_eq_none_iff, counted]
    exact ⟨⟨positive, few⟩, step⟩
  have small : query.dims.toNat.x * query.dims.toNat.y * query.dims.toNat.z ≤
      maxDistances := Nat.le_trans few (by decide)
  rw [classify_of_accepted accepted, submit, CellQuery.kernel,
    evaluates.evalLattice_eq small]
  exact ⟨_, rfl⟩

end Evaluates

end Machine

/-! ## Lattices of compiled programs -/

namespace Graph

/--
The indices of every lattice that can be submitted are packed and unpacked without
overflow.  Whatever nodes are asked for, the program that a root compiles to has a
distance at every point; if a buffer can hold the distances of a lattice, each of
them is where its position is packed, and so it is for the samples of a block.  A
query on a lattice that can be submitted is reported on, and what is reported on any
query names its cells by the positions where their distances were sampled.
-/
theorem compiled_program_lays_out_lattices (requests : List (NodeRequest Single))
    (counted : ∀ request ∈ requests,
      request.opcode.parameters = .variadic →
        request.parameters.length < UInt32.size)
    (root : NodeId) (config : CompileConfig) {program : Program}
    {larger : Graph Single}
    (compiled : (initial.makeAll requests).compile root config =
      .ok (program, larger)) :
    (∀ dims : GridVector, 0 < dims.cells → dims.cells ≤ maxLatticeCells →
      dims.Packs) ∧
    ∃ (machine : Machine) (distance : Vec3 Single → Single),
      Machine.load program = .ok machine ∧
      (∀ point, machine.distance point = .ok (distance point)) ∧
      (∀ origin spacing (dims : Vec3 Nat),
        dims.x * dims.y * dims.z ≤ maxDistances →
          ∃ distances, machine.LaysOut distance origin spacing dims distances) ∧
      (∀ query : CellQuery, 0 < query.dims.cells →
        query.dims.cells ≤ maxLatticeCells →
          Scalar.isPositiveFinite query.step = true →
            ∃ report, machine.classify query = .ok (.ok report)) ∧
      (∀ query report, machine.classify query = .ok (.ok report) →
        query.Describes distance report) ∧
      ∀ block : LeafBlock, block.lattice.cells ≤ maxDistances →
        ∃ distances, machine.submit block.kernel = .ok distances ∧
          distances.length = block.lattice.cells ∧
          ∀ index, InGrid index.toNat block.lattice.toNat →
            distances[packIndex index.toNat block.lattice.toNat]? =
              some (distance (block.samplePosition index)) := by
  rcases exists_evalBatch_of_compile requests counted root config compiled with
    ⟨machine, loaded, batches⟩
  rcases Machine.exists_evaluates batches with ⟨value, evaluates⟩
  refine ⟨fun dims positive few => GridVector.packs positive
      (Nat.lt_of_le_of_lt few (by decide)), machine,
    fun point => (value point).w, loaded, evaluates.distance_eq,
    fun origin spacing dims few => ⟨_, evaluates.laysOut origin spacing dims few⟩,
    fun query => evaluates.exists_report, fun query report => evaluates.describes,
    fun block few => ?_⟩
  have layout :=
    evaluates.laysOut block.corner block.spacing block.lattice.toNat few
  refine ⟨_, ?_, layout.length, fun index inside => layout.entry _ inside⟩
  rw [Machine.submit, LeafBlock.kernel, layout.evaluated]
  rfl

/-- The distances of a shared union on a lattice that is longer on every axis. -/
theorem sharedUnion_lays_out_lattice :
    ∃ program larger machine,
      (initial.makeAll sharedUnion).compile ⟨3⟩ ⟨1, 7, 2⟩ = .ok (program, larger) ∧
      Machine.load program = .ok machine ∧
      (∃ distances distance,
        machine.evalLattice ⟨0, 0, 0⟩ .one ⟨2, 3, 4⟩ = .ok distances ∧
          distances.length = 24 ∧
          machine.distance (latticePoint ⟨0, 0, 0⟩ .one ⟨1, 2, 3⟩) = .ok distance ∧
          distances[23]? = some distance) ∧
      ∃ report, machine.classify ⟨⟨0, 0, 0⟩, .one, ⟨2, 3, 4⟩, .one, true⟩ =
          .ok (.ok report) ∧
        report.intersecting.length + report.uniform.length = 24 := by
  rcases exists_compile_sharedUnion with ⟨⟨program, larger⟩, compiled, -⟩
  rcases compiled_program_lays_out_lattices sharedUnion (by decide) ⟨3⟩ ⟨1, 7, 2⟩
      compiled with
    ⟨-, machine, distance, loaded, evaluated, lattices, reports, described, -⟩
  rcases lattices ⟨0, 0, 0⟩ .one ⟨2, 3, 4⟩ (by decide) with ⟨distances, layout⟩
  rcases reports ⟨⟨0, 0, 0⟩, .one, ⟨2, 3, 4⟩, .one, true⟩ (by decide) (by decide)
      (by decide) with
    ⟨report, answered⟩
  refine ⟨program, larger, machine, compiled, loaded,
    ⟨distances, _, layout.evaluated, layout.length, evaluated _,
      layout.entry ⟨1, 2, 3⟩ ⟨by decide, by decide, by decide⟩⟩, report, answered, ?_⟩
  have all := ((described _ _ answered).once rfl).length_eq
  rw [List.length_append, List.length_map, List.length_map, List.length_range] at all
  exact all

/-- A ball that is asked for alone. -/
def ballAlone : List (NodeRequest Single) :=
  [⟨.sphere, [.one], [point], none⟩]

theorem exists_load_ballAlone :
    ∃ result, (initial.makeAll ballAlone).compile ⟨1⟩ ⟨1, 7, 2⟩ = .ok result ∧
      (Machine.load result.1).toOption = some Machine.unitBall :=
  exists_eq_ok_of_map (by decide +kernel)

/-- The distances of a lattice are too few if their number overflows. -/
theorem overflowing_lattice_is_cut_short :
    ∃ program larger, (initial.makeAll ballAlone).compile ⟨1⟩ ⟨1, 7, 2⟩ =
        .ok (program, larger) ∧
      Machine.load program = .ok Machine.unitBall ∧
      let block : LeafBlock :=
        ⟨⟨0, 0, 0⟩, .one, ⟨2147483648, 2147483648, 4⟩, false, false⟩
      block.lattice.cells = 18446744073709551616 ∧
        Machine.unitBall.evalLattice block.corner block.spacing block.lattice.toNat =
          .ok [] ∧
        Machine.unitBall.submit block.kernel = .ok [] := by
  rcases exists_load_ballAlone with ⟨⟨program, larger⟩, compiled, loaded⟩
  have wrapped : (LatticeBuffer.ofDims ⟨2147483648, 2147483648, 4⟩).size = 0 := by
    decide
  have cutShort : Machine.unitBall.evalLattice ⟨0, 0, 0⟩ .one
      ⟨2147483648, 2147483648, 4⟩ = .ok [] := by
    simp only [Machine.evalLattice, wrapped, if_pos]
  refine ⟨program, larger, compiled, eq_ok_of_toOption loaded, by decide, cutShort, ?_⟩
  rw [Machine.submit, LeafBlock.kernel]
  exact cutShort ▸ rfl

end Graph

end SolidField
