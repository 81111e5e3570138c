import Mathlib.Data.List.Basic
import SolidField.Program.Liveness
import SolidField.Proofs.Program.Simulation

/-!
# Entries of complete histories

Every entry of a schedule but that of the evaluation point applies an admissible
node to as many registers as its operation reads, all of them within the register
file.  Its instruction therefore fits, and says all that the entry says.
-/

universe u

namespace SolidField

/-! ## The inputs of applications -/

theorem Operand.length_ofDependencies (dependencies : List Nat) :
    (ofDependencies dependencies).length = min dependencies.length 2 := by
  by_cases many : 2 < dependencies.length
  · rcases ofDependencies_of_two_lt many with ⟨first, others, last, -, operands, -⟩
    rw [operands, Nat.min_eq_right (Nat.le_of_lt many)]
    rfl
  · rw [ofDependencies_of_le_two (by omega), List.length_map]
    omega

/-- An operation that computes a node is applied to what its arity says. -/
theorem Application.Shaped.length_inputs {α : Type u} {graph : Graph α}
    {application : Application} (shaped : application.Shaped graph)
    {node : Node α} (found : graph.node? ⟨application.result.owner⟩ = some node)
    (admissible : node.Admissible application.result.owner) :
    application.inputs.length =
      if node.opcode.arity.readsSecond then 2 else 1 := by
  have arity := admissible.arity
  have kernel := admissible.kernel
  have length : (graph.dependencies application.result.owner).length =
      node.dependencies.length := by
    rw [Graph.dependencies_of_node? found, List.length_map]
  cases shaped with
  | @node index order perm declared =>
      rw [← length, Computed.owner, ← perm.length_eq] at arity
      rw [List.length_map, Operand.length_ofDependencies]
      cases opcode : node.opcode <;>
        simp_all [Opcode.arity, Arity.accepts, Arity.readsSecond,
          Opcode.hasKernel, Opcode.isReserved]
  | @part owner first second many =>
      rw [Computed.owner] at length
      cases shape : node.opcode.arity with
      | nullary | unary | binary =>
          rw [shape, Arity.accepts, decide_eq_true_eq] at arity
          omega
      | associative => rfl

/-! ## Entries -/

namespace ScheduleEntry

/-- An entry applies a node to registers of the register file. -/
structure Proper (graph : Graph Single) (registerCount : Nat)
    (entry : ScheduleEntry) (node : Node Single) : Prop where
  found : graph.node? entry.node = some node
  admissible : node.Admissible entry.node.index
  opcode : entry.opcode = node.opcode
  register : entry.register < registerCount
  inputs : ∀ input ∈ entry.inputs, input < registerCount
  arity : entry.inputs.length = if node.opcode.arity.readsSecond then 2 else 1

/-- An instruction says what an entry does to which registers. -/
structure Encodes (graph : Graph Single) (entry : ScheduleEntry)
    (instruction : Instruction) : Prop where
  /-- The operation is that of the node, with the parameters of the node. -/
  node : ∃ node, graph.node? entry.node = some node ∧
    node.opcode = entry.opcode ∧ node.parameters = instruction.parameters
  opcode : instruction.opcode = entry.opcode
  output : instruction.output.toNat = entry.register
  /-- The inputs that the operation has are in the registers of the entry. -/
  inputs : (MachineStep.ofInstruction instruction).operands = entry.inputs
  /-- A missing second input is written as register zero. -/
  missing : entry.inputs.length = 1 → instruction.input2 = 0

variable {graph : Graph Single} {registerCount : Nat} {entry : ScheduleEntry}
  {node : Node Single}

theorem instruction_of_node? (found : graph.node? entry.node = some node) :
    entry.instruction graph =
      ⟨entry.opcode, UInt8.ofNat entry.register, entry.inputField 0,
        entry.inputField 1, node.parameters⟩ := by
  simp only [instruction, found]

namespace Proper

theorem positive (proper : entry.Proper graph registerCount node) :
    0 < registerCount :=
  Nat.lt_of_le_of_lt (Nat.zero_le _) proper.register

theorem inputs_cases (proper : entry.Proper graph registerCount node) :
    (∃ first, entry.inputs = [first] ∧
        node.opcode.arity.readsSecond = false) ∨
      ∃ first second, entry.inputs = [first, second] ∧
        node.opcode.arity.readsSecond = true := by
  have arity := proper.arity
  cases reads : node.opcode.arity.readsSecond with
  | false =>
      rw [reads] at arity
      rcases List.length_eq_one_iff.mp arity with ⟨first, inputs⟩
      exact Or.inl ⟨first, inputs, rfl⟩
  | true =>
      rw [reads] at arity
      rcases List.length_eq_two.mp arity with ⟨first, second, inputs⟩
      exact Or.inr ⟨first, second, inputs, rfl⟩

/-- An input field is a register, also where the input is missing. -/
theorem inputField_lt (proper : entry.Proper graph registerCount node)
    (small : registerCount ≤ maxRegisters) (position : Nat) :
    (entry.inputField position).toNat < registerCount := by
  have inside : entry.inputs.getD position 0 < registerCount := by
    rw [List.getD_eq_getElem?_getD]
    cases read : entry.inputs[position]? with
    | none => exact proper.positive
    | some input => exact proper.inputs input (List.mem_of_getElem? read)
  rw [inputField, UInt8.toNat_ofNat_of_lt' (Nat.lt_of_lt_of_le inside small)]
  exact inside

theorem toNat_register (proper : entry.Proper graph registerCount node)
    (small : registerCount ≤ maxRegisters) :
    (UInt8.ofNat entry.register).toNat = entry.register :=
  UInt8.toNat_ofNat_of_lt' (Nat.lt_of_lt_of_le proper.register small)

/-- The instruction of a proper entry fits and does not end the program. -/
theorem fits (proper : entry.Proper graph registerCount node)
    (counted : node.parameters.length < UInt32.size)
    (small : registerCount ≤ maxRegisters) :
    (entry.instruction graph).Fits registerCount ∧
      (entry.instruction graph).opcode ≠ .halt := by
  rw [instruction_of_node? proper.found, proper.opcode]
  constructor
  · constructor
    · exact Opcode.ne_point_of_hasKernel proper.admissible.kernel
    · exact proper.inputField_lt small 0
    · intro _
      rw [proper.toNat_register small]
      exact proper.register
    · exact fun _ => proper.inputField_lt small 1
    · exact proper.admissible.parameters
    · exact counted
  · exact Opcode.ne_halt_of_hasKernel proper.admissible.kernel

/-- The instruction of a proper entry encodes it. -/
theorem encodes (proper : entry.Proper graph registerCount node)
    (small : registerCount ≤ maxRegisters) :
    entry.Encodes graph (entry.instruction graph) := by
  have narrow : ∀ input ∈ entry.inputs, (UInt8.ofNat input).toNat = input :=
    fun input member => UInt8.toNat_ofNat_of_lt'
      (Nat.lt_of_lt_of_le (proper.inputs input member) small)
  rw [instruction_of_node? proper.found]
  constructor
  · exact ⟨node, proper.found, proper.opcode.symm, rfl⟩
  · rfl
  · exact proper.toNat_register small
  · rcases proper.inputs_cases with
      ⟨first, inputs, unread⟩ | ⟨first, second, inputs, reads⟩
    · have same := narrow first (by simp [inputs])
      simp [MachineStep.operands, MachineStep.ofInstruction, proper.opcode,
        unread, inputField, inputs, same]
    · have firstSame := narrow first (by simp [inputs])
      have secondSame := narrow second (by simp [inputs])
      simp [MachineStep.operands, MachineStep.ofInstruction, proper.opcode,
        reads, inputField, inputs, firstSame, secondSame]
  · intro single
    rcases List.length_eq_one_iff.mp single with ⟨first, inputs⟩
    simp [inputField, inputs]

end Proper

end ScheduleEntry

namespace Placement

variable {α : Type u} {graph : Graph α} {uses : Array Nat}

/-- An entry was placed by an application behind those before it. -/
theorem exists_application_of_mem {history : History} {entry : ScheduleEntry}
    (member : entry ∈ (ofHistory graph uses history).entries) :
    ∃ later application earlier, history = later ++ application :: earlier ∧
      entry = (ofHistory graph uses earlier).entry graph application := by
  induction history with
  | nil => simp [ofHistory, empty] at member
  | cons latest earlier induction =>
      rw [ofHistory, apply, List.mem_cons] at member
      rcases member with rfl | member
      · exact ⟨[], latest, earlier, rfl, rfl⟩
      · rcases induction member with
          ⟨later, application, before, rfl, placed⟩
        exact ⟨latest :: later, application, before, rfl, placed⟩

/-- An application reads registers of the register file. -/
theorem Allocated.inputs_lt {placement : Placement} {computed : List Computed}
    {pending : Computed → Nat} {application : Application}
    (allocated : placement.Allocated computed pending)
    (known : ∀ input ∈ application.inputs, input ∈ computed) :
    ∀ register ∈ placement.inputs application,
      register < placement.allocator.registersNeeded := by
  intro register member
  rw [inputs, List.mem_map] at member
  rcases member with ⟨input, read, rfl⟩
  rcases allocated.placed input (known input read) with
    ⟨register, placed, inside⟩
  rw [placed, Option.getD_some]
  exact inside

end Placement

namespace History

variable {graph : Graph Single} {root : NodeId}

/-- Every entry of a complete history but that of the point is proper. -/
theorem Complete.exists_proper (valid : graph.Valid) {history : History}
    (complete : history.Complete graph root) {entry : ScheduleEntry}
    (member : entry ∈ (placement graph root history).entries)
    (going : entry.opcode ≠ .point) :
    ∃ node, entry.Proper graph
      (placement graph root history).allocator.registersNeeded node := by
  rcases Placement.exists_application_of_mem member with
    ⟨later, application, earlier, rfl, rfl⟩
  have notPoint : application.result ≠ .node 0 := by
    intro isPoint
    apply going
    rw [Placement.entry, isPoint]
    exact valid.opcodeAt_zero
  have inHistory : application ∈ later ++ application :: earlier := by simp
  rcases complete.exists_admissible valid inHistory notPoint with
    ⟨node, found, admissible⟩
  -- The entry was placed behind the earlier part, which has its inputs in registers.
  have known := complete.sound.of_append.1
  have completeBefore : Complete graph root
      (later ++ [application] ++ earlier) := by simpa using complete
  have more := Placement.registersNeeded_le_apply graph (graph.uses root)
    (placement graph root earlier) application
  have most := Placement.registersNeeded_le_append graph (graph.uses root) later
    (application :: earlier)
  refine ⟨node, found, admissible, Graph.opcodeAt_of_node? found, ?_, ?_, ?_⟩
  · exact Nat.lt_of_lt_of_le
      (Placement.target_lt_registersNeeded graph (graph.uses root) _ _) most
  · intro register read
    have inside := (completeBefore.allocated valid _).inputs_lt known register read
    exact Nat.lt_of_lt_of_le inside (Nat.le_trans more most)
  · rw [Placement.entry, Placement.inputs, List.length_map]
    exact (complete.shaped application inHistory).length_inputs found admissible

end History

end SolidField
