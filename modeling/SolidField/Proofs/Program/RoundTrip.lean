import Mathlib.Data.List.Forall2
import SolidField.Proofs.Program.Compilation
import SolidField.Proofs.Program.Liveness
import SolidField.Proofs.Schedule.Optimum

/-!
# Loading what was compiled

A graph compiles to a program that its own loader accepts.  Decoding gives back
the best schedule: entry by entry the operation, the registers and the parameters
of its node, and the register of the root at the end.  Its machine evaluates a batch
as the points one by one, which not every program does that the loader accepts.
-/

namespace SolidField

namespace History

variable {graph : Graph Single} {root : NodeId} {history : History}

/-- The instructions of a complete history encode its entries, in order. -/
theorem Complete.forall₂_encodes (valid : graph.Valid)
    (complete : history.Complete graph root) (trial : Nat)
    (small : (placement graph root history).allocator.registersNeeded ≤
      maxRegisters) :
    let schedule := (placement graph root history).schedule trial
    let entries := schedule.entries.filter fun entry => entry.opcode ≠ .point
    List.Forall₂ (ScheduleEntry.Encodes graph) entries
      (entries.map fun entry => entry.instruction graph) := by
  intro schedule entries
  rw [List.forall₂_map_right_iff, List.forall₂_same]
  intro entry member
  simp only [entries, schedule, Placement.schedule, List.mem_filter,
    List.mem_reverse, decide_eq_true_eq] at member
  rcases complete.exists_proper valid member.1 member.2 with ⟨node, proper⟩
  exact proper.encodes small

/-- All register fields of the instructions are registers, used or not. -/
theorem Complete.fields_lt (valid : graph.Valid)
    (complete : history.Complete graph root) (trial : Nat)
    (small : (placement graph root history).allocator.registersNeeded ≤
      maxRegisters) :
    let needed := (placement graph root history).allocator.registersNeeded
    ∀ instruction ∈
        ((placement graph root history).schedule trial).instructions graph,
      instruction.output.toNat < needed ∧ instruction.input1.toNat < needed ∧
        instruction.input2.toNat < needed := by
  intro needed
  have result := complete.resultRegister_lt valid trial
  have positive : 0 < needed := Nat.lt_of_le_of_lt (Nat.zero_le _) result
  rw [Schedule.instructions, List.forall_mem_append, List.forall_mem_singleton]
  constructor
  · simp only [List.forall_mem_map, List.mem_filter, Placement.schedule,
      List.mem_reverse, decide_eq_true_eq]
    rintro entry ⟨member, going⟩
    rcases complete.exists_proper valid member going with ⟨node, proper⟩
    rw [ScheduleEntry.instruction_of_node? proper.found]
    refine ⟨?_, proper.inputField_lt small 0, proper.inputField_lt small 1⟩
    rw [proper.toNat_register small]
    exact proper.register
  · rw [Instruction.result,
      UInt8.toNat_ofNat_of_lt' (Nat.lt_of_lt_of_le result small)]
    exact ⟨positive, result, positive⟩

/--
A batch on the machine of a complete history gives the values of its points one by
one: every file of its size gives the value of the root.
-/
theorem Complete.exists_evalBatch (valid : graph.Valid)
    (complete : history.Complete graph root) (trial : Nat)
    (small : (placement graph root history).allocator.registersNeeded ≤
      maxRegisters) (points : List (Vec3 Single)) :
    let placement := placement graph root history
    let machine : Machine :=
      ⟨placement.steps graph, placement.allocator.registersNeeded,
        (placement.schedule trial).resultRegister⟩
    ∃ values, machine.evalBatch points = .ok values ∧
      values.map .ok = points.map machine.eval := by
  intro placement machine
  rcases exists_folding complete.sound complete.shaped with
    ⟨folding, isFolding, ordered⟩
  have size : machine.registerFile.size = machine.registerCount :=
    Array.size_replicate
  have each : ∀ point (registers : RegisterFile),
      registers.size = machine.registerCount →
        ∃ value left, machine.evalWith point registers = .ok (value, left) ∧
          machine.eval point = .ok value ∧
          left.size = machine.registerCount := by
    intro point registers sameSize
    rcases Graph.exists_foldedValuation valid isFolding point with
      ⟨value, folded⟩
    rcases complete.evalWith_eq valid trial small isFolding ordered folded
        (Nat.le_of_eq sameSize.symm) with
      ⟨left, evaluated⟩
    rcases complete.evalWith_eq valid trial small isFolding ordered folded
        (Nat.le_of_eq size.symm) with
      ⟨alone, evaluatedAlone⟩
    refine ⟨value root, left, evaluated, ?_, ?_⟩
    · exact congrArg (Except.map Prod.fst) evaluatedAlone
    · exact (Machine.size_of_evalWith evaluated).trans sameSize
  rcases Machine.exists_evalAll each points size with
    ⟨values, left, run, same⟩
  exact ⟨values, Machine.evalBatch_of_evalAll run, same⟩

/-- The last entry of a complete history is that of its root. -/
theorem Complete.exists_getLast? (valid : graph.Valid)
    (complete : history.Complete graph root) (trial : Nat) :
    let schedule := (placement graph root history).schedule trial
    ∃ entry, schedule.entries.getLast? = some entry ∧ entry.node = root ∧
      entry.register = schedule.resultRegister := by
  match history with
  | [] => exact absurd complete.computesRoot (by simp [results])
  | application :: earlier =>
      have result := complete.result_eq valid
      refine ⟨(placement graph root earlier).entry graph application, ?_, ?_, ?_⟩
      · simp [Placement.schedule, Placement.ofHistory, Placement.apply]
      · rw [Placement.entry, result]
        rfl
      · simp [Placement.schedule, Schedule.resultRegister, Placement.ofHistory,
          Placement.apply]

end History

/-- A root compiles to its best schedule, that of a complete history. -/
theorem Graph.Valid.exists_complete {graph larger : Graph Single}
    (valid : graph.Valid) {root : NodeId} {config : CompileConfig}
    {program : Program}
    (compiled : graph.compile root config = .ok (program, larger)) :
    ∃ history trial, History.Complete graph root history ∧
      (history.placement graph root).allocator.registersNeeded ≤
        config.maxRegisters ∧
      config.maxRegisters ≤ maxRegisters ∧
      graph.bestSchedule root config.randomPasses config.seed =
        .ok ((history.placement graph root).schedule trial) ∧
      program =
        ((history.placement graph root).schedule trial).program graph := by
  rcases compile_eq_ok_iff.mp compiled with
    ⟨-, addressable, schedule, best, fits, isProgram, -⟩
  have optimum := optimum_of_bestSchedule best
  rcases valid.exists_schedule (inside_of_bestSchedule best) _ _ with
    ⟨history, complete, scheduled⟩
  rw [optimum.isTrial, Except.ok.injEq] at scheduled
  generalize schedule.trial = trial at scheduled
  subst schedule
  exact ⟨history, trial, complete, fits, addressable, best, isProgram⟩

namespace Graph

/--
Whatever nodes are asked for, the program that a root compiles to evaluates a list
of points as it evaluates each one alone.
-/
theorem exists_evalBatch_of_compile (requests : List (NodeRequest Single))
    (counted : ∀ request ∈ requests,
      request.opcode.parameters = .variadic →
        request.parameters.length < UInt32.size)
    (root : NodeId) (config : CompileConfig) {program : Program}
    {larger : Graph Single}
    (compiled : (initial.makeAll requests).compile root config =
      .ok (program, larger)) :
    ∃ machine, Machine.load program = .ok machine ∧
      ∀ points, ∃ values, machine.evalBatch points = .ok values ∧
        values.map .ok = points.map machine.eval := by
  have valid := valid_makeAll requests
  have countable := countable_makeAll counted
  rcases valid.exists_complete compiled with
    ⟨history, trial, complete, fits, addressable, -, rfl⟩
  have small := Nat.le_trans fits addressable
  exact ⟨_, complete.load_program valid countable trial small,
    complete.exists_evalBatch valid trial small⟩

/--
Whatever nodes are asked for, a program that a root compiles to stays within its
budget of registers, all its register fields do, its own loader accepts it, and
decoding gives back the best schedule: the instructions encode the entries other
than that of the evaluation point, in order, and the result is the register of the
last entry, which is that of the root.
-/
theorem compiled_program_round_trips (requests : List (NodeRequest Single))
    (counted : ∀ request ∈ requests,
      request.opcode.parameters = .variadic →
        request.parameters.length < UInt32.size)
    (root : NodeId) (config : CompileConfig) {program : Program}
    {larger : Graph Single}
    (compiled : (initial.makeAll requests).compile root config =
      .ok (program, larger)) :
    let graph := initial.makeAll requests
    program.registerCount ≤ config.maxRegisters ∧ config.maxRegisters ≤ 256 ∧
      Program.ofBytes program.registerCount program.bytecode = .ok program ∧
      ∃ schedule body result,
        graph.bestSchedule root config.randomPasses config.seed =
            .ok schedule ∧
          schedule.registersNeeded = program.registerCount ∧
          program.decode = .ok (body ++ [.result result]) ∧
          List.Forall₂ (ScheduleEntry.Encodes graph)
            (schedule.entries.filter fun entry => entry.opcode ≠ .point) body ∧
          (∃ entry, schedule.entries.getLast? = some entry ∧
            entry.node = root ∧ entry.register = result.toNat) ∧
          ∀ instruction ∈ body ++ [.result result],
            instruction.output.toNat < program.registerCount ∧
              instruction.input1.toNat < program.registerCount ∧
              instruction.input2.toNat < program.registerCount := by
  intro graph
  have valid : graph.Valid := valid_makeAll requests
  have countable : graph.Countable := countable_makeAll counted
  rcases valid.exists_complete compiled with
    ⟨history, trial, complete, fits, addressable, best, rfl⟩
  have small := Nat.le_trans fits addressable
  have wellformed := complete.wellformed valid countable trial small
  rcases complete.exists_getLast? valid trial with
    ⟨entry, last, isRoot, register⟩
  have returned := UInt8.toNat_ofNat_of_lt'
    (Nat.lt_of_lt_of_le (complete.resultRegister_lt valid trial) small)
  refine ⟨fits, addressable, Program.ofBytes_encodeAll wellformed, _, _, _, best,
    rfl, Program.decode_encodeAll wellformed,
    complete.forall₂_encodes valid trial small,
    ⟨entry, last, isRoot, register.trans returned.symm⟩,
    complete.fields_lt valid trial small⟩

/-- The shared union compiles to four instructions on two registers. -/
theorem sharedUnion_round_trips :
    let graph := initial.makeAll sharedUnion
    ∃ program larger, graph.compile ⟨3⟩ ⟨1, 7, 2⟩ = .ok (program, larger) ∧
      program.registerCount = 2 ∧
      Program.ofBytes program.registerCount program.bytecode = .ok program ∧
      ∃ schedule body result,
        graph.bestSchedule ⟨3⟩ 1 7 = .ok schedule ∧
          program.decode = .ok (body ++ [.result result]) ∧
          List.Forall₂ (ScheduleEntry.Encodes graph)
            (schedule.entries.filter fun entry => entry.opcode ≠ .point) body ∧
          body.length = 4 := by
  intro graph
  rcases exists_compile_sharedUnion with ⟨⟨program, larger⟩, compiled, two⟩
  have operations : (graph.bestSchedule ⟨3⟩ 1 7).toOption.map
      (fun schedule => (schedule.entries.filter
        fun entry => entry.opcode ≠ .point).length) = some 4 := by
    decide +kernel
  rcases
      compiled_program_round_trips sharedUnion (by decide) ⟨3⟩ ⟨1, 7, 2⟩
        compiled with
    ⟨-, -, accepted, schedule, body, result, best, -, decoded, encodes, -⟩
  rcases exists_eq_ok_of_map operations with ⟨same, found, length⟩
  obtain rfl := Except.ok.inj (found.symm.trans best)
  exact ⟨program, larger, compiled, two, accepted, same, body, result, best,
    decoded, encodes, encodes.length_eq.symm.trans length⟩

end Graph

end SolidField
