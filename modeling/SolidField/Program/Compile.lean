import SolidField.Program.Basic
import SolidField.Schedule.Search
import SolidField.Shape.Lowering

/-!
# Compilation

A graph is compiled by scheduling it, checking that the registers suffice and
encoding the schedule.  The registers are written back into the graph, and into
the graph only if everything else went well.
-/

namespace SolidField

/-- The settings of the compiler. -/
structure CompileConfig where
  randomPasses : Nat := 100
  seed : UInt64 := 0x00C0DECAD5EED000
  /-- The number of registers that a program may use. -/
  maxRegisters : Nat := 32
deriving DecidableEq, Repr

/-- Why a graph or shape does not compile. -/
inductive CompileError where
  | build (error : BuildError Single)
  | registerBudgetExceeded (needed budget : Nat)
  | invalidRegisterBudget (budget : Nat)
deriving DecidableEq

namespace CompileError

def message : CompileError → String
  | build error => error.message
  | registerBudgetExceeded needed budget =>
      "program needs " ++ toString needed ++ " registers but the VM provides " ++
        toString budget
  | invalidRegisterBudget budget =>
      "register budget " ++ toString budget ++ " is outside 1..=256"

end CompileError

namespace ScheduleEntry

/-- The register field of an input; a missing input has register zero. -/
def inputField (entry : ScheduleEntry) (position : Nat) : UInt8 :=
  UInt8.ofNat (entry.inputs.getD position 0)

/-- The instruction of an operation, with the parameters of its node. -/
def instruction (entry : ScheduleEntry) (graph : Graph Single) : Instruction where
  opcode := entry.opcode
  output := UInt8.ofNat entry.register
  input1 := entry.inputField 0
  input2 := entry.inputField 1
  parameters :=
    match graph.node? entry.node with
    | some node => node.parameters
    | none => []

end ScheduleEntry

namespace Schedule

/-- The instructions of a schedule; the evaluation point needs none. -/
def instructions (schedule : Schedule) (graph : Graph Single) : List Instruction :=
  (schedule.entries.filter fun entry => entry.opcode ≠ .point).map
      (fun entry => entry.instruction graph) ++
    [.result (UInt8.ofNat schedule.resultRegister)]

/-- The program of a schedule. -/
def program (schedule : Schedule) (graph : Graph Single) : Program :=
  ⟨schedule.registersNeeded, encodeAll (schedule.instructions graph)⟩

/-- Write the registers of a schedule into the nodes of a graph, in order. -/
def assignRegisters (schedule : Schedule) (graph : Graph Single) : Graph Single :=
  schedule.entries.foldl
    (fun graph entry => graph.setRegister entry.node (UInt8.ofNat entry.register))
    graph

end Schedule

namespace Graph

/-- Compile the value of a root; the graph receives the registers. -/
def compile (graph : Graph Single) (root : NodeId) (config : CompileConfig) :
    Except CompileError (Program × Graph Single) :=
  if config.maxRegisters = 0 ∨ maxRegisters < config.maxRegisters then
    .error (.invalidRegisterBudget config.maxRegisters)
  else
    match graph.bestSchedule root config.randomPasses config.seed with
    | .error error => .error (.build error)
    | .ok schedule =>
        if config.maxRegisters < schedule.registersNeeded then
          .error
            (.registerBudgetExceeded schedule.registersNeeded config.maxRegisters)
        else
          .ok (schedule.program graph, schedule.assignRegisters graph)

/-- A graph compiles if its best schedule fits the registers that it may use. -/
theorem compile_eq_ok_iff {graph larger : Graph Single} {root : NodeId}
    {config : CompileConfig} {program : Program} :
    graph.compile root config = .ok (program, larger) ↔
      0 < config.maxRegisters ∧ config.maxRegisters ≤ maxRegisters ∧
        ∃ schedule,
          graph.bestSchedule root config.randomPasses config.seed =
              .ok schedule ∧
            schedule.registersNeeded ≤ config.maxRegisters ∧
            program = schedule.program graph ∧
            larger = schedule.assignRegisters graph := by
  unfold compile
  split
  · next refused =>
      constructor
      · intro compiled
        cases compiled
      · rintro ⟨positive, addressable, -⟩
        omega
  · next allowed =>
      cases graph.bestSchedule root config.randomPasses config.seed with
      | error error => simp
      | ok schedule =>
          by_cases exceeded : config.maxRegisters < schedule.registersNeeded
          · simp only [exceeded, if_true, reduceCtorEq, Except.ok.injEq,
              false_iff]
            rintro ⟨-, -, _, rfl, fits, -⟩
            omega
          · simp only [exceeded, if_false, Except.ok.injEq, Prod.mk.injEq]
            constructor
            · rintro ⟨rfl, rfl⟩
              exact ⟨by omega, by omega, schedule, rfl, by omega, rfl, rfl⟩
            · rintro ⟨-, -, _, rfl, -, rfl, rfl⟩
              exact ⟨rfl, rfl⟩

/-- The best schedule is refused if it needs more registers than it may use. -/
theorem compile_eq_error {graph : Graph Single} {root : NodeId}
    {config : CompileConfig} {schedule : Schedule}
    (found : graph.bestSchedule root config.randomPasses config.seed =
      .ok schedule)
    (positive : 0 < config.maxRegisters)
    (addressable : config.maxRegisters ≤ maxRegisters)
    (exceeded : config.maxRegisters < schedule.registersNeeded) :
    graph.compile root config =
      .error
        (.registerBudgetExceeded schedule.registersNeeded
          config.maxRegisters) := by
  rw [compile, if_neg (by omega), found]
  exact if_pos exceeded

end Graph

namespace Shape

/-- Compile a shape in a graph of its own. -/
def compile (shape : Shape Single) (config : CompileConfig) :
    Except CompileError Program :=
  match shape.lower Graph.initial with
  | (.error error, _) => .error (.build error)
  | (.ok root, graph) => (graph.compile root config).map Prod.fst

end Shape

end SolidField
