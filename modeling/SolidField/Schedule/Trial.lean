import SolidField.Graph.Basic
import SolidField.Schedule.Allocator
import SolidField.Schedule.Order

/-!
# Scheduling trials

A trial visits the nodes that a root depends on, dependencies first, and gives
every value a register.  A node with more than two dependencies is folded into
a chain of binary applications, in an order that the trial chooses.

The uses of a node are counted before the trial: its occurrences among the
dependencies of the nodes that the root needs, plus one for the root itself,
whose value the program returns.
-/

universe u

namespace SolidField

/-- An operation in the order of evaluation. -/
structure ScheduleEntry where
  node : NodeId
  opcode : Opcode
  register : Nat
  /-- The registers of the inputs, in the order of the dependencies. -/
  inputs : List Nat
deriving DecidableEq, Repr

/-- Operations in an order of evaluation, with their registers. -/
structure Schedule where
  registersNeeded : Nat
  /-- The operations; the first is the evaluation point, the last the root. -/
  entries : List ScheduleEntry
  trial : Nat
deriving DecidableEq, Repr

namespace Schedule

def resultRegister (schedule : Schedule) : Nat :=
  match schedule.entries.getLast? with
  | some entry => entry.register
  | none => 0

end Schedule

namespace Graph

variable {α : Type u}

/--
Count the uses below an index, from the last node down: every node that is
itself used uses its dependencies.
-/
def countUses (graph : Graph α) : Nat → Array Nat → Array Nat
  | 0, uses => uses
  | index + 1, uses =>
      if uses.getD index 0 = 0 then
        graph.countUses index uses
      else
        graph.countUses index <|
          (graph.dependencies index).foldl
            (fun uses dependency => uses.modify dependency (· + 1)) uses

/--
The uses of every node in a program that returns the root.  They are counted without a
limit; words of 32 bits count the same as long as no node has `2 ^ 32` of them.
-/
def uses (graph : Graph α) (root : NodeId) : Array Nat :=
  graph.countUses graph.size <|
    (Array.replicate graph.size 0).setIfInBounds root.index 1

end Graph

/-- An input of an application: a node, or a partial application of the same node. -/
inductive Operand where
  | node (index : Nat)
  /-- The operation applied to two inputs. -/
  | fold (first second : Operand)
deriving DecidableEq, Repr

namespace Operand

/-- The chain that folds inputs from the left, starting with the first one. -/
def chain (first : Operand) (rest : List Nat) : Operand :=
  rest.foldl (fun folded index => fold folded (node index)) first

/--
The inputs of the outermost application of an operation: the dependencies
themselves if there are at most two; else the last one, and the chain of the
ones before it.
-/
def ofDependencies : List Nat → List Operand
  | first :: second :: third :: rest =>
      let others := second :: third :: rest
      [ node (others.getLast?.getD first),
        chain (node first) others.dropLast ]
  | dependencies => dependencies.map node

end Operand

/-- The state of a trial. -/
structure Trial where
  arrangement : Arrangement
  /-- The registers of the nodes that have been visited. -/
  registers : Array (Option Nat)
  allocator : Allocator
  /-- The operations so far, the latest first. -/
  entries : List ScheduleEntry

namespace Trial

/-- The state before the first visit. -/
def start (size : Nat) (order : TrialOrder) : Trial :=
  ⟨.ofOrder order, Array.replicate size none, .empty, []⟩

def register? (trial : Trial) (index : Nat) : Option Nat :=
  (trial.registers[index]?).join

def arrange {β : Type} (trial : Trial) (items : List β) : List β × Trial :=
  let (items, arrangement) := trial.arrangement.arrange items
  (items, { trial with arrangement })

/--
Emit an application whose inputs are in registers: their reads happen, and the
value takes the lowest register that is then free.
-/
def emit (trial : Trial) (node : NodeId) (opcode : Opcode) (uses : Nat)
    (inputs : List Nat) : Nat × Trial :=
  let (register, allocator) :=
    (inputs.foldl Allocator.release trial.allocator).allocate uses
  (register,
    { trial with
      allocator
      entries := ⟨node, opcode, register, inputs⟩ :: trial.entries })

/-- Visit a node unless that has happened; the answer is its register. -/
def enter (visit : Nat → Trial → Nat × Trial) (index : Nat) (trial : Trial) :
    Nat × Trial :=
  match trial.register? index with
  | some register => (register, trial)
  | none => visit index trial

/-- A visit to each of two inputs, in the order that the trial arranges. -/
def visitBoth (first second : Trial → Nat × Trial) (trial : Trial) :
    (Nat × Nat) × Trial :=
  let (sides, trial) := trial.arrange [true, false]
  if sides.head? = some true then
    let (a, trial) := first trial
    let (b, trial) := second trial
    ((a, b), trial)
  else
    let (b, trial) := second trial
    let (a, trial) := first trial
    ((a, b), trial)

/-- Visit an input; a partial application is emitted with a single use. -/
def visitOperand (visit : Nat → Trial → Nat × Trial) (node : NodeId)
    (opcode : Opcode) : Operand → Trial → Nat × Trial
  | .node index, trial => enter visit index trial
  | .fold first second, trial =>
      let ((a, b), trial) :=
        visitBoth (visitOperand visit node opcode first)
          (visitOperand visit node opcode second) trial
      trial.emit node opcode 1 [a, b]

/-- Visit the inputs of an application; the answer is their registers. -/
def visitInputs (visit : Nat → Trial → Nat × Trial) (node : NodeId)
    (opcode : Opcode) (operands : List Operand) (trial : Trial) :
    List Nat × Trial :=
  match operands with
  | [] => ([], trial)
  | [operand] =>
      let (register, trial) := visitOperand visit node opcode operand trial
      ([register], trial)
  | first :: second :: _ =>
      let ((a, b), trial) :=
        visitBoth (visitOperand visit node opcode first)
          (visitOperand visit node opcode second) trial
      ([a, b], trial)

/-- The inputs of a node; more than two dependencies are arranged first. -/
def operands (trial : Trial) (dependencies : List Nat) :
    List Operand × Trial :=
  if 2 < dependencies.length then
    let (dependencies, trial) := trial.arrange dependencies
    (Operand.ofDependencies dependencies, trial)
  else
    (Operand.ofDependencies dependencies, trial)

/-- Note the register of a node. -/
def assign (trial : Trial) (index register : Nat) : Trial :=
  { trial with
    registers := trial.registers.setIfInBounds index (some register) }

/--
Visit a node below a bound: its inputs first, then the node itself.  Inputs are
earlier nodes, so the bound decreases with every visit.
-/
def visit {α : Type u} (graph : Graph α) (uses : Array Nat) :
    Nat → Nat → Trial → Nat × Trial
  | 0, _, trial => (0, trial)
  | bound + 1, index, trial =>
      match graph.nodes[index]? with
      | none => (0, trial)
      | some node =>
          let (operands, trial) := trial.operands (graph.dependencies index)
          let (inputs, trial) :=
            trial.visitInputs (visit graph uses bound) ⟨index⟩ node.opcode operands
          let (register, trial) :=
            trial.emit ⟨index⟩ node.opcode (uses.getD index 0) inputs
          (register, trial.assign index register)

end Trial

namespace Graph

variable {α : Type u}

/-- The schedule of one trial, from counted uses. -/
def scheduleWith (graph : Graph α) (uses : Array Nat) (root : NodeId)
    (order : TrialOrder) (trial : Nat) : Schedule :=
  let (_, state) :=
    Trial.visit graph uses graph.size root.index (.start graph.size order)
  ⟨state.allocator.registersNeeded, state.entries.reverse, trial⟩

/-- The schedule of one trial, for a root in the graph. -/
def schedule (graph : Graph α) (root : NodeId) (order : TrialOrder)
    (trial : Nat) : Except (BuildError α) Schedule :=
  (graph.require root).map fun _ =>
    graph.scheduleWith (graph.uses root) root order trial

end Graph

end SolidField
