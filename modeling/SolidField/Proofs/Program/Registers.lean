import SolidField.Program.Compile
import SolidField.Proofs.Graph.Sharing

/-!
# Registers of nodes

The registers that compilations write into a graph are notes: nothing that a later
compilation does depends on them.  A node keeps the register of the last entry that a
schedule has for it, or the one that it had if the schedule has none.
-/

universe u

namespace SolidField

/-! ## Graphs without registers -/

/-- The node without the register that a compilation gave it. -/
def Node.unassigned {α : Type u} (node : Node α) : Node α :=
  { node with register := none }

namespace Graph

variable {α : Type u} {graph other : Graph α}

/-- The graph without the registers of its nodes. -/
def unassigned (graph : Graph α) : Graph α :=
  { graph with nodes := graph.nodes.map Node.unassigned }

@[simp]
theorem size_unassigned (graph : Graph α) : graph.unassigned.size = graph.size :=
  Array.size_map

theorem getElem?_unassigned (graph : Graph α) (index : Nat) :
    graph.unassigned.nodes[index]? = (graph.nodes[index]?).map Node.unassigned :=
  Array.getElem?_map

@[simp]
theorem node?_unassigned (graph : Graph α) (id : NodeId) :
    graph.unassigned.node? id = (graph.node? id).map Node.unassigned :=
  graph.getElem?_unassigned id.index

@[simp]
theorem dependencies_unassigned (graph : Graph α) (index : Nat) :
    graph.unassigned.dependencies index = graph.dependencies index := by
  simp only [dependencies, getElem?_unassigned]
  cases graph.nodes[index]? <;> rfl

theorem operands_unassigned (graph : Graph α) :
    graph.unassigned.operands = graph.operands := by
  rw [operands, operands, unassigned, Array.toList_map, List.flatMap_map]
  rfl

/-- Graphs that differ in registers only have the same nodes. -/
theorem exists_node?_of_unassigned_eq (same : graph.unassigned = other.unassigned)
    {id : NodeId} {node : Node α} (found : graph.node? id = some node) :
    ∃ former, other.node? id = some former ∧ former.unassigned = node.unassigned := by
  have found : other.unassigned.node? id = some node.unassigned := by
    rw [← same, node?_unassigned, found]
    rfl
  rw [node?_unassigned, Option.map_eq_some_iff] at found
  exact found

theorem extends_of_unassigned_eq (same : graph.unassigned = other.unassigned) :
    graph.Extends other := by
  intro id node found
  rcases exists_node?_of_unassigned_eq same found with ⟨former, formerFound, equal⟩
  refine ⟨former, formerFound, ?_⟩
  exact (congrArg Node.operation equal :)

/-- A graph with the nodes of a valid one is valid. -/
theorem Valid.of_extends (valid : graph.Valid) (kept : graph.Extends other)
    (known : other.Extends graph) : other.Valid where
  point := by
    rcases valid.point with ⟨point, found, isPoint, none⟩
    rcases kept Graph.point point found with ⟨same, sameFound, operation⟩
    rcases Node.eq_of_operation_eq operation with ⟨opcode, -, dependencies, -⟩
    exact ⟨same, sameFound, opcode.trans isPoint, dependencies.trans none⟩
  admissible := by
    intro id node found notPoint
    rcases known id node found with ⟨former, formerFound, operation⟩
    exact (valid.admissible id former formerFound notPoint).of_operation_eq operation

/-! ## What does not depend on registers -/

theorem require_unassigned (graph : Graph α) (id : NodeId) :
    graph.unassigned.require id = graph.require id := by
  rw [require, require, size_unassigned]

theorem countUses_unassigned (graph : Graph α) (bound : Nat) (uses : Array Nat) :
    graph.unassigned.countUses bound uses = graph.countUses bound uses := by
  induction bound generalizing uses with
  | zero => rfl
  | succ bound induction =>
      rw [countUses, countUses, induction, induction, dependencies_unassigned]

theorem uses_unassigned (graph : Graph α) (root : NodeId) :
    graph.unassigned.uses root = graph.uses root := by
  rw [uses, uses, countUses_unassigned, size_unassigned]

theorem visit_unassigned (graph : Graph α) (uses : Array Nat) (bound : Nat) :
    Trial.visit graph.unassigned uses bound = Trial.visit graph uses bound := by
  induction bound with
  | zero => rfl
  | succ bound induction =>
      funext index trial
      simp only [Trial.visit, getElem?_unassigned, dependencies_unassigned, induction]
      cases graph.nodes[index]? <;> rfl

theorem scheduleWith_unassigned (graph : Graph α) (uses : Array Nat) (root : NodeId)
    (order : TrialOrder) (trial : Nat) :
    graph.unassigned.scheduleWith uses root order trial =
      graph.scheduleWith uses root order trial := by
  rw [scheduleWith, scheduleWith, size_unassigned, visit_unassigned]

theorem bestUpTo_unassigned (graph : Graph α) (uses : Array Nat) (root : NodeId)
    (seed : UInt64) (last : Nat) :
    graph.unassigned.bestUpTo uses root seed last =
      graph.bestUpTo uses root seed last := by
  induction last with
  | zero => exact graph.scheduleWith_unassigned uses root _ 0
  | succ trial induction =>
      rw [bestUpTo, bestUpTo, induction, scheduleWith_unassigned]

theorem bestSchedule_unassigned (graph : Graph α) (root : NodeId) (passes : Nat)
    (seed : UInt64) :
    graph.unassigned.bestSchedule root passes seed =
      graph.bestSchedule root passes seed := by
  rw [bestSchedule, bestSchedule, require_unassigned, uses_unassigned,
    bestUpTo_unassigned]

end Graph

theorem ScheduleEntry.instruction_unassigned (entry : ScheduleEntry)
    (graph : Graph Single) :
    entry.instruction graph.unassigned = entry.instruction graph := by
  simp only [instruction, Graph.node?_unassigned]
  cases graph.node? entry.node <;> rfl

theorem Schedule.program_unassigned (schedule : Schedule) (graph : Graph Single) :
    schedule.program graph.unassigned = schedule.program graph := by
  simp only [program, instructions, ScheduleEntry.instruction_unassigned]

/-- Whether a root compiles, and to what, does not depend on registers. -/
theorem Graph.compile_unassigned (graph : Graph Single) (root : NodeId)
    (config : CompileConfig) :
    (graph.unassigned.compile root config).map Prod.fst =
      (graph.compile root config).map Prod.fst := by
  rw [compile, compile, bestSchedule_unassigned]
  split
  · rfl
  · cases graph.bestSchedule root config.randomPasses config.seed with
    | error error => rfl
    | ok schedule =>
        simp only [Schedule.program_unassigned]
        split <;> rfl

/-! ## Registers that are written -/

namespace Graph

variable {α : Type u}

theorem node?_setRegister (graph : Graph α) (id other : NodeId) (register : UInt8) :
    (graph.setRegister id register).node? other =
      (graph.node? other).map fun node =>
        if id = other then { node with register := some register } else node := by
  rcases id with ⟨index⟩
  rcases other with ⟨otherIndex⟩
  simp only [setRegister, node?, Array.getElem?_modify, NodeId.mk.injEq]
  split <;> simp

theorem unassigned_setRegister (graph : Graph α) (id : NodeId) (register : UInt8) :
    (graph.setRegister id register).unassigned = graph.unassigned := by
  refine congrArg (Graph.mk · graph.hits) (Array.ext_getElem? fun index => ?_)
  show (graph.setRegister id register).unassigned.node? ⟨index⟩ =
    graph.unassigned.node? ⟨index⟩
  rw [node?_unassigned, node?_unassigned, node?_setRegister, Option.map_map]
  congr 1
  funext node
  simp only [Function.comp_apply]
  split <;> rfl

/-- Write the registers of entries into their nodes, in order. -/
def assignAll (graph : Graph Single) (entries : List ScheduleEntry) : Graph Single :=
  entries.foldl
    (fun graph entry => graph.setRegister entry.node (UInt8.ofNat entry.register)) graph

theorem assignAll_append (graph : Graph Single) (earlier later : List ScheduleEntry) :
    graph.assignAll (earlier ++ later) = (graph.assignAll earlier).assignAll later :=
  List.foldl_append

theorem unassigned_assignAll (graph : Graph Single) (entries : List ScheduleEntry) :
    (graph.assignAll entries).unassigned = graph.unassigned := by
  induction entries generalizing graph with
  | nil => rfl
  | cons entry entries induction =>
      exact (induction _).trans (graph.unassigned_setRegister _ _)

/-- A node that no entry is of stays as it is. -/
theorem node?_assignAll_of_absent (graph : Graph Single) {id : NodeId}
    {entries : List ScheduleEntry} (absent : ∀ entry ∈ entries, entry.node ≠ id) :
    (graph.assignAll entries).node? id = graph.node? id := by
  induction entries generalizing graph with
  | nil => rfl
  | cons entry entries induction =>
      rw [List.forall_mem_cons] at absent
      refine (induction _ absent.2).trans ?_
      rw [node?_setRegister]
      simp only [if_neg absent.1, Option.map_id']

/-- A node gets the register of its last entry. -/
theorem node?_assignAll_of_last (graph : Graph Single)
    {earlier later : List ScheduleEntry} {entry : ScheduleEntry}
    (last : ∀ other ∈ later, other.node ≠ entry.node) :
    (graph.assignAll (earlier ++ entry :: later)).node? entry.node =
      (graph.node? entry.node).map fun node =>
        { node with register := some (UInt8.ofNat entry.register) } := by
  let give (node : Node Single) : Node Single :=
    { node with register := some (UInt8.ofNat entry.register) }
  -- What the node had before is written over.
  have given (graph : Graph Single) : (graph.node? entry.node).map give =
      (graph.unassigned.node? entry.node).map give := by
    rw [node?_unassigned, Option.map_map]
    rfl
  have before := graph.unassigned_assignAll earlier
  calc (graph.assignAll (earlier ++ entry :: later)).node? entry.node
      = ((graph.assignAll earlier).setRegister entry.node
          (UInt8.ofNat entry.register)).node? entry.node := by
        rw [assignAll_append]
        exact node?_assignAll_of_absent _ last
    _ = ((graph.assignAll earlier).node? entry.node).map give := by
        rw [node?_setRegister]
        simp only [if_true, give]
    _ = (graph.node? entry.node).map give := by
        rw [given, before, ← given]

end Graph

end SolidField
