import SolidField.Schedule.Trial

/-!
# Sources of reads

An entry of a schedule reads registers, and what it finds in one is the result of the
entry that last wrote it.  `Graph.LiveOrder` says of a schedule that these entries are
the right ones: that it applies the nodes below its root to their dependencies, each
of them once, and does nothing else.
-/

universe u

namespace SolidField

/-- The position of the last write to a register, in entries from the latest one. -/
def lastWriter? (register : Nat) : List ScheduleEntry → Option Nat
  | [] => none
  | entry :: earlier =>
      if entry.register = register then some earlier.length
      else lastWriter? register earlier

namespace Schedule

variable (schedule : Schedule)

/-- Where the inputs of an entry were last written, in their order. -/
def sources (position : Nat) : List (Option Nat) :=
  match schedule.entries[position]? with
  | none => []
  | some entry =>
      entry.inputs.map fun register =>
        lastWriter? register (schedule.entries.take position).reverse

/-- The positions of the entries of a node, in their order. -/
def positions (id : NodeId) : List Nat :=
  (schedule.entries.zipIdx.filter fun entry => entry.1.node = id).map Prod.snd

/-- The entry of a node that computes the node itself is its last one. -/
def completion? (id : NodeId) : Option Nat :=
  (schedule.positions id).getLast?

/-- Where the result of the program was last written. -/
def returned? : Option Nat :=
  lastWriter? schedule.resultRegister schedule.entries.reverse

/--
How often the entries from a position on read the value that a register holds there;
the program reads its result once more.
-/
def pendingReads (position register : Nat) : Nat :=
  match lastWriter? register (schedule.entries.take position).reverse with
  | none => 0
  | some writer =>
      (((List.range schedule.entries.length).drop position).flatMap
          schedule.sources).count (some writer) +
        if schedule.returned? = some writer then 1 else 0

/--
The entries of a node apply its operation to its dependencies.  More than two of them
are folded: the inputs of the binary applications are every occurrence of a dependency
and every partial result, each once.
-/
structure Computes {α : Type u} (id : NodeId) (node : Node α) : Prop where
  opcode : ∀ entry ∈ schedule.entries, entry.node = id → entry.opcode = node.opcode
  direct : node.dependencies.length ≤ 2 → ∃ position,
    schedule.positions id = [position] ∧
      schedule.sources position = node.dependencies.map schedule.completion?
  folded : 2 < node.dependencies.length →
    (schedule.positions id).length = node.dependencies.length - 1 ∧
      (∀ position ∈ schedule.positions id, (schedule.sources position).length = 2) ∧
        ((schedule.positions id).flatMap schedule.sources).Perm
          ((schedule.positions id).dropLast.map some ++
            node.dependencies.map schedule.completion?)

end Schedule

namespace Graph

variable {α : Type u}

/-- A node is needed for the root: it is the root, or a needed node depends on it. -/
inductive Needs (graph : Graph α) (root : NodeId) : NodeId → Prop
  | root : Needs graph root root
  | dependency {id dependency : NodeId} {node : Node α} (needs : Needs graph root id)
      (found : graph.node? id = some node) (listed : dependency ∈ node.dependencies) :
      Needs graph root dependency

/-- A schedule is what the root needs, in an order of dependencies. -/
structure LiveOrder (graph : Graph α) (root : NodeId) (schedule : Schedule) :
    Prop where
  computes : ∀ id node, graph.Needs root id → graph.node? id = some node →
    schedule.Computes id node
  needed : ∀ entry ∈ schedule.entries, graph.Needs root entry.node
  first : schedule.entries.head? = some ⟨point, .point, 0, []⟩
  last : schedule.entries.getLast?.map ScheduleEntry.node = some root
  /-- An entry comes after those that produce its inputs. -/
  produced : ∀ position, ∀ source ∈ schedule.sources position,
    ∃ producer < position, source = some producer
  /-- A result is read by a later entry, or it is the result of the program. -/
  read : ∀ position < schedule.entries.length,
    (∃ later, position < later ∧ some position ∈ schedule.sources later) ∨
      schedule.returned? = some position

end Graph

end SolidField
