import SolidField.Attempt
import SolidField.Graph.Node

/-!
# Operation graphs

A graph holds every distinct subexpression once.  Its nodes are in the order in
which they were made, the evaluation point first, and a node depends on earlier
nodes only.  Making a node that is already there returns the one that is there.
-/

universe u v

namespace SolidField

/-- Nodes in the order in which they were made. -/
structure Graph (α : Type u) where
  nodes : Array (Node α)
  /-- How often a node that was asked for was already there. -/
  hits : Nat

namespace Graph

variable {α : Type u}

/-- The graph of the evaluation point alone. -/
def initial : Graph α :=
  ⟨#[.point], 0⟩

def point : NodeId :=
  ⟨0⟩

def size (graph : Graph α) : Nat :=
  graph.nodes.size

def node? (graph : Graph α) (id : NodeId) : Option (Node α) :=
  graph.nodes[id.index]?

def dependencies (graph : Graph α) (index : Nat) : List Nat :=
  match graph.nodes[index]? with
  | some node => node.dependencies.map NodeId.index
  | none => []

/-- The position of the node that computes a given operation on given nodes. -/
def find? [DecidableEq α] (graph : Graph α) (opcode : Opcode)
    (parameters : List α) (dependencies : List NodeId) : Option NodeId :=
  (graph.nodes.findIdx? fun node =>
    node.computes opcode parameters dependencies).map NodeId.mk

/-- Count one more consumer of a node; the count wraps around. -/
def addConsumer (nodes : Array (Node α)) (id : NodeId) : Array (Node α) :=
  nodes.modify id.index fun node => { node with consumers := node.consumers + 1 }

/-- Append a node, counting it as a consumer of its dependencies. -/
def insert (graph : Graph α) (node : Node α) : NodeId × Graph α :=
  let nodes := node.dependencies.foldl addConsumer graph.nodes
  (⟨graph.size⟩, { graph with nodes := nodes.push node })

/-- The first reason why an operation cannot be made a node of the graph. -/
def obstacle? (graph : Graph α) (opcode : Opcode) (parameters : List α)
    (dependencies : List NodeId) : Option (BuildError α) :=
  if opcode.isReserved then
    some (.reservedOpcode opcode)
  else if !opcode.arity.accepts dependencies.length then
    some (.arityMismatch opcode dependencies.length)
  else if !opcode.parameters.accepts parameters.length then
    some (.parameterCountMismatch opcode parameters.length)
  else
    (dependencies.find? fun id => graph.size ≤ id.index).map .unknownNode

/--
Make a node, or find the one that computes the same.  The payload of a node
that is found stays as it is.
-/
def make [DecidableEq α] (graph : Graph α) (opcode : Opcode)
    (parameters : List α) (dependencies : List NodeId)
    (payload : Option (Payload α)) : Except (BuildError α) (NodeId × Graph α) :=
  match graph.obstacle? opcode parameters dependencies with
  | some error => .error error
  | none =>
      match graph.find? opcode parameters dependencies with
      | some id => .ok (id, { graph with hits := graph.hits + 1 })
      | none => .ok (graph.insert (.make opcode parameters dependencies payload))

/-- Refuse a node that is not in the graph. -/
def require (graph : Graph α) (id : NodeId) : Except (BuildError α) Unit :=
  if graph.size ≤ id.index then .error (.unknownNode id) else .ok ()

/-- Give a node its register. -/
def setRegister (graph : Graph α) (id : NodeId) (register : UInt8) : Graph α :=
  { graph with
    nodes := graph.nodes.modify id.index fun node =>
      { node with register := some register } }

end Graph

/-- A building step on a graph. -/
abbrev Build (α : Type u) (β : Type v) :=
  Attempt (Graph α) (BuildError α) β

namespace Build

variable {α : Type u}

/-- Make a node; a failure leaves the graph as it is. -/
def make [DecidableEq α] (opcode : Opcode) (parameters : List α)
    (dependencies : List NodeId) (payload : Option (Payload α) := none) :
    Build α NodeId :=
  fun graph =>
    match graph.make opcode parameters dependencies payload with
    | .ok (id, graph) => (.ok id, graph)
    | .error error => (.error error, graph)

end Build

end SolidField
