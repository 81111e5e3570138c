import Mathlib.Data.List.Perm.Basic
import SolidField.Graph.Basic

/-!
# Graphs with an index

A graph finds the node that computes a given operation by looking through its
nodes.  An index knows the node of every operation that has one, so that making
a node takes a single lookup.
-/

universe u

namespace SolidField

instance : Hashable Single :=
  ⟨fun x => hash x.bits⟩

instance : Hashable Opcode :=
  ⟨fun opcode => hash opcode.code⟩

instance : Hashable NodeId :=
  ⟨fun id => hash id.index⟩

/-- What a node is found by. -/
structure NodeKey (α : Type u) where
  opcode : Opcode
  parameters : List α
  dependencies : List NodeId
deriving DecidableEq, Hashable

def Node.key {α : Type u} (node : Node α) : NodeKey α :=
  ⟨node.opcode, node.parameters, node.dependencies⟩

/-- A graph and the node of every key. -/
structure IndexedGraph (α : Type u) [DecidableEq α] [Hashable α] where
  graph : Graph α
  index : Std.HashMap (NodeKey α) NodeId

namespace IndexedGraph

variable {α : Type u} [DecidableEq α] [Hashable α]

def initial : IndexedGraph α where
  graph := .initial
  index := (∅ : Std.HashMap (NodeKey α) NodeId).insert Node.point.key Graph.point

/-- Note that a node that was asked for was already there. -/
def countHit (cache : IndexedGraph α) : IndexedGraph α :=
  { cache with graph := { cache.graph with hits := cache.graph.hits + 1 } }

/-- Append a node and note its place. -/
def insert (cache : IndexedGraph α) (node : Node α) : NodeId × IndexedGraph α :=
  let (id, graph) := cache.graph.insert node
  (id, ⟨graph, cache.index.insert node.key id⟩)

/-- Make a node, or look up the one of the same key. -/
def make (opcode : Opcode) (parameters : List α) (dependencies : List NodeId)
    (payload : Option (Payload α) := none) :
    Attempt (IndexedGraph α) (BuildError α) NodeId :=
  fun cache =>
    match cache.graph.obstacle? opcode parameters dependencies with
    | some error => (.error error, cache)
    | none =>
        match cache.index[(⟨opcode, parameters, dependencies⟩ : NodeKey α)]? with
        | some id => (.ok id, cache.countHit)
        | none =>
            let (id, cache) :=
              cache.insert (.make opcode parameters dependencies payload)
            (.ok id, cache)

end IndexedGraph

end SolidField
