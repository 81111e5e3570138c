import SolidField.Proofs.Graph.Expression

/-!
# Shared nodes

Whatever sequence of nodes is asked for, a graph with an index holds every node
once and finds it by its key, and it counts its nodes, their consumers and the
requests for nodes that are there.  It answers as the graph alone does.  Two
nodes are therefore the same if and only if their expression trees are.
-/

universe u

namespace SolidField

theorem Node.key_eq_of_operation_eq {α : Type u} {node other : Node α}
    (same : node.operation = other.operation) : node.key = other.key := by
  rcases Node.eq_of_operation_eq same with
    ⟨opcode, parameters, dependencies, -⟩
  rw [key, key, opcode, parameters, dependencies]

namespace Graph

variable {α : Type u}

/-- The dependencies of all nodes, one node after the other. -/
def operands (graph : Graph α) : List NodeId :=
  graph.nodes.toList.flatMap Node.dependencies

theorem map_dependencies_foldl_addConsumer (dependencies : List NodeId)
    (nodes : Array (Node α)) :
    (dependencies.foldl addConsumer nodes).toList.map Node.dependencies =
      nodes.toList.map Node.dependencies := by
  apply List.ext_getElem?
  intro index
  have counted := getElem?_foldl_addConsumer dependencies nodes ⟨index⟩
  simp only at counted
  rw [List.getElem?_map, List.getElem?_map, Array.getElem?_toList,
    Array.getElem?_toList, counted, Option.map_map]
  rfl

theorem operands_insert (graph : Graph α) (node : Node α) :
    (graph.insert node).2.operands = graph.operands ++ node.dependencies := by
  simp only [operands, insert, Array.toList_push, List.flatMap_def,
    List.map_append, map_dependencies_foldl_addConsumer, List.map_cons,
    List.map_nil, List.flatten_append, List.flatten_cons, List.flatten_nil,
    List.append_nil]

/-- The dependencies of a valid graph are in it. -/
theorem Valid.inside_of_mem_operands {graph : Graph α} (valid : graph.Valid) :
    ∀ id ∈ graph.operands, id.index < graph.size := by
  intro id member
  rw [operands, List.mem_flatMap] at member
  rcases member with ⟨node, held, member⟩
  rcases List.mem_iff_getElem?.mp held with ⟨index, found⟩
  rw [Array.getElem?_toList] at found
  have here : graph.node? ⟨index⟩ = some node := found
  exact Nat.lt_trans (valid.earlier here id member) (index_lt_of_node? here)

variable [DecidableEq α]

/-- A node that is there is found by what it computes. -/
theorem exists_find?_of_node? {graph : Graph α} {id : NodeId} {node : Node α}
    (found : graph.node? id = some node) :
    ∃ other, graph.find? node.opcode node.parameters node.dependencies =
      some other := by
  have held : node ∈ graph.nodes := Array.mem_of_getElem? found
  have computes :
      node.computes node.opcode node.parameters node.dependencies = true := by
    simp [Node.computes]
  have present :
      (graph.nodes.findIdx? fun node' => node'.computes node.opcode
        node.parameters node.dependencies).isSome = true := by
    rw [Array.findIdx?_isSome, Array.any_eq_true']
    exact ⟨node, held, computes⟩
  rcases Option.isSome_iff_exists.mp present with ⟨index, first⟩
  exact ⟨⟨index⟩, by rw [find?, first]; rfl⟩

end Graph

namespace IndexedGraph

variable {α : Type u} [DecidableEq α] [Hashable α]

/-- Ask for a node. -/
def answer (cache : IndexedGraph α) (request : NodeRequest α) :
    Except (BuildError α) NodeId × IndexedGraph α :=
  make request.opcode request.parameters request.dependencies request.payload
    cache

/-- Ask for one node after the other, whether it can be made or not. -/
def makeAll (cache : IndexedGraph α) (requests : List (NodeRequest α)) :
    IndexedGraph α :=
  requests.foldl (fun cache request => (cache.answer request).2) cache

/-- Every request with what it meets when one is made after the other. -/
def history (cache : IndexedGraph α) :
    List (NodeRequest α) → List (IndexedGraph α × NodeRequest α)
  | [] => []
  | request :: requests =>
      (cache, request) :: (cache.answer request).2.history requests

/-- The request succeeds with a node that was not there. -/
def inserts (cache : IndexedGraph α) (request : NodeRequest α) : Bool :=
  match (cache.answer request).1 with
  | .ok id => cache.graph.size ≤ id.index
  | .error _ => false

/-- The request succeeds with a node that was there. -/
def reuses (cache : IndexedGraph α) (request : NodeRequest α) : Bool :=
  match (cache.answer request).1 with
  | .ok id => id.index < cache.graph.size
  | .error _ => false

/-- The graph is valid, and the index and the counts of consumers belong to it. -/
structure HashConsed (cache : IndexedGraph α) : Prop where
  valid : cache.graph.Valid
  /-- A key leads to the node that has it. -/
  lookup : ∀ key id, cache.index[key]? = some id ↔
    ∃ node, cache.graph.node? id = some node ∧ node.key = key
  consumers : ∀ id node, cache.graph.node? id = some node →
    node.consumers = .ofNat (cache.graph.operands.count id)

namespace HashConsed

variable {cache : IndexedGraph α}

theorem distinct (consed : cache.HashConsed) {id other : NodeId}
    {node same : Node α} (found : cache.graph.node? id = some node)
    (sameFound : cache.graph.node? other = some same)
    (keys : node.key = same.key) : id = other := by
  have first := (consed.lookup same.key id).mpr ⟨node, found, keys⟩
  have second := (consed.lookup same.key other).mpr ⟨same, sameFound, rfl⟩
  exact Option.some.inj (first.symm.trans second)

theorem initial : (initial : IndexedGraph α).HashConsed where
  valid := Graph.valid_initial
  lookup := by
    intro key id
    have single : ∀ node, (Graph.initial : Graph α).node? id = some node ↔
        id = Graph.point ∧ node = .point := by
      intro node
      rcases id with ⟨index | index⟩
      · simp [Graph.initial, Graph.node?, Graph.point, eq_comm]
      · simp [Graph.initial, Graph.node?, Graph.point]
    simp only [IndexedGraph.initial, Std.HashMap.getElem?_insert, single]
    by_cases same : Node.point.key = key
    · simp [same, eq_comm]
    · simp [same]
  consumers := by
    intro id node found
    rcases id with ⟨index | index⟩
    · simp only [IndexedGraph.initial, Graph.initial, Graph.node?] at found
      cases found
      rfl
    · simp [IndexedGraph.initial, Graph.initial, Graph.node?] at found

/-- A hit changes no node. -/
theorem countHit (consed : cache.HashConsed) : cache.countHit.HashConsed :=
  ⟨⟨consed.valid.point, consed.valid.admissible⟩, consed.lookup,
    consed.consumers⟩

/-- A node of a new key may be appended. -/
theorem insert (consed : cache.HashConsed) {node : Node α}
    (admissible : node.Admissible cache.graph.size)
    (new : cache.index[node.key]? = none) (unused : node.consumers = 0) :
    (cache.insert node).2.HashConsed where
  valid := consed.valid.insert admissible
  lookup := by
    intro key id
    have last := Graph.node?_insert_self cache.graph node
    show (cache.index.insert node.key ⟨cache.graph.size⟩)[key]? = some id ↔
      ∃ other, (cache.graph.insert node).2.node? id = some other ∧
        other.key = key
    rw [Std.HashMap.getElem?_insert]
    constructor
    · intro found
      split at found
      · next same =>
          cases found
          exact ⟨node, last, eq_of_beq same⟩
      · rcases (consed.lookup key id).mp found with ⟨former, held, same⟩
        rcases Graph.extends_insert cache.graph node id former held with
          ⟨other, otherHeld, operation⟩
        exact ⟨other, otherHeld,
          (Node.key_eq_of_operation_eq operation).trans same⟩
    · rintro ⟨other, held, rfl⟩
      rcases Graph.node?_insert_cases held with
        ⟨rfl, rfl⟩ | ⟨former, formerHeld, operation⟩
      · simp
      · have found := (consed.lookup other.key id).mpr
          ⟨former, formerHeld, Node.key_eq_of_operation_eq operation⟩
        have different : (node.key == other.key) = false := by
          rw [beq_eq_false_iff_ne]
          intro same
          rw [same, found] at new
          cases new
        rw [different]
        exact found
  consumers := by
    intro id other found
    show other.consumers = .ofNat ((cache.graph.insert node).2.operands.count id)
    rw [Graph.operands_insert, List.count_append, UInt32.ofNat_add]
    by_cases old : id.index < cache.graph.size
    · change (cache.graph.insert node).2.node? id = some other at found
      rw [Graph.node?_insert_of_lt cache.graph node old,
        Option.map_eq_some_iff] at found
      rcases found with ⟨former, formerFound, rfl⟩
      rw [consed.consumers id former formerFound]
    · -- Nothing depends on the last node.
      have before : cache.graph.operands.count id = 0 := by
        rw [List.count_eq_zero]
        intro member
        exact old (consed.valid.inside_of_mem_operands id member)
      have own : node.dependencies.count id = 0 := by
        rw [List.count_eq_zero]
        intro member
        exact old (admissible.earlier id member)
      rcases Graph.node?_insert_cases found with
        ⟨-, rfl⟩ | ⟨former, formerFound, -⟩
      · rw [before, own, unused]
        rfl
      · exact absurd (Graph.index_lt_of_node? formerFound) old

/-- Looking a key up finds what looking through the nodes finds. -/
theorem getElem?_index (consed : cache.HashConsed) (opcode : Opcode)
    (parameters : List α) (dependencies : List NodeId) :
    cache.index[(⟨opcode, parameters, dependencies⟩ : NodeKey α)]? =
      cache.graph.find? opcode parameters dependencies := by
  cases scanned : cache.graph.find? opcode parameters dependencies with
  | some id =>
      rcases Graph.exists_node?_of_find? scanned with ⟨node, found, rfl, rfl, rfl⟩
      exact (consed.lookup _ id).mpr ⟨node, found, rfl⟩
  | none =>
      apply Option.eq_none_iff_forall_ne_some.mpr
      intro id indexed
      rcases (consed.lookup _ id).mp indexed with ⟨node, found, key⟩
      cases key
      rcases Graph.exists_find?_of_node? found with ⟨other, present⟩
      rw [scanned] at present
      cases present

/-- The index changes nothing of what the graph does. -/
theorem answer_eq_make (consed : cache.HashConsed) (request : NodeRequest α) :
    ((cache.answer request).1, (cache.answer request).2.graph) =
      Build.make request.opcode request.parameters request.dependencies
        request.payload cache.graph := by
  simp only [IndexedGraph.answer, IndexedGraph.make, Build.make, Graph.make,
    consed.getElem?_index]
  cases cache.graph.obstacle? request.opcode request.parameters
      request.dependencies with
  | some error => rfl
  | none =>
      cases cache.graph.find? request.opcode request.parameters
        request.dependencies <;> rfl

/-- Everything that a request can do. -/
theorem answer_cases (consed : cache.HashConsed) (request : NodeRequest α) :
    (∃ error, cache.answer request = (.error error, cache)) ∨
      (∃ id, id.index < cache.graph.size ∧
        cache.answer request = (.ok id, cache.countHit)) ∨
      ∃ node : Node α, node.Admissible cache.graph.size ∧
        cache.index[node.key]? = none ∧ node.consumers = 0 ∧
        cache.answer request =
          (.ok ⟨cache.graph.size⟩, (cache.insert node).2) := by
  cases obstacle : cache.graph.obstacle? request.opcode request.parameters
      request.dependencies with
  | some error => exact Or.inl ⟨error, by simp [answer, make, obstacle]⟩
  | none =>
      right
      cases indexed : cache.index[(⟨request.opcode, request.parameters,
          request.dependencies⟩ : NodeKey α)]? with
      | some id =>
          rcases (consed.lookup _ id).mp indexed with ⟨node, found, -⟩
          exact Or.inl ⟨id, Graph.index_lt_of_node? found,
            by simp [answer, make, obstacle, indexed]⟩
      | none =>
          rcases Graph.obstacle?_eq_none_iff.mp obstacle with
            ⟨kernel, arity, accepted, inside⟩
          refine Or.inr ⟨.make request.opcode request.parameters
            request.dependencies request.payload,
            ⟨kernel, arity, accepted, inside⟩, indexed, rfl, ?_⟩
          simp only [answer, make, obstacle, indexed]
          rfl

/-- A request keeps the graph, its index and its counts together. -/
theorem answer (consed : cache.HashConsed) (request : NodeRequest α) :
    (cache.answer request).2.HashConsed := by
  rcases consed.answer_cases request with
    ⟨error, failed⟩ | ⟨id, -, hit⟩ | ⟨node, admissible, new, unused, inserted⟩
  · rwa [failed]
  · rw [hit]
    exact consed.countHit
  · rw [inserted]
    exact consed.insert admissible new unused

theorem makeAll (consed : cache.HashConsed) (requests : List (NodeRequest α)) :
    (cache.makeAll requests).HashConsed := by
  induction requests generalizing cache with
  | nil => exact consed
  | cons request requests induction => exact induction (consed.answer request)

theorem graph_makeAll (consed : cache.HashConsed)
    (requests : List (NodeRequest α)) :
    (cache.makeAll requests).graph = cache.graph.makeAll requests := by
  induction requests generalizing cache with
  | nil => rfl
  | cons request requests induction =>
      show ((cache.answer request).2.makeAll requests).graph = _
      rw [induction (consed.answer request), Graph.makeAll, Graph.makeAll,
        List.foldl_cons, ← consed.answer_eq_make request]

/-- A request adds one node if it inserts one, and one hit if it reuses one. -/
theorem counts_answer (consed : cache.HashConsed) (request : NodeRequest α) :
    (cache.answer request).2.graph.size =
        cache.graph.size + (cache.inserts request).toNat ∧
      (cache.answer request).2.graph.hits =
        cache.graph.hits + (cache.reuses request).toNat := by
  rcases consed.answer_cases request with
    ⟨error, failed⟩ | ⟨id, inside, hit⟩ | ⟨node, -, -, -, inserted⟩
  · simp [inserts, reuses, failed]
  · simp only [inserts, reuses, hit, decide_eq_false (Nat.not_le.mpr inside),
      decide_eq_true inside]
    exact ⟨rfl, rfl⟩
  · simp only [inserts, reuses, inserted, IndexedGraph.insert,
      Graph.size_insert]
    simp [Graph.insert]

/-- Nodes and hits are counted one by one. -/
theorem counts_makeAll (consed : cache.HashConsed)
    (requests : List (NodeRequest α)) :
    (cache.makeAll requests).graph.size = cache.graph.size +
        (cache.history requests).countP (fun step => step.1.inserts step.2) ∧
      (cache.makeAll requests).graph.hits = cache.graph.hits +
        (cache.history requests).countP (fun step => step.1.reuses step.2) := by
  induction requests generalizing cache with
  | nil => exact ⟨rfl, rfl⟩
  | cons request requests induction =>
      rcases induction (consed.answer request) with ⟨size, hits⟩
      rcases consed.counts_answer request with ⟨oneSize, oneHits⟩
      show ((cache.answer request).2.makeAll requests).graph.size = _ ∧
        ((cache.answer request).2.makeAll requests).graph.hits = _
      rw [size, hits, oneSize, oneHits, history, List.countP_cons,
        List.countP_cons, Nat.add_assoc, Nat.add_assoc]
      constructor
      · cases cache.inserts request <;> simp [Nat.add_comm]
      · cases cache.reuses request <;> simp [Nat.add_comm]

/-- A request that fails changes nothing. -/
theorem answer_of_error (consed : cache.HashConsed) {request : NodeRequest α}
    {error : BuildError α} (failed : (cache.answer request).1 = .error error) :
    (cache.answer request).2 = cache := by
  rcases consed.answer_cases request with
    ⟨other, same⟩ | ⟨id, -, hit⟩ | ⟨node, -, -, -, inserted⟩
  · rw [same]
  · rw [hit] at failed
    cases failed
  · rw [inserted] at failed
    cases failed

/-- Nodes are the same if and only if their expression trees are. -/
theorem expression?_eq_iff (consed : cache.HashConsed) {id other : NodeId}
    (inside : id.index < cache.graph.size) :
    cache.graph.expression? id = cache.graph.expression? other ↔ id = other := by
  constructor
  · intro same
    rcases consed.valid.exists_expression? inside with ⟨tree, unfolded⟩
    exact consed.valid.eq_of_expression? (fun _ _ _ _ => consed.distinct) unfolded
      (same ▸ unfolded)
  · rintro rfl
    rfl

end HashConsed

/--
After any sequence of requests the graph is the one that is made without an
index, no two nodes have one key, the index leads from every key to the node
that has it, dependencies come before the nodes that have them, and nodes and hits are
counted.  The consumers of a node are counted in a machine word: the count is that of
its occurrences up to multiples of `2 ^ 32`, and so it is exact for a node that occurs
less often.  A request that fails changes nothing.  Every node stands for a tree, and
for another one than any other node.
-/
theorem makeAll_shares_equal_trees (requests : List (NodeRequest Single)) :
    let cache := initial.makeAll requests
    cache.graph = Graph.initial.makeAll requests ∧
      (∀ request : NodeRequest Single,
        ((cache.answer request).1, (cache.answer request).2.graph) =
          Build.make request.opcode request.parameters request.dependencies
            request.payload cache.graph) ∧
      (∀ id other node same, cache.graph.node? id = some node →
        cache.graph.node? other = some same → node.key = same.key →
          id = other) ∧
      (∀ key id, cache.index[key]? = some id ↔
        ∃ node, cache.graph.node? id = some node ∧ node.key = key) ∧
      (∀ id node, cache.graph.node? id = some node →
        ∀ dependency ∈ node.dependencies, dependency.index < id.index) ∧
      (∀ id node, cache.graph.node? id = some node →
        node.consumers = .ofNat (cache.graph.operands.count id) ∧
          (cache.graph.operands.count id < UInt32.size →
            node.consumers.toNat = cache.graph.operands.count id)) ∧
      cache.graph.size =
        1 + (initial.history requests).countP (fun step => step.1.inserts step.2) ∧
      cache.graph.hits =
        (initial.history requests).countP (fun step => step.1.reuses step.2) ∧
      (∀ request error, (cache.answer request).1 = .error error →
        (cache.answer request).2 = cache) ∧
      ∀ id other : NodeId, id.index < cache.graph.size →
        (∃ tree, cache.graph.expression? id = some tree) ∧
          (cache.graph.expression? id = cache.graph.expression? other ↔ id = other) := by
  intro cache
  have start : (initial : IndexedGraph Single).HashConsed := HashConsed.initial
  have consed : cache.HashConsed := start.makeAll requests
  rcases start.counts_makeAll requests with ⟨size, hits⟩
  refine ⟨start.graph_makeAll requests, consed.answer_eq_make,
    fun _ _ _ _ => consed.distinct, consed.lookup,
    fun _ _ => consed.valid.earlier, fun id node found => ?_, size, ?_,
    fun _ _ => consed.answer_of_error, ?_⟩
  · have counted := consed.consumers id node found
    refine ⟨counted, fun few => ?_⟩
    rw [counted, UInt32.toNat_ofNat_of_lt' few]
  · rw [hits]
    exact Nat.zero_add _
  · intro id other inside
    exact ⟨consed.valid.exists_expression? inside, consed.expression?_eq_iff inside⟩

end IndexedGraph

end SolidField
