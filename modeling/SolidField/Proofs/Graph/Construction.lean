import SolidField.Graph.Basic

/-!
# Graphs made node by node

Whatever sequence of nodes is asked for, successfully or not, the graph holds
the evaluation point first and behind it operations with a kernel, with the
parameters and the number of dependencies that they take, on earlier nodes.
Making a node changes nothing of the nodes that are there but the number of
their consumers.
-/

universe u

namespace SolidField

/-- An operation with a kernel has a dependency. -/
theorem Opcode.pos_of_accepts {opcode : Opcode}
    (kernel : opcode.hasKernel = true) {count : Nat}
    (accepted : opcode.arity.accepts count = true) : 0 < count := by
  cases opcode <;>
    simp_all [hasKernel, isReserved, arity, Arity.accepts] <;> omega

/-- The evaluation point computes no value from registers. -/
theorem Opcode.ne_point_of_hasKernel {opcode : Opcode}
    (kernel : opcode.hasKernel = true) : opcode ≠ .point := by
  rintro rfl
  cases kernel

theorem Opcode.ne_halt_of_hasKernel {opcode : Opcode}
    (kernel : opcode.hasKernel = true) : opcode ≠ .halt := by
  rintro rfl
  cases kernel

namespace Node

variable {α : Type u}

/-- What a node computes and remembers, without the notes of its graph. -/
def operation (node : Node α) : Node α :=
  { node with consumers := 0, register := none }

/-- Nodes of the same operation agree in all that it consists of. -/
theorem eq_of_operation_eq {node other : Node α}
    (same : node.operation = other.operation) :
    node.opcode = other.opcode ∧ node.parameters = other.parameters ∧
      node.dependencies = other.dependencies ∧ node.payload = other.payload := by
  cases node
  cases other
  simpa [operation] using same

/-- A node at an index is an operation on earlier nodes. -/
structure Admissible (node : Node α) (index : Nat) : Prop where
  kernel : node.opcode.hasKernel = true
  arity : node.opcode.arity.accepts node.dependencies.length = true
  parameters : node.opcode.parameters.accepts node.parameters.length = true
  earlier : ∀ id ∈ node.dependencies, id.index < index

/-- Whether a node is admissible shows in its operation. -/
theorem Admissible.of_operation_eq {node other : Node α} {index : Nat}
    (admissible : node.Admissible index) (same : node.operation = other.operation) :
    other.Admissible index := by
  rcases admissible with ⟨kernel, arity, accepted, earlier⟩
  rcases eq_of_operation_eq same with ⟨opcode, parameters, dependencies, -⟩
  rw [opcode] at kernel
  rw [opcode, dependencies] at arity
  rw [opcode, parameters] at accepted
  rw [dependencies] at earlier
  exact ⟨kernel, arity, accepted, earlier⟩

end Node

namespace Graph

variable {α : Type u}

/-! ## Counting consumers -/

theorem size_addConsumer (nodes : Array (Node α)) (id : NodeId) :
    (addConsumer nodes id).size = nodes.size := by
  simp [addConsumer]

theorem size_foldl_addConsumer (dependencies : List NodeId)
    (nodes : Array (Node α)) :
    (dependencies.foldl addConsumer nodes).size = nodes.size := by
  induction dependencies generalizing nodes with
  | nil => rfl
  | cons id dependencies induction =>
      rw [List.foldl_cons, induction, size_addConsumer]

/-- Counting consumers changes a node by its occurrences among them. -/
theorem getElem?_foldl_addConsumer (dependencies : List NodeId)
    (nodes : Array (Node α)) (id : NodeId) :
    (dependencies.foldl addConsumer nodes)[id.index]? =
      (nodes[id.index]?).map fun node =>
        { node with
          consumers := node.consumers + .ofNat (dependencies.count id) } := by
  induction dependencies generalizing nodes with
  | nil => simp
  | cons first dependencies induction =>
      rw [List.foldl_cons, induction, addConsumer, Array.getElem?_modify]
      by_cases same : first = id
      · subst first
        cases nodes[id.index]? <;> simp [UInt32.ofNat_add]
        ac_rfl
      · have different : first.index ≠ id.index := by
          intro equal
          exact same (by cases first; cases id; simp_all)
        cases nodes[id.index]? <;> simp [different, same]

/-! ## Inserting a node -/

@[simp]
theorem size_insert (graph : Graph α) (node : Node α) :
    (graph.insert node).2.size = graph.size + 1 := by
  simp [insert, size, size_foldl_addConsumer]

@[simp]
theorem node?_insert_self (graph : Graph α) (node : Node α) :
    (graph.insert node).2.node? ⟨graph.size⟩ = some node := by
  simp only [insert, node?, size]
  rw [← size_foldl_addConsumer node.dependencies, Array.getElem?_push_size]

theorem node?_insert_of_lt (graph : Graph α) (node : Node α) {id : NodeId}
    (old : id.index < graph.size) :
    (graph.insert node).2.node? id =
      (graph.node? id).map fun former =>
        { former with
          consumers := former.consumers + .ofNat (node.dependencies.count id) } := by
  have different : id.index ≠ graph.nodes.size := Nat.ne_of_lt old
  simp [insert, node?, Array.getElem?_push, size_foldl_addConsumer, different,
    getElem?_foldl_addConsumer]

theorem node?_eq_none_iff {graph : Graph α} {id : NodeId} :
    graph.node? id = none ↔ graph.size ≤ id.index := by
  simp [node?, size]

theorem index_lt_of_node? {graph : Graph α} {id : NodeId} {node : Node α}
    (found : graph.node? id = some node) : id.index < graph.size := by
  rw [← Nat.not_le, ← node?_eq_none_iff, found]
  simp

theorem exists_node?_of_lt {graph : Graph α} {index : Nat}
    (inside : index < graph.size) :
    ∃ node, graph.node? ⟨index⟩ = some node := by
  cases found : graph.node? ⟨index⟩ with
  | none => exact absurd inside (Nat.not_lt.mpr (node?_eq_none_iff.mp found))
  | some node => exact ⟨node, rfl⟩

/-! ## What stays and what holds -/

/-- Every node of a graph is one of another graph, up to the notes about it. -/
def Extends (graph larger : Graph α) : Prop :=
  ∀ id node, graph.node? id = some node →
    ∃ same, larger.node? id = some same ∧ same.operation = node.operation

theorem Extends.refl (graph : Graph α) : graph.Extends graph :=
  fun _ node found => ⟨node, found, rfl⟩

theorem Extends.trans {graph larger largest : Graph α}
    (first : graph.Extends larger) (second : larger.Extends largest) :
    graph.Extends largest := by
  intro id node found
  rcases first id node found with ⟨same, sameFound, sameOperation⟩
  rcases second id same sameFound with ⟨again, againFound, againOperation⟩
  exact ⟨again, againFound, againOperation.trans sameOperation⟩

/-- Inserting a node keeps all others. -/
theorem extends_insert (graph : Graph α) (node : Node α) :
    graph.Extends (graph.insert node).2 := by
  intro id former found
  refine ⟨{ former with
    consumers := former.consumers + .ofNat (node.dependencies.count id) }, ?_, rfl⟩
  rw [node?_insert_of_lt graph node (index_lt_of_node? found), found]
  rfl

/-- A node of a graph with one more node is the new one or one that was there. -/
theorem node?_insert_cases {graph : Graph α} {node other : Node α}
    {id : NodeId} (found : (graph.insert node).2.node? id = some other) :
    (id = ⟨graph.size⟩ ∧ other = node) ∨
      ∃ former, graph.node? id = some former ∧
        former.operation = other.operation := by
  by_cases old : id.index < graph.size
  · rw [node?_insert_of_lt graph node old, Option.map_eq_some_iff] at found
    rcases found with ⟨former, formerFound, rfl⟩
    exact Or.inr ⟨former, formerFound, rfl⟩
  · have inside := index_lt_of_node? found
    rw [size_insert] at inside
    have last : id = ⟨graph.size⟩ := by
      cases id
      congr
      simp only at old inside
      omega
    subst last
    rw [node?_insert_self, Option.some.injEq] at found
    exact Or.inl ⟨rfl, found.symm⟩

/-- The point is first, and every other node is admissible where it stands. -/
structure Valid (graph : Graph α) : Prop where
  point : ∃ node, graph.node? Graph.point = some node ∧
    node.opcode = .point ∧ node.dependencies = []
  /-- The others are operations on earlier nodes. -/
  admissible : ∀ id node, graph.node? id = some node → id ≠ Graph.point →
    node.Admissible id.index

theorem valid_initial : (initial : Graph α).Valid where
  point := ⟨.point, rfl, rfl, rfl⟩
  admissible := by
    intro id node found other
    have inside := index_lt_of_node? found
    exact absurd (congrArg NodeId.mk (Nat.lt_one_iff.mp inside)) other

theorem Valid.positive {graph : Graph α} (valid : graph.Valid) :
    0 < graph.size := by
  rcases valid.point with ⟨node, found, -⟩
  exact index_lt_of_node? found

/-- Dependencies come before the nodes that have them. -/
theorem Valid.earlier {graph : Graph α} (valid : graph.Valid) {id : NodeId}
    {node : Node α} (found : graph.node? id = some node) :
    ∀ dependency ∈ node.dependencies, dependency.index < id.index := by
  by_cases first : id = Graph.point
  · rcases valid.point with ⟨point, pointFound, -, none⟩
    subst first
    rw [pointFound] at found
    cases found
    simp [none]
  · exact (valid.admissible id node found first).earlier

theorem Valid.exists_admissible {graph : Graph α} (valid : graph.Valid)
    {index : Nat} (inside : index < graph.size) (other : index ≠ 0) :
    ∃ node, graph.node? ⟨index⟩ = some node ∧ node.Admissible index := by
  rcases exists_node?_of_lt inside with ⟨node, found⟩
  exact ⟨node, found, valid.admissible ⟨index⟩ node found (by
    rwa [Graph.point, ne_eq, NodeId.mk.injEq])⟩

/-- An admissible node at the end keeps a graph valid. -/
theorem Valid.insert {graph : Graph α} {node : Node α} (valid : graph.Valid)
    (admissible : node.Admissible graph.size) :
    (graph.insert node).2.Valid where
  point := by
    rcases valid.point with ⟨point, found, opcode, dependencies⟩
    rcases extends_insert graph node Graph.point point found with
      ⟨same, sameFound, operation⟩
    rcases Node.eq_of_operation_eq operation with ⟨opcodes, -, lists, -⟩
    exact ⟨same, sameFound, opcodes.trans opcode, lists.trans dependencies⟩
  admissible := by
    intro id other found notPoint
    rcases node?_insert_cases found with
      ⟨rfl, rfl⟩ | ⟨former, formerFound, operation⟩
    · exact admissible
    · exact (valid.admissible id former formerFound notPoint).of_operation_eq operation

/-! ## Making a node -/

/-- Nothing stands in the way of an admissible operation. -/
theorem obstacle?_eq_none_iff {graph : Graph α} {opcode : Opcode}
    {parameters : List α} {dependencies : List NodeId} :
    graph.obstacle? opcode parameters dependencies = none ↔
      opcode.hasKernel = true ∧
        opcode.arity.accepts dependencies.length = true ∧
        opcode.parameters.accepts parameters.length = true ∧
        ∀ id ∈ dependencies, id.index < graph.size := by
  simp only [obstacle?, Opcode.hasKernel]
  cases opcode.isReserved <;>
    cases opcode.arity.accepts dependencies.length <;>
      cases opcode.parameters.accepts parameters.length <;>
        simp

variable [DecidableEq α]

theorem exists_node?_of_find? {graph : Graph α} {opcode : Opcode}
    {parameters : List α} {dependencies : List NodeId} {id : NodeId}
    (found : graph.find? opcode parameters dependencies = some id) :
    ∃ node, graph.node? id = some node ∧ node.opcode = opcode ∧
      node.parameters = parameters ∧ node.dependencies = dependencies := by
  simp only [find?, Option.map_eq_some_iff] at found
  rcases found with ⟨index, found, rfl⟩
  rcases Array.findIdx?_eq_some_iff_getElem.mp found with ⟨inside, computes, -⟩
  simp only [Node.computes, Bool.and_eq_true, decide_eq_true_eq] at computes
  exact ⟨graph.nodes[index], by simp [node?, inside], computes.1.1,
    computes.2, computes.1.2⟩

/-- Everything that making a node can do. -/
theorem make_cases (graph : Graph α) (opcode : Opcode) (parameters : List α)
    (dependencies : List NodeId) (payload : Option (Payload α)) :
    (∃ error, graph.obstacle? opcode parameters dependencies = some error ∧
        graph.make opcode parameters dependencies payload = .error error) ∨
      (∃ id, graph.obstacle? opcode parameters dependencies = none ∧
        graph.find? opcode parameters dependencies = some id ∧
        graph.make opcode parameters dependencies payload =
          .ok (id, { graph with hits := graph.hits + 1 })) ∨
      (graph.obstacle? opcode parameters dependencies = none ∧
        graph.find? opcode parameters dependencies = none ∧
        graph.make opcode parameters dependencies payload =
          .ok (graph.insert
            (.make opcode parameters dependencies payload))) := by
  cases obstacle : graph.obstacle? opcode parameters dependencies with
  | some error => exact Or.inl ⟨error, rfl, by simp [make, obstacle]⟩
  | none =>
      cases found : graph.find? opcode parameters dependencies with
      | some id =>
          exact Or.inr (Or.inl ⟨id, rfl, rfl, by simp [make, obstacle, found]⟩)
      | none => exact Or.inr (Or.inr ⟨rfl, rfl, by simp [make, obstacle, found]⟩)

/-- Making a node keeps a graph valid. -/
theorem Valid.make {graph larger : Graph α} {opcode : Opcode}
    {parameters : List α} {dependencies : List NodeId}
    {payload : Option (Payload α)} {id : NodeId} (valid : graph.Valid)
    (made : graph.make opcode parameters dependencies payload =
      .ok (id, larger)) : larger.Valid := by
  rcases graph.make_cases opcode parameters dependencies payload with
    ⟨error, -, failed⟩ | ⟨other, -, -, hit⟩ | ⟨clear, -, inserted⟩
  · rw [failed] at made
    cases made
  · rw [hit] at made
    cases made
    exact ⟨valid.point, valid.admissible⟩
  · rw [inserted] at made
    cases made
    rcases obstacle?_eq_none_iff.mp clear with ⟨kernel, arity, accepted, inside⟩
    exact valid.insert ⟨kernel, arity, accepted, inside⟩

end Graph

/-! ## Sequences of requests -/

/-- A node that is asked for. -/
structure NodeRequest (α : Type u) where
  opcode : Opcode
  parameters : List α
  dependencies : List NodeId
  payload : Option (Payload α)

namespace Graph

variable {α : Type u} [DecidableEq α]

/-- Ask for one node after the other, whether it can be made or not. -/
def makeAll (graph : Graph α) (requests : List (NodeRequest α)) : Graph α :=
  requests.foldl
    (fun graph request =>
      (Build.make request.opcode request.parameters request.dependencies
        request.payload graph).2)
    graph

/-- What every request that succeeds preserves holds after all of them. -/
theorem makeAll_induction {motive : Graph α → Prop} {graph : Graph α}
    {requests : List (NodeRequest α)} (start : motive graph)
    (step : ∀ request ∈ requests, ∀ smaller larger id, motive smaller →
      smaller.make request.opcode request.parameters request.dependencies
        request.payload = .ok (id, larger) → motive larger) :
    motive (graph.makeAll requests) := by
  induction requests generalizing graph with
  | nil => exact start
  | cons request requests induction =>
      rw [List.forall_mem_cons] at step
      refine induction ?_ step.2
      simp only [Build.make]
      split
      · next id larger made => exact step.1 graph larger id start made
      · exact start

/-- Whatever is asked for, the graph stays valid. -/
theorem valid_makeAll (requests : List (NodeRequest α)) :
    (initial.makeAll requests).Valid :=
  makeAll_induction valid_initial
    fun _ _ _ _ _ valid made => valid.make made

end Graph

end SolidField
