import SolidField.Proofs.Program.Budget
import SolidField.Proofs.Schedule.Wide

/-!
# Registers of wide operations

A node of many operands that share the evaluation point only is compiled to three
registers more than an operand takes alone, at most.  For four or more operands that
depend on the evaluation point alone the number is exactly four.
-/

universe u

namespace SolidField

/-! ## Operands of the evaluation point -/

namespace History

variable {α : Type u} {graph : Graph α} {root : NodeId} {visited : List Nat} {index : Nat}

/-- The history of the evaluation point, and of nodes that depend on it alone. -/
def unaries (visited : List Nat) : History :=
  visited.map (fun index => ⟨.node index, [.node 0]⟩) ++ pointOnly

theorem unaries_nil : unaries [] = pointOnly := rfl

@[simp]
theorem results_unaries (visited : List Nat) :
    (unaries visited).results = visited.map .node ++ [.node 0] := by
  simp [unaries, results, pointOnly]

@[simp]
theorem reads_unaries (visited : List Nat) :
    (unaries visited).reads = List.replicate visited.length (.node 0) := by
  rw [unaries, reads_append_pointOnly, reads, List.flatMap_map]
  induction visited with
  | nil => rfl
  | cons index visited induction =>
      rw [List.flatMap_cons, induction, List.length_cons, List.replicate_succ]
      rfl

theorem ne_zero_of_unary (valid : graph.Valid) (unary : graph.dependencies index = [0]) :
    index ≠ 0 := by
  rintro rfl
  rw [valid.dependencies_zero] at unary
  cases unary

/-- A visit of a node of the evaluation point adds its application. -/
theorem enter_unaries (valid : graph.Valid) {bound : Nat} (below : index < bound)
    (unary : graph.dependencies index = [0]) (fresh : index ∉ visited) :
    enter (graph.declare bound) index (unaries visited) = unaries (index :: visited) := by
  obtain ⟨bound, rfl⟩ := Nat.exists_eq_add_one_of_ne_zero (Nat.ne_zero_of_lt below)
  have notPoint := ne_zero_of_unary valid unary
  have inside : index < graph.size :=
    Graph.lt_size_of_mem_dependencies (unary ▸ List.mem_singleton_self 0)
  have entered : enter (graph.declare bound) 0 (unaries visited) = unaries visited :=
    if_pos (by simp)
  rw [enter, if_neg (by simp [fresh, notPoint]), Graph.declare, if_pos inside, unary]
  exact congrArg _ entered

/-- Until the last of the nodes that depend on the evaluation point, all of them are live. -/
theorem Complete.length_live_unaries (valid : graph.Valid) {history : History}
    (complete : history.Complete graph root) (part : unaries visited <:+ history)
    (notPoint : 0 ∉ visited) (computed : .node index ∈ history.results)
    (unary : graph.dependencies index = [0]) (fresh : index ∉ visited) :
    ((unaries visited).live (graph.uses root)).length = visited.length + 1 := by
  rcases part with ⟨later, rfl⟩
  have pointLive : .node 0 ∈ (unaries visited).live (graph.uses root) := by
    rw [complete.mem_live_iff valid]
    refine ⟨by simp, ?_⟩
    -- The node that is still to come reads the evaluation point.
    rcases List.mem_map.mp computed with ⟨reader, member, result⟩
    have inputs : reader.inputs = [.node 0] := by
      rw [(complete.shaped reader member).inputs_eq_of_le_two result (by simp [unary]), unary]
      rfl
    have comesLater : reader ∈ later := by
      refine (List.mem_append.mp member).resolve_right fun earlier => ?_
      have isVisited : .node index ∈ (unaries visited).results :=
        result ▸ List.mem_map_of_mem earlier
      simp [fresh, ne_zero_of_unary valid unary] at isVisited
    have read : Computed.node 0 ∈ reads later :=
      List.mem_flatMap.mpr ⟨reader, comesLater, by simp [inputs]⟩
    have := List.count_pos_iff.mpr read
    rw [pending]
    omega
  have allLive : (unaries visited).live (graph.uses root) = (unaries visited).results := by
    refine List.filter_eq_self.mpr fun value member => ?_
    have known := member
    rw [results_unaries, List.mem_append, List.mem_map, List.mem_singleton] at member
    rcases member with ⟨other, otherVisited, rfl⟩ | rfl
    · have notZero : other ≠ 0 := fun isPoint => notPoint (isPoint ▸ otherVisited)
      have unread : (unaries visited).reads.count (.node other) = 0 := by
        rw [reads_unaries, List.count_eq_zero, List.mem_replicate]
        simp [notZero]
      rw [unread, decide_eq_true_eq]
      exact complete.uses_pos (by rw [results_append]; exact List.mem_append_right _ known)
    · exact decide_eq_true (mem_live.mp pointLive).2
  rw [allLive, results_unaries]
  simp

end History

namespace Graph

variable {α : Type u} {graph : Graph α} {root : NodeId}

/-- A node of the evaluation point needs itself and the evaluation point. -/
theorem Valid.eq_or_eq_of_needs (valid : graph.Valid) {operand id : NodeId}
    (unary : graph.dependencies operand.index = [0]) (needs : graph.Needs operand id) :
    id = operand ∨ id = Graph.point := by
  refine needs.eq_or_exists.imp_right ?_
  rintro ⟨dependency, member, further⟩
  rw [unary, List.mem_singleton] at member
  subst member
  have least : id.index = 0 := Nat.le_zero.mp (valid.le_of_needs further)
  exact congrArg NodeId.mk least

/-- Operands of the evaluation point share nothing else. -/
theorem Valid.apart_of_unary (valid : graph.Valid)
    (distinct : (graph.dependencies root.index).Nodup)
    (unary : ∀ operand ∈ graph.dependencies root.index, graph.dependencies operand = [0]) :
    graph.Apart root where
  distinct := distinct
  notPoint listed := History.ne_zero_of_unary valid (unary 0 listed) rfl
  shared := by
    intro first firstListed second secondListed id firstNeeds secondNeeds
    rcases valid.eq_or_eq_of_needs (unary first firstListed) firstNeeds with rfl | rfl
    · exact (valid.eq_or_eq_of_needs (unary second secondListed) secondNeeds).imp
        (congrArg NodeId.index) (congrArg NodeId.index)
    · exact Or.inr rfl

/-- Operands of the evaluation point take one register each. -/
theorem Valid.wide_of_unary (valid : graph.Valid) (inside : root.index < graph.size)
    (distinct : (graph.dependencies root.index).Nodup)
    (unary : ∀ operand ∈ graph.dependencies root.index, graph.dependencies operand = [0]) :
    graph.Wide root 1 where
  valid := valid
  inside := inside
  apart := valid.apart_of_unary distinct unary
  alone := by
    intro operand listed moment part
    have operandInside := valid.inside_of_mem_dependencies listed
    have complete := valid.complete_declare operandInside
    have history : graph.declare graph.size operand [] = History.unaries [operand] := by
      rw [valid.declare_nil operandInside, ← History.unaries_nil]
      exact History.enter_unaries valid operandInside (unary operand listed) (by simp)
    rw [history] at part complete
    rcases List.suffix_cons_iff.mp part with rfl | part
    · exact complete.length_live_le_one valid
    · exact Nat.le_trans (History.length_live_le_length _ moment) part.length_le

/-- The operand to be held is visited first, and the chain from its first operand on. -/
theorem Valid.unaries_suffix (valid : graph.Valid) (inside : root.index < graph.size)
    (unary : ∀ operand ∈ graph.dependencies root.index, graph.dependencies operand = [0])
    {first second last : Nat} {rest : List Nat}
    (operands : Operand.ofDependencies (graph.dependencies root.index) =
      [.node last, (Operand.node first).chain (second :: rest)])
    (distinct : [second, first, last].Nodup) :
    History.unaries [second, first, last] <:+ graph.declare graph.size root.index [] := by
  obtain ⟨bound, size⟩ := Nat.exists_eq_add_one_of_ne_zero (Nat.ne_zero_of_lt inside)
  have perm := Operand.perm_leaves_ofDependencies (graph.dependencies root.index)
  rw [operands] at perm
  simp only [List.flatMap_cons, List.flatMap_nil, Operand.leaves, Operand.leaves_chain,
    List.singleton_append, List.append_nil] at perm
  have entered : ∀ operand ∈ last :: first :: second :: rest, ∀ visited, operand ∉ visited →
      History.enter (graph.declare bound) operand (History.unaries visited) =
        History.unaries (operand :: visited) := by
    intro operand member visited fresh
    have listed := perm.mem_iff.mp member
    have before := valid.lt_of_mem_dependencies operand listed
    exact History.enter_unaries valid (by omega) (unary operand listed) fresh
  have below : ∀ leaf ∈ rest, leaf < bound := by
    intro leaf member
    have before := valid.lt_of_mem_dependencies leaf (perm.mem_iff.mp (by simp [member]))
    omega
  rw [List.nodup_cons, List.nodup_cons] at distinct
  have folded := List.suffix_cons
    ⟨.part root.index (.fold (.node first) (.node second)), [.node first, .node second]⟩
    (History.unaries [second, first, last])
  have chained := History.suffix_visitOperand_chain valid root.index rest below
    (.fold (.node first) (.node second)) (History.unaries [last])
  rw [History.visitOperand, History.visitOperand, History.visitOperand,
    entered first (by simp) [last] distinct.2.1,
    entered second (by simp) [first, last] distinct.1] at chained
  rw [valid.declare_eq inside size operands, ← History.unaries_nil,
    entered last (by simp) [] (by simp)]
  exact (folded.trans chained).trans (List.suffix_cons _ _)

/--
With four operands of the evaluation point or more, there is a moment with four values
live: the evaluation point, the last operand and the first two.
-/
theorem Valid.exists_four_live (valid : graph.Valid) (inside : root.index < graph.size)
    (distinct : (graph.dependencies root.index).Nodup)
    (unary : ∀ operand ∈ graph.dependencies root.index, graph.dependencies operand = [0])
    (many : 4 ≤ (graph.dependencies root.index).length) :
    ∃ moment : History, moment <:+ graph.declare graph.size root.index [] ∧
      (moment.live (graph.uses root)).length = 4 := by
  have complete := valid.complete_declare inside
  rcases Operand.ofDependencies_of_two_lt (Nat.lt_of_lt_of_le (by decide) many) with
    ⟨first, others, last, dependencies, operands, length⟩
  match others with
  | [] | [_] => simp at length; omega
  | second :: third :: rest =>
  -- The third operand is visited later, and reads the evaluation point again.
  have listed : ∀ operand ∈ [third, second, first, last],
      operand ∈ graph.dependencies root.index := by
    rw [dependencies]
    simp
  have apart : [third, second, first, last].Nodup := by
    rw [dependencies] at distinct
    simp only [List.cons_append, List.nodup_cons, List.mem_cons, List.mem_append,
      List.not_mem_nil, or_false, not_or] at distinct
    simp only [List.nodup_cons, List.mem_cons, List.not_mem_nil, or_false, not_or]
    tauto
  rw [List.nodup_cons] at apart
  rw [List.forall_mem_cons] at listed
  have part := valid.unaries_suffix inside unary operands apart.2
  refine ⟨_, part, complete.length_live_unaries valid part ?_ ?_
    (unary third listed.1) apart.1⟩
  · exact fun isVisited => History.ne_zero_of_unary valid (unary 0 (listed.2 0 isVisited)) rfl
  · exact complete.mem_results_of_mem_dependencies complete.computesRoot listed.1

end Graph

/-! ## Budgets of wide operations -/

namespace Graph

variable {graph : Graph Single} {root : NodeId} {most : Nat}

/-- The registers of the declared order are the values that it has live at once. -/
theorem Valid.exists_schedule_declared (valid : graph.Valid)
    (inside : root.index < graph.size) :
    ∃ schedule, graph.schedule root .identity 0 = .ok schedule ∧
      ∀ bound, schedule.registersNeeded ≤ bound ↔
        ∀ moment : History, moment <:+ graph.declare graph.size root.index [] →
          (moment.live (graph.uses root)).length ≤ bound := by
  refine ⟨_, valid.schedule_record inside .identity 0, fun bound => ?_⟩
  rw [history_record]
  exact (valid.complete_declare inside).registersNeeded_le_iff valid

/-- What the declared order needs is enough for the search and for compilation. -/
theorem exists_compile_of_declared (inside : root.index < graph.size) {schedule : Schedule}
    (scheduled : graph.schedule root .identity 0 = .ok schedule)
    (enough : schedule.registersNeeded ≤ most) :
    (∀ passes seed, ∃ best, graph.bestSchedule root passes seed = .ok best ∧
      best.registersNeeded ≤ most) ∧
    ∀ config : CompileConfig, 0 < config.maxRegisters → most ≤ config.maxRegisters →
      config.maxRegisters ≤ 256 →
        ∃ program larger, graph.compile root config = .ok (program, larger) := by
  have search : ∀ passes seed, ∃ best, graph.bestSchedule root passes seed = .ok best ∧
      best.registersNeeded ≤ most := by
    intro passes seed
    rcases exists_bestSchedule inside passes seed with ⟨best, found, optimum⟩
    exact ⟨best, found,
      Nat.le_trans (optimum.registersNeeded_le (Nat.zero_le _) scheduled) enough⟩
  refine ⟨search, fun config positive budget addressable => ?_⟩
  rcases search config.randomPasses config.seed with ⟨best, found, fits⟩
  exact ⟨_, _, compile_eq_ok_iff.mpr
    ⟨positive, addressable, best, found, Nat.le_trans fits budget, rfl, rfl⟩⟩

section Node

variable {node : Node Single}

theorem nodup_dependencies (found : graph.node? root = some node)
    (distinct : node.dependencies.Nodup) : (graph.dependencies root.index).Nodup := by
  have dependencies : graph.dependencies root.index = node.dependencies.map NodeId.index :=
    dependencies_of_node? found
  rw [dependencies]
  exact distinct.map fun first second same => congrArg NodeId.mk same

theorem dependencies_of_point (found : graph.node? root = some node)
    (unary : node.dependencies = [point]) : graph.dependencies root.index = [0] := by
  have dependencies : graph.dependencies root.index = node.dependencies.map NodeId.index :=
    dependencies_of_node? found
  rw [dependencies, unary]
  rfl

/-- Operands that share the evaluation point only, and are scheduled alone. -/
theorem Valid.wide_of_schedules (valid : graph.Valid)
    (found : graph.node? root = some node) (distinct : node.dependencies.Nodup)
    (notPoint : Graph.point ∉ node.dependencies)
    (apart : ∀ first ∈ node.dependencies, ∀ second ∈ node.dependencies, first ≠ second →
      ∀ shared, graph.Needs first shared → graph.Needs second shared →
        shared = Graph.point)
    (alone : ∀ operand ∈ node.dependencies, ∃ schedule,
      graph.schedule operand .identity 0 = .ok schedule ∧ schedule.registersNeeded ≤ most) :
    graph.Wide root most := by
  have listed : ∀ index, index ∈ graph.dependencies root.index →
      (⟨index⟩ : NodeId) ∈ node.dependencies := by
    intro index member
    have mapped : index ∈ node.dependencies.map NodeId.index :=
      dependencies_of_node? found ▸ member
    rcases List.mem_map.mp mapped with ⟨id, own, rfl⟩
    exact own
  refine ⟨valid, index_lt_of_node? found, ⟨nodup_dependencies found distinct,
    fun member => notPoint (listed 0 member), ?_⟩, ?_⟩
  · intro first firstListed second secondListed id firstNeeds secondNeeds
    by_cases same : first = second
    · exact Or.inl same
    · have different : (⟨first⟩ : NodeId) ≠ ⟨second⟩ := fun equal =>
        same (congrArg NodeId.index equal)
      have isPoint := apart _ (listed first firstListed) _ (listed second secondListed)
        different id firstNeeds secondNeeds
      exact Or.inr (congrArg NodeId.index isPoint)
  · intro operand member
    rcases valid.exists_schedule_declared (valid.inside_of_mem_dependencies member) with
      ⟨schedule, scheduled, registers⟩
    rcases alone _ (listed operand member) with ⟨other, otherScheduled, fits⟩
    obtain rfl := Except.ok.inj (scheduled.symm.trans otherScheduled)
    exact (registers most).mp fits

/-- Four operands of the evaluation point or more take four registers. -/
theorem Valid.registersNeeded_of_unary (valid : graph.Valid)
    (inside : root.index < graph.size) (distinct : (graph.dependencies root.index).Nodup)
    (unary : ∀ operand ∈ graph.dependencies root.index, graph.dependencies operand = [0])
    (many : 4 ≤ (graph.dependencies root.index).length) :
    ∃ schedule, graph.schedule root .identity 0 = .ok schedule ∧
      schedule.registersNeeded = 4 := by
  rcases valid.exists_schedule_declared inside with ⟨schedule, scheduled, registers⟩
  have wide := valid.wide_of_unary inside distinct unary
  have most : schedule.registersNeeded ≤ 4 :=
    (registers 4).mpr fun moment part => wide.length_live_le (by omega) part
  rcases valid.exists_four_live inside distinct unary many with ⟨moment, part, live⟩
  have least := (registers schedule.registersNeeded).mp (Nat.le_refl _) moment part
  exact ⟨schedule, scheduled, by omega⟩

end Node

/--
A node of two operands or more that are distinct and share the evaluation point only, as
a wide union or intersection, takes three registers more in the declared order than the
operands take alone, at most, however many they are.  The search therefore finds a
schedule with as few, and every budget of as many compiles.  Four or more distinct
operands that depend on the evaluation point alone take exactly four registers.
-/
theorem wide_operations_take_three_more (requests : List (NodeRequest Single)) (id : NodeId)
    (node : Node Single) (found : (initial.makeAll requests).node? id = some node)
    (distinct : node.dependencies.Nodup) :
    let graph := initial.makeAll requests
    (∀ most, 2 ≤ node.dependencies.length → point ∉ node.dependencies →
      (∀ first ∈ node.dependencies, ∀ second ∈ node.dependencies, first ≠ second →
        ∀ shared, graph.Needs first shared → graph.Needs second shared → shared = point) →
      (∀ operand ∈ node.dependencies, ∃ schedule,
        graph.schedule operand .identity 0 = .ok schedule ∧
          schedule.registersNeeded ≤ most) →
      (∃ schedule, graph.schedule id .identity 0 = .ok schedule ∧
        schedule.registersNeeded ≤ most + 3) ∧
      (∀ passes seed, ∃ schedule, graph.bestSchedule id passes seed = .ok schedule ∧
        schedule.registersNeeded ≤ most + 3) ∧
      ∀ config : CompileConfig, most + 3 ≤ config.maxRegisters →
        config.maxRegisters ≤ 256 →
          ∃ program larger, graph.compile id config = .ok (program, larger)) ∧
    (4 ≤ node.dependencies.length →
      (∀ operand ∈ node.dependencies, ∃ input, graph.node? operand = some input ∧
        input.dependencies = [point]) →
      ∃ schedule, graph.schedule id .identity 0 = .ok schedule ∧
        schedule.registersNeeded = 4) := by
  intro graph
  have valid : graph.Valid := valid_makeAll requests
  have inside := index_lt_of_node? found
  have dependencies : graph.dependencies id.index = node.dependencies.map NodeId.index :=
    dependencies_of_node? found
  have length : (graph.dependencies id.index).length = node.dependencies.length := by
    rw [dependencies, List.length_map]
  constructor
  · intro most many notPoint apart alone
    have wide := valid.wide_of_schedules found distinct notPoint apart alone
    rcases valid.exists_schedule_declared inside with ⟨schedule, scheduled, registers⟩
    have enough : schedule.registersNeeded ≤ most + 3 :=
      (registers _).mpr fun moment part => wide.length_live_le (by omega) part
    rcases exists_compile_of_declared inside scheduled enough with ⟨search, budgets⟩
    exact ⟨⟨schedule, scheduled, enough⟩, search,
      fun config budget => budgets config (by omega) budget⟩
  · intro many unary
    have unaryIndices : ∀ operand ∈ graph.dependencies id.index,
        graph.dependencies operand = [0] := by
      intro operand member
      rw [dependencies, List.mem_map] at member
      rcases member with ⟨operand, member, rfl⟩
      rcases unary operand member with ⟨input, inputFound, inputs⟩
      exact dependencies_of_point inputFound inputs
    exact valid.registersNeeded_of_unary inside (nodup_dependencies found distinct)
      unaryIndices (by omega)

/-- A union of five primitives. -/
def fivePrimitives : List (NodeRequest Single) :=
  [ ⟨.sphere, [1], [point], none⟩,
    ⟨.sphere, [0], [point], none⟩,
    ⟨.circle, [1], [point], none⟩,
    ⟨.rectangle, [1, 1], [point], none⟩,
    ⟨.box, [1, 1, 1], [point], none⟩,
    ⟨.union, [0], [⟨1⟩, ⟨2⟩, ⟨3⟩, ⟨4⟩, ⟨5⟩], none⟩ ]

/-- The declared order takes four registers, and every budget of four compiles. -/
theorem fivePrimitives_take_four :
    let graph := initial.makeAll fivePrimitives
    (∃ schedule, graph.schedule ⟨6⟩ .identity 0 = .ok schedule ∧
      schedule.registersNeeded = 4) ∧
    ∀ config : CompileConfig, 4 ≤ config.maxRegisters → config.maxRegisters ≤ 256 →
      ∃ program larger, graph.compile ⟨6⟩ config = .ok (program, larger) := by
  intro graph
  have seen : (graph.node? ⟨6⟩).map Node.dependencies =
      some [⟨1⟩, ⟨2⟩, ⟨3⟩, ⟨4⟩, ⟨5⟩] := by
    decide +kernel
  rcases Option.map_eq_some_iff.mp seen with ⟨node, found, dependencies⟩
  have unary : ∀ operand ∈ node.dependencies, ∃ input, graph.node? operand = some input ∧
      input.dependencies = [point] := by
    rw [dependencies]
    have each : ∀ operand ∈ ([⟨1⟩, ⟨2⟩, ⟨3⟩, ⟨4⟩, ⟨5⟩] : List NodeId),
        (graph.node? operand).map Node.dependencies = some [point] := by
      decide +kernel
    exact fun operand member => Option.map_eq_some_iff.mp (each operand member)
  have alone : ∀ operand ∈ node.dependencies, ∃ schedule,
      graph.schedule operand .identity 0 = .ok schedule ∧
        schedule.registersNeeded ≤ 1 := by
    rw [dependencies]
    have each : ∀ operand ∈ ([⟨1⟩, ⟨2⟩, ⟨3⟩, ⟨4⟩, ⟨5⟩] : List NodeId),
        (graph.schedule operand .identity 0).toOption.map Schedule.registersNeeded =
          some 1 := by
      decide +kernel
    intro operand member
    rcases exists_eq_ok_of_map (each operand member) with ⟨schedule, scheduled, one⟩
    exact ⟨schedule, scheduled, Nat.le_of_eq one⟩
  have apart : ∀ first ∈ node.dependencies, ∀ second ∈ node.dependencies, first ≠ second →
      ∀ shared, graph.Needs first shared → graph.Needs second shared → shared = point := by
    have valid : graph.Valid := valid_makeAll fivePrimitives
    have needed : ∀ operand ∈ node.dependencies, ∀ shared, graph.Needs operand shared →
        shared = operand ∨ shared = point := by
      intro operand member shared needs
      rcases unary operand member with ⟨input, inputFound, inputs⟩
      exact valid.eq_or_eq_of_needs (dependencies_of_point inputFound inputs) needs
    intro first firstListed second secondListed different shared firstNeeds secondNeeds
    rcases needed first firstListed shared firstNeeds with rfl | isPoint
    · exact (needed second secondListed shared secondNeeds).resolve_left different
    · exact isPoint
  rcases wide_operations_take_three_more fivePrimitives ⟨6⟩ node found
      (by rw [dependencies]; decide) with
    ⟨wide, narrow⟩
  rcases wide 1 (by rw [dependencies]; decide) (by rw [dependencies]; decide) apart alone with
    ⟨-, -, compiles⟩
  exact ⟨narrow (by rw [dependencies]; decide) unary, compiles⟩

end Graph

end SolidField
