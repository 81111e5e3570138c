import SolidField.Program.Session
import SolidField.Proofs.Program.Completed
import SolidField.Proofs.Program.Registers

/-!
# Sessions

Nodes are made and roots are compiled in one graph, in any order.  A compilation that
fails changes nothing, and one that succeeds changes nothing but registers: each node
that the root needs gets the register of the entry that completes it.  What a root
compiles to is therefore the same however many roots are compiled in between.
-/

namespace SolidField

/-! ## Registers that a compilation writes -/

namespace Graph

variable {graph larger : Graph Single} {root : NodeId} {config : CompileConfig}
  {program : Program}

/-- A node that an entry completes is left with the output register of the entry. -/
theorem exists_node?_assignAll {schedule : Schedule} {folding : NodeId → List NodeId}
    {id : NodeId} {node : Node Single} {earlier later : List ScheduleEntry}
    {entry : ScheduleEntry} (found : graph.node? id = some node)
    (completes : schedule.Completes graph folding id earlier entry later) :
    ∃ assigned, (graph.assignAll schedule.entries).node? id = some assigned ∧
      assigned.register = some (entry.instruction graph).output := by
  obtain rfl := completes.node
  rw [completes.entries, graph.node?_assignAll_of_last completes.last, found]
  exact ⟨_, rfl, rfl⟩

/--
A graph that compiles keeps the registers of the nodes that the root does not need; each
that it needs gets the output register of the entry that completes it.
-/
theorem Valid.completes_of_compile (valid : graph.Valid)
    (compiled : graph.compile root config = .ok (program, larger)) :
    (∀ id, ¬graph.Needs root id → larger.node? id = graph.node? id) ∧
      ∃ schedule folding,
        graph.bestSchedule root config.randomPasses config.seed = .ok schedule ∧
          program = schedule.program graph ∧ graph.Folding folding ∧
          ∀ id, graph.Needs root id → ∃ node earlier entry later,
            larger.node? id = some node ∧
              node.register = some (entry.instruction graph).output ∧
              (entry.instruction graph).output.toNat = entry.register ∧
              schedule.Completes graph folding id earlier entry later := by
  rcases valid.exists_complete compiled with
    ⟨history, trial, complete, fits, addressable, best, isProgram⟩
  rcases compile_eq_ok_iff.mp compiled with ⟨-, -, schedule, found, -, -, rfl⟩
  obtain rfl := Except.ok.inj (best.symm.trans found)
  have inside := inside_of_bestSchedule best
  have small := Nat.le_trans fits addressable
  rcases History.exists_folding complete.sound complete.shaped with
    ⟨folding, isFolding, ordered⟩
  constructor
  · intro id unneeded
    refine node?_assignAll_of_absent graph fun entry member same => unneeded ?_
    exact same ▸ complete.needs_of_mem_entries valid inside (List.mem_reverse.mp member)
  · refine ⟨_, folding, best, isProgram, isFolding, fun id needs => ?_⟩
    have isUsed := (valid.needs_iff inside).mp needs
    have here := lt_size_of_uses_pos isUsed
    have computed := complete.mem_results_of_used valid here isUsed
    rcases complete.exists_completes valid trial small isFolding ordered computed with
      ⟨earlier, entry, later, completes⟩
    rcases exists_node?_of_lt here with ⟨node, found⟩
    rcases exists_node?_assignAll found completes with ⟨assigned, written, register⟩
    have narrow := Nat.lt_of_lt_of_le completes.register small
    exact ⟨assigned, earlier, entry, later, written, register,
      UInt8.toNat_ofNat_of_lt' narrow, completes⟩

end Graph

namespace IndexedGraph

variable {cache : IndexedGraph Single}

/-! ## One compilation -/

theorem foldl_assign (cache : IndexedGraph Single) (entries : List ScheduleEntry) :
    entries.foldl assign cache =
      { cache with graph := cache.graph.assignAll entries } := by
  induction entries generalizing cache with
  | nil => rfl
  | cons entry entries induction => exact induction (cache.assign entry)

/-- A compilation in a graph with an index is that in the graph; failed, it is none. -/
theorem compile_eq (root : NodeId) (config : CompileConfig)
    (cache : IndexedGraph Single) :
    compile root config cache =
      match cache.graph.compile root config with
      | .error error => (.error error, cache)
      | .ok (program, graph) => (.ok program, { cache with graph }) := by
  unfold compile Graph.compile
  by_cases refused : config.maxRegisters = 0 ∨ maxRegisters < config.maxRegisters
  · have unaddressable : config.requireAddressable = _ := if_pos refused
    rw [if_pos refused]
    exact Attempt.bind_inspect_error unaddressable
  · have addressable : config.requireAddressable = _ := if_neg refused
    rw [if_neg refused]
    refine Eq.trans (Attempt.bind_inspect_ok addressable) ?_
    cases best : cache.graph.bestSchedule root config.randomPasses config.seed with
    | error error =>
        exact Attempt.bind_inspect_error (congrArg (Except.mapError _) best)
    | ok schedule =>
        refine Eq.trans
          (Attempt.bind_inspect_ok (congrArg (Except.mapError _) best)) ?_
        by_cases exceeded : config.maxRegisters < schedule.registersNeeded
        · have failed : config.requireBudget schedule = _ := if_pos exceeded
          simp only [if_pos exceeded]
          exact Attempt.bind_inspect_error failed
        · have fits : config.requireBudget schedule = _ := if_neg exceeded
          simp only [if_neg exceeded]
          refine Eq.trans (Attempt.bind_inspect_ok fits) ?_
          refine Eq.trans (Attempt.bind_inspect_ok rfl) ?_
          refine Eq.trans (Attempt.bind_apply_ok (Attempt.changeAll_apply _ _ _)) ?_
          rw [foldl_assign]
          rfl

/-- What a compilation answers, without what it leaves behind. -/
theorem fst_compile (root : NodeId) (config : CompileConfig)
    (cache : IndexedGraph Single) :
    (compile root config cache).1 =
      (cache.graph.compile root config).map Prod.fst := by
  rw [compile_eq]
  cases cache.graph.compile root config <;> rfl

/-- The answer does not depend on the registers that nodes have. -/
theorem fst_compile_of_unassigned_eq {other : IndexedGraph Single}
    (same : cache.graph.unassigned = other.graph.unassigned) (root : NodeId)
    (config : CompileConfig) :
    (compile root config cache).1 = (compile root config other).1 := by
  rw [fst_compile, fst_compile, ← Graph.compile_unassigned, same,
    Graph.compile_unassigned]

/-- Everything that a compilation can do. -/
theorem compile_cases (root : NodeId) (config : CompileConfig)
    (cache : IndexedGraph Single) :
    (∃ error, compile root config cache = (.error error, cache)) ∨
      ∃ program entries, compile root config cache =
          (.ok program, { cache with graph := cache.graph.assignAll entries }) ∧
        cache.graph.compile root config =
          .ok (program, cache.graph.assignAll entries) := by
  rw [compile_eq]
  cases compiled : cache.graph.compile root config with
  | error error => exact Or.inl ⟨error, rfl⟩
  | ok result =>
      rcases result with ⟨program, larger⟩
      rcases Graph.compile_eq_ok_iff.mp compiled with ⟨-, -, schedule, -, -, -, rfl⟩
      exact Or.inr ⟨program, schedule.entries, rfl, rfl⟩

/-- Whatever a compilation answers, it changes registers at most. -/
theorem unassigned_compile (root : NodeId) (config : CompileConfig)
    (cache : IndexedGraph Single) :
    (compile root config cache).2.index = cache.index ∧
      (compile root config cache).2.graph.unassigned = cache.graph.unassigned := by
  rcases compile_cases root config cache with
    ⟨error, failed⟩ | ⟨program, entries, compiled, -⟩
  · rw [failed]
    exact ⟨rfl, rfl⟩
  · rw [compiled]
    exact ⟨rfl, cache.graph.unassigned_assignAll entries⟩

/-- A compilation that fails leaves everything as it is. -/
theorem compile_of_error {root : NodeId} {config : CompileConfig} {error : CompileError}
    (failed : (compile root config cache).1 = .error error) :
    (compile root config cache).2 = cache := by
  rcases compile_cases root config cache with
    ⟨other, refused⟩ | ⟨program, entries, compiled, -⟩
  · rw [refused]
  · rw [compiled] at failed
    cases failed

/-- A compilation that succeeds leaves behind what that of the graph does. -/
theorem compile_of_ok {root : NodeId} {config : CompileConfig} {program : Program}
    (answered : (compile root config cache).1 = .ok program) :
    cache.graph.compile root config =
      .ok (program, (compile root config cache).2.graph) := by
  rcases compile_cases root config cache with
    ⟨other, refused⟩ | ⟨same, entries, succeeded, compiled⟩
  · rw [refused] at answered
    cases answered
  · rw [succeeded, Except.ok.injEq] at answered
    rw [compiled, succeeded, answered]

/-! ## Sequences of calls -/

/-- What a graph with an index is asked for. -/
inductive SessionCall where
  | make (request : NodeRequest Single)
  | compile (root : NodeId) (config : CompileConfig)

/-- Serve a call, whether it succeeds or not. -/
def serve (cache : IndexedGraph Single) : SessionCall → IndexedGraph Single
  | .make request => (cache.answer request).2
  | .compile root config => (compile root config cache).2

def serveAll (cache : IndexedGraph Single) (calls : List SessionCall) :
    IndexedGraph Single :=
  calls.foldl serve cache

theorem serveAll_map_make (cache : IndexedGraph Single)
    (requests : List (NodeRequest Single)) :
    cache.serveAll (requests.map .make) = cache.makeAll requests :=
  List.foldl_map

/-- Compile one root after the other. -/
def compileAll (cache : IndexedGraph Single) (roots : List (NodeId × CompileConfig)) :
    IndexedGraph Single :=
  cache.serveAll (roots.map fun call => .compile call.1 call.2)

theorem unassigned_compileAll (cache : IndexedGraph Single)
    (roots : List (NodeId × CompileConfig)) :
    (cache.compileAll roots).graph.unassigned = cache.graph.unassigned := by
  induction roots generalizing cache with
  | nil => rfl
  | cons call roots induction =>
      exact (induction _).trans (unassigned_compile call.1 call.2 cache).2

namespace HashConsed

/-- What differs in registers only is as good. -/
theorem of_unassigned_eq {other : IndexedGraph Single} (consed : cache.HashConsed)
    (index : other.index = cache.index)
    (same : other.graph.unassigned = cache.graph.unassigned) : other.HashConsed where
  valid := consed.valid.of_extends (Graph.extends_of_unassigned_eq same.symm)
    (Graph.extends_of_unassigned_eq same)
  lookup := by
    intro key id
    rw [index, consed.lookup key id]
    constructor
    · rintro ⟨node, found, rfl⟩
      rcases Graph.extends_of_unassigned_eq same.symm id node found with
        ⟨copy, copyFound, operation⟩
      exact ⟨copy, copyFound, Node.key_eq_of_operation_eq operation⟩
    · rintro ⟨node, found, rfl⟩
      rcases Graph.extends_of_unassigned_eq same id node found with
        ⟨copy, copyFound, operation⟩
      exact ⟨copy, copyFound, Node.key_eq_of_operation_eq operation⟩
  consumers := by
    intro id node found
    rcases Graph.exists_node?_of_unassigned_eq same found with
      ⟨former, formerFound, equal⟩
    have consumers : former.consumers = node.consumers :=
      (congrArg Node.consumers equal :)
    rw [← consumers, consed.consumers id former formerFound,
      ← Graph.operands_unassigned, ← same, Graph.operands_unassigned]

theorem serve (consed : cache.HashConsed) (call : SessionCall) :
    (cache.serve call).HashConsed := by
  cases call with
  | make request => exact consed.answer request
  | compile root config =>
      rcases unassigned_compile root config cache with ⟨index, same⟩
      exact consed.of_unassigned_eq index same

theorem serveAll (consed : cache.HashConsed) (calls : List SessionCall) :
    (cache.serveAll calls).HashConsed := by
  induction calls generalizing cache with
  | nil => exact consed
  | cons call calls induction => exact induction (consed.serve call)

end HashConsed

/-! ## What a compilation leaves behind -/

/--
Whatever nodes were made and whatever roots were compiled before, a compilation that
fails changes nothing.  One that succeeds changes nothing but registers: a node that the
root does not need keeps its own, and each node that it needs gets the output register of
the entry that completes it.  However many roots are compiled afterwards, whether they
compile or not, the root compiles to the same program with the same settings.
-/
theorem compile_assigns_completed (calls : List SessionCall) (root : NodeId)
    (config : CompileConfig) :
    let cache := initial.serveAll calls
    let answer := (compile root config cache).1
    let after := (compile root config cache).2
    (∀ error, answer = .error error → after = cache) ∧
      (∀ program, answer = .ok program →
        after.index = cache.index ∧ after.graph.unassigned = cache.graph.unassigned ∧
          (∀ id, ¬cache.graph.Needs root id →
            after.graph.node? id = cache.graph.node? id) ∧
          ∃ schedule folding,
            cache.graph.bestSchedule root config.randomPasses config.seed =
                .ok schedule ∧
              program = schedule.program cache.graph ∧ cache.graph.Folding folding ∧
              ∀ id, cache.graph.Needs root id → ∃ node earlier entry later,
                after.graph.node? id = some node ∧
                  node.register = some (entry.instruction cache.graph).output ∧
                  (entry.instruction cache.graph).output.toNat = entry.register ∧
                  schedule.Completes cache.graph folding id earlier entry later) ∧
      ∀ between : List (NodeId × CompileConfig),
        (compile root config (after.compileAll between)).1 = answer := by
  intro cache answer after
  have consed : cache.HashConsed := HashConsed.initial.serveAll calls
  have unchanged : after.index = cache.index ∧
      after.graph.unassigned = cache.graph.unassigned :=
    unassigned_compile root config cache
  refine ⟨fun error => compile_of_error, ?_, fun between => ?_⟩
  · intro program answered
    have compiled := compile_of_ok answered
    exact ⟨unchanged.1, unchanged.2, consed.valid.completes_of_compile compiled⟩
  · have same := (after.unassigned_compileAll between).trans unchanged.2
    exact fst_compile_of_unassigned_eq same root config

/--
The union of three parts is left with the register of its outer application, and it
compiles to the same program again after an attempt with a single register.
-/
theorem sharedUnion_assigns_completed :
    let cache := initial.serveAll (Graph.sharedUnion.map .make)
    let after := (compile ⟨3⟩ ⟨1, 7, 2⟩ cache).2
    ∃ program, (compile ⟨3⟩ ⟨1, 7, 2⟩ cache).1 = .ok program ∧
      (∃ (schedule : Schedule) (folding : NodeId → List NodeId) (node : Node Single)
          (earlier : List ScheduleEntry) (entry : ScheduleEntry)
          (later : List ScheduleEntry),
        after.graph.node? ⟨3⟩ = some node ∧
          node.register = some (entry.instruction cache.graph).output ∧
          schedule.Completes cache.graph folding ⟨3⟩ earlier entry later) ∧
      (compile ⟨3⟩ ⟨1, 7, 2⟩ (after.compileAll [(⟨3⟩, ⟨1, 7, 1⟩)])).1 = .ok program := by
  intro cache after
  rcases compile_assigns_completed (Graph.sharedUnion.map .make) ⟨3⟩ ⟨1, 7, 2⟩ with
    ⟨-, succeeded, again⟩
  have same : cache.graph = Graph.initial.makeAll Graph.sharedUnion :=
    (congrArg graph (serveAll_map_make initial Graph.sharedUnion)).trans
      (HashConsed.initial.graph_makeAll Graph.sharedUnion)
  rcases Graph.exists_compile_sharedUnion with ⟨⟨program, larger⟩, compiled, -⟩
  have answered : (compile ⟨3⟩ ⟨1, 7, 2⟩ cache).1 = .ok program := by
    rw [fst_compile, same, compiled]
    rfl
  rcases succeeded program answered with ⟨-, -, -, schedule, folding, -, -, -, completes⟩
  rcases completes ⟨3⟩ .root with
    ⟨node, earlier, entry, later, found, register, -, entries⟩
  exact ⟨program, answered,
    ⟨schedule, folding, node, earlier, entry, later, found, register, entries⟩,
    (again _).trans answered⟩

end IndexedGraph

end SolidField
