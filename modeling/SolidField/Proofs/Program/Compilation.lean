import SolidField.Proofs.Program.Entries

/-!
# Compiled graphs

The program of a schedule is wellformed, so that it is loaded, and evaluates to
the value of its root: for every graph that can be made, every trial order and
every content of the registers, as long as a byte can address them.
-/

namespace SolidField

/-! ## Graphs with countable parameters -/

namespace Graph

/-- A word can count the parameters of every node. -/
def Countable (graph : Graph Single) : Prop :=
  ∀ id node, graph.node? id = some node →
    node.parameters.length < UInt32.size

/-- Making a node keeps parameters countable, unless it has too many itself. -/
theorem Countable.make {graph larger : Graph Single} {opcode : Opcode}
    {parameters : List Single} {dependencies : List NodeId}
    {payload : Option (Payload Single)} {id : NodeId}
    (countable : graph.Countable)
    (counted : opcode.parameters = .variadic →
      parameters.length < UInt32.size)
    (made : graph.make opcode parameters dependencies payload =
      .ok (id, larger)) : larger.Countable := by
  rcases graph.make_cases opcode parameters dependencies payload with
    ⟨error, -, failed⟩ | ⟨other, -, -, hit⟩ | ⟨clear, -, inserted⟩
  · rw [failed] at made
    cases made
  · rw [hit] at made
    cases made
    exact countable
  · rw [inserted] at made
    cases made
    rcases obstacle?_eq_none_iff.mp clear with ⟨-, -, accepted, -⟩
    intro id node found
    rcases node?_insert_cases found with
      ⟨-, rfl⟩ | ⟨former, formerFound, operation⟩
    · cases layout : opcode.parameters with
      | variadic => exact counted layout
      | fixed count =>
          rw [layout, ParameterLayout.accepts, decide_eq_true_eq] at accepted
          rw [Node.make, accepted]
          exact Opcode.length_lt_of_fixed layout
    · rcases Node.eq_of_operation_eq operation with ⟨-, parameters, -, -⟩
      rw [← parameters]
      exact countable id former formerFound

theorem countable_makeAll {requests : List (NodeRequest Single)}
    (counted : ∀ request ∈ requests,
      request.opcode.parameters = .variadic →
        request.parameters.length < UInt32.size) :
    (initial.makeAll requests).Countable := by
  refine makeAll_induction ?_ fun request member smaller larger id countable made =>
    countable.make (counted request member) made
  intro id node found
  have inside := index_lt_of_node? found
  rcases id with ⟨index⟩
  obtain rfl : index = 0 := Nat.lt_one_iff.mp inside
  cases found
  decide

end Graph

namespace Placement

theorem countP_entries (graph : Graph Single) (uses : Array Nat)
    (history : History) (id : NodeId) :
    (ofHistory graph uses history).entries.countP (fun entry => entry.node = id) =
      history.owners.count id.index := by
  induction history with
  | nil => rfl
  | cons application earlier induction =>
      rw [ofHistory, apply, History.owners_cons, List.countP_cons,
        List.count_cons, induction]
      rcases id with ⟨index⟩
      have same : ((ofHistory graph uses earlier).entry graph application).node =
          ⟨index⟩ ↔ application.result.owner = index := NodeId.mk.injEq _ _ ▸ Iff.rfl
      simp [same]

end Placement

/-! ## Schedules of histories -/

def Placement.schedule (placement : Placement) (trial : Nat) : Schedule :=
  ⟨placement.allocator.registersNeeded, placement.entries.reverse, trial⟩

/-- A trial schedules the history of its recording. -/
theorem Graph.Valid.schedule_record {graph : Graph Single} (valid : graph.Valid)
    {root : NodeId} (inside : root.index < graph.size) (order : TrialOrder)
    (trial : Nat) :
    graph.schedule root order trial =
      .ok ((History.placement graph root
        (graph.record root order).history).schedule trial) := by
  have follows := (History.complete_record valid inside order).2.trial
  rw [graph.trial_record root order] at follows
  rw [Graph.schedule, Graph.require, if_neg (Nat.not_le.mpr inside)]
  simp only [Except.map, scheduleWith, follows.allocator, follows.entries,
    Placement.schedule]

/-- Every trial schedules a complete history. -/
theorem Graph.Valid.exists_schedule {graph : Graph Single} (valid : graph.Valid)
    {root : NodeId} (inside : root.index < graph.size) (order : TrialOrder)
    (trial : Nat) :
    ∃ history, History.Complete graph root history ∧
      graph.schedule root order trial =
        .ok ((history.placement graph root).schedule trial) :=
  ⟨_, (History.complete_record valid inside order).1,
    valid.schedule_record inside order trial⟩

namespace History

variable {graph : Graph Single} {root : NodeId} {history : History}

/-- The program returns the register of the root. -/
theorem Complete.register?_root (valid : graph.Valid)
    (complete : history.Complete graph root) (trial : Nat) :
    (placement graph root history).register? (.node root.index) =
      some ((placement graph root history).schedule trial).resultRegister := by
  match history with
  | [] => exact absurd complete.computesRoot (by simp [results])
  | application :: earlier =>
      rw [← complete.result_eq valid]
      simp [Placement.schedule, Schedule.resultRegister, Placement.ofHistory,
        Placement.apply, Placement.entry]

theorem Complete.resultRegister_lt (valid : graph.Valid)
    (complete : history.Complete graph root) (trial : Nat) :
    ((placement graph root history).schedule trial).resultRegister <
      (placement graph root history).allocator.registersNeeded := by
  rcases
      (Complete.allocated valid [] complete).placed _
        complete.computesRoot with
    ⟨register, placed, inside⟩
  rw [complete.register?_root valid trial, Option.some.injEq] at placed
  rwa [placed]

/-- The instructions of a complete history are a program. -/
theorem Complete.wellformed (valid : graph.Valid) (countable : graph.Countable)
    (complete : history.Complete graph root) (trial : Nat)
    (small : (placement graph root history).allocator.registersNeeded ≤
      maxRegisters) :
    Wellformed (placement graph root history).allocator.registersNeeded
      (((placement graph root history).schedule trial).instructions graph) := by
  have result := complete.resultRegister_lt valid trial
  have body : ∀ instruction ∈
      ((placement graph root history).entries.reverse.filter
        fun entry => entry.opcode ≠ .point).map
          (fun entry => entry.instruction graph),
      instruction.Fits (placement graph root history).allocator.registersNeeded ∧
        instruction.opcode ≠ .halt := by
    simp only [List.forall_mem_map, List.mem_filter, List.mem_reverse,
      decide_eq_true_eq]
    rintro entry ⟨member, going⟩
    rcases complete.exists_proper valid member going with ⟨node, proper⟩
    exact proper.fits (countable _ node proper.found) small
  refine ⟨Nat.lt_of_le_of_lt (Nat.zero_le _) result, small, ?_,
    _, _, rfl, rfl, fun instruction member => (body instruction member).2⟩
  rw [Schedule.instructions, List.forall_mem_append, List.forall_mem_singleton]
  refine ⟨fun instruction member => (body instruction member).1, ?_⟩
  refine ⟨nofun, ?_, fun going => absurd rfl going, nofun, rfl, ?_⟩
  · rw [Instruction.result, UInt8.toNat_ofNat_of_lt'
      (Nat.lt_of_lt_of_le result small)]
    exact result
  · show 0 < UInt32.size
    decide

/-- The machine of the instructions of a complete history runs its operations. -/
theorem Complete.ofInstructions_eq (valid : graph.Valid)
    (complete : history.Complete graph root) (trial : Nat)
    (small : (placement graph root history).allocator.registersNeeded ≤
      maxRegisters) :
    let placement := placement graph root history
    Machine.ofInstructions placement.allocator.registersNeeded
        ((placement.schedule trial).instructions graph) =
      ⟨placement.steps graph, placement.allocator.registersNeeded,
        (placement.schedule trial).resultRegister⟩ := by
  intro placement
  have going : ∀ instruction ∈
      (placement.entries.reverse.filter fun entry => entry.opcode ≠ .point).map
        (fun entry => entry.instruction graph),
      instruction.opcode ≠ .halt := by
    simp only [List.forall_mem_map, List.mem_filter, List.mem_reverse,
      decide_eq_true_eq]
    rintro entry ⟨member, notPoint⟩
    rcases complete.exists_proper valid member notPoint with ⟨node, proper⟩
    rw [ScheduleEntry.instruction_of_node? proper.found, proper.opcode]
    exact Opcode.ne_halt_of_hasKernel proper.admissible.kernel
  have returned := UInt8.toNat_ofNat_of_lt' (Nat.lt_of_lt_of_le
    (complete.resultRegister_lt valid trial) small)
  rw [Schedule.instructions]
  refine (Machine.ofInstructions_append rfl going).trans ?_
  simp only [Instruction.result, placement, returned, List.map_map]
  rfl

/-- The program of a complete history is loaded. -/
theorem Complete.load_program (valid : graph.Valid)
    (countable : graph.Countable) (complete : history.Complete graph root)
    (trial : Nat)
    (small : (placement graph root history).allocator.registersNeeded ≤
      maxRegisters) :
    let placement := placement graph root history
    Machine.load ((placement.schedule trial).program graph) =
      .ok ⟨placement.steps graph, placement.allocator.registersNeeded,
        (placement.schedule trial).resultRegister⟩ := by
  intro placement
  have decoded := Program.decode_encodeAll
    (complete.wellformed valid countable trial small)
  rw [Schedule.program]
  exact (Machine.load_of_decode decoded).trans
    (congrArg Except.ok (complete.ofInstructions_eq valid trial small))

/--
The machine of a complete history evaluates to an accepted content of the root if
every operation makes accepted contents of accepted contents.
-/
theorem Complete.exists_evalTampered (valid : graph.Valid)
    (complete : history.Complete graph root) (trial : Nat)
    (small : (placement graph root history).allocator.registersNeeded ≤
      maxRegisters)
    {gradients : Nat → Tampering} {accepts : Computed → Register → Prop}
    (produces : ∀ application ∈ history, ∀ node,
      graph.node? ⟨application.result.owner⟩ = some node →
        node.Admissible application.result.owner →
          application.Produces gradients accepts node)
    {point : Vec3 Single} (accepted : accepts (.node 0) (Kernel.pointValue point))
    {registers : RegisterFile}
    (room : (placement graph root history).allocator.registersNeeded ≤
      registers.size) :
    let placement := placement graph root history
    ∃ content left, Machine.evalTampered
        ⟨placement.steps graph, placement.allocator.registersNeeded,
          (placement.schedule trial).resultRegister⟩ gradients point registers =
        .ok (content, left) ∧ accepts (.node root.index) content := by
  intro placement
  have result := complete.resultRegister_lt valid trial
  have positive : 0 < registers.size :=
    Nat.lt_of_le_of_lt (Nat.zero_le _) (Nat.lt_of_lt_of_le result room)
  obtain ⟨left, ran, -, holds⟩ := Complete.exists_runAllTampered valid [] complete
    produces (registers.setIfInBounds 0 (Kernel.pointValue point))
    (by simp [positive]) accepted (by simpa using room) small
  rcases holds _ complete.computesRoot (by simp [pending]) with
    ⟨register, content, placed, stored, contentAccepted⟩
  rw [complete.register?_root valid trial, Option.some.injEq] at placed
  subst placed
  refine ⟨content, left, ?_, contentAccepted⟩
  have read := RegisterFile.read_eq_ok_iff.mpr stored
  simp only [Machine.evalTampered, RegisterFile.write_of_lt _ positive, bind,
    Except.bind, pure, Except.pure, placement, ran, read]

/-- The machine of a complete history evaluates to the value of the root. -/
theorem Complete.evalWith_eq (valid : graph.Valid)
    (complete : history.Complete graph root) (trial : Nat)
    (small : (placement graph root history).allocator.registersNeeded ≤
      maxRegisters)
    {order : NodeId → List NodeId} {point : Vec3 Single}
    {value : NodeId → Vec4 Single} (folding : graph.Folding order)
    (ordered : history.OrderedBy order)
    (folded : graph.FoldedValuation order point value)
    {registers : RegisterFile}
    (room : (placement graph root history).allocator.registersNeeded ≤
      registers.size) :
    let placement := placement graph root history
    ∃ left, Machine.evalWith
        ⟨placement.steps graph, placement.allocator.registersNeeded,
          (placement.schedule trial).resultRegister⟩ point registers =
      .ok (value root, left) := by
  intro placement
  rcases valid.point with ⟨node, found, opcode, -⟩
  obtain ⟨content, left, evaluated, rfl⟩ := complete.exists_evalTampered valid
    trial small
    (fun _ member _ => complete.produces_value folding ordered folded member)
    (folded.point _ node found opcode).symm room
  rw [Machine.evalTampered_truncate] at evaluated
  exact ⟨left, evaluated⟩

end History

/-! ## Programs of graphs -/

namespace Graph

/--
Whatever nodes are asked for, every trial schedules a root of the graph: it
computes what the root uses, once, and nothing else.  If a byte can address the
registers, the program is loaded, and at every point it evaluates to the value of
the root with the chains in one order, whatever the registers hold before.
-/
theorem exists_schedule_evalWith_eq (requests : List (NodeRequest Single))
    (counted : ∀ request ∈ requests,
      request.opcode.parameters = .variadic →
        request.parameters.length < UInt32.size)
    (root : NodeId) (inside : root.index < (initial.makeAll requests).size)
    (order : TrialOrder) (trial : Nat) :
    let graph := initial.makeAll requests
    ∃ schedule, graph.schedule root order trial = .ok schedule ∧
      (∀ id, schedule.entries.countP (fun entry => entry.node = id) =
        if 0 < (graph.uses root).getD id.index 0 then
          graph.applications id.index
        else 0) ∧
      (schedule.registersNeeded ≤ maxRegisters →
        ∃ machine folding,
          Machine.load (schedule.program graph) = .ok machine ∧
            graph.Folding folding ∧
            ∀ point, ∃ value, graph.FoldedValuation folding point value ∧
              ∀ registers : RegisterFile,
                schedule.registersNeeded ≤ registers.size →
                  ∃ left, machine.evalWith point registers =
                    .ok (value root, left)) := by
  intro graph
  have valid : graph.Valid := valid_makeAll requests
  have countable : graph.Countable := countable_makeAll counted
  rcases valid.exists_schedule inside order trial with
    ⟨history, complete, scheduled⟩
  refine ⟨_, scheduled, fun id => ?_, fun small => ?_⟩
  · rw [Placement.schedule, List.countP_reverse, Placement.countP_entries]
    exact complete.count_owners valid id.index
  · rcases History.exists_folding complete.sound complete.shaped with
      ⟨folding, isFolding, ordered⟩
    refine ⟨_, folding, complete.load_program valid countable trial small,
      isFolding, fun point => ?_⟩
    rcases exists_foldedValuation valid isFolding point with ⟨value, folded⟩
    exact ⟨value, folded, fun registers room =>
      complete.evalWith_eq valid trial small isFolding ordered folded room⟩

/--
A union of a sphere, its shell and the sphere again; a sphere that is there and
a union with a node that is not are asked for in between.
-/
def sharedUnion : List (NodeRequest Single) :=
  [ ⟨.sphere, [1], [point], none⟩,
    ⟨.shell, [1], [⟨1⟩], none⟩,
    ⟨.sphere, [1], [point], none⟩,
    ⟨.union, [0], [⟨9⟩, ⟨1⟩], none⟩,
    ⟨.union, [0], [⟨1⟩, ⟨2⟩, ⟨1⟩], none⟩ ]

/-- With the two fixed orders and a shuffle the union compiles to two registers. -/
theorem exists_compile_sharedUnion :
    ∃ result,
      (initial.makeAll sharedUnion).compile ⟨3⟩ ⟨1, 7, 2⟩ = .ok result ∧
        result.1.registerCount = 2 :=
  exists_eq_ok_of_map (by decide +kernel)

/-- A shuffled trial computes the shared sphere once and the union in two steps. -/
theorem sharedUnion_evalWith_eq :
    let graph := initial.makeAll sharedUnion
    ∃ schedule, graph.schedule ⟨3⟩ (.shuffled 7) 2 = .ok schedule ∧
      schedule.registersNeeded = 2 ∧
      schedule.entries.countP (fun entry => entry.node = ⟨1⟩) = 1 ∧
      schedule.entries.countP (fun entry => entry.node = ⟨3⟩) = 2 ∧
      ∃ machine folding,
        Machine.load (schedule.program graph) = .ok machine ∧
          graph.Folding folding ∧
          ∀ point, ∃ value, graph.FoldedValuation folding point value ∧
            ∀ registers : RegisterFile, 2 ≤ registers.size →
              ∃ left, machine.evalWith point registers =
                .ok (value ⟨3⟩, left) := by
  intro graph
  rcases
      exists_schedule_evalWith_eq sharedUnion (by decide) ⟨3⟩
        (by decide +kernel) (.shuffled 7) 2 with
    ⟨schedule, scheduled, counts, evaluates⟩
  have two : (graph.schedule ⟨3⟩ (.shuffled 7) 2).toOption.map
      Schedule.registersNeeded = some 2 := by
    decide +kernel
  have needed : schedule.registersNeeded = 2 := by
    simpa only [graph, scheduled, Except.toOption, Option.map_some,
      Option.some.injEq] using two
  refine ⟨schedule, scheduled, needed, ?_, ?_, ?_⟩
  · rw [counts ⟨1⟩]
    decide +kernel
  · rw [counts ⟨3⟩]
    decide +kernel
  · rw [← needed]
    exact evaluates (by rw [needed]; decide)

end Graph

end SolidField
