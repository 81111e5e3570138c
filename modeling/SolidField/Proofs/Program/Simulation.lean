import SolidField.Program.Compile
import SolidField.Proofs.Program.Execution
import SolidField.Program.Tampering
import SolidField.Proofs.Schedule.Values

/-!
# Running a history

The machine runs the operations of a history.  After every step each value that
is still to be read is in its register, whatever the registers held before.  What
counts as a value is a relation that every step keeps: for an ordinary run it is
equality with the value of the graph, but gradients may also be replaced behind
every step if the relation does not mind.
-/

namespace SolidField

namespace MachineStep

variable {gradients : Nat → Tampering}

theorem runAllTampered_append {position : Nat} {steps more : List MachineStep}
    {registers reached : RegisterFile}
    (ran : runAllTampered gradients position steps registers = .ok reached) :
    runAllTampered gradients position (steps ++ more) registers =
      runAllTampered gradients (position + steps.length) more reached := by
  induction steps generalizing position registers with
  | nil =>
      cases ran
      rfl
  | cons step steps induction =>
      have length : position + (step :: steps).length =
          position + 1 + steps.length := by
        rw [List.length_cons]
        omega
      rw [length]
      cases first : step.runTampered (gradients position) registers with
      | error fault =>
          simp only [runAllTampered, first, bind, Except.bind] at ran
          cases ran
      | ok next =>
          simp only [List.cons_append, runAllTampered, first, bind,
            Except.bind] at ran ⊢
          exact induction ran

/-- A step that runs leaves what tampering makes of its value. -/
theorem runTampered_eq_ok {step : MachineStep} {registers : RegisterFile}
    {value : Register} (gradient : Tampering)
    (ran : step.run registers =
      .ok (registers.setIfInBounds step.output value)) :
    step.runTampered gradient registers =
      .ok (registers.setIfInBounds step.output
        (step.opcode.tamper gradient value)) := by
  rw [runTampered, ran, Except.map, Except.ok.injEq]
  apply Array.ext
  · simp
  · intro index inside _
    have original : index < registers.size := by simpa using inside
    rw [Array.getElem_modify, Array.getElem_setIfInBounds original,
      Array.getElem_setIfInBounds original]
    split <;> rfl

end MachineStep

namespace Application

/--
Of contents that are accepted for its inputs, the operation of an application makes
one that is accepted for its result, with its gradient replaced at any position.
With one input, the second content does not matter.
-/
inductive Produces (gradients : Nat → Tampering)
    (accepts : Computed → Register → Prop) (application : Application)
    (node : Node Single) : Prop where
  | unary {input : Computed} (inputs : application.inputs = [input])
      (makes : ∀ a b, accepts input a → ∃ made,
        Kernel.evaluate? node.opcode node.parameters a b = some made ∧
          ∀ position, accepts application.result
            (node.opcode.tamper (gradients position) made))
  | binary {first second : Computed}
      (inputs : application.inputs = [first, second])
      (makes : ∀ a b, accepts first a → accepts second b → ∃ made,
        Kernel.evaluate? node.opcode node.parameters a b = some made ∧
          ∀ position, accepts application.result
            (node.opcode.tamper (gradients position) made))

end Application

namespace Placement

variable {graph : Graph Single} {uses : Array Nat} {placement : Placement}

/-- The steps of the operations; the evaluation point needs none. -/
def steps (graph : Graph Single) (placement : Placement) : List MachineStep :=
  (placement.entries.reverse.filter fun entry => entry.opcode ≠ .point).map
    fun entry => .ofInstruction (entry.instruction graph)

theorem ofInstruction_entry {application : Application} {node : Node Single}
    (found : graph.node? ⟨application.result.owner⟩ = some node) :
    MachineStep.ofInstruction
        ((placement.entry graph application).instruction graph) =
      ⟨node.opcode, (UInt8.ofNat (placement.target application)).toNat,
        (UInt8.ofNat ((placement.inputs application).getD 0 0)).toNat,
        (UInt8.ofNat ((placement.inputs application).getD 1 0)).toNat,
        node.parameters⟩ := by
  simp only [MachineStep.ofInstruction, ScheduleEntry.instruction,
    ScheduleEntry.inputField, entry, Graph.opcodeAt_of_node? found, found]

/-- What is still to be read is in its register, with an accepted content. -/
def Holds (placement : Placement) (computed : List Computed)
    (pending : Computed → Nat) (accepts : Computed → Register → Prop)
    (registers : RegisterFile) : Prop :=
  ∀ source ∈ computed, 0 < pending source → ∃ register content,
    placement.register? source = some register ∧
      registers[register]? = some content ∧ accepts source content

variable {computed : List Computed} {pending later : Computed → Nat}
  {gradients : Nat → Tampering} {accepts : Computed → Register → Prop}
  {registers : RegisterFile} {application : Application}

/-- The inputs of an application are in their registers. -/
theorem Holds.exists_register
    (holds : placement.Holds computed pending accepts registers)
    (known : ∀ input ∈ application.inputs, input ∈ computed)
    (served : ∀ source ∈ computed,
      pending source = application.inputs.count source + later source)
    {input : Computed} (read : input ∈ application.inputs) :
    ∃ register content, placement.register? input = some register ∧
      registers[register]? = some content ∧ accepts input content := by
  refine holds input (known input read) ?_
  rw [served input (known input read)]
  have := List.count_pos_iff.mpr read
  omega

/-- The result of an application joins what is in its register. -/
theorem Holds.apply (allocated : placement.Allocated computed pending)
    (holds : placement.Holds computed pending accepts registers)
    (known : ∀ input ∈ application.inputs, input ∈ computed)
    (fresh : application.result ∉ computed)
    (served : ∀ source ∈ computed,
      pending source = application.inputs.count source + later source)
    (inside : placement.target application < registers.size)
    {content : Register} (accepted : accepts application.result content) :
    (placement.apply graph uses application).Holds
      (application.result :: computed) later accepts
      (registers.setIfInBounds (placement.target application) content) := by
  intro source member live
  rw [List.mem_cons] at member
  rcases member with rfl | member
  · exact ⟨_, content, if_pos rfl, by simp [inside], accepted⟩
  · have different : source ≠ application.result := by
      rintro rfl
      exact fresh member
    have unread : 0 < pending source := by
      rw [served source member]
      omega
    rcases holds source member unread with
      ⟨register, other, placed, found, otherAccepted⟩
    have kept : placement.target application ≠ register := by
      rintro rfl
      exact allocated.register?_ne_target known served member live placed
    refine ⟨register, other, (if_neg different).trans placed, ?_, otherAccepted⟩
    rw [Array.getElem?_setIfInBounds_ne kept]
    exact found

/-- An application finds accepted contents in the registers that it names. -/
theorem Holds.exists_read (allocated : placement.Allocated computed pending)
    (holds : placement.Holds computed pending accepts registers)
    (known : ∀ input ∈ application.inputs, input ∈ computed)
    (served : ∀ source ∈ computed,
      pending source = application.inputs.count source + later source)
    (small : (placement.apply graph uses application).allocator.registersNeeded ≤
      maxRegisters) {input : Computed} (read : input ∈ application.inputs) :
    ∃ register content, placement.register? input = some register ∧
      registers.read (UInt8.ofNat register).toNat = .ok content ∧
        accepts input content := by
  rcases holds.exists_register known served read with
    ⟨register, content, placed, stored, accepted⟩
  rcases allocated.placed input (known input read) with ⟨same, samePlaced, inside⟩
  rw [placed, Option.some.injEq] at samePlaced
  have bounded := registersNeeded_le_apply graph uses placement application
  have narrow : register < maxRegisters := by omega
  refine ⟨register, content, placed, ?_, accepted⟩
  rw [UInt8.toNat_ofNat_of_lt' narrow]
  exact RegisterFile.read_eq_ok_iff.mpr stored

/-- The step of an application writes an accepted content of its result. -/
theorem Holds.run_entry (allocated : placement.Allocated computed pending)
    (holds : placement.Holds computed pending accepts registers)
    (known : ∀ input ∈ application.inputs, input ∈ computed)
    (served : ∀ source ∈ computed,
      pending source = application.inputs.count source + later source)
    {node : Node Single}
    (found : graph.node? ⟨application.result.owner⟩ = some node)
    (produces : application.Produces gradients accepts node)
    (room : (placement.apply graph uses application).allocator.registersNeeded ≤
      registers.size)
    (small : (placement.apply graph uses application).allocator.registersNeeded ≤
      maxRegisters) (position : Nat) :
    ∃ content, accepts application.result content ∧
      (MachineStep.ofInstruction
          ((placement.entry graph application).instruction graph)).runTampered
            (gradients position) registers =
        .ok (registers.setIfInBounds (placement.target application) content) := by
  have target := target_lt_registersNeeded graph uses placement application
  have writes : placement.target application < registers.size :=
    Nat.lt_of_lt_of_le target room
  have output : (UInt8.ofNat (placement.target application)).toNat =
      placement.target application :=
    UInt8.toNat_ofNat_of_lt' (Nat.lt_of_lt_of_le target small)
  rw [ofInstruction_entry found, output]
  cases produces with
  | unary inputs makes =>
      rename_i input
      rcases holds.exists_read allocated known served small
          (show input ∈ application.inputs by simp [inputs]) with
        ⟨register, a, placed, read, accepted⟩
      have fields : placement.inputs application = [register] := by
        simp [Placement.inputs, inputs, placed]
      have zero : registers.read 0 = .ok registers[0] :=
        RegisterFile.read_of_lt (by omega)
      rcases makes a registers[0] accepted with ⟨made, computed, tampered⟩
      refine ⟨_, tampered position, MachineStep.runTampered_eq_ok _ ?_⟩
      rw [fields]
      exact MachineStep.run_eq_ok read zero computed writes
  | binary inputs makes =>
      rename_i first second
      rcases holds.exists_read allocated known served small
          (show first ∈ application.inputs by simp [inputs]) with
        ⟨firstRegister, a, firstPlaced, firstRead, firstAccepted⟩
      rcases holds.exists_read allocated known served small
          (show second ∈ application.inputs by simp [inputs]) with
        ⟨secondRegister, b, secondPlaced, secondRead, secondAccepted⟩
      have fields : placement.inputs application =
          [firstRegister, secondRegister] := by
        simp [Placement.inputs, inputs, firstPlaced, secondPlaced]
      rcases makes a b firstAccepted secondAccepted with
        ⟨made, computed, tampered⟩
      refine ⟨_, tampered position, MachineStep.runTampered_eq_ok _ ?_⟩
      rw [fields]
      exact MachineStep.run_eq_ok firstRead secondRead computed writes

theorem steps_apply {application : Application}
    (going : graph.opcodeAt application.result.owner ≠ .point) :
    (placement.apply graph uses application).steps graph =
      placement.steps graph ++
        [.ofInstruction
          ((placement.entry graph application).instruction graph)] := by
  simp [steps, Placement.apply, entry, going]

theorem steps_apply_point {application : Application}
    (isPoint : graph.opcodeAt application.result.owner = .point) :
    (placement.apply graph uses application).steps graph =
      placement.steps graph := by
  simp [steps, Placement.apply, entry, isPoint]

end Placement

/-! ## Runs -/

namespace History

variable {graph : Graph Single} {root : NodeId}

theorem Complete.earlier_eq_nil (valid : graph.Valid) {later earlier : History}
    {application : Application}
    (complete : Complete graph root (later ++ application :: earlier))
    (isPoint : application.result = .node 0) : earlier = [] := by
  apply Decidable.by_contra
  intro nonempty
  have computed := Complete.point_mem_results valid (later ++ [application])
    (by simpa using complete) nonempty
  exact complete.sound.of_append.2.1 (isPoint ▸ computed)

theorem Complete.inputs_eq_nil (valid : graph.Valid) {history : History}
    {application : Application} (complete : Complete graph root history)
    (member : application ∈ history) (isPoint : application.result = .node 0) :
    application.inputs = [] := by
  rcases valid.point with ⟨point, found, -, none⟩
  cases complete.shaped application member with
  | part many => cases isPoint
  | node perm declared =>
      cases isPoint
      rw [Graph.dependencies_of_node? found, none] at perm
      rw [perm.eq_nil]
      rfl

theorem Complete.steps_point (valid : graph.Valid) (uses : Array Nat)
    {application : Application} (isPoint : application.result = .node 0) :
    (Placement.ofHistory graph uses [application]).steps graph = [] := by
  apply Placement.steps_apply_point
  rw [isPoint]
  exact valid.opcodeAt_zero

/-- The evaluation point is in the first register. -/
theorem Complete.holds_point (valid : graph.Valid)
    {accepts : Computed → Register → Prop} {later : History}
    {application : Application}
    (complete : Complete graph root (later ++ [application]))
    (isPoint : application.result = .node 0) {registers : RegisterFile}
    {content : Register} (start : registers[0]? = some content)
    (accepted : accepts (.node 0) content) (uses : Array Nat)
    (pending : Computed → Nat) :
    (Placement.ofHistory graph uses [application]).Holds
      [application.result] pending accepts registers := by
  intro source member _
  rw [List.mem_singleton] at member
  subst source
  have unread := complete.inputs_eq_nil valid (by simp) isPoint
  refine ⟨_, content, if_pos rfl, ?_, isPoint ▸ accepted⟩
  rw [Placement.target_nil graph uses unread, start]

/--
From a register file that holds an accepted content of the point first and has
room, the steps of a history run if every operation makes accepted contents of
accepted contents.  They leave accepted contents of what is still to be read.
-/
theorem Complete.exists_runAllTampered (valid : graph.Valid)
    {gradients : Nat → Tampering} {accepts : Computed → Register → Prop}
    (later : History) {earlier : History}
    (complete : Complete graph root (later ++ earlier))
    (produces : ∀ application ∈ earlier, ∀ node,
      graph.node? ⟨application.result.owner⟩ = some node →
        node.Admissible application.result.owner →
          application.Produces gradients accepts node)
    (registers : RegisterFile) {content : Register}
    (start : registers[0]? = some content) (accepted : accepts (.node 0) content)
    (room : (placement graph root earlier).allocator.registersNeeded ≤
      registers.size)
    (small : (placement graph root earlier).allocator.registersNeeded ≤
      maxRegisters) :
    ∃ left,
      MachineStep.runAllTampered gradients 0
          ((placement graph root earlier).steps graph) registers = .ok left ∧
        left.size = registers.size ∧
        (placement graph root earlier).Holds earlier.results
          (pending root later) accepts left := by
  -- The latest application is at the front: it runs after the earlier part, for
  -- which it is one of the later ones.
  induction earlier generalizing later with
  | nil => exact ⟨registers, rfl, rfl, by simp [Placement.Holds, results]⟩
  | cons application earlier induction =>
      have split : later ++ application :: earlier =
          later ++ [application] ++ earlier := by simp
      have completeBefore : Complete graph root
          (later ++ [application] ++ earlier) := split ▸ complete
      have more := Placement.registersNeeded_le_apply graph (graph.uses root)
        (placement graph root earlier) application
      rw [List.forall_mem_cons] at produces
      obtain ⟨reached, ran, size, holds⟩ := induction _ completeBefore
        produces.2 (Nat.le_trans more room) (Nat.le_trans more small)
      have sound := complete.sound.of_append
      have served := fun value (_ : value ∈ results earlier) =>
        pending_append root later application value
      have allocated := completeBefore.allocated valid _
      by_cases isPoint : application.result = .node 0
      · obtain rfl := complete.earlier_eq_nil valid isPoint
        refine ⟨registers, ?_, rfl,
          complete.holds_point valid isPoint start accepted _ _⟩
        rw [Complete.steps_point valid _ isPoint]
        rfl
      · rcases complete.exists_admissible valid (by simp) isPoint with
          ⟨node, found, admissible⟩
        have going : graph.opcodeAt application.result.owner ≠ .point := by
          rw [Graph.opcodeAt_of_node? found]
          exact Opcode.ne_point_of_hasKernel admissible.kernel
        have roomLeft := size ▸ room
        obtain ⟨made, madeAccepted, step⟩ := holds.run_entry allocated sound.1
          served found (produces.1 node found admissible) roomLeft small
          (0 + ((placement graph root earlier).steps graph).length)
        have writes := Nat.lt_of_lt_of_le
          (Placement.target_lt_registersNeeded graph (graph.uses root) _ _)
          roomLeft
        refine ⟨_, ?_, ?_, holds.apply allocated sound.1 sound.2.1 served writes
          madeAccepted⟩
        · rw [placement, Placement.ofHistory, Placement.steps_apply going,
            MachineStep.runAllTampered_append ran, MachineStep.runAllTampered,
            step]
          rfl
        · simpa using size

/-- In an ordinary run every operation makes the value of its result. -/
theorem Complete.produces_value {history : History}
    {order : NodeId → List NodeId} {point : Vec3 Single}
    {value : NodeId → Vec4 Single} (complete : Complete graph root history)
    (folding : graph.Folding order) (ordered : history.OrderedBy order)
    (folded : graph.FoldedValuation order point value)
    {application : Application} (member : application ∈ history)
    {node : Node Single}
    (found : graph.node? ⟨application.result.owner⟩ = some node)
    (admissible : node.Admissible application.result.owner) :
    application.Produces (fun _ => Vec4.truncate)
      (fun source content => content = Computed.value graph value source) node := by
  cases complete.yields folding ordered folded member found admissible with
  | unary inputs computed =>
      refine .unary inputs fun a b same => ?_
      rw [same]
      exact ⟨_, computed b, fun _ => by rw [Opcode.tamper_truncate]; rfl⟩
  | binary inputs computed =>
      refine .binary inputs fun a b same otherSame => ?_
      rw [same, otherSame]
      exact ⟨_, computed, fun _ => by rw [Opcode.tamper_truncate]; rfl⟩

end History

end SolidField
