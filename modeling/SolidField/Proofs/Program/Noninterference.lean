import SolidField.Proofs.Kernel.Content
import SolidField.Proofs.Program.Compilation
import SolidField.Proofs.Shape.Content

/-!
# Gradients do not influence distances

In a well typed graph an operation reads gradients only where it makes a value, and
then only for the gradient of that value.  A run in which the gradients are replaced
behind every step therefore computes the same points and the same distances as the
run in which they are not, whatever the order of a trial.
-/

namespace SolidField

/-- Replacing a gradient keeps all that matters of what an operation makes. -/
theorem Opcode.matches_tamper (opcode : Opcode) (gradient : Tampering)
    {value made : Register} (alike : opcode.content.Matches value made) :
    opcode.content.Matches value (opcode.tamper gradient made) := by
  unfold tamper
  split
  · exact alike
  · next makes =>
      rw [makes] at alike ⊢
      exact alike

/-- A content has the point or the distance of what a trial computes. -/
def Computed.Agrees (graph : Graph Single) (value : NodeId → Vec4 Single)
    (source : Computed) (content : Register) : Prop :=
  (graph.opcodeAt source.owner).content.Matches (source.value graph value) content

namespace Application

variable {graph : Graph Single} {application : Application} {node : Node Single}

/-- Where an application reads a point, its input is a node that makes points. -/
theorem Shaped.makes_point (shaped : application.Shaped graph)
    (typed : graph.WellTyped)
    (found : graph.node? ⟨application.result.owner⟩ = some node)
    (admissible : node.Admissible application.result.owner)
    {position : Nat} {input : Computed}
    (listed : application.inputs[position]? = some input)
    (reads : node.opcode.inputContent position = .point) :
    graph.Makes ⟨input.owner⟩ .point := by
  -- A chain reads values only, so the dependencies are taken as declared.
  have few : node.dependencies.length ≤ 2 := by
    have arity := admissible.arity
    cases shape : node.opcode.arity with
    | associative =>
        rw [Opcode.inputContent_of_associative shape] at reads
        cases reads
    | nullary | unary | binary =>
        rw [shape, Arity.accepts, decide_eq_true_eq] at arity
        omega
  have dependencies := Graph.dependencies_of_node? found
  cases shaped with
  | @part owner first second many =>
      change graph.dependencies owner = _ at dependencies
      rw [dependencies, List.length_map] at many
      omega
  | @node index order perm declared =>
      change graph.dependencies index = _ at dependencies
      rw [dependencies] at declared
      obtain rfl := declared (by simpa using few)
      rw [Operand.ofDependencies_of_le_two (by simpa using few)] at listed
      simp only [List.map_map, List.getElem?_map, Option.map_eq_some_iff,
        Function.comp_apply] at listed
      rcases listed with ⟨dependency, declaredThere, rfl⟩
      rw [← reads]
      exact typed _ node found position dependency declaredThere

/-- What an input agrees in suffices for the operation that reads it. -/
theorem Shaped.matches_input (shaped : application.Shaped graph)
    (typed : graph.WellTyped) {value : NodeId → Vec4 Single}
    (found : graph.node? ⟨application.result.owner⟩ = some node)
    (admissible : node.Admissible application.result.owner)
    {position : Nat} {input : Computed}
    (listed : application.inputs[position]? = some input) {content : Register}
    (agrees : input.Agrees graph value content) :
    (node.opcode.inputContent position).Matches (input.value graph value)
      content := by
  cases reads : node.opcode.inputContent position with
  | value => exact agrees.w_eq
  | point =>
      rcases shaped.makes_point typed found admissible listed reads with
        ⟨source, sourceFound, makes⟩
      rwa [Computed.Agrees, Graph.opcodeAt_of_node? sourceFound, makes] at agrees

end Application

namespace History

variable {graph : Graph Single} {root : NodeId} {history : History}

/--
Of contents that agree with the values of the inputs, every operation makes one that
agrees with the value of the result, whatever becomes of its gradient.
-/
theorem Complete.produces_agreeing (complete : Complete graph root history)
    (typed : graph.WellTyped) {order : NodeId → List NodeId} {point : Vec3 Single}
    {value : NodeId → Vec4 Single} (folding : graph.Folding order)
    (ordered : history.OrderedBy order)
    (folded : graph.FoldedValuation order point value)
    (gradients : Nat → Tampering) {application : Application}
    (member : application ∈ history) {node : Node Single}
    (found : graph.node? ⟨application.result.owner⟩ = some node)
    (admissible : node.Admissible application.result.owner) :
    application.Produces gradients (Computed.Agrees graph value) node := by
  have shaped := complete.shaped application member
  have tampered : ∀ made, node.opcode.content.Matches
      (application.result.value graph value) made → ∀ position,
        application.result.Agrees graph value
          (node.opcode.tamper (gradients position) made) := by
    intro made alike position
    rw [Computed.Agrees, Graph.opcodeAt_of_node? found]
    exact node.opcode.matches_tamper _ alike
  cases complete.yields folding ordered folded member found admissible with
  | @unary input inputs computed =>
      have listed : application.inputs[0]? = some input := by rw [inputs]; rfl
      refine .unary inputs fun a b agrees => ?_
      have first := shaped.matches_input typed found admissible listed agrees
      rcases Kernel.exists_evaluate?_matches first
          (fun _ => Content.Matches.refl _ b) (computed b) with
        ⟨made, evaluated, alike⟩
      exact ⟨made, evaluated, tampered made alike⟩
  | @binary input other inputs computed =>
      have listed : application.inputs[0]? = some input := by rw [inputs]; rfl
      have otherListed : application.inputs[1]? = some other := by rw [inputs]; rfl
      refine .binary inputs fun a b agrees otherAgrees => ?_
      have first := shaped.matches_input typed found admissible listed agrees
      have second := shaped.matches_input typed found admissible otherListed
        otherAgrees
      rcases Kernel.exists_evaluate?_matches first (fun _ => second) computed with
        ⟨made, evaluated, alike⟩
      exact ⟨made, evaluated, tampered made alike⟩

/-- The distance of a complete history at a point, whatever becomes of gradients. -/
theorem Complete.exists_distance (valid : graph.Valid) (typed : graph.WellTyped)
    (complete : Complete graph root history) (trial : Nat)
    (small : (placement graph root history).allocator.registersNeeded ≤
      maxRegisters) (point : Vec3 Single) :
    let placement := placement graph root history
    ∃ distance, ∀ (gradients : Nat → Tampering) (registers : RegisterFile),
      placement.allocator.registersNeeded ≤ registers.size →
        ∃ value left, Machine.evalTampered
            ⟨placement.steps graph, placement.allocator.registersNeeded,
              (placement.schedule trial).resultRegister⟩
            gradients point registers = .ok (value, left) ∧
          value.w = distance := by
  rcases exists_folding complete.sound complete.shaped with
    ⟨order, folding, ordered⟩
  rcases Graph.exists_foldedValuation valid folding point with ⟨value, folded⟩
  refine ⟨(value root).w, fun gradients registers room => ?_⟩
  have start : (Computed.node 0).Agrees graph value (Kernel.pointValue point) := by
    rcases valid.point with ⟨node, found, opcode, -⟩
    rw [Computed.Agrees, Computed.value, ← folded.point _ node found opcode]
    exact Content.Matches.refl _ _
  obtain ⟨content, left, evaluated, agrees⟩ := complete.exists_evalTampered valid
    trial small
    (fun _ member _ => complete.produces_agreeing typed folding ordered folded
      gradients member)
    start room
  exact ⟨content, left, evaluated, agrees.w_eq.symm⟩

end History

/-! ## Shapes -/

namespace Shape

/--
Whatever shapes were lowered before, in the graph of a shape that is lowered every
operation reads points and values where it is meant to.  Every trial schedules the
shape, and if a byte can address the registers, its program computes one distance
at a point: replacing the gradients behind the steps in any way does not change a
bit of it.
-/
theorem lowered_distance_ignores_gradients (earlier : List (Shape Single))
    (shape : Shape Single) {root : NodeId} {larger : Graph Single}
    (lowered : shape.lower (Graph.initial.lowerAll earlier) = (.ok root, larger)) :
    larger.WellTyped ∧ larger.Makes root .value ∧
      ∀ (order : TrialOrder) (trial : Nat), ∃ schedule,
        larger.schedule root order trial = .ok schedule ∧
          (schedule.registersNeeded ≤ maxRegisters →
            let machine := Machine.ofInstructions schedule.registersNeeded
              (schedule.instructions larger)
            (larger.Countable →
              Machine.load (schedule.program larger) = .ok machine) ∧
            ∀ point, ∃ distance, ∀ registers : RegisterFile,
              schedule.registersNeeded ≤ registers.size →
                (∃ value left, machine.evalWith point registers =
                  .ok (value, left) ∧ value.w = distance) ∧
                ∀ gradients, ∃ value left,
                  machine.evalTampered gradients point registers =
                    .ok (value, left) ∧ value.w = distance) := by
  have merged := Graph.merged_lowerAll earlier
  have ensures := (Graph.wellTyped_lowerAll earlier).ensures_lower merged shape
  rw [lowered] at ensures
  have typed : larger.WellTyped := ensures.kept
  have valid : larger.Valid := ensures.merged.valid
  have makes : larger.Makes root .value := ensures.result root rfl
  refine ⟨typed, makes, fun order trial => ?_⟩
  rcases valid.exists_schedule makes.inside order trial with
    ⟨history, complete, scheduled⟩
  refine ⟨_, scheduled, fun small => ?_⟩
  have machine := complete.ofInstructions_eq valid trial small
  refine ⟨fun countable => ?_, fun point => ?_⟩
  · rw [complete.load_program valid countable trial small]
    exact congrArg Except.ok machine.symm
  · obtain ⟨distance, evaluates⟩ :=
      complete.exists_distance valid typed trial small point
    refine ⟨distance, fun registers room => ⟨?_, fun gradients => ?_⟩⟩
    · have ordinary := evaluates (fun _ => Vec4.truncate) registers room
      rw [Machine.evalTampered_truncate] at ordinary
      exact machine ▸ ordinary
    · exact machine ▸ evaluates gradients registers room

/-- A plate with a sphere on it, the edge between them being filleted. -/
def bossedPlate : Shape Single :=
  .union
    [ .extrusion (.rectangle ⟨.two, 1⟩) 1,
      .transformed (.sphere 1) (.ofTranslation ⟨0, 0, 1⟩) ]
    .half

/-- A shuffled trial computes the plate in three registers, gradients or not. -/
theorem bossedPlate_ignores_gradients :
    let larger := (bossedPlate.lower (Graph.initial.lowerAll [])).2
    larger.WellTyped ∧
      ∃ schedule, larger.schedule ⟨5⟩ (.shuffled 7) 2 = .ok schedule ∧
        schedule.registersNeeded = 3 ∧
        ∀ point, ∃ distance, ∀ registers : RegisterFile, 3 ≤ registers.size →
          ∀ gradients, ∃ value left,
            (Machine.ofInstructions 3 (schedule.instructions larger)).evalTampered
              gradients point registers = .ok (value, left) ∧
            value.w = distance := by
  intro larger
  have found : (bossedPlate.lower (Graph.initial.lowerAll [])).1.toOption =
      some ⟨5⟩ := by
    decide +kernel
  obtain ⟨typed, -, trials⟩ :=
    lowered_distance_ignores_gradients [] bossedPlate (lower_eq_ok found)
  obtain ⟨schedule, scheduled, runs⟩ := trials (.shuffled 7) 2
  change larger.schedule ⟨5⟩ (.shuffled 7) 2 = .ok schedule at scheduled
  have three : (larger.schedule ⟨5⟩ (.shuffled 7) 2).toOption.map
      Schedule.registersNeeded = some 3 := by
    decide +kernel
  have needed : schedule.registersNeeded = 3 := by
    simpa only [scheduled, Except.toOption, Option.map_some,
      Option.some.injEq] using three
  rw [needed] at runs
  refine ⟨typed, schedule, scheduled, needed, fun point => ?_⟩
  obtain ⟨distance, evaluates⟩ := (runs (by decide)).2 point
  exact ⟨distance, fun registers room => (evaluates registers room).2⟩

end Shape

end SolidField
