import SolidField.Attempt
import SolidField.Program.Liveness
import SolidField.Proofs.Program.Execution

/-!
# What former contents of the registers matter

The value of a program depends on the contents of its exposed registers only.  If
it exposes none, any two register files give the same value; if it overwrites
none of those that it exposes, a batch gives the values of its points one by one.
The decoder accepts programs that do neither, and for such a program the value of
a point can depend on the points before it.
-/

namespace SolidField

namespace RegisterFile.Agree

variable {live : List Nat} {left right : RegisterFile}

theorem refl (live : List Nat) (registers : RegisterFile) :
    Agree live registers registers :=
  fun _ _ => rfl

theorem of_subset {more : List Nat} (agree : Agree more left right)
    (included : ∀ index ∈ live, index ∈ more) : Agree live left right :=
  fun index member => agree index (included index member)

/-- Files agree behind a write of one value if they agree elsewhere. -/
theorem set {output : Nat}
    (agree : Agree (live.filter fun index => index ≠ output) left right)
    (size : left.size = right.size) (value : Register) :
    Agree live (left.setIfInBounds output value)
      (right.setIfInBounds output value) := by
  intro index member
  by_cases written : output = index
  · subst output
    simp [Array.getElem?_setIfInBounds, size]
  · have same := agree index
      (List.mem_filter.mpr ⟨member, by simpa using Ne.symm written⟩)
    simpa [Array.getElem?_setIfInBounds, written] using same

end RegisterFile.Agree

/-! ## Steps -/

namespace RegisterFile

theorem eq_of_write {registers left : RegisterFile} {index : Nat}
    {value : Register} (written : registers.write index value = .ok left) :
    left = registers.setIfInBounds index value := by
  unfold write at written
  split at written
  · cases written
    rfl
  · cases written

end RegisterFile

namespace MachineStep

variable {step : MachineStep} {steps : List MachineStep}
  {registers reached left right leftReached rightReached : RegisterFile}
  {live : List Nat}

/-- What a step that runs has read, computed and written. -/
theorem run_cases (ran : step.run registers = .ok reached) :
    ∃ a b value,
      registers[step.input1]? = some a ∧
        registers[step.input2]? = some b ∧
        Kernel.evaluate? step.opcode step.parameters a b = some value ∧
        reached = registers.setIfInBounds step.output value := by
  simp only [run, bind, Except.bind] at ran
  cases first : registers.read step.input1 with
  | error fault => simp [first] at ran
  | ok a =>
      cases second : registers.read step.input2 with
      | error fault => simp [first, second] at ran
      | ok b =>
          cases computed : Kernel.evaluate? step.opcode step.parameters a b with
          | none => simp [first, second, computed] at ran
          | some value =>
              simp only [first, second, computed] at ran
              exact ⟨a, b, value, RegisterFile.read_eq_ok_iff.mp first,
                RegisterFile.read_eq_ok_iff.mp second, computed,
                RegisterFile.eq_of_write ran⟩

/-- Steps that run are a first one that runs and the others behind it. -/
theorem runAll_cons_cases (ran : runAll (step :: steps) registers = .ok reached) :
    ∃ between, step.run registers = .ok between ∧
      runAll steps between = .ok reached := by
  simp only [runAll, bind, Except.bind] at ran
  split at ran
  · cases ran
  · next between first => exact ⟨between, first, ran⟩

theorem size_of_run (ran : step.run registers = .ok reached) :
    reached.size = registers.size := by
  rcases run_cases ran with ⟨a, b, value, -, -, -, rfl⟩
  exact Array.size_setIfInBounds

theorem size_of_runAll (ran : runAll steps registers = .ok reached) :
    reached.size = registers.size := by
  induction steps generalizing registers with
  | nil =>
      cases ran
      rfl
  | cons step steps induction =>
      rcases runAll_cons_cases ran with ⟨between, first, rest⟩
      rw [induction rest, size_of_run first]

/-- A kernel computes the same from operands that agree. -/
theorem evaluate?_eq_of_agree {a b c d : Register}
    (agree : RegisterFile.Agree step.operands left right)
    (leftFirst : left[step.input1]? = some a)
    (leftSecond : left[step.input2]? = some b)
    (rightFirst : right[step.input1]? = some c)
    (rightSecond : right[step.input2]? = some d) :
    Kernel.evaluate? step.opcode step.parameters a b =
      Kernel.evaluate? step.opcode step.parameters c d := by
  have first : a = c := by
    have same := agree step.input1 (by unfold operands; split <;> simp)
    rw [leftFirst, rightFirst] at same
    exact Option.some.inj same
  subst c
  cases reads : step.opcode.arity.readsSecond with
  | false => exact Kernel.evaluate?_ignores_second reads step.parameters a b d
  | true =>
      have same := agree step.input2 (by simp [operands, reads])
      rw [leftSecond, rightSecond] at same
      rw [Option.some.inj same]

/-- Files that agree where a step needs it agree behind the step. -/
theorem agree_run (agree : RegisterFile.Agree (step.liveBefore live) left right)
    (size : left.size = right.size)
    (ranLeft : step.run left = .ok leftReached)
    (ranRight : step.run right = .ok rightReached) :
    RegisterFile.Agree live leftReached rightReached := by
  rcases run_cases ranLeft with
    ⟨a, b, value, leftFirst, leftSecond, leftComputed, rfl⟩
  rcases run_cases ranRight with
    ⟨c, d, other, rightFirst, rightSecond, rightComputed, rfl⟩
  by_cases needed : step.output ∈ live
  · rw [liveBefore, if_pos needed] at agree
    have operandsAgree : RegisterFile.Agree step.operands left right :=
      agree.of_subset fun index member => List.mem_append_right _ member
    have same : value = other := by
      have equal := evaluate?_eq_of_agree operandsAgree leftFirst leftSecond
        rightFirst rightSecond
      rw [leftComputed, rightComputed] at equal
      exact Option.some.inj equal
    subst other
    refine RegisterFile.Agree.set ?_ size value
    exact agree.of_subset fun index member => List.mem_append_left _ member
  · -- What the step writes is not live, so the values need not be the same.
    rw [liveBefore, if_neg needed] at agree
    intro index member
    have apart : step.output ≠ index := fun equal => needed (equal ▸ member)
    simpa [Array.getElem?_setIfInBounds, apart] using agree index member

theorem agree_runAll
    (agree : RegisterFile.Agree (liveBeforeAll steps live) left right)
    (size : left.size = right.size)
    (ranLeft : runAll steps left = .ok leftReached)
    (ranRight : runAll steps right = .ok rightReached) :
    RegisterFile.Agree live leftReached rightReached := by
  induction steps generalizing left right with
  | nil =>
      cases ranLeft
      cases ranRight
      exact agree
  | cons step steps induction =>
      rcases runAll_cons_cases ranLeft with ⟨leftBetween, leftRan, leftRest⟩
      rcases runAll_cons_cases ranRight with ⟨rightBetween, rightRan, rightRest⟩
      have between := agree_run agree size leftRan rightRan
      have sizes : leftBetween.size = rightBetween.size := by
        rw [size_of_run leftRan, size_of_run rightRan, size]
      exact induction between sizes leftRest rightRest

/-- Steps keep a register that none of them writes. -/
theorem getElem?_runAll {index : Nat}
    (unwritten : ∀ step ∈ steps, step.output ≠ index)
    (ran : runAll steps registers = .ok reached) :
    reached[index]? = registers[index]? := by
  induction steps generalizing registers with
  | nil =>
      cases ran
      rfl
  | cons step steps induction =>
      rw [List.forall_mem_cons] at unwritten
      rcases runAll_cons_cases ran with ⟨between, first, rest⟩
      rcases run_cases first with ⟨a, b, value, -, -, -, rfl⟩
      rw [induction unwritten.2 rest]
      simp [unwritten.1]

end MachineStep

/-! ## Evaluations -/

namespace Machine

variable {machine : Machine} {point : Vec3 Single}
  {registers left right leftReached rightReached : RegisterFile}
  {value other : Register}

/-- An evaluation that succeeds writes the point, runs the steps and reads. -/
theorem evalWith_cases
    (evaluated : machine.evalWith point registers = .ok (value, left)) :
    MachineStep.runAll machine.steps
        (registers.setIfInBounds 0 (Kernel.pointValue point)) = .ok left ∧
      left[machine.result]? = some value := by
  simp only [evalWith, bind, Except.bind, pure, Except.pure] at evaluated
  split at evaluated
  · cases evaluated
  · next written wrote =>
      split at evaluated
      · cases evaluated
      · next reached ran =>
          split at evaluated
          · cases evaluated
          · next content found =>
              cases evaluated
              rw [← RegisterFile.eq_of_write wrote]
              exact ⟨ran, RegisterFile.read_eq_ok_iff.mp found⟩

theorem size_of_evalWith
    (evaluated : machine.evalWith point registers = .ok (value, left)) :
    left.size = registers.size := by
  rw [MachineStep.size_of_runAll (evalWith_cases evaluated).1,
    Array.size_setIfInBounds]

/-- Files that agree on the exposed registers give the same value. -/
theorem value_eq_of_agree
    (agree : RegisterFile.Agree machine.exposed left right)
    (size : left.size = right.size)
    (evaluatedLeft : machine.evalWith point left = .ok (value, leftReached))
    (evaluatedRight : machine.evalWith point right = .ok (other, rightReached)) :
    value = other := by
  rcases evalWith_cases evaluatedLeft with ⟨leftRan, leftFound⟩
  rcases evalWith_cases evaluatedRight with ⟨rightRan, rightFound⟩
  have behind : RegisterFile.Agree [machine.result] leftReached rightReached :=
    MachineStep.agree_runAll (agree.set size _) (by simpa using size) leftRan
      rightRan
  have same := behind machine.result List.mem_cons_self
  rw [leftFound, rightFound] at same
  exact Option.some.inj same

/-- An evaluation keeps the exposed registers that no step writes. -/
theorem agree_evalWith
    (kept : ∀ step ∈ machine.steps, step.output ∉ machine.exposed)
    (evaluated : machine.evalWith point registers = .ok (value, left)) :
    RegisterFile.Agree machine.exposed left registers := by
  intro index member
  have unwritten : ∀ step ∈ machine.steps, step.output ≠ index :=
    fun step inside equal => kept step inside (equal ▸ member)
  have notPoint : index ≠ 0 := by simpa using (List.mem_filter.mp member).2
  rw [MachineStep.getElem?_runAll unwritten (evalWith_cases evaluated).1]
  simp [Ne.symm notPoint]

/-- A batch gives what each point alone gives if every file on the way does. -/
theorem exists_evalAll {reachable : RegisterFile → Prop}
    (each : ∀ point registers, reachable registers →
      ∃ value left, machine.evalWith point registers = .ok (value, left) ∧
        machine.eval point = .ok value ∧ reachable left)
    (points : List (Vec3 Single)) (start : reachable registers) :
    ∃ (values : List Register) (left : RegisterFile),
      machine.evalAll points registers #[] = .ok (values.toArray, left) ∧
        values.map .ok = points.map machine.eval := by
  -- The induction appends to any values, those of no point among them.
  suffices appended : ∀ former : Array Register,
      ∃ (values : List Register) (left : RegisterFile),
        machine.evalAll points registers former =
            .ok (former ++ values.toArray, left) ∧
          values.map .ok = points.map machine.eval by
    simpa using appended #[]
  induction points generalizing registers with
  | nil =>
      intro former
      exact ⟨[], registers, by simp [evalAll], rfl⟩
  | cons point points induction =>
      intro former
      rcases each point registers start with
        ⟨value, between, evaluated, alone, reached⟩
      rcases induction reached (former.push value) with
        ⟨values, left, rest, same⟩
      refine ⟨value :: values, left, ?_, ?_⟩
      · simp [evalAll, evaluated, rest]
      · simp [alone, same]

theorem evalBatch_of_evalAll {points : List (Vec3 Single)}
    {values : List Register}
    (run : machine.evalAll points machine.registerFile #[] =
      .ok (values.toArray, left)) : machine.evalBatch points = .ok values := by
  rw [evalBatch, run]
  rfl

/-- Every evaluation from a file of the machine's size succeeds. -/
def Faultless (machine : Machine) : Prop :=
  ∀ point (registers : RegisterFile), registers.size = machine.registerCount →
    ∃ value left, machine.evalWith point registers = .ok (value, left) ∧
      left.size = machine.registerCount

/-- Files that agree on the exposed registers give one value. -/
theorem Faultless.exists_evalWith (faultless : machine.Faultless)
    (leftSize : left.size = machine.registerCount)
    (rightSize : right.size = machine.registerCount)
    (agree : RegisterFile.Agree machine.exposed left right)
    (point : Vec3 Single) :
    ∃ value leftReached rightReached,
      machine.evalWith point left = .ok (value, leftReached) ∧
        machine.evalWith point right = .ok (value, rightReached) := by
  rcases faultless point left leftSize with
    ⟨value, leftReached, evaluatedLeft, -⟩
  rcases faultless point right rightSize with
    ⟨other, rightReached, evaluatedRight, -⟩
  have same : value = other :=
    value_eq_of_agree agree (leftSize.trans rightSize.symm) evaluatedLeft
      evaluatedRight
  subst other
  exact ⟨value, leftReached, rightReached, evaluatedLeft, evaluatedRight⟩

/--
If no step writes an exposed register, points are evaluated as each one alone from
every file with zeros in these registers.
-/
theorem Faultless.exists_evalAll (faultless : machine.Faultless)
    (kept : ∀ step ∈ machine.steps, step.output ∉ machine.exposed)
    (points : List (Vec3 Single)) (size : registers.size = machine.registerCount)
    (agree : RegisterFile.Agree machine.exposed registers machine.registerFile) :
    ∃ (values : List Register) (left : RegisterFile),
      machine.evalAll points registers #[] = .ok (values.toArray, left) ∧
        values.map .ok = points.map machine.eval := by
  let reachable (registers : RegisterFile) : Prop :=
    registers.size = machine.registerCount ∧
      RegisterFile.Agree machine.exposed registers machine.registerFile
  have each : ∀ point registers, reachable registers →
      ∃ value left, machine.evalWith point registers = .ok (value, left) ∧
        machine.eval point = .ok value ∧ reachable left := by
    rintro point registers ⟨size, agree⟩
    rcases faultless.exists_evalWith size Array.size_replicate agree point with
      ⟨value, left, rightReached, evaluated, alone⟩
    rcases faultless point registers size with ⟨other, reached, ran, leftSize⟩
    obtain ⟨rfl, rfl⟩ := Prod.mk.inj (Except.ok.inj (evaluated.symm.trans ran))
    refine ⟨value, left, evaluated, ?_, leftSize, fun index member => ?_⟩
    · rw [eval, registerFile, alone]
      rfl
    · rw [agree_evalWith kept evaluated index member, agree index member]
  exact Machine.exists_evalAll each points ⟨size, agree⟩

theorem Faultless.exists_evalBatch (faultless : machine.Faultless)
    (kept : ∀ step ∈ machine.steps, step.output ∉ machine.exposed)
    (points : List (Vec3 Single)) :
    ∃ values, machine.evalBatch points = .ok values ∧
      values.map .ok = points.map machine.eval := by
  have size : machine.registerFile.size = machine.registerCount :=
    Array.size_replicate
  rcases faultless.exists_evalAll kept points size (.refl _ _) with
    ⟨values, left, run, same⟩
  exact ⟨values, evalBatch_of_evalAll run, same⟩

@[simp]
theorem ofInstructions_registerCount (registerCount : Nat)
    (instructions : List Instruction) :
    (ofInstructions registerCount instructions).registerCount =
      registerCount := by
  induction instructions with
  | nil => rfl
  | cons instruction instructions induction =>
      unfold ofInstructions
      split
      · rfl
      · exact induction

/-- A program that evaluates at one point has a machine without faults. -/
theorem faultless_of_eval {registerCount : Nat}
    {instructions : List Instruction}
    (wellformed : Wellformed registerCount instructions)
    {sample : Vec3 Single} {first : Register}
    (evaluated :
      (ofInstructions registerCount instructions).eval sample = .ok first) :
    (ofInstructions registerCount instructions).Faultless := by
  rcases wellformed with ⟨-, -, fits, body, last, rfl, ending, before⟩
  have inside :
      ∀ instruction ∈ body, instruction.input2.toNat < registerCount := by
    intro instruction member
    refine Nat.lt_of_not_le fun beyond => ?_
    rcases
        eval_error_of_outside fits ending before ⟨instruction, member, beyond⟩
          sample with
      ⟨culprit, -, -, failed⟩
    rw [evaluated] at failed
    cases failed
  intro point registers size
  rw [ofInstructions_registerCount] at size ⊢
  exact exists_evalWith_of_inside fits ending before inside point size

end Machine

/-! ## Accepted programs -/

namespace Program

/--
Only the exposed registers decide the value of an accepted program that evaluates
at some point: every two files that agree on them give one value.  If no step
writes an exposed register, a batch gives the values of its points one by one, and
so does every run over points from a file that has zeros in those registers.
-/
theorem exposed_registers_decide_values {registerCount : Nat}
    {bytecode : List UInt8} {program : Program}
    (accepted : ofBytes registerCount bytecode = .ok program) :
    ∃ machine, Machine.load program = .ok machine ∧
      ∀ sample first, machine.eval sample = .ok first →
        (∀ point (left right : RegisterFile),
          left.size = registerCount → right.size = registerCount →
            RegisterFile.Agree machine.exposed left right →
              ∃ value leftReached rightReached,
                machine.evalWith point left = .ok (value, leftReached) ∧
                  machine.evalWith point right = .ok (value, rightReached)) ∧
        ((∀ step ∈ machine.steps, step.output ∉ machine.exposed) →
          ∀ points,
            (∃ values, machine.evalBatch points = .ok values ∧
              values.map .ok = points.map machine.eval) ∧
            ∀ registers : RegisterFile,
              registers.size = registerCount →
                RegisterFile.Agree machine.exposed registers
                    machine.registerFile →
                  ∃ (values : List Register) (left : RegisterFile),
                    machine.evalAll points registers #[] =
                        .ok (values.toArray, left) ∧
                      values.map .ok = points.map machine.eval) := by
  rcases decode_of_ofBytes accepted with ⟨rfl, instructions, decoded⟩
  have wellformed := (wellformed_of_decode decoded).1
  refine ⟨_, Machine.load_of_decode decoded, ?_⟩
  intro sample first evaluated
  have faultless := Machine.faultless_of_eval wellformed evaluated
  have size :
      (Machine.ofInstructions registerCount instructions).registerCount =
        registerCount :=
    Machine.ofInstructions_registerCount registerCount instructions
  constructor
  · intro point left right leftSize rightSize agree
    exact faultless.exists_evalWith (leftSize.trans size.symm)
      (rightSize.trans size.symm) agree point
  · intro kept points
    constructor
    · exact faultless.exists_evalBatch kept points
    · intro registers registersSize agree
      exact faultless.exists_evalAll kept points
        (registersSize.trans size.symm) agree

/--
A union with a register that nothing writes: the value depends on what that
register holds at the start, but evaluations leave it alone.
-/
def openUnion : List Instruction :=
  [⟨.sphere, 2, 0, 0, [1]⟩, ⟨.union, 2, 1, 2, [0]⟩, .result 2]

theorem wellformed_openUnion : Wellformed 3 openUnion := by
  decide

/-- The union with an open register gives a batch as its points one by one. -/
theorem openUnion_decided_by_exposed :
    ofBytes 3 (encodeAll openUnion) = .ok ⟨3, encodeAll openUnion⟩ ∧
      ∃ machine, Machine.load ⟨3, encodeAll openUnion⟩ = .ok machine ∧
        machine.exposed = [1] ∧
        (∃ first, machine.eval 0 = .ok first) ∧
        (∀ step ∈ machine.steps, step.output ∉ machine.exposed) ∧
        ∀ points, ∃ values, machine.evalBatch points = .ok values ∧
          values.map .ok = points.map machine.eval := by
  have accepted := ofBytes_encodeAll wellformed_openUnion
  refine ⟨accepted, ?_⟩
  rcases exposed_registers_decide_values accepted with
    ⟨machine, loaded, decides⟩
  have loads := Machine.load_of_decode (decode_encodeAll wellformed_openUnion)
  obtain rfl := Except.ok.inj (loaded.symm.trans loads)
  have evaluated : ∃ first,
      (Machine.ofInstructions 3 openUnion).eval 0 = .ok first := ⟨_, rfl⟩
  have kept : ∀ step ∈ (Machine.ofInstructions 3 openUnion).steps,
      step.output ∉ (Machine.ofInstructions 3 openUnion).exposed := by
    decide
  rcases evaluated with ⟨first, value⟩
  exact ⟨_, loads, by decide, ⟨first, value⟩, kept,
    fun points => ((decides 0 first value).2 kept points).1⟩

/-- A program that reads a register before it writes it. -/
def staleRead : List Instruction :=
  [⟨.offset, 2, 1, 0, [0]⟩, ⟨.sphere, 1, 0, 0, [1]⟩, .result 2]

theorem wellformed_staleRead : Wellformed 3 staleRead := by
  decide

/--
An accepted program that evaluates without fault and still gives two values for
one point: the origin alone has the zero vector, the origin once more has distance
minus one.
-/
theorem staleRead_depends_on_former_points :
    ofBytes 3 (encodeAll staleRead) = .ok ⟨3, encodeAll staleRead⟩ ∧
      ∃ machine, Machine.load ⟨3, encodeAll staleRead⟩ = .ok machine ∧
        machine.eval 0 = .ok 0 ∧
        machine.evalBatch [0, 0] = .ok [0, ⟨0, 0, 0, -1⟩] := by
  refine ⟨ofBytes_encodeAll wellformed_staleRead, _,
    Machine.load_of_decode (decode_encodeAll wellformed_staleRead), ?_, ?_⟩
  · exact eq_ok_of_toOption (by decide +kernel)
  · exact eq_ok_of_toOption (by decide +kernel)

end Program

end SolidField
