import SolidField.Proofs.Schedule.Placement

/-!
# Recorded trials

A recorded trial notes by name what it applies, and every call on its allocator with
its argument.  Apart from these notes it is the trial itself (`Graph.trial_record`).
-/

universe u

namespace SolidField

/-- A call on an allocator. -/
inductive AllocatorCall where
  | release (register : Nat)
  | allocate (reads : Nat)
deriving DecidableEq, Repr

namespace Allocator

/-- The allocator after a call. -/
def serve (allocator : Allocator) : AllocatorCall → Allocator
  | .release register => allocator.release register
  | .allocate reads => (allocator.allocate reads).2

/-- The allocator after calls, the first of them on an empty one. -/
def replay (calls : List AllocatorCall) : Allocator :=
  calls.foldl serve empty

/-- A call is in order: what it releases is live, or what it allocates is read. -/
def Admits (allocator : Allocator) : AllocatorCall → Prop
  | .release register => allocator.isLive register = true
  | .allocate reads => 0 < reads

/-- Every call is in order when it is made. -/
def AdmitsAll (allocator : Allocator) : List AllocatorCall → Prop
  | [] => True
  | call :: calls => allocator.Admits call ∧ (allocator.serve call).AdmitsAll calls

end Allocator

/-- A trial with the notes about it. -/
structure Recording where
  trial : Trial
  /-- What was applied so far, the latest first. -/
  history : History
  /-- The calls on the allocator for each of the operations so far, the earliest first. -/
  calls : List (List AllocatorCall)

namespace Recording

variable {α : Type u}

/-- The state before the first visit. -/
def start (size : Nat) (order : TrialOrder) : Recording :=
  ⟨.start size order, [], []⟩

def arrange {β : Type} (recording : Recording) (items : List β) : List β × Recording :=
  let (items, trial) := recording.trial.arrange items
  (items, { recording with trial })

/-- Emit an application, and note it with the calls that it takes. -/
def emit (recording : Recording) (application : Application) (opcode : Opcode)
    (uses : Nat) (inputs : List Nat) : Nat × Recording :=
  let (register, trial) :=
    recording.trial.emit ⟨application.result.owner⟩ opcode uses inputs
  (register,
    { trial
      history := application :: recording.history
      calls := recording.calls ++ [inputs.map .release ++ [.allocate uses]] })

/-- Visit a node unless that has happened; the answer is its register. -/
def enter (visit : Nat → Recording → Nat × Recording) (index : Nat)
    (recording : Recording) : Nat × Recording :=
  match recording.trial.register? index with
  | some register => (register, recording)
  | none => visit index recording

/-- A visit to each of two inputs, in the order that the trial arranges. -/
def visitBoth (first second : Recording → Nat × Recording) (recording : Recording) :
    (Nat × Nat) × Recording :=
  let (sides, recording) := recording.arrange [true, false]
  if sides.head? = some true then
    let (a, recording) := first recording
    let (b, recording) := second recording
    ((a, b), recording)
  else
    let (b, recording) := second recording
    let (a, recording) := first recording
    ((a, b), recording)

/-- Visit an input; a partial application is emitted with a single use. -/
def visitOperand (visit : Nat → Recording → Nat × Recording) (owner : Nat)
    (opcode : Opcode) : Operand → Recording → Nat × Recording
  | .node index, recording => enter visit index recording
  | .fold first second, recording =>
      let ((a, b), recording) :=
        visitBoth (visitOperand visit owner opcode first)
          (visitOperand visit owner opcode second) recording
      recording.emit
        ⟨.part owner (.fold first second),
          [.ofOperand owner first, .ofOperand owner second]⟩
        opcode 1 [a, b]

/-- Visit the inputs of an application; the answer is their registers. -/
def visitInputs (visit : Nat → Recording → Nat × Recording) (owner : Nat)
    (opcode : Opcode) (operands : List Operand) (recording : Recording) :
    List Nat × Recording :=
  match operands with
  | [] => ([], recording)
  | [operand] =>
      let (register, recording) := visitOperand visit owner opcode operand recording
      ([register], recording)
  | first :: second :: _ =>
      let ((a, b), recording) :=
        visitBoth (visitOperand visit owner opcode first)
          (visitOperand visit owner opcode second) recording
      ([a, b], recording)

/-- The inputs of a node; more than two dependencies are arranged first. -/
def operands (recording : Recording) (dependencies : List Nat) :
    List Operand × Recording :=
  let (operands, trial) := recording.trial.operands dependencies
  (operands, { recording with trial })

/-- Note the register of a node. -/
def assign (recording : Recording) (index register : Nat) : Recording :=
  { recording with trial := recording.trial.assign index register }

/-- Visit a node below a bound: its inputs first, then the node itself. -/
def visit (graph : Graph α) (uses : Array Nat) :
    Nat → Nat → Recording → Nat × Recording
  | 0, _, recording => (0, recording)
  | bound + 1, index, recording =>
      match graph.nodes[index]? with
      | none => (0, recording)
      | some node =>
          let (operands, recording) := recording.operands (graph.dependencies index)
          let (inputs, recording) :=
            recording.visitInputs (visit graph uses bound) index node.opcode operands
          let (register, recording) :=
            recording.emit ⟨.node index, operands.map (.ofOperand index)⟩ node.opcode
              (uses.getD index 0) inputs
          (register, recording.assign index register)

/-! ## What is recorded -/

/-- A recorded visit does what another visit does. -/
def Mirrors {β : Type} (recorded : Recording → β × Recording)
    (plain : Trial → β × Trial) : Prop :=
  ∀ recording : Recording,
    plain recording.trial = ((recorded recording).1, (recorded recording).2.trial)

variable {recordedVisit : Nat → Recording → Nat × Recording}
  {plainVisit : Nat → Trial → Nat × Trial}

theorem mirrors_enter {index : Nat}
    (mirrors : Mirrors (recordedVisit index) (plainVisit index)) :
    Mirrors (enter recordedVisit index) (Trial.enter plainVisit index) := by
  intro recording
  cases register : recording.trial.register? index with
  | some place => simp only [enter, Trial.enter, register]
  | none =>
      simp only [enter, Trial.enter, register]
      exact mirrors recording

theorem mirrors_visitBoth {first second : Recording → Nat × Recording}
    {plainFirst plainSecond : Trial → Nat × Trial} (mirrorsFirst : Mirrors first plainFirst)
    (mirrorsSecond : Mirrors second plainSecond) :
    Mirrors (visitBoth first second) (Trial.visitBoth plainFirst plainSecond) := by
  intro recording
  let arranged := (recording.arrange [true, false]).2
  by_cases inOrder : (recording.trial.arrange [true, false]).1.head? = some true
  · have recorded : visitBoth first second recording =
        (((first arranged).1, (second (first arranged).2).1),
          (second (first arranged).2).2) := if_pos inOrder
    have plain : Trial.visitBoth plainFirst plainSecond recording.trial =
        (((plainFirst arranged.trial).1, (plainSecond (plainFirst arranged.trial).2).1),
          (plainSecond (plainFirst arranged.trial).2).2) := if_pos inOrder
    rw [recorded, plain, mirrorsFirst, mirrorsSecond]
  · have recorded : visitBoth first second recording =
        (((first (second arranged).2).1, (second arranged).1),
          (first (second arranged).2).2) := if_neg inOrder
    have plain : Trial.visitBoth plainFirst plainSecond recording.trial =
        (((plainFirst (plainSecond arranged.trial).2).1, (plainSecond arranged.trial).1),
          (plainFirst (plainSecond arranged.trial).2).2) := if_neg inOrder
    rw [recorded, plain, mirrorsSecond, mirrorsFirst]

theorem mirrors_visitOperand {owner : Nat} {opcode : Opcode} {operand : Operand}
    (mirrors : ∀ index, Mirrors (recordedVisit index) (plainVisit index)) :
    Mirrors (visitOperand recordedVisit owner opcode operand)
      (Trial.visitOperand plainVisit ⟨owner⟩ opcode operand) := by
  induction operand with
  | node index => exact mirrors_enter (mirrors index)
  | fold first second firstInduction secondInduction =>
      intro recording
      rw [visitOperand, Trial.visitOperand,
        mirrors_visitBoth firstInduction secondInduction recording]
      rfl

theorem mirrors_visitInputs {owner : Nat} {opcode : Opcode} {operands : List Operand}
    (mirrors : ∀ index, Mirrors (recordedVisit index) (plainVisit index)) :
    Mirrors (visitInputs recordedVisit owner opcode operands)
      (Trial.visitInputs plainVisit ⟨owner⟩ opcode operands) := by
  intro recording
  match operands with
  | [] => rfl
  | [operand] =>
      rw [visitInputs, Trial.visitInputs, mirrors_visitOperand mirrors recording]
  | first :: second :: _ =>
      rw [visitInputs, Trial.visitInputs,
        mirrors_visitBoth (mirrors_visitOperand mirrors) (mirrors_visitOperand mirrors)
          recording]

/-- A recorded visit of a node is the visit of the node. -/
theorem mirrors_visit (graph : Graph α) (uses : Array Nat) (bound index : Nat) :
    Mirrors (visit graph uses bound index) (Trial.visit graph uses bound index) := by
  induction bound generalizing index with
  | zero => exact fun recording => rfl
  | succ bound induction =>
      intro recording
      cases found : graph.nodes[index]? with
      | none => simp only [visit, Trial.visit, found]
      | some node =>
          have inputs : Trial.visitInputs (Trial.visit graph uses bound) ⟨index⟩
              node.opcode (recording.trial.operands (graph.dependencies index)).1
              (recording.trial.operands (graph.dependencies index)).2 = _ :=
            mirrors_visitInputs induction
              (recording.operands (graph.dependencies index)).2
          simp only [visit, Trial.visit, found]
          rw [inputs]
          rfl

end Recording

/-- A recorded trial from the root. -/
def Graph.record {α : Type u} (graph : Graph α) (root : NodeId) (order : TrialOrder) :
    Recording :=
  (Recording.visit graph (graph.uses root) graph.size root.index
    (.start graph.size order)).2

theorem Graph.trial_record {α : Type u} (graph : Graph α) (root : NodeId)
    (order : TrialOrder) :
    (graph.record root order).trial =
      (Trial.visit graph (graph.uses root) graph.size root.index
        (.start graph.size order)).2 :=
  congrArg Prod.snd
    (Recording.mirrors_visit graph (graph.uses root) graph.size root.index
      (.start graph.size order)).symm

end SolidField
