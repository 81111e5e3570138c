import SolidField.Program.Machine

/-!
# Live registers

A register is live in front of a step if its content can matter to the result: a
later step reads it, or the result is it, before it is overwritten.  The sets are
computed backwards from the result, as for straight-line code.  A machine exposes
those registers that are live at its start and do not hold the point; the decoder
does not ask that there are none.
-/

namespace SolidField

/-- Two register files hold the same in some registers. -/
def RegisterFile.Agree (live : List Nat) (left right : RegisterFile) : Prop :=
  ∀ index ∈ live, left[index]? = right[index]?

namespace MachineStep

/-- The registers that the kernel of a step uses. -/
def operands (step : MachineStep) : List Nat :=
  if step.opcode.arity.readsSecond then
    [step.input1, step.input2]
  else
    [step.input1]

/-- The live registers in front of a step, from those behind it. -/
def liveBefore (step : MachineStep) (live : List Nat) : List Nat :=
  if step.output ∈ live then
    live.filter (fun index => index ≠ step.output) ++ step.operands
  else
    live

/-- The live registers in front of a list of steps, from those behind it. -/
def liveBeforeAll (steps : List MachineStep) (live : List Nat) : List Nat :=
  steps.foldr liveBefore live

end MachineStep

/--
The registers whose contents at the start can matter to the result, the first one
apart, which receives the point.
-/
def Machine.exposed (machine : Machine) : List Nat :=
  (MachineStep.liveBeforeAll machine.steps [machine.result]).filter
    fun index => index ≠ 0

end SolidField
