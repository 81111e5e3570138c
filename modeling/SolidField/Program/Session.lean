import SolidField.Graph.Index
import SolidField.Program.Compile

/-!
# Compiling in a graph with an index

A compilation is an attempt on a graph with its index.  It checks the budget, finds
the best schedule, checks that the registers suffice and encodes the schedule; then it
writes one register after the other into the graph.  The index knows nothing of
registers.
-/

universe u v w

namespace SolidField

namespace Attempt

variable {σ : Type u} {ε : Type v} {β : Type w}

/-- Read something off the state, or refuse it. -/
def inspect (view : σ → Except ε β) : Attempt σ ε β :=
  fun state => (view state, state)

/-- Change the state, which cannot fail. -/
def change (next : σ → σ) : Attempt σ ε Unit :=
  fun state => (.ok (), next state)

/-- Change the state for each item of a list, in order. -/
def changeAll (next : σ → β → σ) : List β → Attempt σ ε Unit
  | [] => pure ()
  | item :: items => do
      change fun state => next state item
      changeAll next items

section Inspection

variable {γ : Type w} {view : σ → Except ε β} {next : β → Attempt σ ε γ} {state : σ}

theorem bind_inspect_ok {result : β} (seen : view state = .ok result) :
    (inspect view >>= next) state = next result state :=
  bind_apply_ok (congrArg (·, state) seen)

/-- What is refused leaves the state as it is. -/
theorem bind_inspect_error {error : ε} (refused : view state = .error error) :
    (inspect view >>= next) state = (.error error, state) :=
  bind_apply_error (congrArg (·, state) refused)

end Inspection

theorem changeAll_apply (next : σ → β → σ) (items : List β) (state : σ) :
    (changeAll next items : Attempt σ ε Unit) state =
      (.ok (), items.foldl next state) := by
  induction items generalizing state with
  | nil => rfl
  | cons item items induction =>
      rw [changeAll, List.foldl_cons, ← induction]
      exact bind_apply_ok rfl

end Attempt

namespace CompileConfig

/-- Refuse registers that a byte cannot address, and a budget of none. -/
def requireAddressable (config : CompileConfig) : Except CompileError Unit :=
  if config.maxRegisters = 0 ∨ SolidField.maxRegisters < config.maxRegisters then
    .error (.invalidRegisterBudget config.maxRegisters)
  else
    .ok ()

/-- Refuse a schedule that needs more registers than it may use. -/
def requireBudget (config : CompileConfig) (schedule : Schedule) :
    Except CompileError Unit :=
  if config.maxRegisters < schedule.registersNeeded then
    .error (.registerBudgetExceeded schedule.registersNeeded config.maxRegisters)
  else
    .ok ()

end CompileConfig

namespace IndexedGraph

/-- Give the node of an entry its register. -/
def assign (cache : IndexedGraph Single) (entry : ScheduleEntry) :
    IndexedGraph Single :=
  { cache with
    graph := cache.graph.setRegister entry.node (UInt8.ofNat entry.register) }

/-- Compile the value of a root, and write the registers when nothing can fail. -/
def compile (root : NodeId) (config : CompileConfig) :
    Attempt (IndexedGraph Single) CompileError Program := do
  .inspect fun _ => config.requireAddressable
  let schedule ← .inspect fun cache =>
    (cache.graph.bestSchedule root config.randomPasses config.seed).mapError
      CompileError.build
  .inspect fun _ => config.requireBudget schedule
  let program ← .inspect fun cache => .ok (schedule.program cache.graph)
  .changeAll assign schedule.entries
  pure program

end IndexedGraph

end SolidField
