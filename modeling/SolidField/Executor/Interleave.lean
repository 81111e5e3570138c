import SolidField.Attempt

/-!
# The interleaved executor

Device work has a round trip from submission to read-back.  The executor keeps
two lanes busy: while it waits for one of them and processes its result, the
submission of the other one is already on its way.  Jobs that a result asks for
go onto a stack of waiting jobs.

The run is bounded by a number of turns; one turn serves one lane.
-/

namespace SolidField

/-- One of the two lanes. -/
inductive Side where
  | first
  | second
deriving DecidableEq, Repr

namespace Side

def opposite : Side → Side
  | first => second
  | second => first

def number : Side → Nat
  | first => 1
  | second => 2

@[simp]
theorem opposite_opposite (side : Side) : side.opposite.opposite = side := by
  cases side <;> rfl

theorem ne_opposite (side : Side) : side ≠ side.opposite := by
  cases side <;> nofun

theorem eq_or_eq_opposite (side other : Side) :
    side = other ∨ side = other.opposite := by
  cases side <;> cases other <;> simp [opposite]

end Side

/--
What two lanes do with jobs.  Their states are part of the common state `σ`,
and every step may fail with an error `ε`.
-/
structure Lanes (σ ε Job Handle Output : Type) where
  /-- Submit the device part of a job. -/
  enqueue : Side → Job → Attempt σ ε Handle
  /-- Wait for a submission and read its result back. -/
  wait : Side → Handle → Attempt σ ε Output
  /-- Process a result; the answer is the jobs that it asks for. -/
  process : Side → Output → Attempt σ ε (List Job)

/-- What an executor counts. -/
structure RunStats where
  jobsProcessed : Nat
  roundTrips : Nat
  maxInFlight : Nat
deriving DecidableEq, Repr

namespace RunStats

def zero : RunStats :=
  ⟨0, 0, 0⟩

def noteInFlight (stats : RunStats) (count : Nat) : RunStats :=
  { stats with maxInFlight := max stats.maxInFlight count }

def noteRoundTrip (stats : RunStats) : RunStats :=
  { stats with roundTrips := stats.roundTrips + 1 }

def noteJob (stats : RunStats) : RunStats :=
  { stats with jobsProcessed := stats.jobsProcessed + 1 }

end RunStats

/-- Put jobs on a stack, so that the last of them is the next to be taken. -/
def pushJobs {Job : Type} (jobs stack : List Job) : List Job :=
  jobs.reverse ++ stack

/-- The number of submissions under way, from both lanes. -/
def inFlight {Handle : Type} (current other : Option Handle) : Nat :=
  current.toList.length + other.toList.length

/-- The executor between two turns. -/
structure Interleaving (Job Handle : Type) where
  /-- The jobs that wait, the next one first. -/
  stack : List Job
  side : Side
  current : Option Handle
  other : Option Handle
  stats : RunStats

namespace Interleaving

variable {σ ε Job Handle Output : Type}

def isIdle (run : Interleaving Job Handle) : Bool :=
  run.current.isNone && run.other.isNone

/-- The other lane's turn. -/
def swap (run : Interleaving Job Handle) : Interleaving Job Handle :=
  { run with
    side := run.side.opposite
    current := run.other
    other := run.current }

/-- Wait for the submission of the lane, if any, and process its result. -/
def drain (lanes : Lanes σ ε Job Handle Output) (run : Interleaving Job Handle) :
    Attempt σ ε (Interleaving Job Handle) :=
  match run.current with
  | none => pure run
  | some handle => do
      let output ← lanes.wait run.side handle
      let jobs ← lanes.process run.side output
      pure
        { run with
          stack := pushJobs jobs run.stack
          current := none
          stats := run.stats.noteRoundTrip.noteJob }

/-- Submit the next job on the idle lane, if any is waiting. -/
def refill (lanes : Lanes σ ε Job Handle Output) (run : Interleaving Job Handle) :
    Attempt σ ε (Interleaving Job Handle) :=
  match run.stack with
  | [] => pure run
  | job :: stack => do
      let handle ← lanes.enqueue run.side job
      pure
        { run with
          stack
          current := some handle
          stats := run.stats.noteInFlight (inFlight (some handle) run.other) }

/-- The turn of one lane. -/
def turn (lanes : Lanes σ ε Job Handle Output) (run : Interleaving Job Handle) :
    Attempt σ ε (Interleaving Job Handle) := do
  let run ← run.drain lanes
  run.refill lanes

/-- Turns until both lanes are idle; no answer if the bound is reached first. -/
def finish (lanes : Lanes σ ε Job Handle Output) :
    Nat → Interleaving Job Handle → Attempt σ ε (Option RunStats)
  | 0, _ => pure none
  | bound + 1, run => do
      let run ← run.turn lanes
      if run.isIdle then
        pure (some run.stats)
      else
        finish lanes bound run.swap

def start (jobs : List Job) : Interleaving Job Handle :=
  ⟨pushJobs jobs [], .first, none, none, .zero⟩

end Interleaving

/--
Run the initial jobs and every job that they ask for across two lanes.  There
is no answer if the run takes more turns than the bound.
-/
def interleave {σ ε Job Handle Output : Type}
    (lanes : Lanes σ ε Job Handle Output) (bound : Nat) (jobs : List Job) :
    Attempt σ ε (Option RunStats) :=
  if jobs.isEmpty then
    pure (some .zero)
  else do
    let run ← (Interleaving.start jobs).refill lanes
    let run ← run.swap.refill lanes
    run.swap.finish lanes bound

end SolidField
