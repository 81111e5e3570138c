import SolidField.Executor.Interleave

/-!
# The executor of routines

A routine is a job that runs until it needs the device, waits for its
submission, and goes on with what is read back.  It may take any number of round
trips.  Two slots hold waiting routines and are served in turn.
-/

namespace SolidField

/-- What a routine does when it is resumed. -/
inductive RoutineStep (Handle Job : Type) where
  /-- It waits for a submission. -/
  | await (handle : Handle)
  /-- It is done and asks for jobs. -/
  | done (jobs : List Job)
deriving DecidableEq, Repr

/-- How jobs run as routines on a common state `σ`. -/
structure Routines (σ ε Job Routine Handle Output : Type) where
  start : Job → Routine
  /-- Go on, with what was read back unless it is the first time. -/
  resume : Option Output → Routine →
    Attempt σ ε (RoutineStep Handle Job × Routine)
  wait : Handle → Attempt σ ε Output

/-- A routine with the submission that it waits for. -/
abbrev RoutineSlot (Routine Handle : Type) := Option (Routine × Handle)

/-- The executor of routines between two turns. -/
structure RoutineRun (Job Routine Handle : Type) where
  /-- The jobs that wait, the next one first. -/
  stack : List Job
  current : RoutineSlot Routine Handle
  other : RoutineSlot Routine Handle
  stats : RunStats

namespace RoutineRun

variable {σ ε Job Routine Handle Output : Type}

def swap (run : RoutineRun Job Routine Handle) :
    RoutineRun Job Routine Handle :=
  { run with current := run.other, other := run.current }

/-- The routine of the current slot has taken a step. -/
def settle (run : RoutineRun Job Routine Handle)
    (result : RoutineStep Handle Job × Routine) :
    RoutineRun Job Routine Handle :=
  match result with
  | (.await handle, routine) =>
      { run with current := some (routine, handle) }
  | (.done jobs, _) =>
      { run with
        stack := pushJobs jobs run.stack
        current := none
        stats := run.stats.noteJob }

/--
Start routines until the current slot holds a waiting one or no job is left; no
answer if the bound is reached first.
-/
def fill (routines : Routines σ ε Job Routine Handle Output) :
    Nat → RoutineRun Job Routine Handle →
      Attempt σ ε (Option (RoutineRun Job Routine Handle))
  | 0, _ => pure none
  | bound + 1, run =>
      match run.current, run.stack with
      | some _, _ => pure (some run)
      | none, [] => pure (some run)
      | none, job :: stack => do
          let result ← routines.resume none (routines.start job)
          fill routines bound ({ run with stack }.settle result)

/-- Wait for the routine of the current slot, if any, and resume it. -/
def serve (routines : Routines σ ε Job Routine Handle Output)
    (run : RoutineRun Job Routine Handle) :
    Attempt σ ε (RoutineRun Job Routine Handle) :=
  match run.current with
  | none => pure run
  | some (routine, handle) => do
      let output ← routines.wait handle
      let result ← routines.resume (some output) routine
      pure ({ run with stats := run.stats.noteRoundTrip }.settle result)

/-- Turns until both slots are empty; no answer if the bound is reached first. -/
def finish (routines : Routines σ ε Job Routine Handle Output) :
    Nat → RoutineRun Job Routine Handle → Attempt σ ε (Option RunStats)
  | 0, _ => pure none
  | bound + 1, run => do
      let waiting := inFlight run.current run.other
      let run := { run with stats := run.stats.noteInFlight waiting }
      if waiting = 0 then
        pure (some run.stats)
      else
        let run ← run.serve routines
        match ← fill routines bound run with
        | none => pure none
        | some run => finish routines bound run.swap

end RoutineRun

/--
Run the initial jobs and every job that they ask for as routines.  There is no
answer if the run takes more turns than the bound.
-/
def interleaveRoutines {σ ε Job Routine Handle Output : Type}
    (routines : Routines σ ε Job Routine Handle Output) (bound : Nat)
    (jobs : List Job) : Attempt σ ε (Option RunStats) := do
  let run : RoutineRun Job Routine Handle := ⟨pushJobs jobs [], none, none, .zero⟩
  match ← run.fill routines bound with
  | none => pure none
  | some run =>
      match ← run.swap.fill routines bound with
      | none => pure none
      | some run => run.swap.finish routines bound

end SolidField
