import SolidField.Executor.Protocol
import SolidField.Executor.Routine

/-!
# The life of a routine

A routine is started, waits for its own submissions one after the other, each time
goes on with what was read back, and is done.  Routines keep the protocol if the
jobs that they ask for depend on their own job only, if the number of their round
trips is bounded, and if a call for one of them leaves the other one alone.

In a log of the calls every routine has a number, in the order of their starts.
The number travels with the routine and with its submission, so that a call that
mixed up two routines would show.
-/

namespace SolidField

/-! ## The protocol of a slot -/

/-- What a slot holds, with the number of round trips that were made. -/
inductive SlotStatus (Job Routine Handle Output : Type) where
  | vacant
  | suspended (job : Job) (trips : Nat) (routine : Routine) (handle : Handle)
  | ready (job : Job) (trips : Nat) (routine : Routine) (output : Output)

namespace Routines

variable {σ ε Job Routine Handle Output : Type}

/--
Where a step leads a slot.  A routine that is done asks for its `followUps`, and
one that waits has made less than its `most` round trips.
-/
def Leads (followUps : Job → List Job) (most : Job → Nat)
    (holds : SlotStatus Job Routine Handle Output →
      SlotStatus Job Routine Handle Output → σ → Prop)
    (job : Job) (trips : Nat) (other : SlotStatus Job Routine Handle Output)
    (state : σ) : RoutineStep Handle Job × Routine → Prop
  | (.await handle, routine) =>
      trips < most job ∧ holds (.suspended job trips routine handle) other state
  | (.done jobs, _) => jobs = followUps job ∧ holds .vacant other state

/--
Routines for some jobs that keep the protocol.  `holds` tells what is true of the
common state while one slot and the other one have their statuses.
-/
structure Follows (routines : Routines σ ε Job Routine Handle Output)
    (followUps : Job → List Job) (most : Job → Nat) (all : List Job)
    (holds : SlotStatus Job Routine Handle Output →
      SlotStatus Job Routine Handle Output → σ → Prop) : Prop where
  swap : ∀ {own other state}, holds own other state → holds other own state
  start : ∀ {job other state result reached}, job ∈ all →
    holds .vacant other state →
      routines.resume none (routines.start job) state = (.ok result, reached) →
        Leads followUps most holds job 0 other reached result
  wait : ∀ {job trips routine handle output other state reached},
    holds (.suspended job trips routine handle) other state →
      routines.wait handle state = (.ok output, reached) →
        holds (.ready job trips routine output) other reached
  resume : ∀ {job trips routine output other state result reached},
    holds (.ready job trips routine output) other state →
      routines.resume (some output) routine state = (.ok result, reached) →
        Leads followUps most holds job (trips + 1) other reached result

/-- Every call that the protocol admits succeeds. -/
structure Succeeds (routines : Routines σ ε Job Routine Handle Output)
    (all : List Job)
    (holds : SlotStatus Job Routine Handle Output →
      SlotStatus Job Routine Handle Output → σ → Prop) : Prop where
  start : ∀ {job other state}, job ∈ all → holds .vacant other state →
    ∃ result reached,
      routines.resume none (routines.start job) state = (.ok result, reached)
  wait : ∀ {job trips routine handle other state},
    holds (.suspended job trips routine handle) other state →
      ∃ output reached, routines.wait handle state = (.ok output, reached)
  resume : ∀ {job trips routine output other state},
    holds (.ready job trips routine output) other state →
      ∃ result reached,
        routines.resume (some output) routine state = (.ok result, reached)

end Routines

/-! ## Logs -/

namespace RoutineStep

variable {Handle Job : Type}

/-- The same step with a number beside the submission. -/
def numbered (number : Nat) : RoutineStep Handle Job → RoutineStep (Nat × Handle) Job
  | await handle => await (number, handle)
  | done jobs => done jobs

/-- The routine waits for a submission. -/
def isAwait : RoutineStep Handle Job → Bool
  | await _ => true
  | done _ => false

/-- The jobs that a step asks for. -/
def requests : RoutineStep Handle Job → List Job
  | await _ => []
  | done jobs => jobs

end RoutineStep

/-- A call for the routine with a number that has succeeded. -/
inductive RoutineCall (Job Handle Output : Type) where
  | start (number : Nat) (job : Job) (step : RoutineStep Handle Job)
  | wait (number : Nat) (handle : Handle) (output : Output)
  | resume (number : Nat) (output : Output) (step : RoutineStep Handle Job)
deriving DecidableEq

namespace RoutineCall

variable {Job Handle Output : Type}

def number : RoutineCall Job Handle Output → Nat
  | start number _ _ => number
  | wait number _ _ => number
  | resume number _ _ => number

/-- What the routine has done in the call, if it ran. -/
def step? : RoutineCall Job Handle Output → Option (RoutineStep Handle Job)
  | start _ _ step => some step
  | wait _ _ _ => none
  | resume _ _ step => some step

def isStart : RoutineCall Job Handle Output → Bool
  | start _ _ _ => true
  | _ => false

def isWait : RoutineCall Job Handle Output → Bool
  | wait _ _ _ => true
  | _ => false

/-- The call leaves a submission under way. -/
def isAwait (call : RoutineCall Job Handle Output) : Bool :=
  call.step?.any RoutineStep.isAwait

/-- The jobs that the call asks for. -/
def requests (call : RoutineCall Job Handle Output) : List Job :=
  call.step?.toList.flatMap RoutineStep.requests

end RoutineCall

/-- The calls of a run, the earliest first. -/
abbrev RoutineLog (Job Handle Output : Type) := List (RoutineCall Job Handle Output)

namespace RoutineLog

variable {Job Handle Output : Type}

/-- The calls for the routine with a number. -/
def of (number : Nat) (log : RoutineLog Job Handle Output) :
    RoutineLog Job Handle Output :=
  log.filter fun call => call.number = number

def starts (log : RoutineLog Job Handle Output) : Nat :=
  log.countP RoutineCall.isStart

def waits (log : RoutineLog Job Handle Output) : Nat :=
  log.countP RoutineCall.isWait

def awaits (log : RoutineLog Job Handle Output) : Nat :=
  log.countP RoutineCall.isAwait

/-- The jobs that routines asked for. -/
def requested (log : RoutineLog Job Handle Output) : List Job :=
  log.flatMap RoutineCall.requests

/-- At any time two submissions at most have not been waited for. -/
def AtMostTwo (log : RoutineLog Job Handle Output) : Prop :=
  ∀ before after, log = before ++ after → awaits before ≤ waits before + 2

/-- While a slot is empty, no wait for the other one keeps a job waiting. -/
def KeepsBusy (jobs : List Job) (log : RoutineLog Job Handle Output) : Prop :=
  ∀ before number handle output after,
    log = before ++ .wait number handle output :: after →
      awaits before = waits before + 1 →
        starts before = jobs.length + (requested before).length

end RoutineLog

/-- A routine with its job, and with its number once it has been started. -/
structure NumberedRoutine (Job Routine : Type) where
  job : Job
  number : Nat
  routine : Routine

namespace Routines

variable {σ ε Job Routine Handle Output : Type}

/-- Resume a routine under a number and log the call. -/
def resumeLogged (routines : Routines σ ε Job Routine Handle Output)
    (ready : Option Output) (numbered : NumberedRoutine Job Routine) (number : Nat)
    (note : RoutineStep Handle Job → RoutineCall Job Handle Output) :
    Attempt (σ × RoutineLog Job Handle Output) ε
      (RoutineStep (Nat × Handle) Job × NumberedRoutine Job Routine) := do
  let (step, routine) ←
    (routines.resume ready numbered.routine).noting fun result => note result.1
  pure (step.numbered number, ⟨numbered.job, number, routine⟩)

/-- Routines that log every call that succeeds; the first call gives the number. -/
def logged (routines : Routines σ ε Job Routine Handle Output) :
    Routines (σ × RoutineLog Job Handle Output) ε Job
      (NumberedRoutine Job Routine) (Nat × Handle) Output where
  start job := ⟨job, 0, routines.start job⟩
  resume ready numbered :=
    match ready with
    | none => fun state =>
        let number := RoutineLog.starts state.2
        routines.resumeLogged none numbered number (.start number numbered.job) state
    | some output =>
        routines.resumeLogged (some output) numbered numbered.number
          (.resume numbered.number output)
  wait handle := (routines.wait handle.2).noting (.wait handle.1 handle.2)

end Routines

/-- The life of a routine: its job, its round trips, and its last step. -/
structure RoutineLife (Job Handle Output : Type) where
  job : Job
  /-- The submissions with what was read back. -/
  trips : List (Handle × Output)
  ending : RoutineStep Handle Job

namespace RoutineLife

variable {Job Handle Output : Type}

/-- The step that comes before some round trips. -/
def stepBefore (ending : RoutineStep Handle Job) :
    List (Handle × Output) → RoutineStep Handle Job
  | [] => ending
  | (handle, _) :: _ => .await handle

/-- A submission is waited for, and what was read back is handed to the routine. -/
def tripCalls (number : Nat) (ending : RoutineStep Handle Job) :
    List (Handle × Output) → RoutineLog Job Handle Output
  | [] => []
  | (handle, output) :: trips =>
      .wait number handle output ::
        .resume number output (stepBefore ending trips) ::
          tripCalls number ending trips

/-- All calls for a routine: it is started, and then it makes its round trips. -/
def calls (number : Nat) (life : RoutineLife Job Handle Output) :
    RoutineLog Job Handle Output :=
  .start number life.job (stepBefore life.ending life.trips) ::
    tripCalls number life.ending life.trips

end RoutineLife

/--
A log shows one whole life for every job of a forest, and no other calls.  Lives
are numbered in the order of their starts, and every routine is done in the end.
-/
structure RoutineLog.ShowsLives {Job Handle Output : Type} (followUps : Job → List Job)
    (all : List Job) (log : RoutineLog Job Handle Output)
    (lives : List (RoutineLife Job Handle Output)) : Prop where
  jobs : (lives.map RoutineLife.job).Perm all
  starts : RoutineLog.starts log = lives.length
  calls : ∀ number,
    RoutineLog.of number log = lives[number]?.elim [] (RoutineLife.calls number)
  endings : ∀ life ∈ lives, life.ending = .done (followUps life.job)

end SolidField
