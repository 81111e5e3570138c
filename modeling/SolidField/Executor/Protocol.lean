import SolidField.Executor.Interleave

/-!
# The protocol of a lane

A lane is idle, waits for a submission, or has read a result back, and every
call leads from one of these states to the next one.  Lanes keep the protocol
if a job always asks for the same jobs and a call on one lane leaves the other
lane alone.

The calls of a run can be logged.  A log tells which jobs are known, which of
them wait and which lane is busy, without a look at the executor.
-/

universe u

namespace SolidField

/-! ## Forests of jobs -/

/--
The jobs that come from a list of jobs, every job in front of the jobs that it
asks for: a finite forest, tree by tree.
-/
inductive Generates {Job : Type u} (followUps : Job → List Job) :
    List Job → List Job → Prop where
  | nil : Generates followUps [] []
  | cons {job : Job} {jobs below rest : List Job} :
      Generates followUps (followUps job) below →
        Generates followUps jobs rest →
          Generates followUps (job :: jobs) (job :: (below ++ rest))

/-! ## States of a lane -/

/-- What a lane is doing, and the jobs that it has processed so far. -/
inductive LaneStatus (Job Handle Output : Type) where
  | idle (processed : List Job)
  | submitted (processed : List Job) (job : Job) (handle : Handle)
  | readBack (processed : List Job) (job : Job) (output : Output)

namespace Lanes

variable {σ ε Job Handle Output : Type}

/--
Lanes that keep the protocol.  `holds` tells what is true of the common state
while a lane has a status; a job that is processed asks for its `followUps`.
-/
structure Follows (lanes : Lanes σ ε Job Handle Output)
    (followUps : Job → List Job)
    (holds : Side → LaneStatus Job Handle Output → σ → Prop) : Prop where
  enqueue : ∀ {side processed job handle other state reached},
    holds side (.idle processed) state → holds side.opposite other state →
      lanes.enqueue side job state = (.ok handle, reached) →
        holds side (.submitted processed job handle) reached ∧
          holds side.opposite other reached
  wait : ∀ {side processed job handle output other state reached},
    holds side (.submitted processed job handle) state →
      holds side.opposite other state →
        lanes.wait side handle state = (.ok output, reached) →
          holds side (.readBack processed job output) reached ∧
            holds side.opposite other reached
  process : ∀ {side processed job output jobs other state reached},
    holds side (.readBack processed job output) state →
      holds side.opposite other state →
        lanes.process side output state = (.ok jobs, reached) →
          jobs = followUps job ∧
            holds side (.idle (processed ++ [job])) reached ∧
              holds side.opposite other reached

/-- Every call that the protocol admits succeeds. -/
structure Succeeds (lanes : Lanes σ ε Job Handle Output)
    (holds : Side → LaneStatus Job Handle Output → σ → Prop) : Prop where
  enqueue : ∀ {side processed state} (job : Job),
    holds side (.idle processed) state →
      ∃ handle reached, lanes.enqueue side job state = (.ok handle, reached)
  wait : ∀ {side processed job handle state},
    holds side (.submitted processed job handle) state →
      ∃ output reached, lanes.wait side handle state = (.ok output, reached)
  process : ∀ {side processed job output state},
    holds side (.readBack processed job output) state →
      ∃ jobs reached, lanes.process side output state = (.ok jobs, reached)

end Lanes

/-! ## Logs -/

/-- A call on a lane that has succeeded. -/
inductive LaneCall (Job Handle Output : Type) where
  | enqueue (side : Side) (job : Job) (handle : Handle)
  | wait (side : Side) (handle : Handle) (output : Output)
  | process (side : Side) (output : Output) (jobs : List Job)
deriving DecidableEq

namespace LaneCall

variable {Job Handle Output : Type}

def side : LaneCall Job Handle Output → Side
  | enqueue side _ _ => side
  | wait side _ _ => side
  | process side _ _ => side

/-- The job that a call submits. -/
def job? : LaneCall Job Handle Output → Option Job
  | enqueue _ job _ => some job
  | _ => none

/-- The jobs that a call asks for. -/
def requests : LaneCall Job Handle Output → List Job
  | process _ _ jobs => jobs
  | _ => []

/-- A call begins work on a lane. -/
def submits (on : Side) : LaneCall Job Handle Output → Bool
  | enqueue side _ _ => side = on
  | _ => false

/-- A call completes work on a lane. -/
def completes (on : Side) : LaneCall Job Handle Output → Bool
  | process side _ _ => side = on
  | _ => false

end LaneCall

/-- An attempt that appends a note to a list when it succeeds. -/
def Attempt.noting {σ ε β κ : Type} (attempt : Attempt σ ε β) (note : β → κ) :
    Attempt (σ × List κ) ε β :=
  fun (state, notes) =>
    match attempt state with
    | (.ok result, reached) => (.ok result, reached, notes ++ [note result])
    | (.error error, reached) => (.error error, reached, notes)

/-- Lanes that log every call that succeeds. -/
def Lanes.logged {σ ε Job Handle Output : Type}
    (lanes : Lanes σ ε Job Handle Output) :
    Lanes (σ × List (LaneCall Job Handle Output)) ε Job Handle Output where
  enqueue side job := (lanes.enqueue side job).noting (.enqueue side job)
  wait side handle := (lanes.wait side handle).noting (.wait side handle)
  process side output := (lanes.process side output).noting (.process side output)

/-- The calls of a run, the earliest first. -/
abbrev LaneLog (Job Handle Output : Type) := List (LaneCall Job Handle Output)

namespace LaneLog

variable {Job Handle Output : Type}

/-- The calls on one lane. -/
def on (side : Side) (log : LaneLog Job Handle Output) :
    LaneLog Job Handle Output :=
  log.filter fun call => call.side = side

/-- The jobs that were submitted. -/
def submitted (log : LaneLog Job Handle Output) : List Job :=
  log.filterMap LaneCall.job?

/-- The jobs that processed jobs asked for. -/
def requested (log : LaneLog Job Handle Output) : List Job :=
  log.flatMap LaneCall.requests

/-- Whatever was submitted on a lane has been processed. -/
def IsIdle (on : Side) (log : LaneLog Job Handle Output) : Prop :=
  log.countP (LaneCall.submits on) = log.countP (LaneCall.completes on)

/-- Every job that is known, from the start or by request, was submitted. -/
def NoneWaits (jobs : List Job) (log : LaneLog Job Handle Output) : Prop :=
  log.submitted.length = jobs.length + log.requested.length

/-- While a lane is idle, no wait on the other lane keeps a job waiting. -/
def KeepsBusy (jobs : List Job) (log : LaneLog Job Handle Output) : Prop :=
  ∀ before side handle output after,
    log = before ++ .wait side handle output :: after →
      IsIdle side.opposite before → NoneWaits jobs before

end LaneLog

/-- Everything that a lane does for one job. -/
structure LaneRound (Job Handle Output : Type) where
  job : Job
  handle : Handle
  output : Output
  requested : List Job

namespace LaneRound

variable {Job Handle Output : Type}

/-- A job is submitted, its own submission read back, and that processed. -/
def calls (side : Side) (round : LaneRound Job Handle Output) :
    LaneLog Job Handle Output :=
  [.enqueue side round.job round.handle,
    .wait side round.handle round.output,
    .process side round.output round.requested]

end LaneRound

end SolidField
