import SolidField.Executor.Protocol

/-!
# Traces of a run

A trace tells every call of a run as it ended, a call that failed included.  The
calls that succeeded are a log, in which a lane has whole rounds behind it and at
most one round under way.  With that one can say how a run looks when a call
fails, and how it looks when it is complete, for lanes of any kind.
-/

namespace SolidField

/-- A call on a lane that has failed. -/
inductive FailedCall (ε Job Handle Output : Type) where
  | enqueue (side : Side) (job : Job) (error : ε)
  | wait (side : Side) (handle : Handle) (error : ε)
  | process (side : Side) (output : Output) (error : ε)
deriving DecidableEq

namespace FailedCall

variable {ε Job Handle Output : Type}

def side : FailedCall ε Job Handle Output → Side
  | enqueue side _ _ => side
  | wait side _ _ => side
  | process side _ _ => side

def error : FailedCall ε Job Handle Output → ε
  | enqueue _ _ error => error
  | wait _ _ error => error
  | process _ _ error => error

/-- The job that the call was to submit. -/
def job? : FailedCall ε Job Handle Output → Option Job
  | enqueue _ job _ => some job
  | _ => none

/--
The round that the call was to continue: a submission begins one, a wait is for the
submission of its round, and what is processed was read back in its round.
-/
def Continues : FailedCall ε Job Handle Output → LaneLog Job Handle Output → Prop
  | enqueue _ _ _, underway => underway = []
  | wait side handle _, underway =>
      ∃ job, underway = [.enqueue side job handle]
  | process side output _, underway =>
      ∃ job handle, underway = [.enqueue side job handle, .wait side handle output]

end FailedCall

/-- A call on a lane as it ended. -/
inductive LaneEvent (ε Job Handle Output : Type) where
  | success (call : LaneCall Job Handle Output)
  | failure (call : FailedCall ε Job Handle Output)
deriving DecidableEq

/-- The calls of a run as they ended, the earliest first. -/
abbrev LaneTrace (ε Job Handle Output : Type) := List (LaneEvent ε Job Handle Output)

/-- An attempt that appends an event to a list, whether it succeeds or fails. -/
def Attempt.recording {σ ε β κ : Type} (attempt : Attempt σ ε β) (success : β → κ)
    (failure : ε → κ) : Attempt (σ × List κ) ε β :=
  fun (state, events) =>
    match attempt state with
    | (.ok result, reached) => (.ok result, reached, events ++ [success result])
    | (.error error, reached) => (.error error, reached, events ++ [failure error])

/-- Lanes that record every call as it ends. -/
def Lanes.recorded {σ ε Job Handle Output : Type}
    (lanes : Lanes σ ε Job Handle Output) :
    Lanes (σ × LaneTrace ε Job Handle Output) ε Job Handle Output where
  enqueue side job :=
    (lanes.enqueue side job).recording
      (fun handle => .success (.enqueue side job handle))
      (fun error => .failure (.enqueue side job error))
  wait side handle :=
    (lanes.wait side handle).recording
      (fun output => .success (.wait side handle output))
      (fun error => .failure (.wait side handle error))
  process side output :=
    (lanes.process side output).recording
      (fun jobs => .success (.process side output jobs))
      (fun error => .failure (.process side output error))

namespace LaneLog

variable {ε Job Handle Output : Type}

/-- The trace of calls that have all succeeded. -/
def trace (log : LaneLog Job Handle Output) : LaneTrace ε Job Handle Output :=
  log.map .success

/-- The number of results that were processed. -/
def processed (log : LaneLog Job Handle Output) : Nat :=
  log.countP fun call => call.completes call.side

/-- On a lane there are whole rounds, and then some calls of another one. -/
def Leaves (side : Side) (log underway : LaneLog Job Handle Output) : Prop :=
  ∃ rounds : List (LaneRound Job Handle Output),
    log.on side = rounds.flatMap (LaneRound.calls side) ++ underway

/-- On a lane there are whole rounds, and at most a submission after them. -/
def Holds (side : Side) (held : Option Handle) (log : LaneLog Job Handle Output) :
    Prop :=
  match held with
  | none => log.Leaves side []
  | some handle => ∃ job, log.Leaves side [.enqueue side job handle]

/--
Every job that is known, from the start or by request, has been submitted once, or
it is one of those that wait.
-/
def Conserves (jobs waiting : List Job) (log : LaneLog Job Handle Output) : Prop :=
  (log.submitted ++ waiting).Perm (jobs ++ log.requested)

/-- How a run looks when a call fails. -/
structure FailsAt (jobs : List Job) (log : LaneLog Job Handle Output)
    (call : FailedCall ε Job Handle Output) : Prop where
  /-- The call continues a round of its own lane. -/
  own : ∃ underway, log.Leaves call.side underway ∧ call.Continues underway
  /-- On the other lane a submission is outstanding at most. -/
  other : ∃ held, log.Holds call.side.opposite held
  /-- No job was submitted twice, and none was lost. -/
  conserves : ∃ waiting, log.Conserves jobs (call.job?.toList ++ waiting)

/-- How a run looks when it is complete. -/
structure Completes (jobs : List Job) (log : LaneLog Job Handle Output)
    (stats : RunStats) : Prop where
  /-- Every lane has whole rounds only. -/
  rounds : ∀ side, log.Leaves side []
  /-- Every job that was known has been submitted once. -/
  conserves : log.Conserves jobs []
  jobsProcessed : stats.jobsProcessed = log.processed
  roundTrips : stats.roundTrips = log.processed

/--
A run answers its counts when it is complete.  Without an answer it has processed
results in every other of a number of turns at least, each for another job that has
become known.
-/
def Answers (jobs : List Job) (turns : Nat) (result : Option RunStats)
    (log : LaneLog Job Handle Output) : Prop :=
  match result with
  | some stats => log.Completes jobs stats
  | none =>
      turns ≤ 2 * log.processed + 1 ∧
        log.processed ≤ jobs.length + log.requested.length

end LaneLog

/-- A run within a bound: how it ends, where it leads, and its calls. -/
def Lanes.RunsTo {σ ε Job Handle Output : Type} (lanes : Lanes σ ε Job Handle Output)
    (bound : Nat) (jobs : List Job) (state : σ) (outcome : Except ε (Option RunStats))
    (reached : σ) (trace : LaneTrace ε Job Handle Output) : Prop :=
  interleave lanes bound jobs state = (outcome, reached) ∧
    interleave lanes.recorded bound jobs (state, []) = (outcome, (reached, trace))

namespace Lanes

variable {σ ε Job Handle Output : Type}

/-- However long a run goes on, every one of its calls succeeds. -/
def NeverFails (lanes : Lanes σ ε Job Handle Output) (jobs : List Job) (state : σ) :
    Prop :=
  ∀ bound, ∃ (result : Option RunStats) (reached : σ)
    (log : LaneLog Job Handle Output),
    lanes.RunsTo bound jobs state (.ok result) reached log.trace

/--
The jobs make a finite forest: however long a run goes on, no more than a number of
jobs are asked for.
-/
def FiniteForest (lanes : Lanes σ ε Job Handle Output) (jobs : List Job) (state : σ) :
    Prop :=
  ∃ most, ∀ (bound : Nat) (result : Option RunStats) (reached : σ)
    (log : LaneLog Job Handle Output),
    lanes.RunsTo bound jobs state (.ok result) reached log.trace →
      log.requested.length ≤ most

end Lanes

end SolidField
