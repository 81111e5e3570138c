import SolidField.Executor.Routine

/-!
# Scripted jobs

A script tells what becomes of a job: of its submission, of the wait for it and
of the processing of its result.  Scripted jobs run on lanes as well as in
routines of a single round trip.  Every call leaves an event behind, whether it
succeeds or fails.
-/

namespace SolidField

/-- What becomes of jobs; every step may fail with an error `ε`. -/
structure Script (ε Job : Type) where
  submit : Job → Except ε Unit
  wait : Job → Except ε Unit
  /-- The answer is the jobs that a job asks for. -/
  process : Job → Except ε (List Job)

/-- A call for a job. -/
inductive ScriptEvent (Job : Type) where
  | submit (job : Job)
  | wait (job : Job)
  | process (job : Job)
deriving DecidableEq

namespace Script

variable {ε Job : Type}

/-- A call with its outcome. -/
def call {β : Type} (event : ScriptEvent Job) (outcome : Except ε β) :
    Attempt (List (ScriptEvent Job)) ε β :=
  fun events => (outcome, events ++ [event])

/-- The jobs that a job asks for, if none of its steps fails. -/
def followUps (script : Script ε Job) (job : Job) : List Job :=
  match script.submit job, script.wait job, script.process job with
  | .ok _, .ok _, .ok jobs => jobs
  | _, _, _ => []

/-- Lanes for scripted jobs; a job is its own handle and its own read-back. -/
def lanes (script : Script ε Job) :
    Lanes (List (ScriptEvent Job)) ε Job Job Job where
  enqueue _ job := call (.submit job) ((script.submit job).map fun _ => job)
  wait _ job := call (.wait job) ((script.wait job).map fun _ => job)
  process _ job := call (.process job) (script.process job)

/-- Routines for scripted jobs: one round trip, and the result is processed. -/
def routines (script : Script ε Job) :
    Routines (List (ScriptEvent Job)) ε Job Job Job Job where
  start job := job
  resume ready job :=
    match ready with
    | none =>
        call (.submit job) ((script.submit job).map fun _ => (.await job, job))
    | some _ =>
        call (.process job) ((script.process job).map fun jobs => (.done jobs, job))
  wait job := call (.wait job) ((script.wait job).map fun _ => job)

end Script

end SolidField
