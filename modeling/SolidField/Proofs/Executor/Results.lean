import SolidField.Mass.Account
import SolidField.Proofs.Executor.Logging

/-!
# The results in the log of a run

If what is read back for a job depends on the job alone, the log of a complete run
shows for each lane the jobs that it has processed, every one with its answer.
-/

namespace SolidField

variable {σ ε Job Handle Output : Type}

namespace LaneLog

/-- The jobs and outputs on a lane are those of its processed jobs, in their order. -/
def Records (answer : Job → Output) (side : Side)
    (status : LaneStatus Job Handle Output) (log : LaneLog Job Handle Output) : Prop :=
  let jobs := (log.on side).filterMap LaneCall.job?
  let outputs := (log.on side).filterMap LaneCall.output?
  match status with
  | .idle processed => jobs = processed ∧ outputs = processed.map answer
  | .submitted processed job _ =>
      jobs = processed ++ [job] ∧ outputs = processed.map answer
  | .readBack processed job output =>
      jobs = processed ++ [job] ∧ outputs = processed.map answer ∧ output = answer job

variable {answer : Job → Output} {side : Side} {status : LaneStatus Job Handle Output}
  {log : LaneLog Job Handle Output}

theorem Records.append_other (records : Records answer side status log)
    {call : LaneCall Job Handle Output} (other : call.side ≠ side) :
    Records answer side status (log ++ [call]) := by
  unfold Records
  rw [on_append_other log call other]
  exact records

theorem Records.resultsOn {processed : List Job}
    (records : Records answer side (.idle processed) log) :
    log.resultsOn side = processed.map fun job => (job, answer job) := by
  rw [LaneLog.resultsOn, records.1, records.2]
  exact List.map_prod_left_eq_zip.symm

/-- A log that shows every job with its answer shows every job. -/
theorem map_fst_results_perm {jobs : List Job}
    (results : log.results.Perm (jobs.map fun job => (job, answer job))) :
    (log.results.map Prod.fst).Perm jobs := by
  have firsts := results.map Prod.fst
  rwa [List.map_map, show Prod.fst ∘ _ = id from rfl, List.map_id] at firsts

end LaneLog

namespace Lanes

variable {lanes : Lanes σ ε Job Handle Output} {followUps : Job → List Job}
  {holds : Side → LaneStatus Job Handle Output → σ → Prop} {answer : Job → Output}

/-- What is read back on a lane is the answer to the job that was submitted. -/
def Answers (holds : Side → LaneStatus Job Handle Output → σ → Prop)
    (answer : Job → Output) : Prop :=
  ∀ {side processed job output state},
    holds side (.readBack processed job output) state → output = answer job

/-- Logged lanes keep the protocol, and their log records the answers. -/
theorem Follows.records (follows : lanes.Follows followUps holds)
    (answers : Answers holds answer) :
    lanes.logged.Follows followUps fun side status state =>
      holds side status state.1 ∧ LaneLog.Records answer side status state.2 where
  enqueue := by
    rintro side processed job handle other ⟨state, log⟩ ⟨reached, after⟩
      ⟨idle, records⟩ ⟨otherHolds, otherRecords⟩ called
    rcases Attempt.noting_eq_ok_iff.mp called with ⟨happened, rfl⟩
    rcases follows.enqueue idle otherHolds happened with ⟨submitted, kept⟩
    refine ⟨⟨submitted, ?_⟩, kept, otherRecords.append_other side.ne_opposite⟩
    rcases records with ⟨jobs, outputs⟩
    rw [LaneLog.Records, LaneLog.on_append_self side log _ rfl, List.filterMap_append,
      List.filterMap_append, jobs, outputs]
    exact ⟨rfl, List.append_nil _⟩
  wait := by
    rintro side processed job handle output other ⟨state, log⟩ ⟨reached, after⟩
      ⟨submitted, records⟩ ⟨otherHolds, otherRecords⟩ called
    rcases Attempt.noting_eq_ok_iff.mp called with ⟨happened, rfl⟩
    rcases follows.wait submitted otherHolds happened with ⟨readBack, kept⟩
    refine ⟨⟨readBack, ?_⟩, kept, otherRecords.append_other side.ne_opposite⟩
    rcases records with ⟨jobs, outputs⟩
    rw [LaneLog.Records, LaneLog.on_append_self side log _ rfl, List.filterMap_append,
      List.filterMap_append, jobs, outputs]
    exact ⟨List.append_nil _, List.append_nil _, answers readBack⟩
  process := by
    rintro side processed job output jobs other ⟨state, log⟩ ⟨reached, after⟩
      ⟨readBack, records⟩ ⟨otherHolds, otherRecords⟩ called
    rcases Attempt.noting_eq_ok_iff.mp called with ⟨happened, rfl⟩
    rcases follows.process readBack otherHolds happened with ⟨rfl, idle, kept⟩
    refine ⟨rfl, ⟨idle, ?_⟩, kept, otherRecords.append_other side.ne_opposite⟩
    rcases records with ⟨jobs, outputs, rfl⟩
    rw [LaneLog.Records, LaneLog.on_append_self side log _ rfl, List.filterMap_append,
      List.filterMap_append, jobs, outputs, List.map_append]
    exact ⟨List.append_nil _, rfl⟩

end Lanes

/--
A complete run has processed the forest of its jobs, and its log shows each job once
with its answer, on the lane that has processed it.
-/
theorem exists_results_of_interleave {lanes : Lanes σ ε Job Handle Output}
    {followUps : Job → List Job}
    {holds : Side → LaneStatus Job Handle Output → σ → Prop} {answer : Job → Output}
    {bound : Nat} {jobs : List Job} {state reached : σ} {stats : RunStats}
    (follows : lanes.Follows followUps holds) (answers : Lanes.Answers holds answer)
    (idle : ∀ side, holds side (.idle []) state)
    (completed : interleave lanes bound jobs state = (.ok (some stats), reached)) :
    ∃ all, Generates followUps jobs all ∧
      ∃ processed : Side → List Job,
        (processed .first ++ processed .second).Perm all ∧
          ∀ side, holds side (.idle (processed side)) reached ∧
            LaneLog.resultsOn side (interleave lanes.logged bound jobs (state, [])).2.2 =
              (processed side).map fun job => (job, answer job) := by
  have visible := projects_interleave lanes bound jobs (state, [])
  rw [completed] at visible
  rcases ran : interleave lanes.logged bound jobs (state, []) with
    ⟨result, after, log⟩
  rw [ran, Prod.mk.injEq] at visible
  rcases visible with ⟨rfl, rfl⟩
  rcases exists_forest_of_interleave (follows.records answers)
    (fun side => ⟨idle side, rfl, rfl⟩) ran with
    ⟨all, generated, -, -, processed, everyJob, reached⟩
  exact ⟨all, generated, processed, everyJob, fun side =>
    ⟨(reached side).1, (reached side).2.resultsOn⟩⟩

end SolidField
