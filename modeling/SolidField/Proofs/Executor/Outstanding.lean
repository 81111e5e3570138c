import SolidField.Proofs.Executor.Lives

/-!
# Outstanding submissions

The log of a run of routines tells how many submissions are outstanding and
whether a job waits.  No more than two are outstanding at any time, and the
executor waits for a single one only if no job could be started instead.
-/

namespace SolidField

variable {σ ε Job Routine Handle Output : Type}

namespace RoutineLog

variable {jobs : List Job} {log : RoutineLog Job Handle Output}
  {call : RoutineCall Job Handle Output}

theorem starts_append :
    starts (log ++ [call]) = starts log + if call.isStart then 1 else 0 := by
  rw [starts, List.countP_append, List.countP_singleton]
  rfl

theorem waits_append :
    waits (log ++ [call]) = waits log + if call.isWait then 1 else 0 := by
  rw [waits, List.countP_append, List.countP_singleton]
  rfl

theorem awaits_append :
    awaits (log ++ [call]) = awaits log + if call.isAwait then 1 else 0 := by
  rw [awaits, List.countP_append, List.countP_singleton]
  rfl

theorem requested_append :
    requested (log ++ [call]) = requested log ++ call.requests := by
  rw [requested, List.flatMap_append, List.flatMap_singleton]
  rfl

/-- The calls before some point are those of the shorter log, or all of them. -/
theorem AtMostTwo.append (few : AtMostTwo log)
    (last : awaits (log ++ [call]) ≤ waits (log ++ [call]) + 2) :
    AtMostTwo (log ++ [call]) := by
  intro before after same
  rcases List.eq_nil_or_concat after with rfl | ⟨after, final, rfl⟩
  · rw [List.append_nil] at same
    rwa [← same]
  · rw [List.concat_eq_append, ← List.append_assoc] at same
    exact few before after (List.append_inj' same rfl).1

/-- The last call of a log is the wait that matters, or an earlier one is. -/
theorem KeepsBusy.append (busy : KeepsBusy jobs log)
    (last : ∀ number handle output, call = .wait number handle output →
      awaits log = waits log + 1 →
        starts log = jobs.length + (requested log).length) :
    KeepsBusy jobs (log ++ [call]) := by
  intro before number handle output after same single
  rcases last_or_earlier same with ⟨rfl, wait⟩ | ⟨rest, earlier⟩
  · exact last number handle output wait single
  · exact busy before number handle output rest earlier single

end RoutineLog

open RoutineLog

namespace RoutineRun

/-- What the log tells about the executor between two calls. -/
structure Traced (jobs : List Job)
    (run : RoutineRun Job (NumberedRoutine Job Routine) (Nat × Handle))
    (log : RoutineLog Job Handle Output) : Prop where
  waiting : starts log + run.stack.length = jobs.length + (requested log).length
  outstanding : awaits log = waits log + inFlight run.current run.other
  started : starts log = run.stats.jobsProcessed + inFlight run.current run.other
  roundTrips : run.stats.roundTrips = waits log
  few : AtMostTwo log
  busy : KeepsBusy jobs log
  most : run.stats.maxInFlight ≤ 2

namespace Traced

variable {jobs : List Job}
  {run : RoutineRun Job (NumberedRoutine Job Routine) (Nat × Handle)}
  {log : RoutineLog Job Handle Output}

theorem initial (jobs : List Job) :
    Traced jobs
      (⟨pushJobs jobs [], none, none, .zero⟩ :
        RoutineRun Job (NumberedRoutine Job Routine) (Nat × Handle))
      ([] : RoutineLog Job Handle Output) where
  waiting := by simp [pushJobs, starts, requested]
  outstanding := rfl
  started := rfl
  roundTrips := rfl
  few := by
    intro before after same
    rw [(List.append_eq_nil_iff.mp same.symm).1]
    exact Nat.zero_le 2
  busy := by
    intro before number handle output after impossible
    simp at impossible
  most := Nat.zero_le 2

theorem inFlight_le_two (current other : Option Handle) : inFlight current other ≤ 2 :=
  Nat.add_le_add Option.length_toList_le Option.length_toList_le

/-- A routine has taken a step, and its slot holds it again or is empty. -/
theorem settle {call : RoutineCall Job Handle Output} {step : RoutineStep Handle Job}
    {number : Nat} {numbered : NumberedRoutine Job Routine}
    (ran : call.step? = some step) (noWait : call.isWait = false)
    (waiting : starts (log ++ [call]) + run.stack.length =
      jobs.length + (requested log).length)
    (outstanding : awaits log = waits log + run.other.toList.length)
    (started : starts (log ++ [call]) =
      run.stats.jobsProcessed + 1 + run.other.toList.length)
    (roundTrips : run.stats.roundTrips = waits log) (few : AtMostTwo log)
    (busy : KeepsBusy jobs log) (most : run.stats.maxInFlight ≤ 2) :
    Traced jobs (run.settle (step.numbered number, numbered)) (log ++ [call]) := by
  have single : run.other.toList.length ≤ 1 := Option.length_toList_le
  have waits : waits (log ++ [call]) = waits log := by
    rw [waits_append, noWait]
    rfl
  have busy : KeepsBusy jobs (log ++ [call]) := by
    refine busy.append ?_
    rintro _ _ _ rfl
    cases noWait
  cases step with
  | await handle =>
      have awaits : awaits (log ++ [call]) = awaits log + 1 := by
        rw [awaits_append, RoutineCall.isAwait, ran]
        rfl
      have requested : requested (log ++ [call]) = requested log := by
        rw [requested_append, RoutineCall.requests, ran]
        exact List.append_nil _
      refine ⟨?_, ?_, ?_, ?_, few.append ?_, busy, most⟩
      · rw [requested]
        exact waiting
      · rw [awaits, waits, outstanding]
        exact Nat.add_assoc _ _ 1 |>.trans (by rw [Nat.add_comm _ 1]; rfl)
      · rw [started]
        exact Nat.add_assoc _ 1 _
      · rw [waits]
        exact roundTrips
      · omega
  | done asked =>
      have awaits : awaits (log ++ [call]) = awaits log := by
        rw [awaits_append, RoutineCall.isAwait, ran]
        rfl
      have requested : requested (log ++ [call]) = requested log ++ asked := by
        rw [requested_append, RoutineCall.requests, ran]
        simp [RoutineStep.requests]
      refine ⟨?_, ?_, ?_, ?_, few.append ?_, busy, most⟩
      · show _ + (asked.reverse ++ run.stack).length = _
        rw [requested, List.length_append, List.length_append, List.length_reverse]
        omega
      · rw [awaits, waits, outstanding]
        exact congrArg _ (Nat.zero_add _).symm
      · rw [started]
        exact congrArg _ (Nat.zero_add _).symm
      · rw [waits]
        exact roundTrips
      · omega

/-- A job is started. -/
theorem start {job : Job} {stack : List Job} (traced : Traced jobs run log)
    (vacant : run.current = none) (waiting : run.stack = job :: stack)
    (number : Nat) (step : RoutineStep Handle Job)
    (numbered : NumberedRoutine Job Routine) :
    Traced jobs (RoutineRun.settle { run with stack } (step.numbered number, numbered))
      (log ++ [.start number job step]) := by
  have starts : starts (log ++ [.start number job step]) = starts log + 1 :=
    starts_append
  have known := traced.waiting
  have outstanding := traced.outstanding
  have started := traced.started
  rw [waiting, List.length_cons] at known
  rw [vacant, inFlight, Option.toList_none, List.length_nil] at outstanding started
  refine settle rfl rfl ?_ ?_ ?_ traced.roundTrips traced.few traced.busy traced.most
  · rw [starts, ← known]
    exact Nat.succ_add_eq_add_succ _ _
  · rw [outstanding, Nat.zero_add]
  · rw [starts, started, Nat.zero_add]
    exact Nat.add_right_comm _ _ _

/-- A routine goes on with what was read back from its submission. -/
theorem trip (traced : Traced jobs run log)
    {slot : NumberedRoutine Job Routine × (Nat × Handle)}
    (held : run.current = some slot) (fed : run.other = none → run.stack = [])
    (ticket number : Nat) (handle : Handle) (output : Output)
    (step : RoutineStep Handle Job) (numbered : NumberedRoutine Job Routine) :
    Traced jobs
      (RoutineRun.settle { run with stats := run.stats.noteRoundTrip }
        (step.numbered number, numbered))
      (log ++ [.wait ticket handle output] ++ [.resume number output step]) := by
  have known := traced.waiting
  have outstanding := traced.outstanding
  have started := traced.started
  have single : run.other.toList.length ≤ 1 := Option.length_toList_le
  rw [held, inFlight, Option.toList_some, List.length_singleton] at outstanding started
  have starts : ∀ {log : RoutineLog Job Handle Output},
      starts (log ++ [.wait ticket handle output]) = starts log ∧
        starts (log ++ [.resume number output step]) = starts log :=
    ⟨starts_append, starts_append⟩
  have waits : waits (log ++ [.wait ticket handle output]) = waits log + 1 :=
    waits_append
  have awaits : awaits (log ++ [.wait ticket handle output]) = awaits log :=
    awaits_append
  have requested : requested (log ++ [.wait ticket handle output]) = requested log :=
    requested_append.trans (List.append_nil _)
  refine settle rfl rfl ?_ ?_ ?_ ?_ (traced.few.append ?_) (traced.busy.append ?_)
    traced.most
  · rw [starts.2, starts.1, requested]
    exact known
  · rw [awaits, waits, outstanding]
    exact (Nat.add_assoc _ 1 _).symm
  · rw [starts.2, starts.1, started]
    exact (Nat.add_assoc _ 1 _).symm
  · rw [waits, ← traced.roundTrips]
    rfl
  · omega
  · rintro _ _ _ ⟨⟩ alone
    have empty : run.other = none := by
      rw [← Option.toList_eq_nil_iff, ← List.length_eq_zero_iff]
      omega
    rw [fed empty, List.length_nil] at known
    exact known

/-- Every call of the executor keeps what the log tells. -/
theorem keeps (routines : Routines σ ε Job Routine Handle Output) (jobs : List Job) :
    Keeps routines.logged fun run state => Traced jobs run state.2 where
  start := by
    intro run state job stack result reached traced vacant waiting resumed
    rcases Routines.resumeLogged_eq_ok_iff.mp resumed with
      ⟨step, routine, -, logged, rfl⟩
    rw [logged]
    exact traced.start vacant waiting _ step _
  serve := by
    intro run state next reached traced fed served
    rcases serve_eq_ok_iff.mp served with
      ⟨-, rfl, rfl⟩ |
      ⟨numbered, handle, output, between, result, held, waited, resumed, rfl⟩
    · exact traced
    · rcases Attempt.noting_eq_ok_iff.mp waited with ⟨-, noted⟩
      rcases Routines.resumeLogged_eq_ok_iff.mp resumed with
        ⟨step, routine, -, logged, rfl⟩
      rw [logged, noted]
      exact traced.trip held fed handle.1 numbered.number handle.2 output step _
  count := by
    intro run state traced
    refine ⟨traced.waiting, traced.outstanding, traced.started, traced.roundTrips,
      traced.few, traced.busy, ?_⟩
    exact Nat.max_le.mpr ⟨traced.most, inFlight_le_two _ _⟩
  swap := by
    intro run state traced
    have flipped : inFlight run.swap.current run.swap.other =
        inFlight run.current run.other := Nat.add_comm _ _
    refine ⟨traced.waiting, ?_, ?_, traced.roundTrips, traced.few, traced.busy,
      traced.most⟩
    · rw [flipped]
      exact traced.outstanding
    · rw [flipped]
      exact traced.started

end Traced

end RoutineRun

/-! ## Complete runs -/

/--
A run of routines that never refuse a call starts every job of the finite forest
once.  A routine is resumed without a read-back first, and then with the read-backs
of its own submissions in their order, until it is done.  No more than two
submissions are outstanding at any time, and no job waits while the executor waits
for a single one.
-/
theorem interleaveRoutines_starts_every_job_once
    {routines : Routines σ ε Job Routine Handle Output} {followUps : Job → List Job}
    {most : Job → Nat} {jobs all : List Job}
    {holds : SlotStatus Job Routine Handle Output →
      SlotStatus Job Routine Handle Output → σ → Prop} {bound : Nat} {state : σ}
    (follows : routines.Follows followUps most all holds)
    (succeeds : routines.Succeeds all holds) (vacant : holds .vacant .vacant state)
    (generated : Generates followUps jobs all)
    (enough : 2 * (all.map most).sum + all.length + 3 ≤ bound) :
    ∃ (stats : RunStats) (reached : σ) (log : RoutineLog Job Handle Output)
      (lives : List (RoutineLife Job Handle Output)),
      interleaveRoutines routines bound jobs state = (.ok (some stats), reached) ∧
      interleaveRoutines routines.logged bound jobs (state, []) =
        (.ok (some stats), (reached, log)) ∧
      log.ShowsLives followUps all lives ∧
      stats.jobsProcessed = all.length ∧
      stats.roundTrips = log.awaits ∧
      stats.maxInFlight ≤ 2 ∧
      log.AtMostTwo ∧
      log.KeepsBusy jobs := by
  rcases exists_interleaveRoutines follows succeeds vacant generated enough with
    ⟨stats, ⟨reached, log⟩, lives, completed, shows⟩
  have visible := erases_interleaveRoutines routines bound jobs (state, [])
  rw [completed] at visible
  rcases interleaveRoutines_induction (RoutineRun.Traced.keeps routines jobs)
    (RoutineRun.Traced.initial jobs) completed with
    ⟨last, traced, noCurrent, noOther, -, rfl⟩
  have outstanding := traced.outstanding
  have started := traced.started
  rw [noCurrent, noOther, inFlight, Option.toList_none, List.length_nil, Nat.add_zero]
    at outstanding started
  refine ⟨last.stats, reached, log, lives, visible, completed, shows, ?_, ?_,
    traced.most, traced.few, traced.busy⟩
  · rw [← started, shows.starts, ← shows.jobs.length_eq, List.length_map]
  · rw [traced.roundTrips, ← outstanding]

/--
Routines that count submissions.  A number makes as many round trips as it says and
asks for that many of the number below.
-/
def countdownRoutines : Routines Nat Empty Nat (Nat × Nat) Nat Nat where
  start job := (job, job)
  resume _ routine := fun count =>
    match routine with
    | (job, 0) => (.ok (.done (List.replicate job (job - 1)), (job, 0)), count)
    | (job, left + 1) => (.ok (.await left, (job, left)), count + 1)
  wait handle := pure handle

/-- The round trips that were made and those that are left are as many as there are. -/
def CountdownSlot : SlotStatus Nat (Nat × Nat) Nat Nat → Prop
  | .vacant => True
  | .suspended job trips routine _ => routine.1 = job ∧ routine.2 + trips + 1 = job
  | .ready job trips routine _ => routine.1 = job ∧ routine.2 + trips + 1 = job

theorem countdownRoutines_follow (all : List Nat) :
    countdownRoutines.Follows (fun job => List.replicate job (job - 1)) id all
      (fun own other _ => CountdownSlot own ∧ CountdownSlot other) where
  swap := And.symm
  start := by
    rintro (_ | job) other state result reached - ⟨-, otherHolds⟩ ⟨⟩
    · exact ⟨rfl, trivial, otherHolds⟩
    · exact ⟨Nat.succ_pos job, ⟨rfl, rfl⟩, otherHolds⟩
  wait := by
    rintro job trips routine handle output other state reached holds ⟨⟩
    exact holds
  resume := by
    rintro job trips ⟨_, _ | left⟩ output other state result reached
      ⟨⟨rfl, sum⟩, otherHolds⟩ ⟨⟩
    · exact ⟨rfl, trivial, otherHolds⟩
    · change left + 1 + trips + 1 = _ at sum
      exact ⟨by simp only [id]; omega, ⟨rfl, by simp only; omega⟩, otherHolds⟩

theorem countdownRoutines_succeed (all : List Nat) :
    countdownRoutines.Succeeds all
      (fun own other _ => CountdownSlot own ∧ CountdownSlot other) where
  start := by
    rintro (_ | job) other state - -
    · exact ⟨_, _, rfl⟩
    · exact ⟨_, _, rfl⟩
  wait := fun _ => ⟨_, _, rfl⟩
  resume := by
    rintro job trips ⟨_, _ | left⟩ output other state -
    · exact ⟨_, _, rfl⟩
    · exact ⟨_, _, rfl⟩

/-- Counting down from two and one takes seven jobs, three of them without a trip. -/
theorem countdownRoutines_start_every_job_once :
    ∃ (stats : RunStats) (reached : Nat) (log : RoutineLog Nat Nat Nat)
      (lives : List (RoutineLife Nat Nat Nat)),
      interleaveRoutines countdownRoutines 20 [2, 1] 0 =
        (.ok (some stats), reached) ∧
      interleaveRoutines countdownRoutines.logged 20 [2, 1] (0, []) =
        (.ok (some stats), (reached, log)) ∧
      log.ShowsLives (fun job => List.replicate job (job - 1)) [2, 1, 0, 1, 0, 1, 0]
        lives ∧
      stats.jobsProcessed = 7 ∧
      stats.roundTrips = log.awaits ∧
      stats.maxInFlight ≤ 2 ∧
      log.AtMostTwo ∧
      log.KeepsBusy [2, 1] := by
  have generated : Generates (fun job => List.replicate job (job - 1))
      [2, 1] [2, 1, 0, 1, 0, 1, 0] :=
    .of_followUps <| .of_followUps <| .of_followUps <| .of_followUps <|
      .of_followUps <| .of_followUps <| .of_followUps .nil
  exact interleaveRoutines_starts_every_job_once
    (countdownRoutines_follow _) (countdownRoutines_succeed _)
    ⟨trivial, trivial⟩ generated (by decide)

end SolidField
