import SolidField.Executor.Trace
import SolidField.Proofs.Executor.Utilization

/-!
# Runs that fail

A run on lanes of any kind goes on as long as its calls succeed.  The first call that
fails is the last one of the run, and its error is the answer.  If no call fails, the
run has a job to process in every other turn, so that it is complete in the end if its
jobs make a finite forest, and goes on for ever if they do not.
-/

namespace SolidField

variable {σ ε Job Handle Output β γ κ : Type}

/-! ## Attempts that report -/

namespace Attempt

/--
After a log of successful calls an attempt makes some more of them and succeeds, or
it makes some more of them, and then a call that fails.
-/
def Reports (log : LaneLog Job Handle Output)
    (attempt : Attempt (σ × LaneTrace ε Job Handle Output) ε β)
    (succeeds : β → LaneLog Job Handle Output → Prop)
    (fails : FailedCall ε Job Handle Output → LaneLog Job Handle Output → Prop) :
    Prop :=
  ∀ state,
    (∃ result reached later,
      attempt (state, log.trace) = (.ok result, (reached, later.trace)) ∧
        succeeds result later) ∨
    ∃ call reached later,
      attempt (state, log.trace) =
          (.error call.error, (reached, later.trace ++ [.failure call])) ∧
        fails call later

variable {log : LaneLog Job Handle Output}
  {fails : FailedCall ε Job Handle Output → LaneLog Job Handle Output → Prop}

theorem reports_pure {succeeds : β → LaneLog Job Handle Output → Prop} {result : β}
    (holds : succeeds result log) :
    Reports log (pure result : Attempt (σ × LaneTrace ε Job Handle Output) ε β)
      succeeds fails :=
  fun state => Or.inl ⟨result, state, log, rfl, holds⟩

/-- A sequence reports if every step does, from wherever the step before leads. -/
theorem Reports.bind {attempt : Attempt (σ × LaneTrace ε Job Handle Output) ε β}
    {next : β → Attempt (σ × LaneTrace ε Job Handle Output) ε γ}
    {between : β → LaneLog Job Handle Output → Prop}
    {succeeds : γ → LaneLog Job Handle Output → Prop}
    (first : Reports log attempt between fails)
    (second : ∀ value later, between value later →
      Reports later (next value) succeeds fails) :
    Reports log (attempt >>= next) succeeds fails := by
  intro state
  rcases first state with
    ⟨value, reached, later, succeeded, holds⟩ |
    ⟨call, reached, later, failed, holds⟩
  · rw [bind_apply_ok succeeded]
    exact second value later holds reached
  · exact Or.inr ⟨call, reached, later, bind_apply_error failed, holds⟩

theorem Reports.imp {attempt : Attempt (σ × LaneTrace ε Job Handle Output) ε β}
    {succeeds weaker : β → LaneLog Job Handle Output → Prop}
    (reports : Reports log attempt succeeds fails)
    (follows : ∀ result later, succeeds result later → weaker result later) :
    Reports log attempt weaker fails := by
  intro state
  refine (reports state).imp_left ?_
  rintro ⟨result, reached, later, succeeded, holds⟩
  exact ⟨result, reached, later, succeeded, follows result later holds⟩

/-- A call is recorded as it ends. -/
theorem reports_recording (attempt : Attempt σ ε β)
    (success : β → LaneCall Job Handle Output)
    {failure : ε → FailedCall ε Job Handle Output}
    (same : ∀ error, (failure error).error = error)
    (holds : ∀ error, fails (failure error) log) :
    Reports log
      (attempt.recording (fun result => .success (success result))
        (fun error => .failure (failure error)))
      (fun result later => later = log ++ [success result]) fails := by
  intro state
  rcases attempted : attempt state with ⟨error | result, reached⟩
  · refine Or.inr ⟨failure error, reached, log, ?_, holds error⟩
    simp only [recording, attempted, same]
  · refine Or.inl ⟨result, reached, log ++ [success result], ?_, rfl⟩
    simp only [recording, attempted, LaneLog.trace, List.map_append, List.map_cons,
      List.map_nil]

theorem projects_recording (attempt : Attempt σ ε β) (success : β → κ)
    (failure : ε → κ) :
    Projects Prod.fst (attempt.recording success failure) attempt := by
  rintro ⟨state, events⟩
  rcases attempted : attempt state with ⟨error | result, reached⟩ <;>
    simp only [recording, attempted]

end Attempt

/-- Recording leaves every call as it is. -/
theorem Lanes.projects_recorded (lanes : Lanes σ ε Job Handle Output) :
    lanes.recorded.Projects Prod.fst lanes where
  enqueue _ _ := Attempt.projects_recording _ _ _
  wait _ _ := Attempt.projects_recording _ _ _
  process _ _ := Attempt.projects_recording _ _ _

/-! ## Rounds of a lane -/

namespace LaneLog

variable {log underway : LaneLog Job Handle Output}
  {call : LaneCall Job Handle Output} {side : Side}

theorem Leaves.append_other (leaves : log.Leaves side underway)
    (call : LaneCall Job Handle Output) (other : call.side ≠ side) :
    Leaves side (log ++ [call]) underway := by
  rcases leaves with ⟨rounds, calls⟩
  exact ⟨rounds, (on_append_other log call other).trans calls⟩

theorem Leaves.append_self (leaves : log.Leaves side underway)
    (call : LaneCall Job Handle Output) (same : call.side = side) :
    Leaves side (log ++ [call]) (underway ++ [call]) := by
  rcases leaves with ⟨rounds, calls⟩
  refine ⟨rounds, ?_⟩
  rw [on_append_self side log call same, calls, List.append_assoc]

/-- A round that is whole joins those before it. -/
theorem Leaves.close (round : LaneRound Job Handle Output)
    (leaves : log.Leaves side (round.calls side)) : log.Leaves side [] := by
  rcases leaves with ⟨rounds, calls⟩
  refine ⟨rounds ++ [round], ?_⟩
  rw [calls, List.flatMap_append, List.flatMap_singleton, List.append_nil]

theorem Holds.append_other {held : Option Handle} (holds : log.Holds side held)
    (call : LaneCall Job Handle Output) (other : call.side ≠ side) :
    Holds side held (log ++ [call]) := by
  cases held with
  | none => exact Leaves.append_other holds call other
  | some handle =>
      rcases holds with ⟨job, leaves⟩
      exact ⟨job, leaves.append_other call other⟩

variable {jobs waiting : List Job}

theorem Conserves.enqueue {job : Job} (conserves : log.Conserves jobs (job :: waiting))
    (side : Side) (handle : Handle) :
    Conserves jobs waiting (log ++ [.enqueue side job handle]) := by
  simpa [Conserves, submitted_append, requested_append, LaneCall.job?,
    LaneCall.requests] using conserves

theorem Conserves.wait (conserves : log.Conserves jobs waiting) (side : Side)
    (handle : Handle) (output : Output) :
    Conserves jobs waiting (log ++ [.wait side handle output]) := by
  simpa [Conserves, submitted_append, requested_append, LaneCall.job?,
    LaneCall.requests] using conserves

theorem Conserves.process (conserves : log.Conserves jobs waiting) (side : Side)
    (output : Output) (asked : List Job) :
    Conserves jobs (pushJobs asked waiting)
      (log ++ [.process side output asked]) := by
  rw [Conserves, submitted_append, requested_append, ← List.append_assoc]
  have left : (log.submitted ++ [] ++ pushJobs asked waiting).Perm
      (asked ++ (log.submitted ++ waiting)) := by
    rw [List.append_nil]
    exact Interleaving.Accounted.perm_pushJobs asked log.submitted waiting
  exact left.trans (List.perm_append_comm.trans (conserves.append_right asked))

/-- The trace tells the calls. -/
theorem trace_inj {log other : LaneLog Job Handle Output} :
    (log.trace : LaneTrace ε Job Handle Output) = other.trace ↔ log = other :=
  List.map_inj_right fun _ _ same => by rwa [LaneEvent.success.injEq] at same

theorem processed_append (log more : LaneLog Job Handle Output) :
    processed (log ++ more) = log.processed + more.processed :=
  List.countP_append

end LaneLog

/-! ## What a turn does -/

namespace Interleaving

/-- What the calls of a run tell about the executor between two turns. -/
structure Tracked (jobs : List Job) (run : Interleaving Job Handle)
    (log : LaneLog Job Handle Output) : Prop where
  current : log.Holds run.side run.current
  other : log.Holds run.side.opposite run.other
  conserves : log.Conserves jobs run.stack
  submitted : log.submitted.length = log.processed + inFlight run.current run.other
  jobsProcessed : run.stats.jobsProcessed = log.processed
  roundTrips : run.stats.roundTrips = log.processed

theorem tracked_start (jobs : List Job) :
    Tracked jobs (start jobs : Interleaving Job Handle)
      ([] : LaneLog Job Handle Output) where
  current := ⟨[], rfl⟩
  other := ⟨[], rfl⟩
  conserves := by
    simp [start, pushJobs, LaneLog.Conserves, LaneLog.submitted, LaneLog.requested]
  submitted := rfl
  jobsProcessed := rfl
  roundTrips := rfl

namespace Tracked

variable {lanes : Lanes σ ε Job Handle Output} {jobs : List Job}
  {run : Interleaving Job Handle} {log : LaneLog Job Handle Output}

theorem swap (tracked : Tracked jobs run log) : Tracked jobs run.swap log where
  current := tracked.other
  other := by
    simpa only [Interleaving.swap, Side.opposite_opposite] using tracked.current
  conserves := tracked.conserves
  submitted := by
    rw [tracked.submitted, inFlight, Nat.add_comm run.current.toList.length]
    rfl
  jobsProcessed := tracked.jobsProcessed
  roundTrips := tracked.roundTrips

/-- Every job that was processed is one that has become known. -/
theorem processed_le (tracked : Tracked jobs run log) :
    log.processed ≤ jobs.length + log.requested.length := by
  have known := tracked.conserves.length_eq
  rw [List.length_append, List.length_append, tracked.submitted] at known
  omega

/-- A submission that is under way is waited for and processed. -/
theorem reports_drain (tracked : Tracked jobs run log) :
    (run.drain lanes.recorded).Reports log
      (fun next later => Tracked jobs next later ∧ next.current = none ∧
        next.other = run.other ∧
        later.processed = log.processed + run.current.toList.length)
      (fun call later => later.FailsAt jobs call) := by
  rw [drain]
  cases busy : run.current with
  | none => exact Attempt.reports_pure ⟨tracked, busy, rfl, rfl⟩
  | some handle =>
      have held := tracked.current
      rw [busy] at held
      rcases held with ⟨job, leaves⟩
      have notOther : run.side ≠ run.side.opposite := run.side.ne_opposite
      refine (Attempt.reports_recording _ (.wait run.side handle)
        (fun _ => rfl) fun error => ?_).bind ?_
      · exact ⟨⟨_, leaves, job, rfl⟩, ⟨_, tracked.other⟩, _, tracked.conserves⟩
      rintro output _ rfl
      have waited := leaves.append_self (.wait run.side handle output) rfl
      have otherWaited :=
        tracked.other.append_other (.wait run.side handle output) notOther
      have conserves := tracked.conserves.wait run.side handle output
      refine (Attempt.reports_recording _ (.process run.side output)
        (fun _ => rfl) fun error => ?_).bind ?_
      · exact ⟨⟨_, waited, job, handle, rfl⟩, ⟨_, otherWaited⟩, _, conserves⟩
      rintro asked _ rfl
      have whole := waited.append_self (.process run.side output asked) rfl
      have count : LaneLog.processed (log ++ [.wait run.side handle output] ++
          [.process run.side output asked]) = log.processed + 1 := by
        rw [LaneLog.processed_append, LaneLog.processed_append]
        simp [LaneLog.processed, LaneCall.completes, LaneCall.side]
      refine Attempt.reports_pure ⟨?_, rfl, rfl, count⟩
      exact {
        current := whole.close ⟨job, handle, output, asked⟩
        other := otherWaited.append_other (.process run.side output asked) notOther
        conserves := conserves.process run.side output asked
        submitted := by
          rw [LaneLog.submitted_append, LaneLog.submitted_append, count]
          show (log.submitted ++ [] ++ []).length =
            log.processed + 1 + (0 + run.other.toList.length)
          rw [List.append_nil, List.append_nil, tracked.submitted, busy]
          show log.processed + (1 + run.other.toList.length) = _
          omega
        jobsProcessed := (congrArg (· + 1) tracked.jobsProcessed).trans count.symm
        roundTrips := (congrArg (· + 1) tracked.roundTrips).trans count.symm }

/-- The next job, if any, is submitted on the idle lane. -/
theorem reports_refill (tracked : Tracked jobs run log) (idle : run.current = none) :
    (run.refill lanes.recorded).Reports log
      (fun next later => Tracked jobs next later ∧ next.other = run.other ∧
        later.processed = log.processed ∧
        (next.current = none → run.stack = [] ∧ next.stack = []))
      (fun call later => later.FailsAt jobs call) := by
  have none := tracked.current
  rw [idle] at none
  rw [refill]
  cases waiting : run.stack with
  | nil => exact Attempt.reports_pure ⟨tracked, rfl, rfl, fun _ => ⟨rfl, waiting⟩⟩
  | cons job stack =>
      have conserves := tracked.conserves
      rw [waiting] at conserves
      have notOther : run.side ≠ run.side.opposite := run.side.ne_opposite
      refine (Attempt.reports_recording _ (.enqueue run.side job)
        (fun _ => rfl) fun error => ?_).bind ?_
      · exact ⟨⟨_, none, rfl⟩, ⟨_, tracked.other⟩, stack, conserves⟩
      rintro handle _ rfl
      have count : LaneLog.processed (log ++ [.enqueue run.side job handle]) =
          log.processed :=
        LaneLog.processed_append log _
      refine Attempt.reports_pure ⟨?_, rfl, count, fun ended => ?_⟩
      · exact {
          current := ⟨job, none.append_self (.enqueue run.side job handle) rfl⟩
          other := tracked.other.append_other (.enqueue run.side job handle) notOther
          conserves := conserves.enqueue run.side handle
          submitted := by
            rw [LaneLog.submitted_append, List.length_append, tracked.submitted, idle,
              count]
            show log.processed + (0 + run.other.toList.length) + 1 =
              log.processed + (1 + run.other.toList.length)
            omega
          jobsProcessed := tracked.jobsProcessed.trans count.symm
          roundTrips := tracked.roundTrips.trans count.symm }
      · cases ended

/-- A turn processes what its lane holds, and leaves no job waiting beside an idle lane. -/
theorem reports_turn (tracked : Tracked jobs run log) :
    (run.turn lanes.recorded).Reports log
      (fun next later => Tracked jobs next later ∧ next.other = run.other ∧
        later.processed = log.processed + run.current.toList.length ∧
        (next.current = none → next.stack = []))
      (fun call later => later.FailsAt jobs call) := by
  refine tracked.reports_drain.bind ?_
  rintro drained between ⟨kept, idle, other, count⟩
  refine (kept.reports_refill idle).imp ?_
  rintro next later ⟨tracked, sameOther, sameCount, stopped⟩
  exact ⟨tracked, sameOther.trans other, sameCount.trans count,
    fun ended => (stopped ended).2⟩

/-- A run that has stopped is complete. -/
theorem completes (tracked : Tracked jobs run log) (idle : run.isIdle = true)
    (empty : run.stack = []) : log.Completes jobs run.stats := by
  rw [isIdle, Bool.and_eq_true, Option.isNone_iff_eq_none,
    Option.isNone_iff_eq_none] at idle
  have current := tracked.current
  have other := tracked.other
  have conserves := tracked.conserves
  rw [idle.1] at current
  rw [idle.2] at other
  rw [empty] at conserves
  refine ⟨fun side => ?_, conserves, tracked.jobsProcessed, tracked.roundTrips⟩
  rcases side.eq_or_eq_opposite run.side with same | opposite
  · exact same ▸ current
  · exact opposite ▸ other

/--
Turns go on until the run is complete, a call fails or the bound is reached.  A turn
that finds its lane idle is followed by one that does not.
-/
theorem reports_finish (bound : Nat) (tracked : Tracked jobs run log)
    (busy : 0 < inFlight run.current run.other) :
    (run.finish lanes.recorded bound).Reports log
      (fun result later => later.Answers jobs
        (2 * log.processed + bound + run.current.toList.length) result)
      (fun call later => later.FailsAt jobs call) := by
  induction bound generalizing run log with
  | zero =>
      refine Attempt.reports_pure ⟨?_, tracked.processed_le⟩
      exact Nat.add_le_add_left Option.length_toList_le _
  | succ bound induction =>
      rw [finish]
      refine tracked.reports_turn.bind ?_
      rintro next later ⟨kept, other, count, stopped⟩
      by_cases idle : next.isIdle = true
      · rw [if_pos idle]
        have ended : next.current = none := by
          rw [isIdle, Bool.and_eq_true, Option.isNone_iff_eq_none] at idle
          exact idle.1
        exact Attempt.reports_pure (kept.completes idle (stopped ended))
      · rw [if_neg idle]
        refine (induction kept.swap (inFlight_swap_pos idle)).imp ?_
        intro result last answers
        cases result with
        | some stats => exact answers
        | none =>
            refine ⟨Nat.le_trans ?_ answers.1, answers.2⟩
            rw [inFlight] at busy
            show _ ≤ 2 * later.processed + bound + next.other.toList.length
            rw [count, other]
            omega

end Tracked

end Interleaving

open Interleaving in
/-- A run is complete, or it fails at its last call, or it reaches its bound. -/
theorem reports_interleave (lanes : Lanes σ ε Job Handle Output) (bound : Nat)
    (jobs : List Job) :
    (interleave lanes.recorded bound jobs).Reports []
      (fun result later => later.Answers jobs (bound + 1) result)
      (fun call later => later.FailsAt jobs call) := by
  have begun : Tracked jobs (start jobs : Interleaving Job Handle)
      ([] : LaneLog Job Handle Output) := tracked_start jobs
  by_cases empty : jobs = []
  · subst empty
    exact Attempt.reports_pure (begun.completes rfl rfl)
  · rw [interleave, if_neg (mt List.isEmpty_iff.mp empty)]
    refine (begun.reports_refill rfl).bind ?_
    rintro one later ⟨once, oneOther, oneCount, oneStopped⟩
    refine (once.swap.reports_refill oneOther).bind ?_
    rintro two last ⟨twice, twoOther, twoCount, -⟩
    have first : two.other.toList.length = 1 := by
      rw [twoOther, Option.length_toList_eq_one_iff, Option.isSome_iff_ne_none]
      intro idle
      have waiting : pushJobs jobs [] = [] := (oneStopped idle).1
      simp [pushJobs, empty] at waiting
    refine (twice.swap.reports_finish bound ?_).imp ?_
    · show 0 < two.other.toList.length + _
      omega
    · intro result final answers
      cases result with
      | some stats => exact answers
      | none =>
          refine ⟨Nat.le_trans ?_ answers.1, answers.2⟩
          show _ ≤ 2 * last.processed + bound + two.other.toList.length
          omega

/-! ## Bounds -/

namespace Attempt

/-- Wherever one attempt has an answer or fails, another one does the same. -/
def Settles (attempt other : Attempt σ ε (Option β)) : Prop :=
  ∀ (state : σ) (outcome : Except ε (Option β)) (reached : σ),
    outcome ≠ .ok none → attempt state = (outcome, reached) →
      other state = (outcome, reached)

theorem Settles.bind {attempt : Attempt σ ε γ} {next other : γ → Attempt σ ε (Option β)}
    (settles : ∀ value, Settles (next value) (other value)) :
    Settles (attempt >>= next) (attempt >>= other) := by
  intro state outcome reached answer ended
  rcases attempted : attempt state with ⟨error | value, between⟩
  · rw [bind_apply_error attempted] at ended ⊢
    exact ended
  · rw [bind_apply_ok attempted] at ended ⊢
    exact settles value between outcome reached answer ended

theorem settles_none (other : Attempt σ ε (Option β)) : Settles (pure none) other := by
  rintro state outcome reached answer ended
  cases ended
  exact absurd rfl answer

end Attempt

/-- A larger bound does not change how turns end. -/
theorem Interleaving.settles_finish (lanes : Lanes σ ε Job Handle Output)
    (run : Interleaving Job Handle) {bound more : Nat} (atMost : bound ≤ more) :
    Attempt.Settles (run.finish lanes bound) (run.finish lanes more) := by
  induction bound generalizing run more with
  | zero => exact Attempt.settles_none _
  | succ bound induction =>
      obtain ⟨more, rfl⟩ :=
        Nat.exists_eq_add_of_le' (Nat.le_trans (Nat.le_add_left 1 bound) atMost)
      rw [finish, finish]
      refine Attempt.Settles.bind fun next => ?_
      cases next.isIdle with
      | true => exact fun _ _ _ _ ended => ended
      | false => exact induction next.swap (Nat.le_of_succ_le_succ atMost)

/-- A larger bound does not change how a run ends. -/
theorem settles_interleave (lanes : Lanes σ ε Job Handle Output) (jobs : List Job)
    {bound more : Nat} (atMost : bound ≤ more) :
    Attempt.Settles (interleave lanes bound jobs) (interleave lanes more jobs) := by
  rw [interleave, interleave]
  cases jobs.isEmpty with
  | true => exact fun _ _ _ _ ended => ended
  | false =>
      exact .bind fun one => .bind fun two =>
        Interleaving.settles_finish lanes two.swap atMost

theorem runsTo_of_recorded {lanes : Lanes σ ε Job Handle Output} {bound : Nat}
    {jobs : List Job} {state reached : σ} {outcome : Except ε (Option RunStats)}
    {trace : LaneTrace ε Job Handle Output}
    (ran : interleave lanes.recorded bound jobs (state, []) =
      (outcome, (reached, trace))) :
    lanes.RunsTo bound jobs state outcome reached trace := by
  have visible := lanes.projects_recorded.interleave bound jobs (state, [])
  rw [ran] at visible
  exact ⟨visible, ran⟩

/-- What a run comes to it comes to within every larger bound. -/
theorem Lanes.RunsTo.of_le {lanes : Lanes σ ε Job Handle Output} {bound more : Nat}
    {jobs : List Job} {state reached : σ} {outcome : Except ε (Option RunStats)}
    {trace : LaneTrace ε Job Handle Output}
    (runs : lanes.RunsTo bound jobs state outcome reached trace)
    (answer : outcome ≠ .ok none) (atMost : bound ≤ more) :
    lanes.RunsTo more jobs state outcome reached trace :=
  ⟨settles_interleave lanes jobs atMost state outcome reached answer runs.1,
    settles_interleave lanes.recorded jobs atMost (state, []) outcome _ answer runs.2⟩

/-- Within a bound a run fails, is complete, or has reached the bound. -/
theorem exists_runsTo (lanes : Lanes σ ε Job Handle Output) (bound : Nat)
    (jobs : List Job) (state : σ) :
    (∃ (log : LaneLog Job Handle Output) (call : FailedCall ε Job Handle Output)
        (reached : σ),
      lanes.RunsTo bound jobs state (.error call.error) reached
          (log.trace ++ [.failure call]) ∧
        log.FailsAt jobs call) ∨
    (∃ (log : LaneLog Job Handle Output) (stats : RunStats) (reached : σ),
      lanes.RunsTo bound jobs state (.ok (some stats)) reached log.trace ∧
        log.Completes jobs stats) ∨
    ∃ (log : LaneLog Job Handle Output) (reached : σ),
      lanes.RunsTo bound jobs state (.ok none) reached log.trace ∧
        bound ≤ 2 * log.processed ∧
        log.processed ≤ jobs.length + log.requested.length := by
  rcases reports_interleave lanes bound jobs state with
    ⟨_ | stats, reached, log, ran, answers⟩ | ⟨call, reached, log, ran, fails⟩
  · exact Or.inr (Or.inr
      ⟨log, reached, runsTo_of_recorded ran, Nat.le_of_succ_le_succ answers.1,
        answers.2⟩)
  · exact Or.inr (Or.inl ⟨log, stats, reached, runsTo_of_recorded ran, answers⟩)
  · exact Or.inl ⟨log, call, reached, runsTo_of_recorded ran, fails⟩

namespace Lanes

variable {lanes : Lanes σ ε Job Handle Output} {jobs : List Job} {state : σ}

/-- A run within a bound comes to one end. -/
theorem RunsTo.unique {bound : Nat} {reached other : σ}
    {outcome another : Except ε (Option RunStats)}
    {trace events : LaneTrace ε Job Handle Output}
    (runs : lanes.RunsTo bound jobs state outcome reached trace)
    (again : lanes.RunsTo bound jobs state another other events) :
    outcome = another ∧ trace = events := by
  have same := runs.2.symm.trans again.2
  rw [Prod.mk.injEq, Prod.mk.injEq] at same
  exact ⟨same.1, same.2.2⟩

/-- Within bounds below another one only so many jobs are asked for. -/
theorem exists_most_requested (lanes : Lanes σ ε Job Handle Output) (jobs : List Job)
    (state : σ) (enough : Nat) :
    ∃ most, ∀ bound < enough, ∀ (result : Option RunStats) (reached : σ)
      (log : LaneLog Job Handle Output),
      lanes.RunsTo bound jobs state (.ok result) reached log.trace →
        log.requested.length ≤ most := by
  induction enough with
  | zero => exact ⟨0, nofun⟩
  | succ enough induction =>
      rcases induction with ⟨most, atMost⟩
      by_cases succeeds : ∃ (result : Option RunStats) (reached : σ)
          (log : LaneLog Job Handle Output),
          lanes.RunsTo enough jobs state (.ok result) reached log.trace
      · rcases succeeds with ⟨result, reached, log, ran⟩
        refine ⟨max most log.requested.length, fun bound less => ?_⟩
        rcases Nat.lt_succ_iff_lt_or_eq.mp less with earlier | rfl
        · intro result reached other runs
          have earlierMost := atMost bound earlier result reached other runs
          exact Nat.le_trans earlierMost (Nat.le_max_left _ _)
        · intro result reached other runs
          have same := (runs.unique ran).2
          rw [LaneLog.trace_inj] at same
          exact same ▸ Nat.le_max_right _ _
      · refine ⟨most, fun bound less result reached log runs => ?_⟩
        rcases Nat.lt_succ_iff_lt_or_eq.mp less with earlier | rfl
        · exact atMost bound earlier result reached log runs
        · exact absurd ⟨result, reached, log, runs⟩ succeeds

/-- The jobs of a run that ends make a finite forest. -/
theorem RunsTo.finiteForest {enough : Nat} {outcome : Except ε (Option RunStats)}
    {reached : σ} {trace : LaneTrace ε Job Handle Output}
    (runs : lanes.RunsTo enough jobs state outcome reached trace)
    (answer : outcome ≠ .ok none) : lanes.FiniteForest jobs state := by
  rcases exists_most_requested lanes jobs state (enough + 1) with ⟨most, atMost⟩
  refine ⟨most, fun bound result other log ran => ?_⟩
  rcases Nat.lt_or_ge bound (enough + 1) with less | more
  · exact atMost bound less result other log ran
  · rcases (runs.of_le answer (Nat.le_of_succ_le more)).unique ran with ⟨rfl, rfl⟩
    exact atMost enough enough.lt_succ_self result reached log runs

/-- Lanes that keep the protocol make a finite forest of the one of their jobs. -/
theorem Follows.finiteForest {followUps : Job → List Job}
    {holds : Side → LaneStatus Job Handle Output → σ → Prop} {all : List Job}
    (follows : lanes.Follows followUps holds)
    (idle : ∀ side, holds side (.idle []) state)
    (generated : Generates followUps jobs all) : lanes.FiniteForest jobs state := by
  have ends : ∀ reached,
      interleave lanes (2 * all.length) jobs state ≠ (.ok none, reached) := fun reached =>
    interleave_ne_none follows idle generated (Nat.le_refl _)
  rcases exists_runsTo lanes (2 * all.length) jobs state with
    ⟨log, call, reached, ran, -⟩ | ⟨log, stats, reached, ran, -⟩ |
    ⟨log, reached, ran, -⟩
  · exact ran.finiteForest nofun
  · exact ran.finiteForest nofun
  · exact absurd ran.1 (ends reached)

/-- A run that never fails is complete in the end if its jobs make a finite forest. -/
theorem NeverFails.completes (succeeds : lanes.NeverFails jobs state)
    (finite : lanes.FiniteForest jobs state) :
    ∃ (log : LaneLog Job Handle Output) (stats : RunStats) (reached : σ)
      (enough : Nat),
      (∀ bound, enough ≤ bound →
        lanes.RunsTo bound jobs state (.ok (some stats)) reached log.trace) ∧
        log.Completes jobs stats := by
  rcases finite with ⟨most, atMost⟩
  -- Within this bound a run would process more jobs than can become known.
  rcases exists_runsTo lanes (2 * (jobs.length + most) + 1) jobs state with
    ⟨log, call, reached, ran, -⟩ | ⟨log, stats, reached, ran, completes⟩ |
    ⟨log, reached, ran, least, known⟩
  · rcases succeeds (2 * (jobs.length + most) + 1) with ⟨result, other, last, again⟩
    cases (ran.unique again).1
  · exact ⟨log, stats, reached, _, fun bound atMost => ran.of_le nofun atMost,
      completes⟩
  · have := atMost _ none reached log ran
    omega

end Lanes

/--
A run on lanes of any kind fails at the first call that fails: no call comes after it,
its error is the answer, whatever was processed before was processed in whole rounds,
and only the other lane may have a submission outstanding.  If no call fails, the run
answers its counts, having processed every job that became known, if and only if its
jobs make a finite forest.  They do so if the lanes keep the protocol and the jobs that
jobs ask for make one.
-/
theorem interleave_stops_at_first_failure (lanes : Lanes σ ε Job Handle Output)
    (jobs : List Job) (state : σ) :
    ((∃ (log : LaneLog Job Handle Output) (call : FailedCall ε Job Handle Output)
        (reached : σ) (enough : Nat),
      (∀ bound, enough ≤ bound →
        lanes.RunsTo bound jobs state (.error call.error) reached
          (log.trace ++ [.failure call])) ∧
        log.FailsAt jobs call) ∨
      lanes.NeverFails jobs state ∧
        (lanes.FiniteForest jobs state ↔
          ∃ (log : LaneLog Job Handle Output) (stats : RunStats) (reached : σ)
            (enough : Nat),
            (∀ bound, enough ≤ bound →
              lanes.RunsTo bound jobs state (.ok (some stats)) reached log.trace) ∧
              log.Completes jobs stats)) ∧
      ∀ (followUps : Job → List Job)
        (holds : Side → LaneStatus Job Handle Output → σ → Prop) (all : List Job),
        lanes.Follows followUps holds → (∀ side, holds side (.idle []) state) →
          Generates followUps jobs all → lanes.FiniteForest jobs state := by
  constructor
  · by_cases succeeds : lanes.NeverFails jobs state
    · refine Or.inr ⟨succeeds, succeeds.completes, ?_⟩
      rintro ⟨log, stats, reached, enough, ran, -⟩
      exact (ran enough (Nat.le_refl enough)).finiteForest nofun
    · rw [Lanes.NeverFails, not_forall] at succeeds
      rcases succeeds with ⟨enough, fails⟩
      rcases exists_runsTo lanes enough jobs state with
        ⟨log, call, reached, ran, failsAt⟩ | ⟨log, stats, reached, ran, -⟩ |
        ⟨log, reached, ran, -⟩
      · exact Or.inl ⟨log, call, reached, enough,
          fun bound atMost => ran.of_le nofun atMost, failsAt⟩
      · exact absurd ⟨some stats, reached, log, ran⟩ fails
      · exact absurd ⟨none, reached, log, ran⟩ fails
  · intro followUps holds all follows idle generated
    exact follows.finiteForest idle generated

/-- Counting down from one is complete in the end. -/
theorem countdown_completes :
    countdownLanes.NeverFails [1] 0 ∧
      ∃ (log : LaneLog Nat Nat Nat) (stats : RunStats) (reached enough : Nat),
        (∀ bound, enough ≤ bound →
          countdownLanes.RunsTo bound [1] 0 (.ok (some stats)) reached log.trace) ∧
          log.Completes [1] stats := by
  have generated : Generates (fun job => List.replicate job (job - 1)) [1] [1, 0] :=
    .of_followUps <| .of_followUps .nil
  rcases interleave_stops_at_first_failure countdownLanes [1] 0 with
    ⟨⟨log, call, -⟩ | ⟨succeeds, completes⟩, finite⟩
  · exact call.error.elim
  · exact ⟨succeeds, completes.mp
      (finite _ CountdownHolds _ countdown_follows (fun _ => trivial) generated)⟩

/-! ## Endless lanes -/

/-- Lanes that count results; every job asks for itself again. -/
def endlessLanes : Lanes Nat Empty Nat Nat Nat where
  enqueue _ job := pure job
  wait _ handle := pure handle
  process _ output := fun count => (.ok [output], count + 1)

theorem endless_follows : endlessLanes.Follows (fun job => [job]) CountdownHolds :=
  Lanes.follows_of_pure (fun _ _ => rfl) (fun _ _ => rfl) fun _ _ _ => rfl

/-- A job that asks for itself is in no finite forest. -/
theorem Generates.not_mem_followUps {followUps : Job → List Job} {job : Job}
    {jobs all : List Job} (generated : Generates followUps jobs all)
    (member : job ∈ jobs) : job ∉ followUps job := by
  induction generated with
  | nil => cases member
  | cons _ _ below rest =>
      rcases List.mem_cons.mp member with rfl | later
      · exact fun self => below self self
      · exact rest later

/-- If a job asks for itself for ever, no call fails, and the run does not end. -/
theorem endless_lanes_do_not_end :
    endlessLanes.NeverFails [0] 0 ∧
      ∀ bound, ∃ reached, interleave endlessLanes bound [0] 0 = (.ok none, reached) := by
  have succeeds : endlessLanes.NeverFails [0] 0 := by
    intro bound
    rcases exists_runsTo endlessLanes bound [0] 0 with
      ⟨log, call, -⟩ | ⟨log, stats, reached, ran, -⟩ | ⟨log, reached, ran, -⟩
    · exact call.error.elim
    · exact ⟨some stats, reached, log, ran⟩
    · exact ⟨none, reached, log, ran⟩
  refine ⟨succeeds, fun bound => ?_⟩
  rcases succeeds bound with ⟨_ | stats, reached, log, ran⟩
  · exact ⟨reached, ran.1⟩
  · rcases exists_forest_of_interleave endless_follows (fun _ => trivial) ran.1 with
      ⟨all, generated, -⟩
    exact absurd List.mem_cons_self (generated.not_mem_followUps List.mem_cons_self)

end SolidField
