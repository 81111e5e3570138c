import SolidField.Proofs.Executor.Logging

/-!
# Use of both lanes

The executor waits on a lane only if the other one is busy or no job waits.  As
soon as there are two jobs to choose from, both lanes are under way at once.
-/

namespace SolidField

variable {σ ε Job Handle Output : Type}

namespace LaneLog

/-- At some time two jobs became known at once. -/
def Widens (jobs : List Job) (log : LaneLog Job Handle Output) : Prop :=
  2 ≤ jobs.length ∨ ∃ call ∈ log, 2 ≤ call.requests.length

variable {jobs : List Job} {log : LaneLog Job Handle Output}
  {call : LaneCall Job Handle Output}

theorem widens_append_iff :
    Widens jobs (log ++ [call]) ↔ Widens jobs log ∨ 2 ≤ call.requests.length := by
  simp only [Widens, List.mem_append, List.mem_singleton, or_and_right,
    exists_or, exists_eq_left, or_assoc]

theorem submitted_append :
    (log ++ [call]).submitted = log.submitted ++ call.job?.toList := by
  cases call <;>
    simp [submitted, LaneCall.job?, List.filterMap_append]

theorem requested_append :
    (log ++ [call]).requested = log.requested ++ call.requests := by
  rw [requested, List.flatMap_append, List.flatMap_singleton]
  rfl

/-- The last call of a log is the wait that matters, or an earlier one is. -/
theorem KeepsBusy.append (busy : KeepsBusy jobs log)
    (last : ∀ side handle output, call = .wait side handle output →
      IsIdle side.opposite log → NoneWaits jobs log) :
    KeepsBusy jobs (log ++ [call]) := by
  intro before side handle output after same idle
  rcases last_or_earlier same with ⟨rfl, wait⟩ | ⟨rest, earlier⟩
  · exact last side handle output wait idle
  · exact busy before side handle output rest earlier idle

end LaneLog

namespace Interleaving

/-- What a log tells about the executor between two turns. -/
structure Traced (jobs : List Job) (run : Interleaving Job Handle)
    (log : LaneLog Job Handle Output) : Prop where
  waiting :
    log.submitted.length + run.stack.length = jobs.length + log.requested.length
  current :
    log.countP (LaneCall.submits run.side) =
      log.countP (LaneCall.completes run.side) + run.current.toList.length
  other :
    log.countP (LaneCall.submits run.side.opposite) =
      log.countP (LaneCall.completes run.side.opposite) +
        run.other.toList.length
  busy : log.KeepsBusy jobs
  inFlight_le : inFlight run.current run.other ≤ run.stats.maxInFlight
  started : 0 < log.submitted.length → 1 ≤ run.stats.maxInFlight
  most : run.stats.maxInFlight ≤ 2
  narrow : ¬ log.Widens jobs →
    run.stack.length + inFlight run.current run.other ≤ 1 ∧
      run.stats.maxInFlight ≤ 1
  wide : log.Widens jobs →
    2 ≤ run.stats.maxInFlight ∨
      2 ≤ run.stack.length + inFlight run.current run.other

/-- Before a busy lane is drained, a job waits only if the other lane is busy. -/
def Fed (run : Interleaving Job Handle) : Prop :=
  run.current = none ∨ run.stack = [] ∨ run.other.isSome = true

theorem traced_start (jobs : List Job) :
    Traced jobs (start jobs : Interleaving Job Handle)
      ([] : LaneLog Job Handle Output) where
  waiting := by simp [start, pushJobs, LaneLog.submitted, LaneLog.requested]
  current := rfl
  other := rfl
  busy := by
    intro before side handle output after impossible
    simp at impossible
  inFlight_le := Nat.le_refl 0
  started := by simp [LaneLog.submitted]
  most := Nat.zero_le 2
  narrow := by
    simp only [LaneLog.Widens, start, pushJobs, inFlight, RunStats.zero,
      List.not_mem_nil, false_and, exists_false, or_false, List.length_append,
      List.length_reverse, List.length_nil, Option.toList_none]
    omega
  wide := by
    simp only [LaneLog.Widens, start, pushJobs, inFlight, List.not_mem_nil,
      false_and, exists_false, or_false, List.length_append, List.length_reverse,
      List.length_nil, Option.toList_none]
    omega

variable {lanes : Lanes σ ε Job Handle Output} {jobs : List Job}
  {run next : Interleaving Job Handle} {state reached : σ}
  {log after : LaneLog Job Handle Output}

namespace Traced

theorem swap (traced : Traced jobs run log) : Traced jobs run.swap log where
  waiting := traced.waiting
  current := traced.other
  other := by
    simpa only [Interleaving.swap, Side.opposite_opposite] using traced.current
  busy := traced.busy
  inFlight_le := by
    simpa only [Interleaving.swap, inFlight, Nat.add_comm] using traced.inFlight_le
  started := traced.started
  most := traced.most
  narrow := by
    simpa only [Interleaving.swap, inFlight, Nat.add_comm] using traced.narrow
  wide := by
    simpa only [Interleaving.swap, inFlight, Nat.add_comm] using traced.wide

theorem drain (traced : Traced jobs run log) (fed : run.Fed)
    (drained : run.drain lanes.logged (state, log) = (.ok next, (reached, after))) :
    Traced jobs next after := by
  rcases drain_eq_ok_iff.mp drained with
    ⟨idle, rfl, same⟩ |
    ⟨handle, output, asked, ⟨between, middle⟩, busy, waited, processed, rfl⟩
  · cases same
    exact traced
  · rcases Attempt.noting_eq_ok_iff.mp waited with ⟨-, rfl⟩
    rcases Attempt.noting_eq_ok_iff.mp processed with ⟨-, rfl⟩
    have waiting := traced.waiting
    have current := traced.current
    have other := traced.other
    have notOther : run.side ≠ run.side.opposite := run.side.ne_opposite
    have fed : run.stack.length = 0 ∨ run.other.toList.length = 1 := by
      rw [List.length_eq_zero_iff, Option.length_toList_eq_one_iff]
      exact fed.resolve_left (by rw [busy]; nofun)
    have ofOne : (some handle).toList.length = 1 := rfl
    have below := traced.inFlight_le
    rw [busy] at current below
    refine ⟨?_, ?_, ?_, ?_, ?_, ?_, traced.most, ?_, ?_⟩
    · simp only [LaneLog.submitted_append, LaneLog.requested_append,
        LaneCall.job?, LaneCall.requests, pushJobs, List.length_append,
        List.length_reverse, Option.toList_none, List.length_nil]
      omega
    · simp only [List.countP_append, List.countP_singleton, LaneCall.submits,
        LaneCall.completes, Bool.false_eq_true, if_false, decide_true, if_true,
        Option.toList_none, List.length_nil]
      omega
    · simp only [List.countP_append, List.countP_singleton, LaneCall.submits,
        LaneCall.completes, Bool.false_eq_true, if_false, decide_eq_true_eq,
        notOther]
      omega
    · refine LaneLog.KeepsBusy.append (traced.busy.append ?_) (by rintro _ _ _ ⟨⟩)
      rintro _ _ _ ⟨⟩ idle
      rw [LaneLog.IsIdle] at idle
      rw [LaneLog.NoneWaits]
      omega
    · simp only [inFlight, Option.toList_none, List.length_nil] at below ⊢
      exact Nat.le_trans (by omega) below
    · simp only [LaneLog.submitted_append, LaneCall.job?, Option.toList_none,
        List.append_nil]
      exact traced.started
    · rw [LaneLog.widens_append_iff, LaneLog.widens_append_iff]
      intro narrow
      have before := traced.narrow fun widens => narrow (Or.inl (Or.inl widens))
      simp only [LaneCall.requests, not_or] at narrow
      simp only [busy, inFlight, pushJobs, List.length_append,
        List.length_reverse, Option.toList_none, List.length_nil] at before ⊢
      exact ⟨by omega, before.2⟩
    · rw [LaneLog.widens_append_iff, LaneLog.widens_append_iff]
      have before := traced.wide
      simp only [busy, inFlight, LaneCall.requests, pushJobs, List.length_append,
        List.length_reverse, Option.toList_none, List.length_nil] at before below ⊢
      rintro ((widens | impossible) | asked)
      · rcases before widens with reached | waits
        · exact Or.inl reached
        · exact Or.inl (Nat.le_trans (by omega) below)
      · omega
      · omega

theorem refill (traced : Traced jobs run log) (idle : run.current = none)
    (refilled : run.refill lanes.logged (state, log) = (.ok next, (reached, after))) :
    Traced jobs next after := by
  rcases refill_eq_ok_iff.mp refilled with
    ⟨-, rfl, same⟩ | ⟨job, stack, handle, taken, submitted, rfl⟩
  · cases same
    exact traced
  · rcases Attempt.noting_eq_ok_iff.mp submitted with ⟨-, rfl⟩
    have waiting := traced.waiting
    have current := traced.current
    have other := traced.other
    have most := traced.most
    have atMost : run.other.toList.length ≤ 1 := Option.length_toList_le
    have ofOne : (some handle).toList.length = 1 := rfl
    have ofNone : (none : Option Handle).toList.length = 0 := rfl
    have notOther : run.side ≠ run.side.opposite := run.side.ne_opposite
    rw [taken, List.length_cons] at waiting
    rw [idle] at current
    refine ⟨?_, ?_, ?_, ?_, Nat.le_max_right _ _, ?_, ?_, ?_, ?_⟩
    · simp only [LaneLog.submitted_append, LaneLog.requested_append,
        LaneCall.job?, LaneCall.requests, List.length_append, Option.toList_some,
        List.length_singleton, List.append_nil]
      omega
    · simp only [List.countP_append, List.countP_singleton, LaneCall.submits,
        LaneCall.completes, Bool.false_eq_true, if_false, decide_true, if_true]
      omega
    · simp only [List.countP_append, List.countP_singleton, LaneCall.submits,
        LaneCall.completes, Bool.false_eq_true, if_false, decide_eq_true_eq,
        notOther]
      omega
    · exact traced.busy.append (by rintro _ _ _ ⟨⟩)
    · intro _
      simp only [RunStats.noteInFlight, inFlight]
      omega
    · simp only [RunStats.noteInFlight, inFlight]
      omega
    · rw [LaneLog.widens_append_iff]
      intro narrow
      have before := traced.narrow fun widens => narrow (Or.inl widens)
      rw [idle, taken, List.length_cons] at before
      simp only [RunStats.noteInFlight, inFlight] at before ⊢
      omega
    · rw [LaneLog.widens_append_iff]
      have before := traced.wide
      rw [idle, taken, List.length_cons] at before
      simp only [RunStats.noteInFlight, inFlight, LaneCall.requests,
        List.length_nil] at before ⊢
      rintro (widens | impossible)
      · have := before widens
        omega
      · omega

/-- A turn keeps what the log tells, and leaves its lane busy if a job waits. -/
theorem turn (traced : Traced jobs run log) (fed : run.Fed)
    (turned : run.turn lanes.logged (state, log) = (.ok next, (reached, after))) :
    Traced jobs next.swap after ∧ next.swap.Fed := by
  rcases Attempt.bind_apply_eq_ok_iff.mp turned with
    ⟨middle, ⟨between, log⟩, drained, refilled⟩
  refine ⟨((traced.drain fed drained).refill (current_of_drain drained)
    refilled).swap, ?_⟩
  exact Or.inr (Decidable.or_iff_not_imp_left.mpr (current_of_turn turned))

end Traced

end Interleaving

/-! ## Complete runs -/

/-- The log of a complete run shows whole rounds only. -/
theorem LaneLog.Shows.exists_rounds {followUps : Job → List Job} {side : Side}
    {processed : List Job} {log : LaneLog Job Handle Output}
    (shows : log.Shows followUps side (.idle processed)) :
    ∃ rounds : List (LaneRound Job Handle Output),
      log.on side = rounds.flatMap (LaneRound.calls side) ∧
        (∀ round ∈ rounds, round.requested = followUps round.job) ∧
          rounds.map LaneRound.job = processed := by
  rcases shows with ⟨rounds, underway, calls, rfl, jobs, asked⟩
  rw [List.append_nil] at calls
  exact ⟨rounds, calls, asked, jobs⟩

/-- A job that asks for two jobs at once is found in the log, and only there. -/
theorem LaneLog.widens_iff {followUps : Job → List Job} {jobs all : List Job}
    {log : LaneLog Job Handle Output}
    {rounds : Side → List (LaneRound Job Handle Output)}
    (calls : ∀ side, log.on side = (rounds side).flatMap (LaneRound.calls side))
    (asked : ∀ side, ∀ round ∈ rounds side, round.requested = followUps round.job)
    (complete : ∀ job, job ∈ all ↔
      ∃ side, ∃ round ∈ rounds side, round.job = job) :
    log.Widens jobs ↔
      2 ≤ jobs.length ∨ ∃ job ∈ all, 2 ≤ (followUps job).length := by
  refine or_congr Iff.rfl ⟨?_, ?_⟩
  · rintro ⟨call, member, two⟩
    have onSide : call ∈ log.on call.side :=
      List.mem_filter.mpr ⟨member, decide_eq_true rfl⟩
    rw [calls, List.mem_flatMap] at onSide
    rcases onSide with ⟨round, ofRound, here⟩
    refine ⟨round.job, (complete _).mpr ⟨_, round, ofRound, rfl⟩, ?_⟩
    rw [← asked _ round ofRound]
    simp only [LaneRound.calls, List.mem_cons, List.not_mem_nil, or_false] at here
    rcases here with same | same | same <;> rw [same] at two
    · cases two
    · cases two
    · exact two
  · rintro ⟨job, member, two⟩
    rcases (complete job).mp member with ⟨side, round, ofRound, rfl⟩
    have onSide : .process side round.output round.requested ∈ log.on side := by
      rw [calls, List.mem_flatMap]
      exact ⟨round, ofRound, by simp [LaneRound.calls]⟩
    refine ⟨_, (List.mem_filter.mp onSide).1, ?_⟩
    rwa [LaneCall.requests, asked side round ofRound]

/-- The log of a complete run, and how many submissions were under way at once. -/
theorem keepsBusy_of_interleave {lanes : Lanes σ ε Job Handle Output} {bound : Nat}
    {jobs : List Job} {state reached : σ} {log : LaneLog Job Handle Output}
    {stats : RunStats}
    (completed : interleave lanes.logged bound jobs (state, []) =
      (.ok (some stats), (reached, log))) :
    LaneLog.KeepsBusy jobs log ∧
      (log.Widens jobs → stats.maxInFlight = 2) ∧
        (¬ log.Widens jobs → jobs ≠ [] → stats.maxInFlight = 1) := by
  have kept : ∀ (run : Interleaving Job Handle)
      (state : σ × LaneLog Job Handle Output) next reached,
      (run.Traced jobs state.2 ∧ run.Fed) →
        run.turn lanes.logged state = (.ok next, reached) →
          next.swap.Traced jobs reached.2 ∧ next.swap.Fed :=
    fun run state next reached kept turned => kept.1.turn kept.2 turned
  rcases interleave_induction kept
      ⟨Interleaving.traced_start jobs, Or.inl rfl⟩ completed with
    ⟨last, ⟨traced, -⟩, idle, empty, rfl⟩
  have none : last.stack.length + inFlight last.current last.other = 0 := by
    rw [Interleaving.isIdle, Bool.and_eq_true, Option.isNone_iff_eq_none,
      Option.isNone_iff_eq_none] at idle
    rw [empty, idle.1, idle.2]
    rfl
  refine ⟨traced.busy, fun widens => ?_, fun narrow nonempty => ?_⟩
  · have := traced.wide widens
    have := traced.most
    omega
  · have := (traced.narrow narrow).2
    have := traced.waiting
    have := traced.started
    have := List.length_pos_iff.mpr nonempty
    simp only at *
    omega

/-- The number of submissions under way at once at most. -/
def mostInFlight (followUps : Job → List Job) (jobs all : List Job) : Nat :=
  if jobs.isEmpty then 0
  else if jobs.length = 1 ∧ ∀ job ∈ all, (followUps job).length ≤ 1 then 1
  else 2

/--
A run on lanes that never refuse a call processes the finite forest of its jobs.
The calls on a lane are whole rounds, one after the other: a job is submitted,
its own submission is read back, and what was read back is processed.  There is
one round for every job.  No wait on a lane keeps a job waiting while the other
lane is idle, and both lanes are under way at once as soon as that is possible.
-/
theorem interleave_processes_every_job_once
    {lanes : Lanes σ ε Job Handle Output} {followUps : Job → List Job}
    {holds : Side → LaneStatus Job Handle Output → σ → Prop} {bound : Nat}
    {jobs all : List Job} {state : σ} (follows : lanes.Follows followUps holds)
    (succeeds : lanes.Succeeds holds)
    (idle : ∀ side, holds side (.idle []) state)
    (generated : Generates followUps jobs all) (enough : 2 * all.length ≤ bound) :
    ∃ (stats : RunStats) (reached : σ) (log : LaneLog Job Handle Output),
      interleave lanes bound jobs state = (.ok (some stats), reached) ∧
      interleave lanes.logged bound jobs (state, []) =
        (.ok (some stats), (reached, log)) ∧
      (∃ rounds : Side → List (LaneRound Job Handle Output),
        (∀ side, log.on side = (rounds side).flatMap (LaneRound.calls side)) ∧
        (∀ side, ∀ round ∈ rounds side,
          round.requested = followUps round.job) ∧
        ((rounds .first ++ rounds .second).map LaneRound.job).Perm all) ∧
      log.KeepsBusy jobs ∧
      stats.jobsProcessed = all.length ∧
      stats.roundTrips = all.length ∧
      stats.maxInFlight = mostInFlight followUps jobs all := by
  have loggedIdle : ∀ side,
      Lanes.LoggedHolds followUps holds side (.idle []) (state, []) :=
    fun side => ⟨idle side, [], [], rfl, rfl, rfl, nofun⟩
  rcases exists_interleave follows.logged succeeds.logged loggedIdle generated
      enough with
    ⟨stats, ⟨reached, log⟩, completed⟩
  have visible := projects_interleave lanes bound jobs (state, [])
  rw [completed] at visible
  rcases exists_forest_of_interleave follows.logged loggedIdle completed with
    ⟨forest, again, jobsProcessed, roundTrips, processed, perm, shows⟩
  obtain rfl := generated.unique again
  choose rounds calls asked done using fun side => (shows side).2.exists_rounds
  have complete : ((rounds .first ++ rounds .second).map LaneRound.job).Perm all := by
    rwa [List.map_append, done, done]
  have members : ∀ job, job ∈ all ↔ ∃ side, ∃ round ∈ rounds side, round.job = job := by
    intro job
    rw [← complete.mem_iff, List.mem_map]
    constructor
    · rintro ⟨round, member, rfl⟩
      rcases List.mem_append.mp member with first | second
      · exact ⟨.first, round, first, rfl⟩
      · exact ⟨.second, round, second, rfl⟩
    · rintro ⟨_ | _, round, member, rfl⟩
      · exact ⟨round, List.mem_append_left _ member, rfl⟩
      · exact ⟨round, List.mem_append_right _ member, rfl⟩
  rcases keepsBusy_of_interleave completed with ⟨busy, wide, narrow⟩
  rw [LaneLog.widens_iff calls asked members] at wide narrow
  refine ⟨stats, reached, log, visible, completed, ⟨rounds, calls, asked, complete⟩,
    busy, jobsProcessed, roundTrips, ?_⟩
  rw [mostInFlight]
  split
  · next empty =>
      obtain rfl := List.isEmpty_iff.mp empty
      cases completed
      rfl
  · next nonempty =>
      have nonempty := mt List.isEmpty_iff.mpr nonempty
      split
      · next narrowly =>
          refine narrow ?_ nonempty
          rintro (more | ⟨job, member, two⟩)
          · omega
          · have := narrowly.2 job member
            omega
      · next widely =>
          have positive := List.length_pos_iff.mpr nonempty
          apply wide
          by_contra narrowly
          push Not at narrowly
          refine widely ⟨by omega, fun job member => ?_⟩
          have := narrowly.2 job member
          omega

/-- Lanes that count results; a number asks for that many of the one below. -/
def countdownLanes : Lanes Nat Empty Nat Nat Nat where
  enqueue _ job := pure job
  wait _ handle := pure handle
  process _ output := fun count =>
    (.ok (List.replicate output (output - 1)), count + 1)

/-- A number is its own handle and its own read-back. -/
def CountdownHolds (_ : Side) (status : LaneStatus Nat Nat Nat) (_ : Nat) : Prop :=
  match status with
  | .idle _ => True
  | .submitted _ job handle => handle = job
  | .readBack _ job output => output = job

/-- Lanes on which a number stands for itself keep the protocol. -/
theorem Lanes.follows_of_pure {lanes : Lanes Nat Empty Nat Nat Nat}
    {followUps : Nat → List Nat}
    (enqueue : ∀ side job, lanes.enqueue side job = pure job)
    (wait : ∀ side handle, lanes.wait side handle = pure handle)
    (process : ∀ side output count,
      lanes.process side output count = (.ok (followUps output), count + 1)) :
    lanes.Follows followUps CountdownHolds where
  enqueue := by
    intro side processed job handle other state reached idle otherHolds called
    rw [enqueue] at called
    cases called
    exact ⟨rfl, otherHolds⟩
  wait := by
    rintro side processed job handle output other state reached rfl otherHolds called
    rw [wait] at called
    cases called
    exact ⟨rfl, otherHolds⟩
  process := by
    rintro side processed job output jobs other state reached rfl otherHolds called
    rw [process] at called
    cases called
    exact ⟨rfl, trivial, otherHolds⟩

theorem countdown_follows :
    countdownLanes.Follows (fun job => List.replicate job (job - 1)) CountdownHolds :=
  Lanes.follows_of_pure (fun _ _ => rfl) (fun _ _ => rfl) fun _ _ _ => rfl

theorem countdown_succeeds : countdownLanes.Succeeds CountdownHolds where
  enqueue := fun job _ => ⟨job, _, rfl⟩
  wait := fun _ => ⟨_, _, rfl⟩
  process := fun _ => ⟨_, _, rfl⟩

/-- Counting down from two and one takes seven jobs and both lanes. -/
theorem countdown_processes_every_job_once :
    ∃ (stats : RunStats) (reached : Nat) (log : LaneLog Nat Nat Nat),
      interleave countdownLanes 14 [2, 1] 0 = (.ok (some stats), reached) ∧
      interleave countdownLanes.logged 14 [2, 1] (0, []) =
        (.ok (some stats), (reached, log)) ∧
      (∃ rounds : Side → List (LaneRound Nat Nat Nat),
        (∀ side, log.on side = (rounds side).flatMap (LaneRound.calls side)) ∧
        (∀ side, ∀ round ∈ rounds side,
          round.requested = List.replicate round.job (round.job - 1)) ∧
        ((rounds .first ++ rounds .second).map LaneRound.job).Perm
          [2, 1, 0, 1, 0, 1, 0]) ∧
      log.KeepsBusy [2, 1] ∧
      stats.jobsProcessed = 7 ∧
      stats.roundTrips = 7 ∧
      stats.maxInFlight = 2 := by
  have generated : Generates (fun job => List.replicate job (job - 1))
      [2, 1] [2, 1, 0, 1, 0, 1, 0] :=
    .of_followUps <| .of_followUps <| .of_followUps <| .of_followUps <|
      .of_followUps <| .of_followUps <| .of_followUps .nil
  exact interleave_processes_every_job_once countdown_follows countdown_succeeds
    (fun _ => trivial) generated (Nat.le_refl 14)

end SolidField
