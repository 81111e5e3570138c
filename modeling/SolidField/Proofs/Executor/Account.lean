import SolidField.Proofs.Executor.Turn

/-!
# Accounts of a run

Between two turns every job that is known has been processed, is submitted, or
waits.  The accounts of both lanes say which, and a complete run has processed
the whole forest of its initial jobs.  Lanes that never refuse a call complete
their run.
-/

namespace SolidField

variable {σ ε Job Handle Output : Type}

/-- What a lane has processed, and what it has submitted. -/
structure LaneAccount (Job Handle : Type) where
  processed : List Job
  submission : Option (Job × Handle)

namespace LaneAccount

def status : LaneAccount Job Handle → LaneStatus Job Handle Output
  | ⟨processed, none⟩ => .idle processed
  | ⟨processed, some (job, handle)⟩ => .submitted processed job handle

/-- The job that is submitted, if any. -/
def pending (account : LaneAccount Job Handle) : List Job :=
  account.submission.toList.map Prod.fst

variable {account : LaneAccount Job Handle} {job : Job} {handle : Handle}

theorem status_of_idle (idle : account.submission = none) :
    account.status = (.idle account.processed : LaneStatus Job Handle Output) := by
  cases account
  cases idle
  rfl

theorem pending_of_idle (idle : account.submission = none) :
    account.pending = [] := by
  rw [pending, idle, Option.toList_none, List.map_nil]

theorem status_of_submission (submission : account.submission = some (job, handle)) :
    account.status =
      (.submitted account.processed job handle : LaneStatus Job Handle Output) := by
  cases account
  cases submission
  rfl

theorem pending_of_submission
    (submission : account.submission = some (job, handle)) :
    account.pending = [job] := by
  rw [pending, submission, Option.toList_some, List.map_cons, List.map_nil]

theorem length_pending_le (account : LaneAccount Job Handle) :
    account.pending.length ≤ 1 := by
  rcases account with ⟨processed, _ | pair⟩
  · exact Nat.zero_le 1
  · exact Nat.le_refl 1

end LaneAccount

namespace Interleaving

/-- The accounts of the lane whose turn it is and of the other one. -/
structure Accounted (followUps : Job → List Job)
    (holds : Side → LaneStatus Job Handle Output → σ → Prop) (jobs : List Job)
    (run : Interleaving Job Handle) (state : σ)
    (current other : LaneAccount Job Handle) : Prop where
  currentHandle : run.current = current.submission.map Prod.snd
  otherHandle : run.other = other.submission.map Prod.snd
  currentHolds : holds run.side current.status state
  otherHolds : holds run.side.opposite other.status state
  jobsProcessed :
    run.stats.jobsProcessed = (current.processed ++ other.processed).length
  roundTrips : run.stats.roundTrips = run.stats.jobsProcessed
  /-- With a forest of the jobs that are left, that of all jobs is complete. -/
  generated : ∀ rest,
    Generates followUps (current.pending ++ (other.pending ++ run.stack)) rest →
      ∃ all, Generates followUps jobs all ∧
        (current.processed ++ other.processed ++ rest).Perm all

variable {lanes : Lanes σ ε Job Handle Output} {followUps : Job → List Job}
  {holds : Side → LaneStatus Job Handle Output → σ → Prop} {jobs : List Job}
  {run next : Interleaving Job Handle} {state reached : σ}
  {current other : LaneAccount Job Handle}

theorem accounted_start
    (idle : ∀ side, holds side (.idle []) state) :
    Accounted followUps holds jobs (start jobs) state ⟨[], none⟩ ⟨[], none⟩ where
  currentHandle := rfl
  otherHandle := rfl
  currentHolds := idle _
  otherHolds := idle _
  jobsProcessed := rfl
  roundTrips := rfl
  generated := by
    intro rest generated
    have same : (pushJobs jobs []).Perm jobs := by
      simp [pushJobs]
    rcases generated.exists_perm same with ⟨all, generated, perm⟩
    exact ⟨all, generated, perm⟩

namespace Accounted

theorem idle_iff
    (accounted : Accounted followUps holds jobs run state current other) :
    run.current = none ↔ current.submission = none := by
  rw [accounted.currentHandle, Option.map_eq_none_iff]

/-- What is true while a job of the lane is submitted. -/
theorem submitted {job : Job} {handle : Handle}
    (accounted : Accounted followUps holds jobs run state current other)
    (submission : current.submission = some (job, handle)) :
    run.current = some handle ∧
      holds run.side (.submitted current.processed job handle) state := by
  constructor
  · rw [accounted.currentHandle, submission, Option.map_some]
  · rw [← LaneAccount.status_of_submission submission]
    exact accounted.currentHolds

theorem isIdle_iff
    (accounted : Accounted followUps holds jobs run state current other) :
    run.isIdle = true ↔ current.pending.length + other.pending.length = 0 := by
  rw [isIdle, accounted.currentHandle, accounted.otherHandle]
  rcases current with ⟨_, _ | _⟩ <;> rcases other with ⟨_, _ | _⟩ <;>
    simp [LaneAccount.pending]

/-- The other lane's turn. -/
theorem swap
    (accounted : Accounted followUps holds jobs run state current other) :
    Accounted followUps holds jobs run.swap state other current where
  currentHandle := accounted.otherHandle
  otherHandle := accounted.currentHandle
  currentHolds := accounted.otherHolds
  otherHolds := by
    simpa only [Interleaving.swap, Side.opposite_opposite] using
      accounted.currentHolds
  jobsProcessed := by
    simpa only [Interleaving.swap, List.length_append, Nat.add_comm] using
      accounted.jobsProcessed
  roundTrips := accounted.roundTrips
  generated := by
    intro rest generated
    rcases generated.exists_perm (List.perm_append_comm_assoc _ _ _) with
      ⟨rest', generated, perm⟩
    rcases accounted.generated rest' generated with ⟨all, generated, complete⟩
    refine ⟨all, generated, .trans ?_ complete⟩
    exact List.perm_append_comm.append perm

/-- The jobs that are left when the submitted one is processed. -/
theorem perm_pushJobs (requested pending stack : List Job) :
    (pending ++ pushJobs requested stack).Perm
      (requested ++ (pending ++ stack)) := by
  have reversed := (List.reverse_perm requested).append_right (pending ++ stack)
  exact (List.perm_append_comm_assoc pending requested.reverse stack).trans reversed

/-- A drained lane is idle, and its job, if any, counts as processed. -/
theorem drain (follows : lanes.Follows followUps holds)
    (accounted : Accounted followUps holds jobs run state current other)
    (drained : run.drain lanes state = (.ok next, reached)) :
    ∃ account, account.submission = none ∧
      Accounted followUps holds jobs next reached account other ∧
      ∀ rest,
        Generates followUps (current.pending ++ (other.pending ++ run.stack)) rest →
          ∃ left, Generates followUps (other.pending ++ next.stack) left ∧
            left.length + current.pending.length = rest.length := by
  cases submission : current.submission with
  | none =>
      have idle := accounted.idle_iff.mpr submission
      rcases drain_eq_ok_iff.mp drained with
        ⟨-, rfl, rfl⟩ | ⟨_, _, _, _, busy, -⟩
      · rw [LaneAccount.pending_of_idle submission]
        exact ⟨current, submission, accounted, fun rest generated =>
          ⟨rest, generated, rfl⟩⟩
      · rw [idle] at busy
        cases busy
  | some pair =>
      rcases pair with ⟨job, handle⟩
      rcases accounted.submitted submission with ⟨busy, submitted⟩
      have pending := LaneAccount.pending_of_submission submission
      rcases drain_eq_ok_iff.mp drained with
        ⟨idle, -, -⟩ |
        ⟨found, output, asked, between, same, waited, processed, rfl⟩
      · rw [busy] at idle
        cases idle
      · rw [busy, Option.some.injEq] at same
        subst found
        rcases follows.wait submitted accounted.otherHolds waited with
          ⟨readBack, otherKept⟩
        rcases follows.process readBack otherKept processed with
          ⟨rfl, idle, otherHolds⟩
        have same := perm_pushJobs (followUps job) other.pending run.stack
        refine ⟨⟨current.processed ++ [job], none⟩, rfl,
          ⟨rfl, accounted.otherHandle, idle, otherHolds, ?_, ?_, ?_⟩, ?_⟩
        · have count := accounted.jobsProcessed
          simp only [RunStats.noteJob, RunStats.noteRoundTrip, count,
            List.length_append, List.length_singleton]
          omega
        · simp only [RunStats.noteJob, RunStats.noteRoundTrip,
            accounted.roundTrips]
        · intro left generated
          rcases generated.exists_perm same with ⟨rest, generated, perm⟩
          rcases accounted.generated (job :: rest)
              (by rw [pending]; exact generated.of_followUps) with
            ⟨all, generated, complete⟩
          refine ⟨all, generated, .trans ?_ complete⟩
          simp only [List.append_assoc, List.singleton_append]
          refine List.Perm.append_left _ ?_
          exact .trans ((perm.append_left other.processed).cons job)
            List.perm_middle.symm
        · intro rest generated
          rw [pending] at generated ⊢
          rcases generated.exists_followUps with ⟨below, forest, rfl⟩
          rcases forest.exists_perm same.symm with ⟨left, forest, perm⟩
          exact ⟨left, forest, by
            rw [List.length_singleton, List.length_cons, perm.length_eq]⟩

/-- An idle lane takes a job, if any waits. -/
theorem refill (follows : lanes.Follows followUps holds)
    (accounted : Accounted followUps holds jobs run state current other)
    (idle : current.submission = none)
    (refilled : run.refill lanes state = (.ok next, reached)) :
    ∃ account, Accounted followUps holds jobs next reached account other ∧
      ∀ rest, Generates followUps (other.pending ++ run.stack) rest →
        ∃ left,
          Generates followUps
            (account.pending ++ (other.pending ++ next.stack)) left ∧
          left.length = rest.length := by
  have none := LaneAccount.pending_of_idle idle
  have idleHolds := accounted.currentHolds
  rw [LaneAccount.status_of_idle idle] at idleHolds
  rcases refill_eq_ok_iff.mp refilled with
    ⟨-, rfl, rfl⟩ | ⟨job, stack, handle, waiting, submitted, rfl⟩
  · refine ⟨current, accounted, fun rest generated => ⟨rest, ?_, rfl⟩⟩
    rwa [none]
  · have same : (job :: (other.pending ++ stack)).Perm
        (other.pending ++ job :: stack) := List.perm_middle.symm
    rcases follows.enqueue idleHolds accounted.otherHolds submitted with
      ⟨currentHolds, otherHolds⟩
    refine ⟨⟨current.processed, some (job, handle)⟩,
      ⟨rfl, accounted.otherHandle, currentHolds, otherHolds,
        accounted.jobsProcessed, accounted.roundTrips, ?_⟩, ?_⟩
    · intro rest generated
      rcases generated.exists_perm same with ⟨rest', generated, perm⟩
      rcases accounted.generated rest' (by rw [none, waiting]; exact generated) with
        ⟨all, generated, complete⟩
      exact ⟨all, generated, (perm.append_left _).trans complete⟩
    · intro rest generated
      rw [waiting] at generated
      rcases generated.exists_perm same.symm with ⟨left, generated, perm⟩
      exact ⟨left, generated, perm.length_eq.symm⟩

/-- A turn keeps accounts; what is left shrinks by the job that it processes. -/
theorem turn (follows : lanes.Follows followUps holds)
    (accounted : Accounted followUps holds jobs run state current other)
    (turned : run.turn lanes state = (.ok next, reached)) :
    ∃ account, Accounted followUps holds jobs next reached account other ∧
      ∀ rest,
        Generates followUps (current.pending ++ (other.pending ++ run.stack)) rest →
          ∃ left,
            Generates followUps
              (account.pending ++ (other.pending ++ next.stack)) left ∧
            left.length + current.pending.length = rest.length := by
  rcases Attempt.bind_apply_eq_ok_iff.mp turned with
    ⟨middle, between, drained, refilled⟩
  rcases accounted.drain follows drained with
    ⟨middleAccount, idle, accounted, shrinks⟩
  rcases accounted.refill follows idle refilled with
    ⟨account, accounted, keeps⟩
  refine ⟨account, accounted, fun rest generated => ?_⟩
  rcases shrinks rest generated with ⟨between, generated, count⟩
  rcases keeps between generated with ⟨left, generated, same⟩
  exact ⟨left, generated, same ▸ count⟩

/-! ## Termination -/

theorem exists_drain (follows : lanes.Follows followUps holds)
    (succeeds : lanes.Succeeds holds)
    (accounted : Accounted followUps holds jobs run state current other) :
    ∃ next reached, run.drain lanes state = (.ok next, reached) := by
  cases submission : current.submission with
  | none =>
      exact ⟨run, state, drain_eq_ok_iff.mpr
        (Or.inl ⟨accounted.idle_iff.mpr submission, rfl, rfl⟩)⟩
  | some pair =>
      rcases pair with ⟨job, handle⟩
      rcases accounted.submitted submission with ⟨busy, submitted⟩
      rcases succeeds.wait submitted with ⟨output, between, waited⟩
      have readBack := (follows.wait submitted accounted.otherHolds waited).1
      rcases succeeds.process readBack with ⟨asked, reached, processed⟩
      exact ⟨_, reached, drain_eq_ok_iff.mpr (Or.inr
        ⟨handle, output, asked, between, busy, waited, processed, rfl⟩)⟩

theorem exists_refill (succeeds : lanes.Succeeds holds)
    (accounted : Accounted followUps holds jobs run state current other)
    (idle : current.submission = none) :
    ∃ next reached, run.refill lanes state = (.ok next, reached) := by
  cases waiting : run.stack with
  | nil =>
      exact ⟨run, state, refill_eq_ok_iff.mpr (Or.inl ⟨waiting, rfl, rfl⟩)⟩
  | cons job stack =>
      have idleHolds := accounted.currentHolds
      rw [LaneAccount.status_of_idle idle] at idleHolds
      rcases succeeds.enqueue job idleHolds with ⟨handle, reached, submitted⟩
      exact ⟨_, reached, refill_eq_ok_iff.mpr
        (Or.inr ⟨job, stack, handle, waiting, submitted, rfl⟩)⟩

/-- Lanes that never refuse a call take every turn. -/
theorem exists_turn (follows : lanes.Follows followUps holds)
    (succeeds : lanes.Succeeds holds)
    (accounted : Accounted followUps holds jobs run state current other) :
    ∃ next reached, run.turn lanes state = (.ok next, reached) := by
  rcases accounted.exists_drain follows succeeds with
    ⟨middle, between, drained⟩
  rcases accounted.drain follows drained with ⟨account, idle, kept, -⟩
  rcases kept.exists_refill succeeds idle with ⟨next, reached, refilled⟩
  exact ⟨next, reached,
    Attempt.bind_apply_eq_ok_iff.mpr ⟨middle, between, drained, refilled⟩⟩

/-- Lanes that never refuse a call take every turn of a run. -/
theorem exists_finish (follows : lanes.Follows followUps holds)
    (succeeds : lanes.Succeeds holds) (bound : Nat)
    (accounted : Accounted followUps holds jobs run state current other) :
    ∃ result reached, run.finish lanes bound state = (.ok result, reached) := by
  induction bound generalizing run state current other with
  | zero => exact ⟨none, state, rfl⟩
  | succ bound induction =>
      rcases accounted.exists_turn follows succeeds with
        ⟨next, between, turned⟩
      rcases accounted.turn follows turned with ⟨account, kept, -⟩
      rw [finish, Attempt.bind_apply_ok turned]
      by_cases idle : next.isIdle = true
      · rw [if_pos idle]
        exact ⟨some next.stats, between, rfl⟩
      · rw [if_neg idle]
        exact induction kept.swap

/--
A run with a finite forest left ends before its bound.  Every turn processes a job
or finds its lane idle, and an idle lane is followed by a busy one.
-/
theorem finish_ne_none (follows : lanes.Follows followUps holds) {bound : Nat}
    {rest : List Job}
    (accounted : Accounted followUps holds jobs run state current other)
    (generated : Generates followUps
      (current.pending ++ (other.pending ++ run.stack)) rest)
    (busy : 0 < current.pending.length + other.pending.length)
    (enough : 2 * rest.length + 1 ≤ bound + current.pending.length) :
    run.finish lanes bound state ≠ (.ok none, reached) := by
  intro ran
  induction bound generalizing run state current other rest with
  | zero =>
      have least := generated.length_le
      have := current.length_pending_le
      simp only [List.length_append] at least
      omega
  | succ bound induction =>
      rw [finish] at ran
      rcases Attempt.bind_apply_eq_ok_iff.mp ran with
        ⟨next, between, turned, ended⟩
      rcases accounted.turn follows turned with ⟨account, kept, shrinks⟩
      rcases shrinks rest generated with ⟨left, generated, count⟩
      by_cases idle : next.isIdle = true
      · rw [if_pos idle] at ended
        cases ended
      · rw [if_neg idle] at ended
        rcases generated.exists_perm (List.perm_append_comm_assoc _ _ _) with
          ⟨swapped, generated, perm⟩
        have stillBusy : 0 < other.pending.length + account.pending.length := by
          rw [kept.isIdle_iff] at idle
          omega
        refine induction kept.swap generated stillBusy ?_ ended
        have := perm.length_eq
        have := current.length_pending_le
        omega

end Accounted

end Interleaving

open Interleaving in
/-- A complete run has processed the forest of its jobs, every job once. -/
theorem exists_forest_of_interleave {lanes : Lanes σ ε Job Handle Output}
    {followUps : Job → List Job}
    {holds : Side → LaneStatus Job Handle Output → σ → Prop} {bound : Nat}
    {jobs : List Job} {state reached : σ} {stats : RunStats}
    (follows : lanes.Follows followUps holds)
    (idle : ∀ side, holds side (.idle []) state)
    (completed : interleave lanes bound jobs state = (.ok (some stats), reached)) :
    ∃ all, Generates followUps jobs all ∧
      stats.jobsProcessed = all.length ∧ stats.roundTrips = all.length ∧
      ∃ processed : Side → List Job,
        (processed .first ++ processed .second).Perm all ∧
          ∀ side, holds side (.idle (processed side)) reached := by
  have kept : ∀ run state next reached,
      (∃ current other, Accounted followUps holds jobs run state current other) →
        run.turn lanes state = (.ok next, reached) →
          ∃ current other,
            Accounted followUps holds jobs next.swap reached current other := by
    rintro run state next reached ⟨current, other, accounted⟩ turned
    rcases accounted.turn follows turned with ⟨account, accounted, -⟩
    exact ⟨other, account, accounted.swap⟩
  rcases interleave_induction kept ⟨_, _, accounted_start idle⟩ completed with
    ⟨last, ⟨current, other, accounted⟩, bothIdle, empty, rfl⟩
  rw [isIdle, Bool.and_eq_true, Option.isNone_iff_eq_none,
    Option.isNone_iff_eq_none, accounted.idle_iff] at bothIdle
  rw [← show last.swap.current = last.other from rfl, accounted.swap.idle_iff]
    at bothIdle
  rcases current with ⟨currentDone, _⟩
  rcases other with ⟨otherDone, _⟩
  rcases bothIdle with ⟨rfl, rfl⟩
  rcases accounted.generated [] (by rw [empty]; exact .nil) with
    ⟨all, generated, complete⟩
  rw [List.append_nil] at complete
  have count := accounted.jobsProcessed.trans complete.length_eq
  refine ⟨all, generated, count, accounted.roundTrips.trans count, ?_⟩
  have currentHolds := accounted.currentHolds
  have otherHolds := accounted.otherHolds
  cases side : last.side with
  | first =>
      rw [side] at currentHolds otherHolds
      refine ⟨fun side => side.casesOn currentDone otherDone, complete, ?_⟩
      rintro (_ | _)
      · exact currentHolds
      · exact otherHolds
  | second =>
      rw [side] at currentHolds otherHolds
      refine ⟨fun side => side.casesOn otherDone currentDone,
        List.perm_append_comm.trans complete, ?_⟩
      rintro (_ | _)
      · exact otherHolds
      · exact currentHolds

open Interleaving in
/-- A run on a finite forest of jobs ends before its bound. -/
theorem interleave_ne_none {lanes : Lanes σ ε Job Handle Output}
    {followUps : Job → List Job}
    {holds : Side → LaneStatus Job Handle Output → σ → Prop} {bound : Nat}
    {jobs all : List Job} {state reached : σ} (follows : lanes.Follows followUps holds)
    (idle : ∀ side, holds side (.idle []) state)
    (generated : Generates followUps jobs all) (enough : 2 * all.length ≤ bound) :
    interleave lanes bound jobs state ≠ (.ok none, reached) := by
  intro ran
  by_cases empty : jobs = []
  · subst empty
    cases ran
  · have accounted : Accounted followUps holds jobs (start jobs) state
        ⟨[], none⟩ ⟨[], none⟩ := accounted_start idle
    have same : jobs.Perm (start jobs : Interleaving Job Handle).stack := by
      simp [start, pushJobs]
    rcases generated.exists_perm same with ⟨rest, forest, perm⟩
    rcases (interleave_eq_ok_iff empty).mp ran with
      ⟨one, between, two, later, first, second, ended⟩
    rcases accounted.turn follows first with ⟨account, once, shrinks⟩
    rcases shrinks rest forest with ⟨left, forest, count⟩
    rcases once.swap.turn follows second with ⟨other, twice, keeps⟩
    have size : left.length = all.length := count.trans perm.length_eq.symm
    have busy : 0 < account.pending.length := by
      by_contra impossible
      have none : account.pending = [] :=
        List.length_eq_zero_iff.mp (Nat.eq_zero_of_not_pos impossible)
      have stack : one.stack = [] :=
        stack_of_turn first (once.isIdle_iff.mpr (by rw [none]; rfl))
      rw [none, stack] at forest
      cases forest
      have least := generated.length_le
      have positive := List.length_pos_iff.mpr empty
      rw [← size, List.length_nil] at least
      omega
    rcases forest.exists_perm (List.perm_append_comm_assoc _ _ _) with
      ⟨again, forest, sameSize⟩
    rcases keeps again forest with ⟨last, forest, kept⟩
    rcases forest.exists_perm (List.perm_append_comm_assoc _ _ _) with
      ⟨waiting, forest, lastSize⟩
    have enough : 2 * waiting.length + 1 ≤ bound + account.pending.length := by
      have := sameSize.length_eq
      have := lastSize.length_eq
      rw [LaneAccount.pending_of_idle rfl, List.length_nil] at kept
      omega
    exact twice.swap.finish_ne_none follows forest
      (Nat.lt_of_lt_of_le busy (Nat.le_add_right _ _)) enough ended

open Interleaving in
/-- A run on lanes that never refuse a call does not fail. -/
theorem exists_interleave_ok {lanes : Lanes σ ε Job Handle Output}
    {followUps : Job → List Job}
    {holds : Side → LaneStatus Job Handle Output → σ → Prop}
    {state : σ} (follows : lanes.Follows followUps holds)
    (succeeds : lanes.Succeeds holds)
    (idle : ∀ side, holds side (.idle []) state) (bound : Nat) (jobs : List Job) :
    ∃ result reached, interleave lanes bound jobs state = (.ok result, reached) := by
  by_cases empty : jobs = []
  · subst empty
    exact ⟨some .zero, state, rfl⟩
  · have accounted : Accounted followUps holds jobs (start jobs) state
        ⟨[], none⟩ ⟨[], none⟩ := accounted_start idle
    rcases accounted.exists_turn follows succeeds with ⟨one, between, first⟩
    rcases accounted.turn follows first with ⟨account, once, -⟩
    rcases once.swap.exists_turn follows succeeds with ⟨two, later, second⟩
    rcases once.swap.turn follows second with ⟨other, twice, -⟩
    rcases twice.swap.exists_finish follows succeeds bound with
      ⟨result, reached, ended⟩
    exact ⟨result, reached, (interleave_eq_ok_iff empty).mpr
      ⟨one, between, two, later, first, second, ended⟩⟩

/-- Lanes that never refuse a call complete every finite forest of jobs. -/
theorem exists_interleave {lanes : Lanes σ ε Job Handle Output}
    {followUps : Job → List Job}
    {holds : Side → LaneStatus Job Handle Output → σ → Prop} {bound : Nat}
    {jobs all : List Job} {state : σ} (follows : lanes.Follows followUps holds)
    (succeeds : lanes.Succeeds holds)
    (idle : ∀ side, holds side (.idle []) state)
    (generated : Generates followUps jobs all) (enough : 2 * all.length ≤ bound) :
    ∃ stats reached,
      interleave lanes bound jobs state = (.ok (some stats), reached) := by
  rcases exists_interleave_ok follows succeeds idle bound jobs with
    ⟨_ | stats, reached, ran⟩
  · exact absurd ran (interleave_ne_none follows idle generated enough)
  · exact ⟨stats, reached, ran⟩

end SolidField
