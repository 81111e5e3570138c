import Mathlib.Data.List.Perm.Basic
import SolidField.Executor.Protocol

/-!
# Turns of the executor

Everything that one turn can do, and what follows from it for a whole run: a
property that every turn keeps holds when a run is complete.
-/

universe u

namespace SolidField

/-! ## Forests -/

namespace Generates

variable {Job : Type u} {followUps : Job → List Job}

theorem append {jobs others all rest : List Job}
    (first : Generates followUps jobs all)
    (second : Generates followUps others rest) :
    Generates followUps (jobs ++ others) (all ++ rest) := by
  induction first with
  | nil => exact second
  | cons below rest _ induction =>
      rw [List.cons_append, List.cons_append, List.append_assoc]
      exact .cons below induction

/-- The forest of two lists is a forest of one and a forest of the other. -/
theorem exists_append {jobs others all : List Job}
    (generated : Generates followUps (jobs ++ others) all) :
    ∃ first second, Generates followUps jobs first ∧
      Generates followUps others second ∧ all = first ++ second := by
  induction jobs generalizing all with
  | nil => exact ⟨[], all, .nil, generated, rfl⟩
  | cons job jobs induction =>
      cases generated with
      | cons below rest =>
          rcases induction rest with ⟨first, second, left, right, rfl⟩
          exact ⟨_, second, .cons below left, right, by simp⟩

/-- The order of the jobs decides no more than the order of the forest. -/
theorem exists_perm {jobs others all : List Job}
    (generated : Generates followUps jobs all) (same : jobs.Perm others) :
    ∃ rest, Generates followUps others rest ∧ all.Perm rest := by
  induction same generalizing all with
  | nil => exact ⟨all, generated, .refl all⟩
  | cons job _ induction =>
      cases generated with
      | cons below rest =>
          rcases induction rest with ⟨others, generated, same⟩
          exact ⟨_, .cons below generated, (same.append_left _).cons job⟩
  | swap first second jobs =>
      cases generated with
      | @cons _ _ belowSecond _ below rest =>
          cases rest with
          | @cons _ _ belowFirst others belowOther rest =>
              refine ⟨_, .cons belowOther (.cons below rest), ?_⟩
              refine .trans (List.perm_middle.cons second) (.trans (.swap ..) ?_)
              refine .cons first (.trans (.cons second ?_) List.perm_middle.symm)
              rw [← List.append_assoc, ← List.append_assoc]
              exact List.perm_append_comm.append_right others
  | trans _ _ first second =>
      rcases first generated with ⟨between, generated, same⟩
      rcases second generated with ⟨rest, generated, again⟩
      exact ⟨rest, generated, same.trans again⟩

/-- Jobs generate one forest only. -/
theorem unique {jobs all other : List Job}
    (generated : Generates followUps jobs all)
    (again : Generates followUps jobs other) : all = other := by
  induction generated generalizing other with
  | nil => cases again; rfl
  | cons _ _ first second =>
      cases again with
      | cons below rest => rw [first below, second rest]

theorem length_le {jobs all : List Job}
    (generated : Generates followUps jobs all) : jobs.length ≤ all.length := by
  induction generated with
  | nil => exact Nat.le_refl 0
  | cons _ _ _ induction =>
      simp only [List.length_cons, List.length_append]
      omega

/-- A job is replaced by the jobs that it asks for. -/
theorem of_followUps {job : Job} {jobs rest : List Job}
    (generated : Generates followUps (followUps job ++ jobs) rest) :
    Generates followUps (job :: jobs) (job :: rest) := by
  rcases generated.exists_append with ⟨first, second, below, others, rfl⟩
  exact .cons below others

theorem exists_followUps {job : Job} {jobs all : List Job}
    (generated : Generates followUps (job :: jobs) all) :
    ∃ rest, Generates followUps (followUps job ++ jobs) rest ∧
      all = job :: rest := by
  cases generated with
  | cons below rest => exact ⟨_, below.append rest, rfl⟩

/-- A forest is its roots and the forest of the jobs that they ask for. -/
theorem exists_layer {jobs all : List Job}
    (generated : Generates followUps jobs all) :
    ∃ below, Generates followUps (jobs.flatMap followUps) below ∧
      all.Perm (jobs ++ below) := by
  induction generated with
  | nil => exact ⟨[], .nil, .refl []⟩
  | @cons job jobs first rest below _ _ induction =>
      rcases induction with ⟨others, generated, same⟩
      refine ⟨first ++ others, below.append generated, .cons job ?_⟩
      exact (same.append_left first).trans (List.perm_append_comm_assoc _ _ _)

end Generates

/-! ## What a turn can do -/

namespace Interleaving

variable {σ ε Job Handle Output : Type}
  {lanes : Lanes σ ε Job Handle Output} {run next : Interleaving Job Handle}
  {state reached : σ}

/-- A drained lane was idle, or its submission is read back and processed. -/
theorem drain_eq_ok_iff :
    run.drain lanes state = (.ok next, reached) ↔
      (run.current = none ∧ next = run ∧ reached = state) ∨
        ∃ handle output jobs between, run.current = some handle ∧
          lanes.wait run.side handle state = (.ok output, between) ∧
          lanes.process run.side output between = (.ok jobs, reached) ∧
          next =
            { run with
              stack := pushJobs jobs run.stack
              current := none
              stats := run.stats.noteRoundTrip.noteJob } := by
  rw [drain]
  cases run.current with
  | none =>
      rw [Attempt.pure_apply_eq_ok_iff]
      constructor
      · rintro ⟨rfl, rfl⟩
        exact Or.inl ⟨rfl, rfl, rfl⟩
      · rintro (⟨-, rfl, rfl⟩ | ⟨_, _, _, _, impossible, -⟩)
        · exact ⟨rfl, rfl⟩
        · cases impossible
  | some handle =>
      simp only [Attempt.bind_apply_eq_ok_iff, Attempt.pure_apply_eq_ok_iff]
      constructor
      · rintro ⟨output, between, waited, jobs, _, processed, rfl, rfl⟩
        exact Or.inr
          ⟨handle, output, jobs, between, rfl, waited, processed, rfl⟩
      · rintro (⟨impossible, -⟩ |
          ⟨_, output, jobs, between, same, waited, processed, rfl⟩)
        · cases impossible
        · cases same
          exact ⟨output, between, waited, jobs, reached, processed, rfl, rfl⟩

/-- No job waits, or the next one is submitted. -/
theorem refill_eq_ok_iff :
    run.refill lanes state = (.ok next, reached) ↔
      (run.stack = [] ∧ next = run ∧ reached = state) ∨
        ∃ job stack handle, run.stack = job :: stack ∧
          lanes.enqueue run.side job state = (.ok handle, reached) ∧
          next =
            { run with
              stack
              current := some handle
              stats :=
                run.stats.noteInFlight (inFlight (some handle) run.other) } := by
  rw [refill]
  cases run.stack with
  | nil =>
      rw [Attempt.pure_apply_eq_ok_iff]
      constructor
      · rintro ⟨rfl, rfl⟩
        exact Or.inl ⟨rfl, rfl, rfl⟩
      · rintro (⟨-, rfl, rfl⟩ | ⟨_, _, _, impossible, -⟩)
        · exact ⟨rfl, rfl⟩
        · cases impossible
  | cons job stack =>
      simp only [Attempt.bind_apply_eq_ok_iff, Attempt.pure_apply_eq_ok_iff]
      constructor
      · rintro ⟨handle, _, submitted, rfl, rfl⟩
        exact Or.inr ⟨job, stack, handle, rfl, submitted, rfl⟩
      · rintro (⟨impossible, -⟩ | ⟨_, _, handle, waiting, submitted, rfl⟩)
        · cases impossible
        · cases waiting
          exact ⟨handle, reached, submitted, rfl, rfl⟩

theorem current_of_drain (drained : run.drain lanes state = (.ok next, reached)) :
    next.current = none := by
  rcases drain_eq_ok_iff.mp drained with
    ⟨idle, rfl, rfl⟩ | ⟨handle, output, jobs, between, -, -, -, rfl⟩
  · exact idle
  · rfl

/-- On an idle lane there is nothing to drain. -/
theorem turn_eq_refill (idle : run.current = none) :
    run.turn lanes = run.refill lanes := by
  funext state
  have drained : run.drain lanes state = (.ok run, state) :=
    drain_eq_ok_iff.mpr (Or.inl ⟨idle, rfl, rfl⟩)
  exact Attempt.bind_apply_ok drained

/-- After a turn a job waits only if the lane is busy. -/
theorem current_of_turn (turned : run.turn lanes state = (.ok next, reached))
    (waiting : next.stack ≠ []) : next.current.isSome = true := by
  rcases Attempt.bind_apply_eq_ok_iff.mp turned with
    ⟨drained, between, -, refilled⟩
  rcases refill_eq_ok_iff.mp refilled with
    ⟨empty, rfl, rfl⟩ | ⟨job, stack, handle, -, -, rfl⟩
  · exact absurd empty waiting
  · rfl

/-- If both lanes are idle after a turn, no job waits. -/
theorem stack_of_turn (turned : run.turn lanes state = (.ok next, reached))
    (idle : next.isIdle = true) : next.stack = [] := by
  by_contra waiting
  have busy := current_of_turn turned waiting
  rw [isIdle, Bool.and_eq_true, Option.isNone_iff_eq_none] at idle
  rw [idle.1] at busy
  cases busy

/-- A run that is not idle goes on with a submission under way. -/
theorem inFlight_swap_pos (working : ¬run.isIdle = true) :
    0 < inFlight run.swap.current run.swap.other := by
  rcases run with ⟨stack, side, _ | current, _ | other, stats⟩
  · exact absurd rfl working
  · exact Nat.one_pos
  · exact Nat.one_pos
  · exact Nat.two_pos

/-! ## Complete runs -/

variable {motive : Interleaving Job Handle → σ → Prop} {stats : RunStats}

/-- What every turn keeps holds when both lanes are idle and no job waits. -/
theorem finish_induction
    (turn : ∀ run state next reached, motive run state →
      run.turn lanes state = (.ok next, reached) → motive next.swap reached)
    {bound : Nat} (start : motive run state)
    (completed : run.finish lanes bound state = (.ok (some stats), reached)) :
    ∃ last, motive last reached ∧ last.isIdle = true ∧ last.stack = [] ∧
      last.stats = stats := by
  induction bound generalizing run state with
  | zero =>
      rw [finish, Attempt.pure_apply_eq_ok_iff] at completed
      cases completed.1
  | succ bound induction =>
      rw [finish] at completed
      rcases Attempt.bind_apply_eq_ok_iff.mp completed with
        ⟨next, between, turned, rest⟩
      have kept := turn run state next between start turned
      by_cases idle : next.isIdle = true
      · rw [if_pos idle, Attempt.pure_apply_eq_ok_iff] at rest
        rcases rest with ⟨same, rfl⟩
        cases same
        have empty := stack_of_turn turned idle
        rw [isIdle, Bool.and_comm] at idle
        exact ⟨next.swap, kept, idle, empty, rfl⟩
      · rw [if_neg idle] at rest
        exact induction kept rest

end Interleaving

open Interleaving in
/-- With a job to begin with, a run is two turns of idle lanes and the rest. -/
theorem interleave_eq_ok_iff {σ ε Job Handle Output : Type}
    {lanes : Lanes σ ε Job Handle Output} {bound : Nat} {jobs : List Job}
    {state reached : σ} {result : Option RunStats} (nonempty : jobs ≠ []) :
    interleave lanes bound jobs state = (.ok result, reached) ↔
      ∃ one between two later,
        (start jobs).turn lanes state = (.ok one, between) ∧
          one.swap.turn lanes between = (.ok two, later) ∧
            two.swap.finish lanes bound later = (.ok result, reached) := by
  have otherIdle : ∀ one between,
      (start jobs).refill lanes state = (.ok one, between) →
        one.swap.turn lanes = one.swap.refill lanes := by
    intro one between refilled
    apply turn_eq_refill
    rcases refill_eq_ok_iff.mp refilled with
      ⟨-, rfl, -⟩ | ⟨_, _, _, -, -, rfl⟩ <;> rfl
  rw [interleave, if_neg (mt List.isEmpty_iff.mp nonempty)]
  simp only [Attempt.bind_apply_eq_ok_iff]
  rw [turn_eq_refill rfl]
  constructor
  · rintro ⟨one, between, first, two, later, second, finished⟩
    refine ⟨one, between, two, later, first, ?_, finished⟩
    rwa [otherIdle one between first]
  · rintro ⟨one, between, two, later, first, second, finished⟩
    rw [otherIdle one between first] at second
    exact ⟨one, between, first, two, later, second, finished⟩

/-- What every turn keeps holds when a run is complete. -/
theorem interleave_induction {σ ε Job Handle Output : Type}
    {lanes : Lanes σ ε Job Handle Output}
    {motive : Interleaving Job Handle → σ → Prop} {bound : Nat} {jobs : List Job}
    {state reached : σ} {stats : RunStats}
    (turn : ∀ run state next reached, motive run state →
      run.turn lanes state = (.ok next, reached) → motive next.swap reached)
    (start : motive (Interleaving.start jobs) state)
    (completed : interleave lanes bound jobs state = (.ok (some stats), reached)) :
    ∃ last, motive last reached ∧ last.isIdle = true ∧ last.stack = [] ∧
      last.stats = stats := by
  by_cases empty : jobs = []
  · subst empty
    rw [interleave, if_pos List.isEmpty_nil, Attempt.pure_apply_eq_ok_iff]
      at completed
    rcases completed with ⟨same, rfl⟩
    cases same
    exact ⟨_, start, rfl, rfl, rfl⟩
  · rcases (interleave_eq_ok_iff empty).mp completed with
      ⟨one, between, two, later, first, second, finished⟩
    have once := turn _ _ _ _ start first
    have twice := turn _ _ _ _ once second
    exact Interleaving.finish_induction turn twice finished

end SolidField
