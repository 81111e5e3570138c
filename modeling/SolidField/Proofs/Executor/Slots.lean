import SolidField.Executor.Life
import SolidField.Proofs.Executor.Logging

/-!
# Slots of routines

What one call of the executor of routines can do to its slots, and what follows
from it for a whole run: a property that every call keeps holds when a run is
complete.  A run that is logged does the same as one that is not.
-/

namespace SolidField

variable {σ τ ε Job Routine Handle Output : Type}

/-! ## What a call can do -/

/-- A logged call does what the routine does and notes the step. -/
theorem Routines.resumeLogged_eq_ok_iff
    {routines : Routines σ ε Job Routine Handle Output} {ready : Option Output}
    {numbered : NumberedRoutine Job Routine} {number : Nat}
    {note : RoutineStep Handle Job → RoutineCall Job Handle Output}
    {state reached : σ} {log after : RoutineLog Job Handle Output}
    {result : RoutineStep (Nat × Handle) Job × NumberedRoutine Job Routine} :
    routines.resumeLogged ready numbered number note (state, log) =
        (.ok result, (reached, after)) ↔
      ∃ step routine,
        routines.resume ready numbered.routine state =
          (.ok (step, routine), reached) ∧
        after = log ++ [note step] ∧
        result = (step.numbered number, ⟨numbered.job, number, routine⟩) := by
  simp only [resumeLogged, Attempt.bind_apply_eq_ok_iff, Attempt.pure_apply_eq_ok_iff]
  constructor
  · rintro ⟨⟨step, routine⟩, ⟨between, notes⟩, resumed, rfl, same⟩
    rcases Attempt.noting_eq_ok_iff.mp resumed with ⟨happened, rfl⟩
    cases same
    exact ⟨step, routine, happened, rfl, rfl⟩
  · rintro ⟨step, routine, happened, rfl, rfl⟩
    exact ⟨(step, routine), (reached, _),
      Attempt.noting_eq_ok_iff.mpr ⟨happened, rfl⟩, rfl, rfl⟩

namespace RoutineRun

variable {routines : Routines σ ε Job Routine Handle Output}
  {run next : RoutineRun Job Routine Handle} {state reached : σ}


/-- A served slot was empty, or its routine goes on with what was read back. -/
theorem serve_eq_ok_iff :
    run.serve routines state = (.ok next, reached) ↔
      (run.current = none ∧ next = run ∧ reached = state) ∨
        ∃ routine handle output between result,
          run.current = some (routine, handle) ∧
          routines.wait handle state = (.ok output, between) ∧
          routines.resume (some output) routine between = (.ok result, reached) ∧
          next = { run with stats := run.stats.noteRoundTrip }.settle result := by
  rw [serve]
  cases run.current with
  | none =>
      rw [Attempt.pure_apply_eq_ok_iff]
      constructor
      · rintro ⟨rfl, rfl⟩
        exact Or.inl ⟨rfl, rfl, rfl⟩
      · rintro (⟨-, rfl, rfl⟩ | ⟨_, _, _, _, _, impossible, -⟩)
        · exact ⟨rfl, rfl⟩
        · cases impossible
  | some slot =>
      rcases slot with ⟨routine, handle⟩
      simp only [Attempt.bind_apply_eq_ok_iff, Attempt.pure_apply_eq_ok_iff]
      constructor
      · rintro ⟨output, between, waited, result, _, resumed, rfl, rfl⟩
        exact Or.inr
          ⟨routine, handle, output, between, result, rfl, waited, resumed, rfl⟩
      · rintro (⟨impossible, -⟩ |
          ⟨_, _, output, between, result, same, waited, resumed, rfl⟩)
        · cases impossible
        · cases same
          exact ⟨output, between, waited, result, reached, resumed, rfl, rfl⟩

/-- A slot that holds a routine is not filled. -/
theorem fill_of_busy (busy : run.current ≠ none) (bound : Nat) :
    run.fill routines (bound + 1) = pure (some run) := by
  rw [fill]
  cases slot : run.current with
  | none => exact absurd slot busy
  | some held => rfl

/-- A slot is not filled if no job waits. -/
theorem fill_of_nil (empty : run.stack = []) (bound : Nat) :
    run.fill routines (bound + 1) = pure (some run) := by
  rw [fill, empty]
  cases run.current <;> rfl

/-- An empty slot takes the next job, and is filled again if that is done. -/
theorem fill_of_cons {job : Job} {stack : List Job} (vacant : run.current = none)
    (waiting : run.stack = job :: stack) (bound : Nat) :
    run.fill routines (bound + 1) =
      routines.resume none (routines.start job) >>= fun result =>
        fill routines bound ({ run with stack }.settle result) := by
  rw [fill, vacant, waiting]

/-- A turn with nothing under way is the last one. -/
theorem finish_of_idle (current : run.current = none) (other : run.other = none)
    (bound : Nat) :
    run.finish routines (bound + 1) =
      pure (some (run.stats.noteInFlight 0)) := by
  simp only [finish, current, other]
  rfl

/-- A turn serves the slot of its side and fills it again. -/
theorem finish_of_busy (busy : 0 < inFlight run.current run.other) (bound : Nat) :
    run.finish routines (bound + 1) =
      { run with
        stats := run.stats.noteInFlight (inFlight run.current run.other) }.serve
          routines >>= fun served =>
        served.fill routines bound >>= fun filled =>
          match filled with
          | none => pure none
          | some next => next.swap.finish routines bound := by
  refine (if_neg (Nat.ne_of_gt busy)).trans ?_
  refine congrArg (Attempt.andThen _) (funext fun served => ?_)
  refine congrArg (Attempt.andThen _) (funext fun filled => ?_)
  cases filled <;> rfl

/-- Nothing is under way if and only if both slots are empty. -/
theorem inFlight_eq_zero_iff :
    inFlight run.current run.other = 0 ↔ run.current = none ∧ run.other = none := by
  cases run.current <;> cases run.other <;> simp [inFlight]

/-! ## Complete runs -/

variable {motive : RoutineRun Job Routine Handle → σ → Prop} {stats : RunStats}

/-- What every start keeps holds of a filled slot; if it is empty, no job waits. -/
theorem fill_induction
    (start : ∀ run state job stack result reached, motive run state →
      run.current = none → run.stack = job :: stack →
        routines.resume none (routines.start job) state = (.ok result, reached) →
          motive ({ run with stack }.settle result) reached)
    {bound : Nat} (kept : motive run state)
    (filled : run.fill routines bound state = (.ok (some next), reached)) :
    motive next reached ∧ (next.current = none → next.stack = []) := by
  induction bound generalizing run state with
  | zero =>
      rw [fill, Attempt.pure_apply_eq_ok_iff] at filled
      cases filled.1
  | succ bound induction =>
      by_cases vacant : run.current = none
      · cases waiting : run.stack with
        | nil =>
            rw [fill_of_nil waiting, Attempt.pure_apply_eq_ok_iff] at filled
            rcases filled with ⟨⟨⟩, rfl⟩
            exact ⟨kept, fun _ => waiting⟩
        | cons job stack =>
            rw [fill_of_cons vacant waiting] at filled
            rcases Attempt.bind_apply_eq_ok_iff.mp filled with
              ⟨result, between, resumed, rest⟩
            exact induction
              (start run state job stack result between kept vacant waiting resumed)
              rest
      · rw [fill_of_busy vacant, Attempt.pure_apply_eq_ok_iff] at filled
        rcases filled with ⟨⟨⟩, rfl⟩
        exact ⟨kept, fun none => absurd none vacant⟩

/--
What every call keeps holds at the end of a run.  When a slot is served, a job
waits only if the other slot holds a routine.
-/
structure Keeps (routines : Routines σ ε Job Routine Handle Output)
    (motive : RoutineRun Job Routine Handle → σ → Prop) : Prop where
  start : ∀ run state job stack result reached, motive run state →
    run.current = none → run.stack = job :: stack →
      routines.resume none (routines.start job) state = (.ok result, reached) →
        motive ({ run with stack }.settle result) reached
  serve : ∀ run state next reached, motive run state →
    (run.other = none → run.stack = []) →
      run.serve routines state = (.ok next, reached) → motive next reached
  count : ∀ run state, motive run state →
    motive { run with
      stats := run.stats.noteInFlight (inFlight run.current run.other) } state
  swap : ∀ run state, motive run state → motive run.swap state

theorem Keeps.finish (keeps : Keeps routines motive) {bound : Nat}
    (kept : motive run state) (fed : run.other = none → run.stack = [])
    (completed : run.finish routines bound state = (.ok (some stats), reached)) :
    ∃ last, motive last reached ∧ last.current = none ∧ last.other = none ∧
      last.stack = [] ∧ last.stats = stats := by
  induction bound generalizing run state with
  | zero =>
      rw [RoutineRun.finish, Attempt.pure_apply_eq_ok_iff] at completed
      cases completed.1
  | succ bound induction =>
      rcases Nat.eq_zero_or_pos (inFlight run.current run.other) with idle | busy
      · rw [inFlight_eq_zero_iff] at idle
        rw [finish_of_idle idle.1 idle.2, Attempt.pure_apply_eq_ok_iff] at completed
        rcases completed with ⟨⟨⟩, rfl⟩
        have counted := keeps.count run state kept
        rw [idle.1, idle.2] at counted
        exact ⟨_, counted, rfl, rfl, fed idle.2, rfl⟩
      · rw [finish_of_busy busy] at completed
        rcases Attempt.bind_apply_eq_ok_iff.mp completed with
          ⟨served, between, serving, rest⟩
        have afterServe := keeps.serve _ _ _ _ (keeps.count run state kept) fed serving
        rcases Attempt.bind_apply_eq_ok_iff.mp rest with
          ⟨_ | next, later, filling, rest⟩
        · rw [Attempt.pure_apply_eq_ok_iff] at rest
          cases rest.1
        · rcases fill_induction keeps.start afterServe filling with ⟨kept, fed⟩
          exact induction (keeps.swap _ _ kept) fed rest

end RoutineRun

open RoutineRun in
/-- What every call keeps holds when a run is complete. -/
theorem interleaveRoutines_induction
    {routines : Routines σ ε Job Routine Handle Output}
    {motive : RoutineRun Job Routine Handle → σ → Prop} {bound : Nat}
    {jobs : List Job} {state reached : σ} {stats : RunStats}
    (keeps : Keeps routines motive)
    (kept : motive ⟨pushJobs jobs [], none, none, .zero⟩ state)
    (completed :
      interleaveRoutines routines bound jobs state = (.ok (some stats), reached)) :
    ∃ last, motive last reached ∧ last.current = none ∧ last.other = none ∧
      last.stack = [] ∧ last.stats = stats := by
  rw [interleaveRoutines] at completed
  rcases Attempt.bind_apply_eq_ok_iff.mp completed with
    ⟨_ | one, between, first, rest⟩
  · rw [Attempt.pure_apply_eq_ok_iff] at rest
    cases rest.1
  · rcases Attempt.bind_apply_eq_ok_iff.mp rest with ⟨_ | two, later, second, rest⟩
    · rw [Attempt.pure_apply_eq_ok_iff] at rest
      cases rest.1
    · have once := (fill_induction keeps.start kept first).1
      rcases fill_induction keeps.start (keeps.swap _ _ once) second with
        ⟨twice, fed⟩
      exact keeps.finish (keeps.swap _ _ twice) fed rest

/-! ## Logging changes nothing -/

namespace Attempt

variable {β : Type}

theorem bind_pure (attempt : Attempt σ ε β) : attempt >>= pure = attempt := by
  funext state
  rcases attempted : attempt state with ⟨error | value, reached⟩
  · exact bind_apply_error attempted
  · exact bind_apply_ok attempted

theorem erases_noting {κ : Type} (attempt : Attempt σ ε β) (note : β → κ) :
    Erases Prod.fst id (attempt.noting note) attempt :=
  projects_iff_erases.mp (projects_noting attempt note)

end Attempt

open Attempt

/-- A step without the number of its submission. -/
def RoutineStep.unnumbered {Handle Job : Type} :
    RoutineStep (Nat × Handle) Job → RoutineStep Handle Job
  | await handle => .await handle.2
  | done jobs => .done jobs

namespace RoutineRun

/-- The executor without the numbers of its routines. -/
def unnumbered (run : RoutineRun Job (NumberedRoutine Job Routine) (Nat × Handle)) :
    RoutineRun Job Routine Handle where
  stack := run.stack
  current := run.current.map fun slot => (slot.1.routine, slot.2.2)
  other := run.other.map fun slot => (slot.1.routine, slot.2.2)
  stats := run.stats

variable (routines : Routines σ ε Job Routine Handle Output)
  (run : RoutineRun Job (NumberedRoutine Job Routine) (Nat × Handle))

theorem erases_resume (ready : Option Output)
    (numbered : NumberedRoutine Job Routine) :
    Erases Prod.fst (fun result => (result.1.unnumbered, result.2.routine))
      (routines.logged.resume ready numbered)
      (routines.resume ready numbered.routine) := by
  have resumed : ∀ ready number
      (note : RoutineStep Handle Job → RoutineCall Job Handle Output),
      Erases Prod.fst (fun result => (result.1.unnumbered, result.2.routine))
        (routines.resumeLogged ready numbered number note)
        (routines.resume ready numbered.routine >>= pure) := by
    intro ready number note
    refine (erases_noting _ _).bind ?_
    rintro ⟨_ | _, routine⟩ <;> exact erases_pure rfl
  rw [← bind_pure (routines.resume ready numbered.routine)]
  cases ready with
  | none => exact fun state => resumed none _ _ state
  | some output => exact resumed (some output) _ _

theorem unnumbered_settle
    (result : RoutineStep (Nat × Handle) Job × NumberedRoutine Job Routine) :
    (run.settle result).unnumbered =
      run.unnumbered.settle (result.1.unnumbered, result.2.routine) := by
  rcases result with ⟨_ | _, numbered⟩ <;> rfl

theorem erases_fill (bound : Nat) :
    Erases Prod.fst (Option.map unnumbered) (run.fill routines.logged bound)
      (run.unnumbered.fill routines bound) := by
  induction bound generalizing run with
  | zero => exact erases_pure rfl
  | succ bound induction =>
      rcases run with ⟨_ | ⟨job, stack⟩, _ | slot, other, stats⟩
      · exact erases_pure rfl
      · exact erases_pure rfl
      · refine (erases_resume routines none _).bind fun result => ?_
        have rest := induction (RoutineRun.settle ⟨stack, none, other, stats⟩ result)
        rw [unnumbered_settle] at rest
        exact rest
      · exact erases_pure rfl

theorem erases_serve :
    Erases Prod.fst unnumbered (run.serve routines.logged)
      (run.unnumbered.serve routines) := by
  rcases run with ⟨stack, _ | ⟨numbered, handle⟩, other, stats⟩
  · exact erases_pure rfl
  · refine (erases_noting _ _).bind fun output => ?_
    refine (erases_resume routines (some output) numbered).bind fun result => ?_
    exact erases_pure (unnumbered_settle
      ⟨stack, some (numbered, handle), other, stats.noteRoundTrip⟩ result)

theorem erases_finish (bound : Nat) :
    Erases Prod.fst id (run.finish routines.logged bound)
      (run.unnumbered.finish routines bound) := by
  induction bound generalizing run with
  | zero => exact erases_pure rfl
  | succ bound induction =>
      have same : inFlight run.unnumbered.current run.unnumbered.other =
          inFlight run.current run.other := by
        simp only [inFlight, unnumbered, Option.toList_map, List.length_map]
      rcases Nat.eq_zero_or_pos (inFlight run.current run.other) with idle | busy
      · have idle' := same.trans idle
        rw [inFlight_eq_zero_iff] at idle idle'
        rw [finish_of_idle idle.1 idle.2, finish_of_idle idle'.1 idle'.2]
        exact erases_pure rfl
      · rw [finish_of_busy busy, finish_of_busy (same ▸ busy), same]
        refine (erases_serve routines _).bind fun served => ?_
        refine (erases_fill routines served bound).bind fun filled => ?_
        cases filled with
        | none => exact erases_pure rfl
        | some next => exact induction next.swap

end RoutineRun

open RoutineRun in
/-- A run on logged routines is a run on the routines. -/
theorem erases_interleaveRoutines (routines : Routines σ ε Job Routine Handle Output)
    (bound : Nat) (jobs : List Job) :
    Erases Prod.fst id (interleaveRoutines routines.logged bound jobs)
      (interleaveRoutines routines bound jobs) := by
  rw [interleaveRoutines, interleaveRoutines]
  refine (erases_fill routines ⟨pushJobs jobs [], none, none, .zero⟩ bound).bind
    fun filled => ?_
  cases filled with
  | none => exact erases_pure rfl
  | some one =>
      refine (erases_fill routines one.swap bound).bind fun filled => ?_
      cases filled with
      | none => exact erases_pure rfl
      | some two => exact erases_finish routines two.swap bound

end SolidField
