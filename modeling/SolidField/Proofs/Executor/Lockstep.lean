import SolidField.Executor.Script
import SolidField.Proofs.Executor.Slots

/-!
# The executors in step

On scripted jobs a turn of the lanes and a turn of the routines make the same
calls.  The executors differ in where they count submissions and in where they
test for the end: the lanes count when a job is submitted and test after a turn,
the routines do both before a turn.
-/

namespace SolidField

/-! ## Attempts that agree -/

namespace Attempt

variable {σ ε β γ δ ζ : Type}

/-- Two attempts fail alike, or they succeed alike with results that are related. -/
def Agrees (related : β → γ → Prop) (first : Attempt σ ε β)
    (second : Attempt σ ε γ) : Prop :=
  ∀ state,
    (∃ error reached, first state = (.error error, reached) ∧
      second state = (.error error, reached)) ∨
    ∃ value other reached, first state = (.ok value, reached) ∧
      second state = (.ok other, reached) ∧ related value other

theorem agrees_pure {related : β → γ → Prop} {value : β} {other : γ}
    (holds : related value other) :
    Agrees related (pure value : Attempt σ ε β) (pure other) :=
  fun state => Or.inr ⟨value, other, state, rfl, rfl, holds⟩

/-- Sequences agree if their steps do. -/
theorem Agrees.bind {related : β → γ → Prop} {results : δ → ζ → Prop}
    {first : Attempt σ ε β} {second : Attempt σ ε γ}
    {next : β → Attempt σ ε δ} {other : γ → Attempt σ ε ζ}
    (agrees : Agrees related first second)
    (continues : ∀ value result, related value result →
      Agrees results (next value) (other result)) :
    Agrees results (first >>= next) (second >>= other) := by
  intro state
  rcases agrees state with
    ⟨error, reached, failed, alike⟩ | ⟨value, result, between, one, two, holds⟩
  · exact Or.inl ⟨error, reached, bind_apply_error failed, bind_apply_error alike⟩
  · rw [bind_apply_ok one, bind_apply_ok two]
    exact continues value result holds between

theorem bind_bind (first : Attempt σ ε β) (next : β → Attempt σ ε γ)
    (last : γ → Attempt σ ε δ) :
    first >>= next >>= last = first >>= fun value => next value >>= last := by
  funext state
  rcases attempted : first state with ⟨error | value, reached⟩
  · rw [bind_apply_error attempted, bind_apply_error (bind_apply_error attempted)]
  · rw [bind_apply_ok attempted]
    rcases continued : next value reached with ⟨error | result, between⟩
    · have failed : (first >>= next) state = (.error error, between) :=
        (bind_apply_ok attempted).trans continued
      rw [bind_apply_error continued, bind_apply_error failed]
    · have succeeded : (first >>= next) state = (.ok result, between) :=
        (bind_apply_ok attempted).trans continued
      rw [bind_apply_ok continued, bind_apply_ok succeeded]

end Attempt

open Attempt

namespace Script

variable {ε Job β γ δ : Type}

/-- One call agrees with itself, whatever becomes of its result. -/
theorem agrees_call (event : ScriptEvent Job) (outcome : Except ε δ) (one : δ → β)
    (two : δ → γ) :
    Agrees (fun value other => ∃ result, outcome = .ok result ∧
        one result = value ∧ two result = other)
      (call event (outcome.map one)) (call event (outcome.map two)) := by
  intro events
  cases outcome with
  | error error => exact Or.inl ⟨error, _, rfl, rfl⟩
  | ok result => exact Or.inr ⟨_, _, _, rfl, rfl, result, rfl, rfl, rfl⟩

theorem followUps_eq {script : Script ε Job} {job : Job} {jobs : List Job}
    (submitted : script.submit job = .ok ()) (waited : script.wait job = .ok ())
    (processed : script.process job = .ok jobs) : script.followUps job = jobs := by
  rw [followUps, submitted, waited, processed]

end Script

/-! ## Counts -/

namespace RunStats

variable (stats : RunStats)

theorem noteInFlight_noteInFlight {fewer more : Nat} (atMost : fewer ≤ more) :
    (stats.noteInFlight fewer).noteInFlight more = stats.noteInFlight more := by
  simp only [noteInFlight, mk.injEq, true_and]
  omega

theorem noteInFlight_of_le {count : Nat} (atMost : count ≤ stats.maxInFlight) :
    stats.noteInFlight count = stats := by
  rw [noteInFlight, Nat.max_eq_left atMost]

end RunStats

/-! ## Executors in step -/

variable {ε Job : Type} {script : Script ε Job}

/-- The forest that is left when the job in flight, if any, is processed. -/
theorem Generates.exists_processed {followUps : Job → List Job}
    {current other : Option Job} {stack rest : List Job}
    (generated : Generates followUps
      (current.toList ++ (other.toList ++ stack)) rest) :
    ∃ left, Generates followUps
        (other.toList ++ pushJobs (current.toList.flatMap followUps) stack) left ∧
      left.length + current.toList.length = rest.length := by
  cases current with
  | none => exact ⟨rest, generated, rfl⟩
  | some job =>
      rcases generated.exists_followUps with ⟨below, forest, rfl⟩
      have same := Interleaving.Accounted.perm_pushJobs (followUps job)
        other.toList stack
      rcases forest.exists_perm same.symm with ⟨left, forest, perm⟩
      rw [Option.toList_some, List.flatMap_singleton]
      refine ⟨left, forest, ?_⟩
      rw [← perm.length_eq]
      rfl

/-- The executor of routines with the same jobs waiting and in flight. -/
def Interleaving.asRoutines (run : Interleaving Job Job) (stats : RunStats) :
    RoutineRun Job Job Job where
  stack := run.stack
  current := run.current.map fun job => (job, job)
  other := run.other.map fun job => (job, job)
  stats

/-- What the lanes have counted, while the routines have counted `counted`. -/
structure InStep (script : Script ε Job) (run : Interleaving Job Job)
    (counted : RunStats) : Prop where
  /-- The routines have not counted yet what was submitted last. -/
  stats : run.stats = counted.noteInFlight (inFlight run.current run.other)
  submitted : ∀ job, run.current = some job ∨ run.other = some job →
    script.submit job = .ok ()

namespace InStep

variable {run : Interleaving Job Job} {counted : RunStats}

theorem start (jobs : List Job) : InStep script (.start jobs) .zero where
  stats := rfl
  submitted := by
    rintro job (impossible | impossible) <;> cases impossible

theorem swap (inStep : InStep script run counted) :
    InStep script run.swap counted where
  stats := by
    simpa only [Interleaving.swap, inFlight, Nat.add_comm] using inStep.stats
  submitted := fun job inFlight => inStep.submitted job inFlight.symm

/-- What is in flight is waited for and processed by both. -/
theorem serve (inStep : InStep script run counted) :
    Agrees
      (fun next served => served = next.asRoutines next.stats ∧
        InStep script next next.stats ∧ next.current = none ∧
        next.other = run.other ∧
        next.stack = pushJobs (run.current.toList.flatMap script.followUps) run.stack)
      (run.drain script.lanes)
      ((run.asRoutines run.stats).serve script.routines) := by
  rcases run with ⟨stack, side, current, other, stats⟩
  rcases inStep with ⟨count, submitted⟩
  simp only at count
  have most : inFlight current other ≤ stats.maxInFlight := by
    rw [count]
    exact Nat.le_max_right _ _
  cases current with
  | none =>
      refine agrees_pure ⟨rfl, ⟨?_, submitted⟩, rfl, rfl, rfl⟩
      exact (RunStats.noteInFlight_of_le _ most).symm
  | some job =>
      refine (Script.agrees_call (.wait job) (script.wait job) _ _).bind ?_
      rintro _ _ ⟨⟨⟩, waited, rfl, rfl⟩
      have processed := Script.agrees_call (.process job) (script.process job) id
        fun jobs => ((.done jobs : RoutineStep Job Job), job)
      rw [Except.map_id] at processed
      refine processed.bind ?_
      rintro jobs _ ⟨_, asked, rfl, rfl⟩
      have accepted := submitted job (Or.inl rfl)
      refine agrees_pure ⟨rfl, ⟨?_, ?_⟩, rfl, rfl, ?_⟩
      · have fewer := Nat.le_trans (Nat.add_le_add_right (Nat.zero_le 1) _) most
        exact (RunStats.noteInFlight_of_le stats.noteRoundTrip.noteJob fewer).symm
      · rintro next (impossible | ofOther)
        · cases impossible
        · exact submitted next (Or.inr ofOther)
      · rw [Option.toList_some, List.flatMap_singleton,
          Script.followUps_eq accepted waited asked]
        rfl

/-- A free place is taken by the next job, if any waits. -/
theorem fill (inStep : InStep script run counted) (idle : run.current = none)
    {bound : Nat} (enough : 2 ≤ bound) :
    Agrees
      (fun next filled => filled = some (next.asRoutines counted) ∧
        InStep script next counted ∧ next.other = run.other ∧
        next.current = run.stack.head? ∧ next.stack = run.stack.tail)
      (run.refill script.lanes)
      ((run.asRoutines counted).fill script.routines bound) := by
  rcases run with ⟨stack, side, current, other, stats⟩
  rcases inStep with ⟨count, submitted⟩
  cases idle
  obtain ⟨bound, rfl⟩ := Nat.exists_eq_add_of_le' enough
  cases stack with
  | nil => exact agrees_pure ⟨rfl, ⟨count, submitted⟩, rfl, rfl, rfl⟩
  | cons job stack =>
      refine (Script.agrees_call (.submit job) (script.submit job) _ _).bind ?_
      rintro _ _ ⟨⟨⟩, accepted, rfl, rfl⟩
      refine agrees_pure ⟨rfl, ⟨?_, ?_⟩, rfl, rfl, rfl⟩
      · simp only at count ⊢
        rw [count, RunStats.noteInFlight_noteInFlight]
        exact Nat.add_le_add_right (Nat.zero_le _) _
      · rintro next (⟨⟨⟩⟩ | ofOther)
        · exact accepted
        · exact submitted next (Or.inr ofOther)

/-- When nothing is in flight, the routines end as well. -/
theorem finish_of_idle (inStep : InStep script run counted) (idle : run.isIdle = true)
    {bound : Nat} (enough : 1 ≤ bound) :
    (run.asRoutines counted).swap.finish script.routines bound =
      pure (some run.stats) := by
  rw [Interleaving.isIdle, Bool.and_eq_true, Option.isNone_iff_eq_none,
    Option.isNone_iff_eq_none] at idle
  have count := inStep.stats
  rw [idle.1, idle.2] at count
  obtain ⟨bound, rfl⟩ := Nat.exists_eq_add_of_le' enough
  rw [count]
  refine RoutineRun.finish_of_idle ?_ ?_ bound
  · exact congrArg (Option.map _) idle.2
  · exact congrArg (Option.map _) idle.1

/-- With something in flight, a turn of the routines serves and fills a slot. -/
theorem finish_of_busy (inStep : InStep script run counted)
    (busy : 0 < inFlight run.current run.other) (bound : Nat) :
    (run.asRoutines counted).finish script.routines (bound + 1) =
      (run.asRoutines run.stats).serve script.routines >>= fun served =>
        served.fill script.routines bound >>= fun filled =>
          match filled with
          | none => pure none
          | some next => next.swap.finish script.routines bound := by
  have same : inFlight (run.asRoutines counted).current
      (run.asRoutines counted).other = inFlight run.current run.other := by
    simp only [inFlight, Interleaving.asRoutines, Option.toList_map, List.length_map]
  refine (RoutineRun.finish_of_busy (same ▸ busy) bound).trans ?_
  refine congrArg₂ Attempt.andThen ?_ (funext fun served => ?_)
  · rw [same, inStep.stats]
    rfl
  · refine congrArg (Attempt.andThen _) (funext fun filled => ?_)
    cases filled <;> rfl

/-- As long as something is in flight there are turns left. -/
theorem four_le_bound (busy : 0 < inFlight run.current run.other) {bound : Nat}
    {rest : List Job}
    (generated : Generates script.followUps
      (run.current.toList ++ (run.other.toList ++ run.stack)) rest)
    (enough : 2 * rest.length + 3 ≤ bound + run.current.toList.length) :
    4 ≤ bound := by
  have least := generated.length_le
  have single : run.current.toList.length ≤ 1 := Option.length_toList_le
  rw [List.length_append, List.length_append] at least
  rw [inFlight] at busy
  omega

/--
Both executors run to the end in step.  What is left of the forest bounds the
turns, as it does for the lanes alone.
-/
theorem finish (inStep : InStep script run counted)
    (busy : 0 < inFlight run.current run.other) {bound : Nat} {rest : List Job}
    (generated : Generates script.followUps
      (run.current.toList ++ (run.other.toList ++ run.stack)) rest)
    (enough : 2 * rest.length + 3 ≤ bound + run.current.toList.length) :
    Agrees (fun result other => ∃ stats, result = some stats ∧ other = some stats)
      (run.finish script.lanes bound)
      ((run.asRoutines counted).finish script.routines bound) := by
  induction bound generalizing run counted rest with
  | zero => exact absurd (four_le_bound busy generated enough) (by decide)
  | succ bound induction =>
      have turns := four_le_bound busy generated enough
      rw [Interleaving.finish, Interleaving.turn, bind_bind,
        inStep.finish_of_busy busy]
      refine inStep.serve.bind ?_
      rintro drained _ ⟨rfl, served, idle, other, stack⟩
      refine (served.fill idle (by omega)).bind ?_
      rintro next _ ⟨rfl, filled, sameOther, current, tail⟩
      by_cases ended : next.isIdle = true
      · rw [if_pos ended]
        simp only [filled.finish_of_idle ended (show 1 ≤ bound by omega)]
        exact agrees_pure ⟨_, rfl, rfl⟩
      · rw [if_neg ended]
        rcases generated.exists_processed with ⟨left, forest, count⟩
        have moved : next.current.toList ++ next.stack = drained.stack := by
          rw [current, tail]
          cases drained.stack <;> rfl
        rw [← stack, ← moved, ← other, ← sameOther] at forest
        refine induction filled.swap (Interleaving.inFlight_swap_pos ended) forest ?_
        -- the lane that is next is busy if this one was idle
        have single : run.current.toList.length ≤ 1 := Option.length_toList_le
        rw [inFlight, ← other, ← sameOther] at busy
        show 2 * left.length + 3 ≤ bound + next.other.toList.length
        omega

end InStep

theorem head_append_tail (stack : List Job) :
    stack.head?.toList ++ stack.tail = stack := by
  cases stack <;> rfl

/-- With a job to begin with, both executors fill their places and run on. -/
theorem agrees_interleave {jobs all : List Job} {bound : Nat} (nonempty : jobs ≠ [])
    (generated : Generates script.followUps jobs all)
    (enough : 2 * all.length + 2 ≤ bound) :
    Agrees (fun result other => ∃ stats, result = some stats ∧ other = some stats)
      (interleave script.lanes bound jobs)
      (interleaveRoutines script.routines bound jobs) := by
  have two : 2 ≤ bound := Nat.le_trans (Nat.le_add_left _ _) enough
  rw [interleave, if_neg (mt List.isEmpty_iff.mp nonempty), interleaveRoutines]
  refine ((InStep.start jobs).fill rfl two).bind ?_
  rintro one _ ⟨rfl, once, oneOther, oneCurrent, oneStack⟩
  refine (once.swap.fill oneOther two).bind ?_
  rintro last _ ⟨rfl, twice, lastOther, lastCurrent, lastStack⟩
  have placed : last.other.toList ++ (last.current.toList ++ last.stack) =
      pushJobs jobs [] := by
    rw [lastCurrent, lastStack, head_append_tail, lastOther]
    show one.current.toList ++ one.stack = _
    rw [oneCurrent, oneStack, head_append_tail]
    rfl
  have same : jobs.Perm (pushJobs jobs []) := by
    simp [pushJobs]
  rcases generated.exists_perm same with ⟨rest, forest, perm⟩
  rw [← placed] at forest
  have busy : last.other.toList.length = 1 := by
    rw [lastOther]
    show one.current.toList.length = 1
    rw [oneCurrent]
    show (pushJobs jobs []).head?.toList.length = 1
    cases stack : pushJobs jobs [] with
    | nil => exact absurd (same.trans (.of_eq stack)).eq_nil nonempty
    | cons job stack => rfl
  refine twice.swap.finish ?_ forest ?_
  · show 0 < last.other.toList.length + _
    omega
  · show 2 * rest.length + 3 ≤ bound + last.other.toList.length
    rw [← perm.length_eq]
    omega

/--
The executor of lanes and the executor of routines make the same calls for
scripted jobs, in the same order, and come to the same end: the same counts, or the
same error at the first call that fails.
-/
theorem interleave_agrees_with_routines (script : Script ε Job) {jobs all : List Job}
    {bound : Nat} (generated : Generates script.followUps jobs all)
    (enough : 2 * all.length + 2 ≤ bound) :
    ∃ (outcome : Except ε RunStats) (events : List (ScriptEvent Job)),
      interleave script.lanes bound jobs [] = (outcome.map some, events) ∧
      interleaveRoutines script.routines bound jobs [] =
        (outcome.map some, events) := by
  by_cases empty : jobs = []
  · subst empty
    obtain ⟨bound, rfl⟩ :=
      Nat.exists_eq_add_of_le' (Nat.le_trans (Nat.le_add_left 2 _) enough)
    exact ⟨.ok .zero, [], rfl, rfl⟩
  · rcases agrees_interleave empty generated enough [] with
      ⟨error, events, failed, alike⟩ | ⟨_, _, events, one, two, stats, rfl, rfl⟩
    · exact ⟨.error error, events, failed, alike⟩
    · exact ⟨.ok stats, events, one, two⟩

namespace Script

/-- Numbers ask for smaller ones; seven cannot be submitted, nor five processed. -/
def countdown : Script String Nat where
  submit job := if job = 7 then .error "submit" else .ok ()
  wait _ := .ok ()
  process job :=
    if job = 5 then .error "process" else .ok (List.replicate job (job - 1))

/-- Both executors get from two and one to the end. -/
theorem countdown_agrees_with_routines :
    ∃ (outcome : Except String RunStats) (events : List (ScriptEvent Nat)),
      interleave countdown.lanes 16 [2, 1] [] = (outcome.map some, events) ∧
      interleaveRoutines countdown.routines 16 [2, 1] [] =
        (outcome.map some, events) := by
  have generated : Generates countdown.followUps [2, 1] [2, 1, 0, 1, 0, 1, 0] :=
    .of_followUps <| .of_followUps <| .of_followUps <| .of_followUps <|
      .of_followUps <| .of_followUps <| .of_followUps .nil
  exact interleave_agrees_with_routines countdown generated (Nat.le_refl 16)

/-- A submission that fails ends both runs while another one is under way. -/
example :
    interleave countdown.lanes 4 [7, 1] [] =
        (.error "submit", [.submit 1, .submit 7]) ∧
      interleaveRoutines countdown.routines 4 [7, 1] [] =
        (.error "submit", [.submit 1, .submit 7]) :=
  ⟨rfl, rfl⟩

end Script

end SolidField
