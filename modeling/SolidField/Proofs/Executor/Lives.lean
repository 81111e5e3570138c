import Mathlib.Algebra.Order.Ring.Nat
import SolidField.Proofs.Executor.Slots

/-!
# Lives of routines

Every routine that was started has a life, and the log shows the calls of its life
and no others.  All lives are over except those of the routines in the two slots.
Jobs that were started and the forest of those that were not are the forest of all
jobs together, and a round trip is always one less to make.
-/

namespace SolidField

variable {σ ε Job Routine Handle Output : Type}

/-! ## Forests in any order -/

/-- The jobs that come from a list of jobs, in whatever order. -/
def Expands (followUps : Job → List Job) (jobs rest : List Job) : Prop :=
  ∃ all, Generates followUps jobs all ∧ rest.Perm all

namespace Expands

variable {followUps : Job → List Job} {jobs others rest : List Job}

theorem of_perm (expands : Expands followUps jobs rest) (same : jobs.Perm others) :
    Expands followUps others rest := by
  rcases expands with ⟨all, generated, perm⟩
  rcases generated.exists_perm same with ⟨forest, generated, again⟩
  exact ⟨forest, generated, perm.trans again⟩

/-- The first job is one of the forest, and the others come from the rest. -/
theorem exists_followUps {job : Job} (expands : Expands followUps (job :: jobs) rest) :
    ∃ left, Expands followUps (followUps job ++ jobs) left ∧
      rest.Perm (job :: left) := by
  rcases expands with ⟨all, generated, perm⟩
  rcases generated.exists_followUps with ⟨left, forest, rfl⟩
  exact ⟨left, ⟨left, forest, .refl left⟩, perm⟩

theorem eq_nil (expands : Expands followUps [] rest) : rest = [] := by
  rcases expands with ⟨all, generated, perm⟩
  cases generated
  exact perm.eq_nil

end Expands

/-! ## Logs that show lives -/

/-- A life that goes on is a life for the same job. -/
theorem RoutineLife.map_job_set {lives : List (RoutineLife Job Handle Output)}
    {number : Nat} {job : Job} {trips more : List (Handle × Output)}
    {ending step : RoutineStep Handle Job}
    (own : lives[number]? = some ⟨job, trips, ending⟩) :
    (lives.set number ⟨job, more, step⟩).map RoutineLife.job =
      lives.map RoutineLife.job := by
  have here : (lives.map RoutineLife.job)[number]? = some job := by
    rw [List.getElem?_map, own]
    rfl
  rcases List.getElem?_eq_some_iff.mp here with ⟨inside, value⟩
  rw [List.map_set, ← value, List.set_getElem_self]

theorem getElem?_append_singleton_of_ne {α : Type} {lives : List α} {life : α}
    {index : Nat} (different : index ≠ lives.length) :
    (lives ++ [life])[index]? = lives[index]? := by
  rcases Nat.lt_or_gt_of_ne different with earlier | later
  · exact List.getElem?_append_left earlier
  · rw [List.getElem?_eq_none (Nat.le_of_lt later), List.getElem?_eq_none]
    rw [List.length_append]
    exact later

namespace RoutineLife

theorem tripCalls_append (number : Nat) (trips : List (Handle × Output))
    (handle : Handle) (output : Output) (step : RoutineStep Handle Job) :
    tripCalls number step (trips ++ [(handle, output)]) =
      tripCalls number (.await handle) trips ++
        [.wait number handle output, .resume number output step] := by
  induction trips with
  | nil => rfl
  | cons trip trips induction =>
      have next : stepBefore step (trips ++ [(handle, output)]) =
          stepBefore (.await handle) trips := by
        cases trips <;> rfl
      rw [List.cons_append, tripCalls, next, induction]
      rfl

/-- A round trip adds its wait and what the routine does next. -/
theorem calls_append (number : Nat) (job : Job) (trips : List (Handle × Output))
    (handle : Handle) (output : Output) (step : RoutineStep Handle Job) :
    calls number ⟨job, trips ++ [(handle, output)], step⟩ =
      calls number ⟨job, trips, .await handle⟩ ++
        [.wait number handle output, .resume number output step] := by
  have next : stepBefore step (trips ++ [(handle, output)]) =
      stepBefore (.await handle) trips := by
    cases trips <;> rfl
  rw [calls, tripCalls_append, next]
  rfl

end RoutineLife

namespace RoutineLog

theorem of_append_self (log : RoutineLog Job Handle Output)
    (call : RoutineCall Job Handle Output) (number : Nat)
    (same : call.number = number) :
    of number (log ++ [call]) = of number log ++ [call] := by
  rw [of, List.filter_append, List.filter_singleton, decide_eq_true same]
  rfl

theorem of_append_other (log : RoutineLog Job Handle Output)
    (call : RoutineCall Job Handle Output) {number : Nat}
    (other : call.number ≠ number) : of number (log ++ [call]) = of number log := by
  rw [of, List.filter_append, List.filter_singleton, decide_eq_false other]
  exact List.append_nil _

/-- The log shows these lives, numbered in the order of their starts. -/
structure Records (log : RoutineLog Job Handle Output)
    (lives : List (RoutineLife Job Handle Output)) : Prop where
  starts : starts log = lives.length
  shows : ∀ number, of number log = lives[number]?.elim [] (RoutineLife.calls number)

namespace Records

variable {log : RoutineLog Job Handle Output}
  {lives : List (RoutineLife Job Handle Output)}

theorem nil : Records ([] : RoutineLog Job Handle Output) [] where
  starts := rfl
  shows := fun _ => rfl

/-- A routine that is started begins a life. -/
theorem start (records : Records log lives) (job : Job)
    (step : RoutineStep Handle Job) :
    Records (log ++ [.start lives.length job step]) (lives ++ [⟨job, [], step⟩]) where
  starts := by
    rw [RoutineLog.starts, List.countP_append, List.length_append]
    exact congrArg (· + 1) records.starts
  shows := by
    intro number
    by_cases own : number = lives.length
    · subst own
      rw [of_append_self log (.start lives.length job step) lives.length rfl,
        records.shows, List.getElem?_eq_none (Nat.le_refl _),
        List.getElem?_concat_length]
      rfl
    · rw [of_append_other log (.start lives.length job step) (Ne.symm own),
        records.shows]
      rw [getElem?_append_singleton_of_ne own]

/-- A round trip prolongs the life of its routine. -/
theorem trip (records : Records log lives) {number : Nat} {job : Job}
    {trips : List (Handle × Output)} {handle : Handle}
    (own : lives[number]? = some ⟨job, trips, .await handle⟩) (output : Output)
    (step : RoutineStep Handle Job) :
    Records
      (log ++ [.wait number handle output] ++ [.resume number output step])
      (lives.set number ⟨job, trips ++ [(handle, output)], step⟩) where
  starts := by
    rw [RoutineLog.starts, List.countP_append, List.countP_append, List.length_set]
    exact records.starts
  shows := by
    intro other
    by_cases same : number = other
    · subst same
      have inside := (List.getElem?_eq_some_iff.mp own).1
      rw [of_append_self _ (.resume number output step) number rfl,
        of_append_self _ (.wait number handle output) number rfl, records.shows, own,
        List.getElem?_set_self inside, List.append_assoc]
      exact (RoutineLife.calls_append number job trips handle output step).symm
    · rw [of_append_other _ (.resume number output step) same,
        of_append_other _ (.wait number handle output) same, records.shows,
        List.getElem?_set_ne same]

end Records

end RoutineLog

/-! ## Routines in the slots -/

/-- A routine that waits for a submission, with the round trips behind it. -/
structure OpenRoutine (Job Routine Handle Output : Type) where
  number : Nat
  job : Job
  trips : List (Handle × Output)
  routine : Routine
  handle : Handle

namespace OpenRoutine

/-- The slot that holds the routine. -/
def slot (opened : OpenRoutine Job Routine Handle Output) :
    NumberedRoutine Job Routine × (Nat × Handle) :=
  (⟨opened.job, opened.number, opened.routine⟩, (opened.number, opened.handle))

/-- Its life so far. -/
def life (opened : OpenRoutine Job Routine Handle Output) :
    RoutineLife Job Handle Output :=
  ⟨opened.job, opened.trips, .await opened.handle⟩

/-- The status of a slot that may hold a routine. -/
def status :
    Option (OpenRoutine Job Routine Handle Output) →
      SlotStatus Job Routine Handle Output
  | none => .vacant
  | some opened =>
      .suspended opened.job opened.trips.length opened.routine opened.handle

/-- The round trips that a slot may still have to make. -/
def tripsLeft (most : Job → Nat) :
    Option (OpenRoutine Job Routine Handle Output) → Nat
  | none => 0
  | some opened => most opened.job - opened.trips.length

theorem tripsLeft_none (most : Job → Nat) :
    tripsLeft most (none : Option (OpenRoutine Job Routine Handle Output)) = 0 := rfl

/-- The jobs that a slot will ask for. -/
def requests (followUps : Job → List Job)
    (opened : Option (OpenRoutine Job Routine Handle Output)) : List Job :=
  opened.toList.flatMap fun opened => followUps opened.job

theorem requests_some (followUps : Job → List Job)
    (opened : OpenRoutine Job Routine Handle Output) :
    requests followUps (some opened) = followUps opened.job := by
  rw [requests, Option.toList_some, List.flatMap_singleton]

end OpenRoutine

open OpenRoutine

namespace RoutineRun

/--
The lives of the routines that were started, the routines in the slots, and the
forest of the jobs that were not started.
-/
structure Lived (followUps : Job → List Job) (most : Job → Nat)
    (holds : SlotStatus Job Routine Handle Output →
      SlotStatus Job Routine Handle Output → σ → Prop) (all : List Job)
    (run : RoutineRun Job (NumberedRoutine Job Routine) (Nat × Handle))
    (state : σ × RoutineLog Job Handle Output)
    (lives : List (RoutineLife Job Handle Output))
    (current other : Option (OpenRoutine Job Routine Handle Output))
    (rest : List Job) : Prop where
  currentSlot : run.current = current.map OpenRoutine.slot
  otherSlot : run.other = other.map OpenRoutine.slot
  holds : holds (status current) (status other) state.1
  records : RoutineLog.Records state.2 lives
  opened : ∀ opened, opened ∈ current ∨ opened ∈ other →
    lives[opened.number]? = some opened.life ∧
      opened.trips.length < most opened.job
  apart : ∀ one ∈ current, ∀ two ∈ other, one.number ≠ two.number
  /-- Every other life is over. -/
  ended : ∀ number life, lives[number]? = some life →
    (∃ opened, (opened ∈ current ∨ opened ∈ other) ∧ opened.number = number) ∨
      life.ending = .done (followUps life.job)
  expands : Expands followUps
    (requests followUps current ++ (requests followUps other ++ run.stack)) rest
  conserved : (lives.map RoutineLife.job ++ rest).Perm all

variable {routines : Routines σ ε Job Routine Handle Output}
  {followUps : Job → List Job} {most : Job → Nat} {all rest : List Job}
  {holds : SlotStatus Job Routine Handle Output →
    SlotStatus Job Routine Handle Output → σ → Prop}
  {run : RoutineRun Job (NumberedRoutine Job Routine) (Nat × Handle)}
  {state : σ × RoutineLog Job Handle Output}
  {lives : List (RoutineLife Job Handle Output)}
  {current other : Option (OpenRoutine Job Routine Handle Output)}

namespace Lived

theorem swap (follows : routines.Follows followUps most all holds)
    (lived : Lived followUps most holds all run state lives current other rest) :
    Lived followUps most holds all run.swap state lives other current rest where
  currentSlot := lived.otherSlot
  otherSlot := lived.currentSlot
  holds := follows.swap lived.holds
  records := lived.records
  opened := fun opened held => lived.opened opened held.symm
  apart := fun one ofOther two ofCurrent => (lived.apart two ofCurrent one ofOther).symm
  ended := by
    intro number life found
    refine (lived.ended number life found).imp_left ?_
    rintro ⟨opened, held, same⟩
    exact ⟨opened, held.symm, same⟩
  expands := lived.expands.of_perm (List.perm_append_comm_assoc _ _ _)
  conserved := lived.conserved

/-- The counts of the executor do not matter. -/
theorem withStats (stats : RunStats)
    (lived : Lived followUps most holds all run state lives current other rest) :
    Lived followUps most holds all { run with stats } state lives current other
      rest :=
  ⟨lived.currentSlot, lived.otherSlot, lived.holds, lived.records, lived.opened,
    lived.apart, lived.ended, lived.expands, lived.conserved⟩

/-- When another life has changed, the routine in the other slot still waits. -/
theorem other_opened
    (lived : Lived followUps most holds all run state lives current other rest)
    {next : List (RoutineLife Job Handle Output)} {number : Nat}
    (same : ∀ index, index ≠ number → next[index]? = lives[index]?)
    (apart : ∀ opened ∈ other, number ≠ opened.number) :
    ∀ opened ∈ other, next[opened.number]? = some opened.life ∧
      opened.trips.length < most opened.job := by
  intro opened member
  rw [same _ (apart opened member).symm]
  exact lived.opened opened (Or.inr member)

/-- When the life of the current routine has changed, the others are over as before. -/
theorem other_ended
    (lived : Lived followUps most holds all run state lives current other rest)
    {next : List (RoutineLife Job Handle Output)} {number : Nat}
    (same : ∀ index, index ≠ number → next[index]? = lives[index]?)
    (replaced : ∀ opened ∈ current, opened.number = number) :
    ∀ index life, next[index]? = some life → index ≠ number →
      (∃ opened ∈ other, opened.number = index) ∨
        life.ending = .done (followUps life.job) := by
  intro index life found different
  rw [same index different] at found
  refine (lived.ended index life found).imp_left ?_
  rintro ⟨opened, ofCurrent | ofOther, numbered⟩
  · exact absurd ((replaced opened ofCurrent).symm.trans numbered) different.symm
  · exact ⟨opened, ofOther, numbered⟩

/--
A routine has taken a step, and its life is the only one that has changed.  It
waits in its slot again, or it is done and leaves the slot empty.
-/
theorem settle
    (lived : Lived followUps most holds all run state lives current other rest)
    {after : σ × RoutineLog Job Handle Output}
    {next : List (RoutineLife Job Handle Output)} {number : Nat} {job : Job}
    {trips : List (Handle × Output)} {step : RoutineStep Handle Job}
    {routine : Routine} {stack left : List Job} {stats : RunStats}
    (records : RoutineLog.Records after.2 next)
    (own : next[number]? = some ⟨job, trips, step⟩)
    (same : ∀ index, index ≠ number → next[index]? = lives[index]?)
    (replaced : ∀ opened ∈ current, opened.number = number)
    (apart : ∀ opened ∈ other, number ≠ opened.number)
    (leads : Routines.Leads followUps most holds job trips.length (status other)
      after.1 (step, routine))
    (expands : Expands followUps
      (followUps job ++ (requests followUps other ++ stack)) left)
    (conserved : (next.map RoutineLife.job ++ left).Perm all) :
    ∃ opened,
      Lived followUps most holds all
        (RoutineRun.settle { run with stack, stats }
          (step.numbered number, ⟨job, number, routine⟩))
        after next opened other left ∧
      tripsLeft most opened ≤ most job - trips.length := by
  have otherOpened := lived.other_opened same apart
  have otherEnded := lived.other_ended same replaced
  cases step with
  | await handle =>
      rcases leads with ⟨few, suspended⟩
      refine ⟨some ⟨number, job, trips, routine, handle⟩,
        ⟨rfl, lived.otherSlot, suspended, records, ?_, ?_, ?_, ?_, conserved⟩,
        Nat.le_refl _⟩
      · rintro opened (⟨⟨⟩⟩ | ofOther)
        · exact ⟨own, few⟩
        · exact otherOpened opened ofOther
      · rintro _ ⟨⟩ two ofOther
        exact apart two ofOther
      · intro index life found
        by_cases here : index = number
        · exact Or.inl ⟨_, Or.inl rfl, here.symm⟩
        · refine (otherEnded index life found here).imp_left ?_
          rintro ⟨opened, ofOther, numbered⟩
          exact ⟨opened, Or.inr ofOther, numbered⟩
      · rw [requests_some]
        exact expands
  | done jobs =>
      rcases leads with ⟨rfl, vacant⟩
      refine ⟨none,
        ⟨rfl, lived.otherSlot, vacant, records, ?_, nofun, ?_, ?_, conserved⟩,
        Nat.zero_le _⟩
      · rintro opened (⟨⟨⟩⟩ | ofOther)
        exact otherOpened opened ofOther
      · intro index life found
        by_cases here : index = number
        · subst here
          rw [own, Option.some.injEq] at found
          subst found
          exact Or.inr rfl
        · refine (otherEnded index life found here).imp_left ?_
          rintro ⟨opened, ofOther, numbered⟩
          exact ⟨opened, Or.inr ofOther, numbered⟩
      · exact expands.of_perm
          (Interleaving.Accounted.perm_pushJobs (followUps job) _ _).symm

/-- The next job belongs to the forest. -/
theorem exists_left
    (lived : Lived followUps most holds all run state lives none other rest)
    {job : Job} {stack : List Job} (waiting : run.stack = job :: stack) :
    ∃ left, rest.Perm (job :: left) ∧
      Expands followUps (followUps job ++ (requests followUps other ++ stack)) left ∧
      (lives.map RoutineLife.job ++ job :: left).Perm all := by
  have forest : Expands followUps (requests followUps other ++ job :: stack) rest := by
    rw [← waiting]
    exact lived.expands
  rcases (forest.of_perm List.perm_middle).exists_followUps with ⟨left, expands, perm⟩
  exact ⟨left, perm, expands, (perm.symm.append_left _).trans lived.conserved⟩

theorem mem_all
    (lived : Lived followUps most holds all run state lives none other rest)
    {job : Job} {stack : List Job} (waiting : run.stack = job :: stack) :
    job ∈ all := by
  rcases lived.exists_left waiting with ⟨left, -, -, everyJob⟩
  exact everyJob.mem_iff.mp (List.mem_append_right _ (List.mem_cons_self ..))

/-- A job is started, and is one of the forest no more. -/
theorem start (follows : routines.Follows followUps most all holds)
    (lived : Lived followUps most holds all run state lives none other rest)
    {job : Job} {stack : List Job} (waiting : run.stack = job :: stack)
    {result : RoutineStep (Nat × Handle) Job × NumberedRoutine Job Routine}
    {reached : σ × RoutineLog Job Handle Output}
    (resumed : routines.logged.resume none (routines.logged.start job) state =
      (.ok result, reached)) :
    ∃ next opened left,
      Lived followUps most holds all ({ run with stack }.settle result) reached next
        opened other left ∧
      left.length + 1 = rest.length ∧
      (left.map most).sum + tripsLeft most opened ≤ (rest.map most).sum := by
  rcases Routines.resumeLogged_eq_ok_iff.mp resumed with
    ⟨step, routine, happened, logged, rfl⟩
  rcases lived.exists_left waiting with ⟨left, perm, expands, everyJob⟩
  have leads := follows.start (lived.mem_all waiting) lived.holds happened
  have records : RoutineLog.Records reached.2 (lives ++ [⟨job, [], step⟩]) := by
    rw [logged, lived.records.starts]
    exact lived.records.start job step
  have same : ∀ index, index ≠ lives.length →
      (lives ++ [⟨job, [], step⟩])[index]? = lives[index]? :=
    fun _ => getElem?_append_singleton_of_ne
  have apart : ∀ opened ∈ other, lives.length ≠ opened.number := by
    intro opened ofOther same
    have found := (lived.opened opened (Or.inr ofOther)).1
    rw [← same, List.getElem?_eq_none (Nat.le_refl _)] at found
    cases found
  have conserved : ((lives ++ [RoutineLife.mk job [] step]).map RoutineLife.job ++
      left).Perm all := by
    rw [List.map_append, List.append_assoc]
    exact everyJob
  rcases lived.settle records List.getElem?_concat_length same nofun apart leads
    expands conserved with ⟨opened, settled, budget⟩
  rw [lived.records.starts]
  refine ⟨_, opened, left, settled, ?_, ?_⟩
  · rw [perm.length_eq, List.length_cons]
  · rw [(perm.map most).sum_nat, List.map_cons, List.sum_cons]
    rw [List.length_nil] at budget
    omega

/-- A submission is waited for, and there is one round trip less to make. -/
theorem trip (follows : routines.Follows followUps most all holds)
    {held : OpenRoutine Job Routine Handle Output}
    (lived : Lived followUps most holds all run state lives (some held) other rest)
    (stats : RunStats) {output : Output}
    {result : RoutineStep (Nat × Handle) Job × NumberedRoutine Job Routine}
    {between reached : σ × RoutineLog Job Handle Output}
    (waited : routines.logged.wait held.slot.2 state = (.ok output, between))
    (resumed : routines.logged.resume (some output) held.slot.1 between =
      (.ok result, reached)) :
    ∃ next opened,
      Lived followUps most holds all
        (RoutineRun.settle { run with stats } result) reached next opened other rest ∧
      tripsLeft most opened + 1 ≤ tripsLeft most (some held) := by
  rcases held with ⟨number, job, trips, routine, handle⟩
  rcases Attempt.noting_eq_ok_iff.mp waited with ⟨happened, noted⟩
  rcases Routines.resumeLogged_eq_ok_iff.mp resumed with
    ⟨step, next, went, logged, rfl⟩
  rcases lived.opened _ (Or.inl rfl) with ⟨own, few⟩
  have inside := (List.getElem?_eq_some_iff.mp own).1
  have records : RoutineLog.Records reached.2
      (lives.set number ⟨job, trips ++ [(handle, output)], step⟩) := by
    rw [logged, noted]
    exact lived.records.trip own output step
  have leads : Routines.Leads followUps most holds job
      (trips ++ [(handle, output)]).length (status other) reached.1 (step, next) := by
    rw [List.length_append]
    exact follows.resume (follows.wait lived.holds happened) went
  have conserved :
      ((lives.set number ⟨job, trips ++ [(handle, output)], step⟩).map
        RoutineLife.job ++ rest).Perm all := by
    rw [RoutineLife.map_job_set own]
    exact lived.conserved
  have expands := lived.expands
  rw [requests_some] at expands
  have replaced : ∀ opened ∈ some (OpenRoutine.mk number job trips routine handle),
      opened.number = number := by
    rintro _ ⟨⟩
    rfl
  rcases lived.settle records (List.getElem?_set_self inside)
    (fun index different => List.getElem?_set_ne different.symm) replaced
    (lived.apart _ rfl) leads expands conserved with ⟨opened, settled, budget⟩
  refine ⟨_, opened, settled, ?_⟩
  rw [List.length_append, List.length_singleton] at budget
  change trips.length < most job at few
  show tripsLeft most opened + 1 ≤ most job - trips.length
  omega

/-! ## Termination -/

theorem exists_start (succeeds : routines.Succeeds all holds)
    (lived : Lived followUps most holds all run state lives none other rest)
    {job : Job} {stack : List Job} (waiting : run.stack = job :: stack) :
    ∃ result reached,
      routines.logged.resume none (routines.logged.start job) state =
        (.ok result, reached) := by
  rcases succeeds.start (lived.mem_all waiting) lived.holds with
    ⟨⟨step, routine⟩, reached, happened⟩
  exact ⟨_, (reached, _), Routines.resumeLogged_eq_ok_iff.mpr
    ⟨step, routine, happened, rfl, rfl⟩⟩

/-- With turns for all jobs that are left a slot is filled. -/
theorem exists_fill (follows : routines.Follows followUps most all holds)
    (succeeds : routines.Succeeds all holds) {bound : Nat}
    (lived : Lived followUps most holds all run state lives current other rest)
    (enough : rest.length < bound) :
    ∃ next reached nextLives opened left,
      run.fill routines.logged bound state = (.ok (some next), reached) ∧
      Lived followUps most holds all next reached nextLives opened other left ∧
      (next.current = none → next.stack = []) ∧
      left.length ≤ rest.length ∧
      (left.map most).sum + tripsLeft most opened ≤
        (rest.map most).sum + tripsLeft most current := by
  induction bound generalizing run state lives current rest with
  | zero => exact absurd enough (Nat.not_lt_zero _)
  | succ bound induction =>
      by_cases vacant : run.current = none
      · cases waiting : run.stack with
        | nil =>
            refine ⟨run, state, lives, current, rest, ?_, lived, fun _ => waiting,
              Nat.le_refl _, Nat.le_refl _⟩
            rw [fill_of_nil waiting]
            rfl
        | cons job stack =>
            have empty := lived.currentSlot.symm.trans vacant
            rw [Option.map_eq_none_iff] at empty
            subst empty
            rcases lived.exists_start succeeds waiting with ⟨result, between, resumed⟩
            rcases lived.start follows waiting resumed with
              ⟨begun, opened, left, started, fewer, budget⟩
            rcases induction started (by omega) with
              ⟨next, reached, nextLives, later, unstarted, filled, kept, fed, count,
                rest⟩
            refine ⟨next, reached, nextLives, later, unstarted, ?_, kept, fed,
              by omega, Nat.le_trans rest budget⟩
            rw [fill_of_cons vacant waiting, Attempt.bind_apply_ok resumed]
            exact filled
      · refine ⟨run, state, lives, current, rest, ?_, lived,
          fun none => absurd none vacant, Nat.le_refl _, Nat.le_refl _⟩
        rw [fill_of_busy vacant]
        rfl

theorem exists_trip (follows : routines.Follows followUps most all holds)
    (succeeds : routines.Succeeds all holds)
    {held : OpenRoutine Job Routine Handle Output}
    (lived : Lived followUps most holds all run state lives (some held) other rest) :
    ∃ output between result reached,
      routines.logged.wait held.slot.2 state = (.ok output, between) ∧
      routines.logged.resume (some output) held.slot.1 between =
        (.ok result, reached) := by
  rcases succeeds.wait lived.holds with ⟨output, between, waited⟩
  have ready := follows.wait lived.holds waited
  rcases succeeds.resume ready with ⟨⟨step, routine⟩, reached, resumed⟩
  have loggedWait : routines.logged.wait held.slot.2 state =
      (.ok output, (between, state.2 ++ [.wait held.number held.handle output])) :=
    Attempt.noting_eq_ok_iff.mpr ⟨waited, rfl⟩
  exact ⟨output, _, _, (reached, _), loggedWait,
    Routines.resumeLogged_eq_ok_iff.mpr ⟨step, routine, resumed, rfl, rfl⟩⟩

/-- A slot is served; if it holds a routine, there is one round trip less to make. -/
theorem exists_serve (follows : routines.Follows followUps most all holds)
    (succeeds : routines.Succeeds all holds)
    (lived : Lived followUps most holds all run state lives current other rest) :
    ∃ served reached next opened,
      run.serve routines.logged state = (.ok served, reached) ∧
      Lived followUps most holds all served reached next opened other rest ∧
      tripsLeft most opened + current.toList.length ≤ tripsLeft most current := by
  cases current with
  | none =>
      exact ⟨run, state, lives, none,
        serve_eq_ok_iff.mpr (Or.inl ⟨lived.currentSlot, rfl, rfl⟩), lived, Nat.le_refl _⟩
  | some held =>
      rcases lived.exists_trip follows succeeds with
        ⟨output, between, result, reached, waited, resumed⟩
      rcases lived.trip follows run.stats.noteRoundTrip waited resumed with
        ⟨next, opened, served, budget⟩
      exact ⟨_, reached, next, opened,
        serve_eq_ok_iff.mpr (Or.inr
          ⟨_, _, output, between, result, lived.currentSlot, waited, resumed, rfl⟩),
        served, budget⟩

/-- With both slots empty and no job waiting, every life is over. -/
theorem showsLives
    (lived : Lived followUps most holds all run state lives none none rest)
    (empty : run.stack = []) :
    RoutineLog.ShowsLives followUps all state.2 lives where
  jobs := by
    have expands := lived.expands
    rw [empty] at expands
    obtain rfl := expands.eq_nil
    simpa using lived.conserved
  starts := lived.records.starts
  calls := lived.records.shows
  endings := by
    intro life member
    rcases List.mem_iff_getElem?.mp member with ⟨number, found⟩
    rcases lived.ended number life found with ⟨_, ⟨⟨⟩⟩ | ⟨⟨⟩⟩, -⟩ | ended
    exact ended

/--
A run to the end.  A turn that serves a routine leaves one round trip less, and a
turn of an empty slot is followed by one that serves a routine.
-/
theorem exists_finish (follows : routines.Follows followUps most all holds)
    (succeeds : routines.Succeeds all holds) {bound : Nat}
    (lived : Lived followUps most holds all run state lives current other rest)
    (fed : run.other = none → run.stack = [])
    (enough :
      2 * ((rest.map most).sum + tripsLeft most current + tripsLeft most other) +
        rest.length + 3 ≤ bound + current.toList.length) :
    ∃ stats reached last,
      run.finish routines.logged bound state = (.ok (some stats), reached) ∧
      RoutineLog.ShowsLives followUps all reached.2 last := by
  induction bound generalizing run state lives current other rest with
  | zero =>
      have single : current.toList.length ≤ 1 := Option.length_toList_le
      omega
  | succ bound induction =>
      have single : current.toList.length ≤ 1 := Option.length_toList_le
      rcases Nat.eq_zero_or_pos (inFlight run.current run.other) with idle | busy
      · rw [inFlight_eq_zero_iff] at idle
        have noCurrent := lived.currentSlot.symm.trans idle.1
        have noOther := lived.otherSlot.symm.trans idle.2
        rw [Option.map_eq_none_iff] at noCurrent noOther
        subst noCurrent noOther
        refine ⟨run.stats.noteInFlight 0, state, lives, ?_,
          lived.showsLives (fed idle.2)⟩
        rw [finish_of_idle idle.1 idle.2]
        rfl
      · have held : 0 < current.toList.length + other.toList.length := by
          rwa [inFlight, lived.currentSlot, lived.otherSlot, Option.toList_map,
            Option.toList_map, List.length_map, List.length_map] at busy
        rcases (lived.withStats (run.stats.noteInFlight
          (inFlight run.current run.other))).exists_serve follows succeeds with
          ⟨served, between, next, opened, serving, afterServe, budget⟩
        have fuel : rest.length < bound := by omega
        rcases afterServe.exists_fill follows succeeds fuel with
          ⟨filled, later, lives, again, left, filling, afterFill, fed, count, less⟩
        rcases induction (afterFill.swap follows) fed (by omega) with
          ⟨stats, reached, last, finished, shows⟩
        refine ⟨stats, reached, last, ?_, shows⟩
        rw [finish_of_busy busy, Attempt.bind_apply_ok serving,
          Attempt.bind_apply_ok filling]
        exact finished

/-- Before a run nothing was started. -/
theorem initial {jobs : List Job} {start : σ} (vacant : holds .vacant .vacant start)
    (generated : Generates followUps jobs all) :
    Lived followUps most holds all ⟨pushJobs jobs [], none, none, .zero⟩
      (start, ([] : RoutineLog Job Handle Output)) [] none none all where
  currentSlot := rfl
  otherSlot := rfl
  holds := vacant
  records := .nil
  opened := by
    rintro opened (⟨⟨⟩⟩ | ⟨⟨⟩⟩)
  apart := nofun
  ended := nofun
  expands := by
    have same : jobs.Perm (pushJobs jobs []) := by
      simp [pushJobs]
    exact Expands.of_perm ⟨all, generated, .refl all⟩ same
  conserved := .refl all

end Lived

end RoutineRun

open RoutineRun in
/-- Routines that never refuse a call live their lives to the end. -/
theorem exists_interleaveRoutines
    {routines : Routines σ ε Job Routine Handle Output} {followUps : Job → List Job}
    {most : Job → Nat} {jobs all : List Job}
    {holds : SlotStatus Job Routine Handle Output →
      SlotStatus Job Routine Handle Output → σ → Prop} {bound : Nat} {state : σ}
    (follows : routines.Follows followUps most all holds)
    (succeeds : routines.Succeeds all holds) (vacant : holds .vacant .vacant state)
    (generated : Generates followUps jobs all)
    (enough : 2 * (all.map most).sum + all.length + 3 ≤ bound) :
    ∃ stats reached last,
      interleaveRoutines routines.logged bound jobs (state, []) =
        (.ok (some stats), reached) ∧
      RoutineLog.ShowsLives followUps all reached.2 last := by
  have begin : Lived followUps most holds all
      (⟨pushJobs jobs [], none, none, .zero⟩ :
        RoutineRun Job (NumberedRoutine Job Routine) (Nat × Handle))
      (state, []) [] none none all := .initial vacant generated
  have fuel : all.length < bound := by omega
  rcases begin.exists_fill follows succeeds fuel with
    ⟨one, between, lives, first, rest, filling, once, -, count, budget⟩
  have fuel : rest.length < bound := by omega
  rcases (once.swap follows).exists_fill follows succeeds fuel with
    ⟨two, later, lives, second, left, again, twice, fed, fewer, less⟩
  rw [tripsLeft_none] at budget less
  rcases (twice.swap follows).exists_finish follows succeeds fed
      (show _ ≤ bound + _ by omega) with
    ⟨stats, reached, last, finished, shows⟩
  refine ⟨stats, reached, last, ?_, shows⟩
  rw [interleaveRoutines]
  refine Attempt.bind_apply_eq_ok_iff.mpr ⟨some one, between, filling, ?_⟩
  exact Attempt.bind_apply_eq_ok_iff.mpr ⟨some two, later, again, finished⟩

end SolidField
