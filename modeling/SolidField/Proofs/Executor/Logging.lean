import SolidField.Proofs.Executor.Account

/-!
# Logs of complete runs

Logging changes nothing about a run.  The log of a complete run shows on either
lane one round after the other, each for a job of the forest, and a wait never
keeps a job waiting while the other lane is idle.
-/

namespace SolidField

variable {σ τ ε Job Handle Output : Type}

/-- A call of a log is the last one, or the calls before the last one show it. -/
theorem last_or_earlier {Call : Type} {log before after : List Call}
    {last call : Call} (same : log ++ [last] = before ++ call :: after) :
    (before = log ∧ last = call) ∨ ∃ rest, log = before ++ call :: rest := by
  rcases List.eq_nil_or_concat after with rfl | ⟨rest, final, rfl⟩
  · rcases List.append_inj' same rfl with ⟨rfl, final⟩
    exact Or.inl ⟨rfl, List.singleton_inj.mp final⟩
  · rw [List.concat_eq_append, ← List.cons_append, ← List.append_assoc] at same
    exact Or.inr ⟨rest, (List.append_inj' same rfl).1⟩

/-! ## Logging changes nothing -/

namespace Attempt

variable {β γ δ ζ κ : Type}

/-- An attempt does what another one does, apart from what the view leaves out. -/
def Erases (view : τ → σ) (erase : β → γ) (attempt : Attempt τ ε β)
    (visible : Attempt σ ε γ) : Prop :=
  ∀ state, visible (view state) =
    ((attempt state).1.map erase, view (attempt state).2)

theorem erases_pure {view : τ → σ} {erase : β → γ} {result : β} {other : γ}
    (same : erase result = other) :
    Erases view erase (pure result : Attempt τ ε β) (pure other) := by
  intro state
  rw [← same]
  rfl

theorem Erases.bind {view : τ → σ} {erase : β → γ} {last : δ → ζ}
    {attempt : Attempt τ ε β} {visible : Attempt σ ε γ}
    {next : β → Attempt τ ε δ} {visibleNext : γ → Attempt σ ε ζ}
    (first : Erases view erase attempt visible)
    (second : ∀ value, Erases view last (next value) (visibleNext (erase value))) :
    Erases view last (attempt >>= next) (visible >>= visibleNext) := by
  intro state
  have same := first state
  rcases attempted : attempt state with ⟨error | value, reached⟩
  · rw [attempted] at same
    rw [bind_apply_error attempted, bind_apply_error same]
    rfl
  · rw [attempted] at same
    rw [bind_apply_ok attempted, bind_apply_ok same, second value reached]

/-- An attempt on a larger state does to the visible part what another one does. -/
def Projects (view : τ → σ) (attempt : Attempt τ ε β) (visible : Attempt σ ε β) :
    Prop :=
  ∀ state, visible (view state) = ((attempt state).1, view (attempt state).2)

theorem projects_pure (view : τ → σ) (result : β) :
    Projects view (pure result : Attempt τ ε β) (pure result) :=
  fun _ => rfl

theorem projects_iff_erases {view : τ → σ} {attempt : Attempt τ ε β}
    {visible : Attempt σ ε β} :
    Projects view attempt visible ↔ Erases view id attempt visible := by
  simp only [Projects, Erases, Except.map_id, id]

theorem Projects.bind {view : τ → σ} {attempt : Attempt τ ε β}
    {visible : Attempt σ ε β} {next : β → Attempt τ ε γ}
    {visibleNext : β → Attempt σ ε γ} (first : Projects view attempt visible)
    (second : ∀ value, Projects view (next value) (visibleNext value)) :
    Projects view (attempt >>= next) (visible >>= visibleNext) := by
  rw [projects_iff_erases] at first ⊢
  exact first.bind fun value => projects_iff_erases.mp (second value)

theorem projects_noting (attempt : Attempt σ ε β) (note : β → κ) :
    Projects Prod.fst (attempt.noting note) attempt := by
  rintro ⟨state, notes⟩
  rcases attempted : attempt state with ⟨error | value, reached⟩ <;>
    simp only [noting, attempted]

/-- A note is taken of a result, and of nothing else. -/
theorem noting_eq_ok_iff {attempt : Attempt σ ε β} {note : β → κ} {state reached : σ}
    {before after : List κ} {result : β} :
    attempt.noting note (state, before) = (.ok result, (reached, after)) ↔
      attempt state = (.ok result, reached) ∧ after = before ++ [note result] := by
  rcases attempted : attempt state with ⟨error | value, between⟩
  · simp [noting, attempted]
  · simp only [noting, attempted, Prod.mk.injEq, Except.ok.injEq]
    constructor
    · rintro ⟨rfl, rfl, rfl⟩
      exact ⟨⟨rfl, rfl⟩, rfl⟩
    · rintro ⟨⟨rfl, rfl⟩, rfl⟩
      exact ⟨rfl, rfl, rfl⟩

end Attempt

/-- Lanes on a larger state do to the visible part what other lanes do. -/
structure Lanes.Projects (view : τ → σ) (lanes : Lanes τ ε Job Handle Output)
    (visible : Lanes σ ε Job Handle Output) : Prop where
  enqueue : ∀ side job,
    Attempt.Projects view (lanes.enqueue side job) (visible.enqueue side job)
  wait : ∀ side handle,
    Attempt.Projects view (lanes.wait side handle) (visible.wait side handle)
  process : ∀ side output,
    Attempt.Projects view (lanes.process side output) (visible.process side output)

namespace Lanes.Projects

open Attempt Interleaving

variable {view : τ → σ} {lanes : Lanes τ ε Job Handle Output}
  {visible : Lanes σ ε Job Handle Output}

theorem drain (projects : lanes.Projects view visible)
    (run : Interleaving Job Handle) :
    Attempt.Projects view (run.drain lanes) (run.drain visible) := by
  rw [Interleaving.drain, Interleaving.drain]
  cases run.current with
  | none => exact projects_pure _ _
  | some handle =>
      exact (projects.wait _ _).bind fun output =>
        (projects.process _ _).bind fun jobs => projects_pure _ _

theorem refill (projects : lanes.Projects view visible)
    (run : Interleaving Job Handle) :
    Attempt.Projects view (run.refill lanes) (run.refill visible) := by
  rw [Interleaving.refill, Interleaving.refill]
  cases run.stack with
  | nil => exact projects_pure _ _
  | cons job stack =>
      exact (projects.enqueue _ _).bind fun handle => projects_pure _ _

theorem finish (projects : lanes.Projects view visible) (bound : Nat)
    (run : Interleaving Job Handle) :
    Attempt.Projects view (run.finish lanes bound) (run.finish visible bound) := by
  induction bound generalizing run with
  | zero => exact projects_pure _ _
  | succ bound induction =>
      rw [Interleaving.finish, Interleaving.finish]
      refine Attempt.Projects.bind ?_ fun next => ?_
      · exact (projects.drain run).bind projects.refill
      · cases next.isIdle with
        | true => exact projects_pure _ _
        | false => exact induction next.swap

/-- A run on the larger state is a run on the visible part. -/
theorem interleave (projects : lanes.Projects view visible) (bound : Nat)
    (jobs : List Job) :
    Attempt.Projects view (SolidField.interleave lanes bound jobs)
      (SolidField.interleave visible bound jobs) := by
  rw [SolidField.interleave, SolidField.interleave]
  cases jobs.isEmpty with
  | true => exact projects_pure _ _
  | false =>
      exact (projects.refill _).bind fun one =>
        (projects.refill _).bind fun two => projects.finish bound two.swap

end Lanes.Projects

/-- Logging leaves every call as it is. -/
theorem Lanes.projects_logged (lanes : Lanes σ ε Job Handle Output) :
    lanes.logged.Projects Prod.fst lanes where
  enqueue _ _ := Attempt.projects_noting _ _
  wait _ _ := Attempt.projects_noting _ _
  process _ _ := Attempt.projects_noting _ _

/-- A run on logged lanes is a run on the lanes. -/
theorem projects_interleave (lanes : Lanes σ ε Job Handle Output) (bound : Nat)
    (jobs : List Job) :
    Attempt.Projects Prod.fst (interleave lanes.logged bound jobs)
      (interleave lanes bound jobs) :=
  lanes.projects_logged.interleave bound jobs

/-! ## Rounds -/

namespace LaneStatus

def processed : LaneStatus Job Handle Output → List Job
  | idle processed => processed
  | submitted processed _ _ => processed
  | readBack processed _ _ => processed

/-- The calls of the round that is under way. -/
def Underway (side : Side) (calls : LaneLog Job Handle Output) :
    LaneStatus Job Handle Output → Prop
  | idle _ => calls = []
  | submitted _ job handle => calls = [.enqueue side job handle]
  | readBack _ job output => ∃ handle,
      calls = [.enqueue side job handle, .wait side handle output]

end LaneStatus

namespace LaneLog

/-- On a lane there are rounds for the processed jobs and the one under way. -/
def Shows (followUps : Job → List Job) (side : Side)
    (status : LaneStatus Job Handle Output) (log : LaneLog Job Handle Output) :
    Prop :=
  ∃ (rounds : List (LaneRound Job Handle Output))
    (underway : LaneLog Job Handle Output),
    log.on side = rounds.flatMap (LaneRound.calls side) ++ underway ∧
      status.Underway side underway ∧
      rounds.map LaneRound.job = status.processed ∧
      ∀ round ∈ rounds, round.requested = followUps round.job

variable {followUps : Job → List Job} {side : Side}
  {status : LaneStatus Job Handle Output} {log : LaneLog Job Handle Output}
  {call : LaneCall Job Handle Output}

theorem on_append_other (log : LaneLog Job Handle Output)
    (call : LaneCall Job Handle Output) (other : call.side ≠ side) :
    (log ++ [call]).on side = log.on side := by
  rw [on, on, List.filter_append, List.filter_singleton, decide_eq_false other]
  exact List.append_nil _

theorem on_append_self (side : Side) (log : LaneLog Job Handle Output)
    (call : LaneCall Job Handle Output) (same : call.side = side) :
    (log ++ [call]).on side = log.on side ++ [call] := by
  rw [on, on, List.filter_append, List.filter_singleton, decide_eq_true same]
  rfl

/-- A call on one lane does not show on the other one. -/
theorem Shows.append_other (shows : Shows followUps side status log)
    (other : call.side ≠ side) :
    Shows followUps side status (log ++ [call]) := by
  rcases shows with ⟨rounds, underway, calls, rest⟩
  exact ⟨rounds, underway, (on_append_other log call other).trans calls, rest⟩

variable {processed : List Job} {job : Job} {handle : Handle} {output : Output}

theorem Shows.enqueue (shows : Shows followUps side (.idle processed) log) :
    Shows followUps side (.submitted processed job handle)
      (log ++ [.enqueue side job handle]) := by
  rcases shows with ⟨rounds, underway, calls, rfl, rest⟩
  refine ⟨rounds, [.enqueue side job handle], ?_, rfl, rest⟩
  rw [on_append_self side log _ rfl, calls, List.append_nil]

theorem Shows.wait (shows : Shows followUps side (.submitted processed job handle) log) :
    Shows followUps side (.readBack processed job output)
      (log ++ [.wait side handle output]) := by
  rcases shows with ⟨rounds, underway, calls, rfl, rest⟩
  refine ⟨rounds, [.enqueue side job handle, .wait side handle output], ?_,
    ⟨handle, rfl⟩, rest⟩
  rw [on_append_self side log _ rfl, calls, List.append_assoc]
  rfl

theorem Shows.process (shows : Shows followUps side (.readBack processed job output) log) :
    Shows followUps side (.idle (processed ++ [job]))
      (log ++ [.process side output (followUps job)]) := by
  rcases shows with ⟨rounds, underway, calls, ⟨handle, rfl⟩, jobs, asked⟩
  refine ⟨rounds ++ [⟨job, handle, output, followUps job⟩], [], ?_, rfl, ?_, ?_⟩
  · rw [on_append_self side log _ rfl, calls, List.flatMap_append,
      List.append_assoc, List.append_nil]
    rfl
  · rw [List.map_append, jobs]
    rfl
  · rw [List.forall_mem_append, List.forall_mem_singleton]
    exact ⟨asked, rfl⟩

end LaneLog

namespace Lanes

/-- What holds of the state of logged lanes. -/
def LoggedHolds (followUps : Job → List Job)
    (holds : Side → LaneStatus Job Handle Output → σ → Prop) (side : Side)
    (status : LaneStatus Job Handle Output)
    (state : σ × LaneLog Job Handle Output) : Prop :=
  holds side status state.1 ∧ LaneLog.Shows followUps side status state.2

variable {lanes : Lanes σ ε Job Handle Output} {followUps : Job → List Job}
  {holds : Side → LaneStatus Job Handle Output → σ → Prop}

/-- Logged lanes keep the protocol, and their log shows it. -/
theorem Follows.logged (follows : lanes.Follows followUps holds) :
    lanes.logged.Follows followUps (LoggedHolds followUps holds) where
  enqueue := by
    rintro side processed job handle other ⟨state, log⟩ ⟨reached, after⟩
      ⟨idle, shows⟩ ⟨otherHolds, otherShows⟩ called
    rcases Attempt.noting_eq_ok_iff.mp called with ⟨happened, rfl⟩
    rcases follows.enqueue idle otherHolds happened with ⟨submitted, kept⟩
    exact ⟨⟨submitted, shows.enqueue⟩,
      kept, otherShows.append_other side.ne_opposite⟩
  wait := by
    rintro side processed job handle output other ⟨state, log⟩ ⟨reached, after⟩
      ⟨submitted, shows⟩ ⟨otherHolds, otherShows⟩ called
    rcases Attempt.noting_eq_ok_iff.mp called with ⟨happened, rfl⟩
    rcases follows.wait submitted otherHolds happened with ⟨readBack, kept⟩
    exact ⟨⟨readBack, shows.wait⟩,
      kept, otherShows.append_other side.ne_opposite⟩
  process := by
    rintro side processed job output jobs other ⟨state, log⟩ ⟨reached, after⟩
      ⟨readBack, shows⟩ ⟨otherHolds, otherShows⟩ called
    rcases Attempt.noting_eq_ok_iff.mp called with ⟨happened, rfl⟩
    rcases follows.process readBack otherHolds happened with ⟨rfl, idle, kept⟩
    exact ⟨rfl, ⟨idle, shows.process⟩,
      kept, otherShows.append_other side.ne_opposite⟩

theorem Succeeds.logged (succeeds : lanes.Succeeds holds) :
    lanes.logged.Succeeds (LoggedHolds followUps holds) where
  enqueue := by
    rintro side processed ⟨state, log⟩ job ⟨idle, -⟩
    rcases succeeds.enqueue job idle with ⟨handle, reached, called⟩
    exact ⟨handle, (reached, _), Attempt.noting_eq_ok_iff.mpr ⟨called, rfl⟩⟩
  wait := by
    rintro side processed job handle ⟨state, log⟩ ⟨submitted, -⟩
    rcases succeeds.wait submitted with ⟨output, reached, called⟩
    exact ⟨output, (reached, _), Attempt.noting_eq_ok_iff.mpr ⟨called, rfl⟩⟩
  process := by
    rintro side processed job output ⟨state, log⟩ ⟨readBack, -⟩
    rcases succeeds.process readBack with ⟨jobs, reached, called⟩
    exact ⟨jobs, (reached, _), Attempt.noting_eq_ok_iff.mpr ⟨called, rfl⟩⟩

end Lanes

end SolidField
