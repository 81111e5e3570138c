import SolidField.Schedule.Search

/-!
# The optimum of the search

The search finds the trial that needs the fewest registers, the earliest one of
those that need as many.  A trial is the same however many trials are run, so that
a longer search finds the schedule of a shorter one or one that needs fewer
registers.
-/

universe u

namespace SolidField

namespace Schedule

variable {first second third : Schedule}

theorem Precedes.trans (before : first.Precedes second)
    (after : second.Precedes third) : first.Precedes third := by
  unfold Precedes at *
  omega

theorem Precedes.asymm (before : first.Precedes second) :
    ¬second.Precedes first := by
  unfold Precedes at *
  omega

theorem Precedes.of_not (kept : ¬second.Precedes first)
    (different : first.trial ≠ second.trial) : first.Precedes second := by
  unfold Precedes at *
  omega

/-- Of two schedules in the order of their trials, the better one precedes. -/
theorem better_cases (earlier : first.trial < second.trial) :
    (first.better second = first ∧ first.Precedes second) ∨
      (first.better second = second ∧ second.Precedes first) := by
  unfold better Precedes
  by_cases fewer : second.registersNeeded < first.registersNeeded
  · exact Or.inr ⟨if_pos fewer, Or.inl fewer⟩
  · refine Or.inl ⟨if_neg fewer, ?_⟩
    omega

end Schedule

/-- A division finds the trial that precedes its other trials. -/
theorem Division.exists_least {run : Nat → Schedule}
    (numbered : ∀ number, (run number).trial = number) (division : Division) :
    ∃ number ∈ division.trials, division.least run = run number ∧
      ∀ other ∈ division.trials, other ≠ number →
        (run number).Precedes (run other) := by
  induction division with
  | trial number =>
      refine ⟨number, List.mem_singleton_self number, rfl, ?_⟩
      intro other member different
      exact absurd (List.mem_singleton.mp member) different
  | split first second firstInduction secondInduction =>
      rcases firstInduction with ⟨left, inFirst, leftLeast, leftBefore⟩
      rcases secondInduction with ⟨right, inSecond, rightLeast, rightBefore⟩
      simp only [trials, List.mem_append, least, leftLeast, rightLeast]
      by_cases before : (run right).Precedes (run left)
      · refine ⟨right, Or.inr inSecond, if_pos before, ?_⟩
        rintro other (member | member) different
        · by_cases same : other = left
          · rwa [same]
          · exact before.trans (leftBefore other member same)
        · exact rightBefore other member different
      · refine ⟨left, Or.inl inFirst, if_neg before, ?_⟩
        rintro other (member | member) different
        · exact leftBefore other member different
        · by_cases same : left = right
          · rw [same] at different ⊢
            exact rightBefore other member different
          · have after : (run left).Precedes (run right) :=
              .of_not before (by rwa [numbered, numbered])
            by_cases found : other = right
            · rwa [found]
            · exact after.trans (rightBefore other member found)

namespace Graph

variable {α : Type u} {graph : Graph α} {root : NodeId} {seed : UInt64}
  {last later : Nat} {schedule other : Schedule}

/-- The schedule of a numbered trial of a search. -/
def trialSchedule (graph : Graph α) (root : NodeId) (seed : UInt64)
    (trial : Nat) : Schedule :=
  graph.scheduleWith (graph.uses root) root (.ofTrial trial seed) trial

theorem schedule_ofTrial (inside : root.index < graph.size) (seed : UInt64)
    (trial : Nat) :
    graph.schedule root (.ofTrial trial seed) trial =
      .ok (graph.trialSchedule root seed trial) := by
  rw [Graph.schedule, require, if_neg (Nat.not_le.mpr inside)]
  rfl

/--
A schedule is the optimum of a search: one of its trials up to the last one, and
it precedes all other ones.
-/
structure Optimum (graph : Graph α) (root : NodeId) (seed : UInt64) (last : Nat)
    (schedule : Schedule) : Prop where
  tried : schedule.trial ≤ last
  isTrial : graph.schedule root (.ofTrial schedule.trial seed) schedule.trial =
    .ok schedule
  precedes : ∀ trial ≤ last, trial ≠ schedule.trial →
    ∃ other, graph.schedule root (.ofTrial trial seed) trial = .ok other ∧
      schedule.Precedes other

namespace Optimum

theorem precedes_trialSchedule (optimum : graph.Optimum root seed last schedule)
    (inside : root.index < graph.size) {trial : Nat} (tried : trial ≤ last)
    (different : trial ≠ schedule.trial) :
    schedule.Precedes (graph.trialSchedule root seed trial) := by
  rcases optimum.precedes trial tried different with ⟨other, scheduled, before⟩
  rw [schedule_ofTrial inside, Except.ok.injEq] at scheduled
  rwa [scheduled]

/-- The optimum needs no more registers than any trial. -/
theorem registersNeeded_le (optimum : graph.Optimum root seed last schedule)
    {trial : Nat} (tried : trial ≤ last) {other : Schedule}
    (scheduled : graph.schedule root (.ofTrial trial seed) trial = .ok other) :
    schedule.registersNeeded ≤ other.registersNeeded := by
  by_cases same : trial = schedule.trial
  · rw [same, optimum.isTrial, Except.ok.injEq] at scheduled
    exact Nat.le_of_eq (congrArg Schedule.registersNeeded scheduled)
  · rcases optimum.precedes trial tried same with ⟨found, isFound, before⟩
    rw [scheduled, Except.ok.injEq] at isFound
    subst isFound
    rcases before with fewer | ⟨equal, -⟩
    · exact Nat.le_of_lt fewer
    · exact Nat.le_of_eq equal

theorem eq_trialSchedule (optimum : graph.Optimum root seed last schedule)
    (inside : root.index < graph.size) :
    schedule = graph.trialSchedule root seed schedule.trial := by
  have isTrial := optimum.isTrial
  rw [schedule_ofTrial inside, Except.ok.injEq] at isTrial
  exact isTrial.symm

theorem of_trialSchedule (inside : root.index < graph.size) {trial : Nat}
    (tried : trial ≤ last)
    (precedes : ∀ other ≤ last, other ≠ trial →
      (graph.trialSchedule root seed trial).Precedes
        (graph.trialSchedule root seed other)) :
    graph.Optimum root seed last (graph.trialSchedule root seed trial) where
  tried := tried
  isTrial := schedule_ofTrial inside seed trial
  precedes other listed different :=
    ⟨_, schedule_ofTrial inside seed other, precedes other listed different⟩

/-- There is one optimum. -/
theorem unique (inside : root.index < graph.size)
    (optimum : graph.Optimum root seed last schedule)
    (another : graph.Optimum root seed last other) : schedule = other := by
  have first := optimum.eq_trialSchedule inside
  have second := another.eq_trialSchedule inside
  by_cases same : schedule.trial = other.trial
  · rw [first, same, ← second]
  · have before := optimum.precedes_trialSchedule inside another.tried (Ne.symm same)
    have after := another.precedes_trialSchedule inside optimum.tried same
    rw [← second] at before
    rw [← first] at after
    exact absurd after before.asymm

/-- The optimum of one trial more. -/
theorem better (inside : root.index < graph.size)
    (optimum : graph.Optimum root seed last schedule) :
    graph.Optimum root seed (last + 1)
      (schedule.better (graph.trialSchedule root seed (last + 1))) := by
  have known := optimum.eq_trialSchedule inside
  have tried := optimum.tried
  have earlier : schedule.trial <
      (graph.trialSchedule root seed (last + 1)).trial :=
    Nat.lt_succ_of_le tried
  rcases Schedule.better_cases earlier with ⟨kept, before⟩ | ⟨replaced, before⟩
  · rw [kept, known]
    refine of_trialSchedule inside (Nat.le_succ_of_le tried) ?_
    rw [← known]
    intro other listed different
    by_cases new : other = last + 1
    · rw [new]
      exact before
    · exact optimum.precedes_trialSchedule inside (by omega) different
  · rw [replaced]
    refine of_trialSchedule inside (Nat.le_refl _) ?_
    intro other listed different
    by_cases former : other = schedule.trial
    · rw [former, ← known]
      exact before
    · exact before.trans
        (optimum.precedes_trialSchedule inside (by omega) former)

/-- A longer search has the same optimum or one that needs fewer registers. -/
theorem eq_or_fewer (inside : root.index < graph.size)
    (optimum : graph.Optimum root seed last schedule)
    (another : graph.Optimum root seed later other) (longer : last ≤ later) :
    other = schedule ∨ other.registersNeeded < schedule.registersNeeded := by
  have first := optimum.eq_trialSchedule inside
  have second := another.eq_trialSchedule inside
  have tried := optimum.tried
  by_cases same : other.trial = schedule.trial
  · exact Or.inl (by rw [second, same, ← first])
  · right
    have before := another.precedes_trialSchedule inside
      (Nat.le_trans tried longer) (Ne.symm same)
    rw [← first] at before
    -- A tie would go to the earlier trial, which the shorter search has tried.
    rcases before with fewer | ⟨tie, earlier⟩
    · exact fewer
    · have after := optimum.precedes_trialSchedule inside
        (Nat.le_of_lt (Nat.lt_of_lt_of_le earlier tried)) same
      rw [← second] at after
      exact absurd (Or.inr ⟨tie, earlier⟩) after.asymm

end Optimum

/-! ## Searches -/

theorem optimum_bestUpTo (inside : root.index < graph.size) (seed : UInt64)
    (last : Nat) :
    graph.Optimum root seed last
      (graph.bestUpTo (graph.uses root) root seed last) := by
  induction last with
  | zero =>
      refine Optimum.of_trialSchedule inside (Nat.le_refl 0) ?_
      intro other listed different
      exact absurd (Nat.le_zero.mp listed) different
  | succ last induction => exact induction.better inside

/--
However the trials from the first to the last one are divided, the search finds
the same schedule as one trial after the other.
-/
theorem bestDivided_eq_bestUpTo (inside : root.index < graph.size)
    (seed : UInt64) {division : Division}
    (covers : ∀ trial, trial ∈ division.trials ↔ 0 < trial ∧ trial ≤ last) :
    graph.bestDivided (graph.uses root) root seed division =
      graph.bestUpTo (graph.uses root) root seed last := by
  refine Optimum.unique inside ?_ (optimum_bestUpTo inside seed last)
  rcases
      division.exists_least (fun number => rfl :
        ∀ number, (graph.trialSchedule root seed number).trial = number) with
    ⟨winner, member, least, before⟩
  rcases (covers winner).mp member with ⟨positive, tried⟩
  have divided : graph.bestDivided (graph.uses root) root seed division =
      (graph.trialSchedule root seed 0).better
        (graph.trialSchedule root seed winner) :=
    congrArg _ least
  rw [divided]
  rcases Schedule.better_cases
      (show (graph.trialSchedule root seed 0).trial <
        (graph.trialSchedule root seed winner).trial from positive) with
    ⟨kept, first⟩ | ⟨replaced, first⟩
  · rw [kept]
    refine Optimum.of_trialSchedule inside (Nat.zero_le last) ?_
    intro other listed different
    by_cases same : other = winner
    · rwa [same]
    · have others := (covers other).mpr ⟨Nat.pos_of_ne_zero different, listed⟩
      exact first.trans (before other others same)
  · rw [replaced]
    refine Optimum.of_trialSchedule inside tried ?_
    intro other listed different
    by_cases isFirst : other = 0
    · rwa [isFirst]
    · have others := (covers other).mpr ⟨Nat.pos_of_ne_zero isFirst, listed⟩
      exact before other others different

/-- The search finds the optimum of its trials. -/
theorem exists_bestSchedule (inside : root.index < graph.size) (passes : Nat)
    (seed : UInt64) :
    ∃ schedule, graph.bestSchedule root passes seed = .ok schedule ∧
      graph.Optimum root seed (lastTrial passes) schedule := by
  refine ⟨_, ?_, optimum_bestUpTo inside seed (lastTrial passes)⟩
  rw [bestSchedule, require, if_neg (Nat.not_le.mpr inside)]
  rfl

/-- A search that finds a schedule has a root in the graph. -/
theorem inside_of_bestSchedule {passes : Nat}
    (found : graph.bestSchedule root passes seed = .ok schedule) :
    root.index < graph.size := by
  refine Nat.lt_of_not_le fun outside => ?_
  rw [bestSchedule, require, if_pos outside] at found
  cases found

theorem optimum_of_bestSchedule {passes : Nat}
    (found : graph.bestSchedule root passes seed = .ok schedule) :
    graph.Optimum root seed (lastTrial passes) schedule := by
  rcases exists_bestSchedule (inside_of_bestSchedule found) passes seed with
    ⟨other, same, optimum⟩
  rw [found, Except.ok.injEq] at same
  rwa [same]

end Graph

end SolidField
