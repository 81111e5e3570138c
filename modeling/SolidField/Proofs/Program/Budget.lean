import SolidField.Proofs.Program.Compilation
import SolidField.Proofs.Schedule.Optimum

/-!
# Budgets of trials and registers

What compilation does when it may run more trials or use more registers: more
trials never lose a program, and the number of registers that are allowed decides
whether there is a program but not which one.
-/

namespace SolidField

namespace Graph

variable {graph larger : Graph Single} {root : NodeId} {config : CompileConfig}
  {program : Program}

/-- A program is the same at every larger budget of registers. -/
theorem compile_of_le
    (compiled : graph.compile root config = .ok (program, larger)) {budget : Nat}
    (wider : config.maxRegisters ≤ budget) (addressable : budget ≤ maxRegisters) :
    graph.compile root { config with maxRegisters := budget } =
      .ok (program, larger) := by
  rcases compile_eq_ok_iff.mp compiled with
    ⟨positive, -, schedule, best, fits, result⟩
  exact compile_eq_ok_iff.mpr
    ⟨Nat.lt_of_lt_of_le positive wider, addressable, schedule, best,
      Nat.le_trans fits wider, result⟩

/-- Below the registers of its program, a root is refused for their number. -/
theorem compile_of_lt
    (compiled : graph.compile root config = .ok (program, larger)) {budget : Nat}
    (positive : 0 < budget) (narrower : budget < program.registerCount) :
    graph.compile root { config with maxRegisters := budget } =
      .error (.registerBudgetExceeded program.registerCount budget) := by
  rcases compile_eq_ok_iff.mp compiled with
    ⟨-, addressable, schedule, best, fits, rfl, -⟩
  have needed : schedule.registersNeeded ≤ maxRegisters :=
    Nat.le_trans fits addressable
  exact compile_eq_error best positive
    (Nat.le_of_lt (Nat.lt_of_lt_of_le narrower needed)) narrower

/-- What compiles with few trials compiles with more, to no more registers. -/
theorem exists_compile_of_le
    (compiled : graph.compile root config = .ok (program, larger)) {passes : Nat}
    (longer : lastTrial config.randomPasses ≤ lastTrial passes) :
    ∃ other result,
      graph.compile root { config with randomPasses := passes } =
          .ok (other, result) ∧
        other.registerCount ≤ program.registerCount := by
  rcases compile_eq_ok_iff.mp compiled with
    ⟨positive, addressable, schedule, best, fits, rfl, -⟩
  have inside := inside_of_bestSchedule best
  rcases exists_bestSchedule inside passes config.seed with
    ⟨improved, found, optimum⟩
  have fewer : improved.registersNeeded ≤ schedule.registersNeeded := by
    rcases (optimum_of_bestSchedule best).eq_or_fewer inside optimum longer with
      rfl | fewer
    · exact Nat.le_refl _
    · exact Nat.le_of_lt fewer
  refine ⟨improved.program graph, improved.assignRegisters graph, ?_, fewer⟩
  exact compile_eq_ok_iff.mpr
    ⟨positive, addressable, improved, found, Nat.le_trans fewer fits, rfl, rfl⟩

/--
The search finds the trial with the fewest registers, the earliest of equals,
however its trials are divided, and a longer search finds the same schedule or one
with fewer registers.  So what compiles with few trials compiles with more.  What
compiles with some number of registers gives the same program with every larger
number, and with a number below that of the program it is refused for it.
-/
theorem search_is_optimal_and_monotone (graph : Graph Single) (root : NodeId)
    (seed : UInt64) {passes more : Nat} (longer : passes ≤ more)
    (counted : more + 2 < UInt64.size) :
    (root.index < graph.size →
      ∃ schedule improved,
        graph.bestSchedule root passes seed = .ok schedule ∧
          graph.Optimum root seed (passes + 1) schedule ∧
          (∀ division : Division,
            (∀ trial, trial ∈ division.trials ↔
                0 < trial ∧ trial ≤ passes + 1) →
              graph.bestDivided (graph.uses root) root seed division =
                schedule) ∧
          graph.bestSchedule root more seed = .ok improved ∧
          improved.registersNeeded ≤ schedule.registersNeeded ∧
          (improved ≠ schedule →
            improved.registersNeeded < schedule.registersNeeded)) ∧
      (∀ budget program larger,
        graph.compile root ⟨passes, seed, budget⟩ = .ok (program, larger) →
          ∃ other result,
            graph.compile root ⟨more, seed, budget⟩ = .ok (other, result)) ∧
      ∀ config program larger,
        graph.compile root config = .ok (program, larger) →
          (∀ budget, config.maxRegisters ≤ budget → budget ≤ 256 →
            graph.compile root { config with maxRegisters := budget } =
              .ok (program, larger)) ∧
          ∀ budget, 0 < budget → budget < program.registerCount →
            graph.compile root { config with maxRegisters := budget } =
              .error
                (.registerBudgetExceeded program.registerCount budget) := by
  have last : lastTrial passes = passes + 1 := lastTrial_eq (by omega)
  have lastMore : lastTrial more = more + 1 := lastTrial_eq counted
  refine ⟨?_, ?_, ?_⟩
  · intro inside
    rcases exists_bestSchedule inside passes seed with ⟨schedule, found, optimum⟩
    rcases exists_bestSchedule inside more seed with
      ⟨improved, foundMore, optimumMore⟩
    rw [last] at optimum
    rw [lastMore] at optimumMore
    have change := optimum.eq_or_fewer inside optimumMore
      (Nat.succ_le_succ longer)
    refine ⟨schedule, improved, found, optimum, ?_, foundMore, ?_, ?_⟩
    · intro division covers
      rw [bestDivided_eq_bestUpTo inside seed covers]
      exact (optimum_bestUpTo inside seed (passes + 1)).unique inside optimum
    · rcases change with rfl | fewer
      · exact Nat.le_refl _
      · exact Nat.le_of_lt fewer
    · exact change.resolve_left
  · intro budget program larger compiled
    have longerTrials : lastTrial passes ≤ lastTrial more := by
      rw [last, lastMore]
      exact Nat.succ_le_succ longer
    rcases exists_compile_of_le compiled longerTrials with
      ⟨other, result, recompiled, -⟩
    exact ⟨other, result, recompiled⟩
  · intro config program larger compiled
    constructor
    · intro budget wider addressable
      exact compile_of_le compiled wider addressable
    · intro budget positive narrower
      exact compile_of_lt compiled positive narrower

/--
The shared union compiles to one program with two registers or more, and not with
one; two workers find its schedule as one does.
-/
theorem sharedUnion_is_optimal_and_monotone :
    let graph := initial.makeAll sharedUnion
    (∃ schedule, graph.bestSchedule ⟨3⟩ 1 7 = .ok schedule ∧
      graph.Optimum ⟨3⟩ 7 2 schedule ∧
      graph.bestDivided (graph.uses ⟨3⟩) ⟨3⟩ 7 (.split (.trial 2) (.trial 1)) =
        schedule) ∧
      (∃ other result, graph.compile ⟨3⟩ ⟨5, 7, 2⟩ = .ok (other, result)) ∧
      (∃ program larger, ∀ budget, 2 ≤ budget → budget ≤ 256 →
        graph.compile ⟨3⟩ ⟨1, 7, budget⟩ = .ok (program, larger)) ∧
      graph.compile ⟨3⟩ ⟨1, 7, 1⟩ = .error (.registerBudgetExceeded 2 1) := by
  intro graph
  rcases exists_compile_sharedUnion with ⟨⟨program, larger⟩, compiled, two⟩
  have inside : (⟨3⟩ : NodeId).index < graph.size := by decide +kernel
  rcases
      search_is_optimal_and_monotone graph ⟨3⟩ 7 (show 1 ≤ 5 by decide)
        (by decide) with
    ⟨optimal, longer, budgets⟩
  rcases optimal inside with ⟨schedule, -, found, optimum, divided, -⟩
  have byTwo := divided (.split (.trial 2) (.trial 1)) (by
    intro trial
    simp only [Division.trials, List.mem_append, List.mem_singleton]
    omega)
  rcases budgets _ _ _ compiled with ⟨wider, narrower⟩
  have refused := narrower 1 (by decide) (by rw [two]; decide)
  rw [two] at refused
  exact ⟨⟨schedule, found, optimum, byTwo⟩, longer 2 program larger compiled,
    ⟨program, larger, wider⟩, refused⟩

end Graph

end SolidField
