import Mathlib.Data.List.Nodup
import SolidField.Proofs.Schedule.Declared

/-!
# Operands apart

Where the operands of a node share the evaluation point only, what one of them needs
is used as often as it would be if the operand were the root.
-/

universe u

namespace SolidField

namespace Graph

variable {α : Type u} {graph : Graph α} {root id : NodeId}

theorem Valid.le_of_needs (valid : graph.Valid) (needs : graph.Needs root id) :
    id.index ≤ root.index := by
  induction needs with
  | root => exact Nat.le_refl _
  | dependency _ found listed induction =>
      exact Nat.le_trans (Nat.le_of_lt (valid.earlier found _ listed)) induction

/-- What a node needs apart from itself is needed by a dependency. -/
theorem Needs.eq_or_exists (needs : graph.Needs root id) :
    id = root ∨ ∃ dependency ∈ graph.dependencies root.index,
      graph.Needs ⟨dependency⟩ id := by
  induction needs with
  | root => exact Or.inl rfl
  | dependency _ found listed induction =>
      rcases induction with rfl | ⟨first, member, needs⟩
      · refine Or.inr ⟨_, ?_, .root⟩
        rw [dependencies_of_node? found]
        exact List.mem_map_of_mem listed
      · exact Or.inr ⟨first, member, .dependency needs found listed⟩

/-- The operands of a node are distinct, and share the evaluation point only. -/
structure Apart (graph : Graph α) (root : NodeId) : Prop where
  distinct : (graph.dependencies root.index).Nodup
  notPoint : 0 ∉ graph.dependencies root.index
  shared : ∀ first ∈ graph.dependencies root.index,
    ∀ second ∈ graph.dependencies root.index, ∀ id, graph.Needs ⟨first⟩ id →
      graph.Needs ⟨second⟩ id → first = second ∨ id.index = 0

theorem Apart.ne_zero (apart : graph.Apart root) {operand : Nat}
    (listed : operand ∈ graph.dependencies root.index) : operand ≠ 0 := by
  rintro rfl
  exact apart.notPoint listed

/-- The result of a program is used once. -/
theorem Valid.getD_uses_root (valid : graph.Valid) (inside : root.index < graph.size) :
    (graph.uses root).getD root.index 0 = 1 := by
  rw [valid.getD_uses root inside, if_pos rfl]
  suffices none : graph.occurrences (graph.uses root) graph.size root.index = 0 by
    rw [none]
  apply Nat.eq_zero_of_not_pos
  intro positive
  rcases occurrences_pos_iff.mp positive with ⟨other, below, isUsed, listed⟩
  have before := valid.lt_of_mem_dependencies _ listed
  have needs : graph.Needs root ⟨other⟩ := (valid.needs_iff inside).mpr isUsed
  have behind : other ≤ root.index := valid.le_of_needs needs
  omega

section Operand

variable {operand index : Nat}

/-- Of what an operand needs the node reads the operand alone, and once. -/
theorem Apart.count_dependencies (apart : graph.Apart root)
    (listed : operand ∈ graph.dependencies root.index)
    (needs : graph.Needs ⟨operand⟩ ⟨index⟩) (other : index ≠ 0) :
    (graph.dependencies root.index).count index = if index = operand then 1 else 0 := by
  by_cases same : index = operand
  · rw [if_pos same, same]
    exact List.count_eq_one_of_mem apart.distinct listed
  · rw [if_neg same, List.count_eq_zero]
    intro member
    rcases apart.shared operand listed index member ⟨index⟩ needs .root with
      equal | isPoint
    · exact same equal.symm
    · exact other isPoint

/-- The other readers of what an operand needs are those that the operand needs. -/
theorem Apart.uses_eq_zero_iff (apart : graph.Apart root) (valid : graph.Valid)
    (inside : root.index < graph.size)
    (listed : operand ∈ graph.dependencies root.index)
    (needs : graph.Needs ⟨operand⟩ ⟨index⟩) (other : index ≠ 0) {reader : Nat}
    (notRoot : reader ≠ root.index) (reads : index ∈ graph.dependencies reader) :
    (graph.uses root).getD reader 0 = 0 ↔ (graph.uses ⟨operand⟩).getD reader 0 = 0 := by
  suffices needed : graph.Needs root ⟨reader⟩ ↔ graph.Needs ⟨operand⟩ ⟨reader⟩ by
    have operandInside := valid.inside_of_mem_dependencies listed
    have used : 0 < (graph.uses root).getD reader 0 ↔
        0 < (graph.uses ⟨operand⟩).getD reader 0 :=
      (valid.needs_iff inside).symm.trans (needed.trans (valid.needs_iff operandInside))
    omega
  constructor
  · intro needed
    rcases needed.eq_or_exists with same | ⟨first, firstListed, further⟩
    · exact absurd (congrArg NodeId.index same) notRoot
    · have reaches := further.trans (needs_of_mem_dependencies reads)
      rcases apart.shared operand listed first firstListed ⟨index⟩ needs reaches with
        rfl | isPoint
      · exact further
      · exact absurd isPoint other
  · exact (needs_of_mem_dependencies listed).trans

/-- The root adds one occurrence to those below an operand, that of the operand itself. -/
theorem Apart.occurrences_eq (apart : graph.Apart root) (valid : graph.Valid)
    (inside : root.index < graph.size)
    (listed : operand ∈ graph.dependencies root.index)
    (needs : graph.Needs ⟨operand⟩ ⟨index⟩) (other : index ≠ 0) (bound : Nat) :
    graph.occurrences (graph.uses root) bound index =
      graph.occurrences (graph.uses ⟨operand⟩) bound index +
        if root.index < bound ∧ index = operand then 1 else 0 := by
  have rootUsed : (graph.uses root).getD root.index 0 ≠ 0 := by
    rw [valid.getD_uses_root inside]
    exact Nat.one_ne_zero
  have rootUnused : (graph.uses ⟨operand⟩).getD root.index 0 = 0 := by
    apply Nat.eq_zero_of_not_pos
    intro isUsed
    have needed : graph.Needs ⟨operand⟩ root :=
      (valid.needs_iff (valid.inside_of_mem_dependencies listed)).mpr isUsed
    have before := valid.lt_of_mem_dependencies operand listed
    have behind : root.index ≤ operand := valid.le_of_needs needed
    omega
  induction bound with
  | zero => rfl
  | succ bound induction =>
      rw [occurrences_succ, occurrences_succ, induction]
      by_cases isRoot : bound = root.index
      · subst isRoot
        rw [if_neg rootUsed, if_pos rootUnused,
          apart.count_dependencies listed needs other]
        simp
      · have same : root.index < bound + 1 ↔ root.index < bound := by omega
        simp only [same]
        by_cases reads : index ∈ graph.dependencies bound
        · simp only [apart.uses_eq_zero_iff valid inside listed needs other isRoot reads]
          omega
        · rw [List.count_eq_zero.mpr reads]
          simp

/-- Below an operand the uses are those that it has alone. -/
theorem Apart.getD_uses (apart : graph.Apart root) (valid : graph.Valid)
    (inside : root.index < graph.size)
    (listed : operand ∈ graph.dependencies root.index)
    (needs : graph.Needs ⟨operand⟩ ⟨index⟩) (other : index ≠ 0) :
    (graph.uses root).getD index 0 = (graph.uses ⟨operand⟩).getD index 0 := by
  have before := valid.lt_of_mem_dependencies operand listed
  have below : index ≤ operand := valid.le_of_needs needs
  have here : index < graph.size := by omega
  have notRoot : index ≠ root.index := by omega
  rw [valid.getD_uses root here, valid.getD_uses ⟨operand⟩ here,
    apart.occurrences_eq valid inside listed needs other, if_neg notRoot]
  simp only [inside, true_and]
  omega

end Operand

end Graph

end SolidField
