import Mathlib.Data.Nat.SuccPred
import SolidField.Schedule.Trial
import SolidField.Proofs.Graph.Construction

/-!
# Counted uses

The uses that are counted before a trial are exact.  A node is used once for
every occurrence among the dependencies of the nodes that are used themselves,
and the root once more for the result of the program.
-/

universe u

namespace SolidField

namespace Graph

variable {α : Type u} {graph : Graph α}

theorem dependencies_of_node? {index : Nat} {node : Node α}
    (found : graph.node? ⟨index⟩ = some node) :
    graph.dependencies index = node.dependencies.map NodeId.index := by
  simp only [node?] at found
  simp only [dependencies, found]

theorem dependencies_of_le {index : Nat} (outside : graph.size ≤ index) :
    graph.dependencies index = [] := by
  have missing : graph.nodes[index]? = none := Array.getElem?_eq_none outside
  simp only [dependencies, missing]

/-- Only nodes of the graph have dependencies. -/
theorem lt_size_of_mem_dependencies {index dependency : Nat}
    (listed : dependency ∈ graph.dependencies index) : index < graph.size := by
  apply Nat.lt_of_not_le
  intro outside
  rw [dependencies_of_le outside] at listed
  cases listed

/-- Dependencies come before the nodes that have them. -/
theorem Valid.lt_of_mem_dependencies (valid : graph.Valid) {index : Nat} :
    ∀ dependency ∈ graph.dependencies index, dependency < index := by
  intro dependency member
  cases found : graph.node? ⟨index⟩ with
  | none =>
      rw [dependencies_of_le (node?_eq_none_iff.mp found)] at member
      cases member
  | some node =>
      rw [dependencies_of_node? found, List.mem_map] at member
      rcases member with ⟨id, member, rfl⟩
      exact valid.earlier found id member

theorem Valid.count_dependencies_eq_zero (valid : graph.Valid)
    {index other : Nat} (notBefore : index ≤ other) :
    (graph.dependencies index).count other = 0 := by
  rw [List.count_eq_zero]
  intro member
  have := valid.lt_of_mem_dependencies other member
  omega

/-- The evaluation point has no dependencies. -/
theorem Valid.dependencies_zero (valid : graph.Valid) : graph.dependencies 0 = [] := by
  rcases valid.point with ⟨point, found, -, none⟩
  rw [dependencies_of_node? found, none, List.map_nil]

theorem Valid.eq_zero_of_dependencies (valid : graph.Valid) {index : Nat}
    (inside : index < graph.size) (none : graph.dependencies index = []) :
    index = 0 := by
  apply Decidable.by_contra
  intro other
  rcases valid.exists_admissible inside other with ⟨node, found, admissible⟩
  have positive := Opcode.pos_of_accepts admissible.kernel admissible.arity
  rw [dependencies_of_node? found, List.map_eq_nil_iff] at none
  rw [none] at positive
  exact Nat.lt_irrefl 0 positive

/-! ## Counting -/

theorem size_foldl_modify {β : Type} (step : β → β) (positions : List Nat)
    (table : Array β) :
    (positions.foldl (fun table position => table.modify position step) table).size =
      table.size := by
  induction positions generalizing table with
  | nil => rfl
  | cons first positions induction => rw [List.foldl_cons, induction, Array.size_modify]

/-- An entry of a table takes a step for every occurrence of its position. -/
theorem getElem?_foldl_modify {β : Type} (step : β → β) (positions : List Nat)
    (table : Array β) (index : Nat) :
    (positions.foldl (fun table position => table.modify position step) table)[index]? =
      (table[index]?).map step^[positions.count index] := by
  induction positions generalizing table with
  | nil => simp
  | cons first positions induction =>
      rw [List.foldl_cons, induction, Array.getElem?_modify]
      by_cases same : first = index
      · rw [if_pos same, same, List.count_cons_self, Option.map_map, Function.iterate_succ]
      · rw [if_neg same, List.count_cons_of_ne same]

/-- Every occurrence of a dependency is one more use of it. -/
theorem getD_foldl_modify (dependencies : List Nat) {uses : Array Nat}
    {index : Nat} (inside : index < uses.size) :
    (dependencies.foldl
      (fun uses dependency => uses.modify dependency (· + 1)) uses).getD
        index 0 = uses.getD index 0 + dependencies.count index := by
  rw [Array.getD_eq_getD_getElem?, Array.getD_eq_getD_getElem?, getElem?_foldl_modify,
    Array.getElem?_eq_getElem inside, Option.map_some, Option.getD_some, Option.getD_some]
  exact Nat.succ_iterate _ _

theorem size_countUses (graph : Graph α) (bound : Nat) (uses : Array Nat) :
    (graph.countUses bound uses).size = uses.size := by
  induction bound generalizing uses with
  | zero => rfl
  | succ bound induction =>
      rw [countUses]
      split
      · exact induction uses
      · rw [induction, size_foldl_modify]

/-- The nodes below a bound that are used. -/
def used (uses : Array Nat) (bound : Nat) : List Nat :=
  (List.range bound).filter fun index => 0 < uses.getD index 0

/--
How often a node occurs among the dependencies of the used nodes below a
bound.
-/
def occurrences (graph : Graph α) (uses : Array Nat) (bound index : Nat) : Nat :=
  ((used uses bound).flatMap graph.dependencies).count index

theorem occurrences_succ (graph : Graph α) (uses : Array Nat)
    (bound index : Nat) :
    graph.occurrences uses (bound + 1) index =
      graph.occurrences uses bound index +
        if uses.getD bound 0 = 0 then 0
        else (graph.dependencies bound).count index := by
  simp only [occurrences, used, List.range_succ, List.filter_append,
    List.flatMap_append, List.count_append]
  by_cases unused : uses.getD bound 0 = 0
  · rw [if_pos unused, List.filter_cons_of_neg (by simp [unused]),
      List.filter_nil, List.flatMap_nil, List.count_nil]
  · have isUsed := Nat.pos_of_ne_zero unused
    rw [if_neg unused, List.filter_cons_of_pos (by simpa using isUsed),
      List.filter_nil, List.flatMap_singleton]

theorem occurrences_pos_iff {uses : Array Nat} {bound index : Nat} :
    0 < graph.occurrences uses bound index ↔
      ∃ other < bound, 0 < uses.getD other 0 ∧
        index ∈ graph.dependencies other := by
  induction bound with
  | zero => simp [occurrences, used]
  | succ bound induction =>
      rw [occurrences_succ, Nat.add_pos_iff_pos_or_pos, induction]
      constructor
      · rintro (⟨other, below, isUsed, listed⟩ | positive)
        · exact ⟨other, by omega, isUsed, listed⟩
        · split at positive
          · omega
          · exact ⟨bound, by omega, by omega, List.count_pos_iff.mp positive⟩
      · rintro ⟨other, below, isUsed, listed⟩
        by_cases last : other = bound
        · subst other
          rw [if_neg (by omega)]
          exact Or.inr (List.count_pos_iff.mpr listed)
        · exact Or.inl ⟨other, by omega, isUsed, listed⟩

/-- Nothing before a node depends on it. -/
theorem Valid.occurrences_eq_zero (valid : graph.Valid) (uses : Array Nat)
    {bound index : Nat} (below : bound ≤ index) :
    graph.occurrences uses bound index = 0 := by
  induction bound with
  | zero => rfl
  | succ bound induction =>
      rw [occurrences_succ, induction (by omega),
        valid.count_dependencies_eq_zero (by omega)]
      simp

/-- The count adds the occurrences among the nodes that it finds used. -/
theorem Valid.getD_countUses (valid : graph.Valid) {bound : Nat}
    {uses : Array Nat} (bounded : bound ≤ uses.size) {index : Nat}
    (inside : index < uses.size) :
    (graph.countUses bound uses).getD index 0 =
      uses.getD index 0 +
        graph.occurrences (graph.countUses bound uses) bound index := by
  induction bound generalizing uses index with
  | zero => rfl
  | succ bound induction =>
      -- The uses of the node at the bound are final: nothing below it depends on
      -- it.
      by_cases unused : uses.getD bound 0 = 0
      · have same : graph.countUses (bound + 1) uses =
            graph.countUses bound uses := by
          rw [countUses, if_pos unused]
        have counted : (graph.countUses bound uses).getD bound 0 = _ :=
          induction (by omega) (by omega)
        rw [valid.occurrences_eq_zero _ (Nat.le_refl _), unused] at counted
        rw [same, occurrences_succ, if_pos counted,
          induction (by omega) inside]
        rfl
      · have same : graph.countUses (bound + 1) uses =
            graph.countUses bound ((graph.dependencies bound).foldl
              (fun uses dependency => uses.modify dependency (· + 1)) uses) := by
          rw [countUses, if_neg unused]
        have size := size_foldl_modify (· + 1) (graph.dependencies bound) uses
        have counted : (graph.countUses bound
            ((graph.dependencies bound).foldl
              (fun uses dependency => uses.modify dependency (· + 1))
              uses)).getD bound 0 = _ :=
          induction (by omega) (by omega)
        rw [valid.occurrences_eq_zero _ (Nat.le_refl _),
          getD_foldl_modify _ (by omega)] at counted
        rw [same, occurrences_succ, if_neg (by omega),
          induction (by omega) (by omega), getD_foldl_modify _ inside]
        omega

/-! ## The uses of a program -/

theorem size_uses (graph : Graph α) (root : NodeId) :
    (graph.uses root).size = graph.size := by
  simp [uses, size_countUses]

/-- Only nodes of the graph are used. -/
theorem lt_size_of_uses_pos {root : NodeId} {index : Nat}
    (isUsed : 0 < (graph.uses root).getD index 0) : index < graph.size := by
  apply Nat.lt_of_not_le
  intro outside
  simp [Array.getD, size_uses, Nat.not_lt.mpr outside] at isUsed

/--
The uses of a node: its occurrences among the dependencies of used nodes,
and one more if it is the root.
-/
theorem Valid.getD_uses (valid : graph.Valid) (root : NodeId) {index : Nat}
    (inside : index < graph.size) :
    (graph.uses root).getD index 0 =
      (if index = root.index then 1 else 0) +
        graph.occurrences (graph.uses root) graph.size index := by
  rw [uses, valid.getD_countUses (by simp) (by simpa using inside)]
  congr 1
  by_cases isRoot : index = root.index
  · subst index
    simp [Array.getD, inside]
  · simp [Array.getD, inside, isRoot, Ne.symm isRoot]

/-- What a used node depends on is used. -/
theorem Valid.uses_pos_of_mem_dependencies (valid : graph.Valid)
    {root : NodeId} {index : Nat} (isUsed : 0 < (graph.uses root).getD index 0) :
    ∀ dependency ∈ graph.dependencies index,
      0 < (graph.uses root).getD dependency 0 := by
  intro dependency member
  have inside := lt_size_of_mem_dependencies member
  have before := valid.lt_of_mem_dependencies dependency member
  have occurs : 0 < graph.occurrences (graph.uses root) graph.size dependency :=
    occurrences_pos_iff.mpr ⟨index, inside, isUsed, member⟩
  rw [valid.getD_uses root (by omega)]
  omega

end Graph

end SolidField
