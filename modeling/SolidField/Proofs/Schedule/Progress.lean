import SolidField.Proofs.Schedule.History

/-!
# Progress of a visit

A visit of a node adds applications to a history.  `History.Progress` says what
is true of them at every moment: which nodes they compute, how often each node is
applied, and that every read was demanded.  Progress is put together from that of
the inputs, one application at a time.
-/

universe u

namespace SolidField

/-- The number of applications that compute a node from its dependencies. -/
def Graph.applications {α : Type u} (graph : Graph α) (index : Nat) : Nat :=
  max 1 ((graph.dependencies index).length - 1)

/-! ## The operands of a node -/

namespace Operand

variable {dependencies : List Nat}

/-- The operands are made of the dependencies. -/
theorem perm_leaves_ofDependencies (dependencies : List Nat) :
    ((ofDependencies dependencies).flatMap leaves).Perm dependencies := by
  by_cases many : 2 < dependencies.length
  · rcases ofDependencies_of_two_lt many with
      ⟨first, others, last, rfl, operands, -⟩
    rw [operands]
    simp only [List.flatMap_cons, List.flatMap_nil, leaves, leaves_chain,
      List.append_nil, List.singleton_append]
    rw [← List.cons_append]
    exact (List.perm_append_singleton last (first :: others)).symm
  · rw [ofDependencies_of_le_two (Nat.le_of_not_lt many), List.flatMap_map]
    simp [leaves]

/-- Every application but the outermost is one of the operands. -/
theorem totalFolds_ofDependencies (dependencies : List Nat) :
    totalFolds (ofDependencies dependencies) + 1 =
      max 1 (dependencies.length - 1) := by
  by_cases many : 2 < dependencies.length
  · rcases ofDependencies_of_two_lt many with
      ⟨first, others, last, -, operands, length⟩
    rw [operands]
    simp only [totalFolds, folds, folds_chain]
    omega
  · rcases dependencies with _ | ⟨first, _ | ⟨second, _ | ⟨third, rest⟩⟩⟩
    · rfl
    · rfl
    · rfl
    · simp at many

theorem isChain_of_mem_ofDependencies {operand : Operand}
    (member : operand ∈ ofDependencies dependencies) : operand.IsChain := by
  by_cases many : 2 < dependencies.length
  · rcases ofDependencies_of_two_lt many with
      ⟨first, others, last, -, operands, -⟩
    rw [operands, List.mem_cons, List.mem_singleton] at member
    rcases member with rfl | rfl
    · trivial
    · exact isChain_chain (show (node first).IsChain from trivial) others
  · rw [ofDependencies_of_le_two (Nat.le_of_not_lt many), List.mem_map] at member
    rcases member with ⟨index, -, rfl⟩
    trivial

/-- Only more than two dependencies take partial applications. -/
theorem two_lt_of_folds_pos {operand : Operand}
    (member : operand ∈ ofDependencies dependencies)
    (positive : 0 < operand.folds) : 2 < dependencies.length := by
  apply Nat.lt_of_not_le
  intro few
  rw [ofDependencies_of_le_two few, List.mem_map] at member
  rcases member with ⟨index, -, rfl⟩
  exact Nat.lt_irrefl 0 positive

/-- There are up to two operands, and one of two is a node. -/
theorem ofDependencies_cases (dependencies : List Nat) :
    ofDependencies dependencies = [] ∨
      (∃ operand, ofDependencies dependencies = [operand]) ∨
      ∃ first second, ofDependencies dependencies = [first, second] ∧
        (first.folds = 0 ∨ second.folds = 0) := by
  by_cases many : 2 < dependencies.length
  · rcases ofDependencies_of_two_lt many with
      ⟨first, others, last, -, operands, -⟩
    exact Or.inr (Or.inr ⟨_, _, operands, Or.inl rfl⟩)
  · match dependencies with
    | [] => exact Or.inl rfl
    | [first] => exact Or.inr (Or.inl ⟨_, rfl⟩)
    | [first, second] => exact Or.inr (Or.inr ⟨_, _, rfl, Or.inl rfl⟩)
    | _ :: _ :: _ :: _ => simp at many

end Operand

namespace History

variable {α : Type u}

/-- Every node before the given one that was ever applied is computed. -/
def Ready (history : History) (owner : Nat) : Prop :=
  ∀ index ∈ history.owners, index < owner → .node index ∈ history.results

theorem mem_owners_of_mem_results {history : History} {computed : Computed}
    (member : computed ∈ history.results) : computed.owner ∈ history.owners := by
  rcases List.mem_map.mp member with ⟨application, listed, rfl⟩
  exact List.mem_map_of_mem listed

/--
What a visit of a node has added to a known history, when it holds some inputs
made of certain nodes by a number of partial applications.
-/
structure Progress (graph : Graph α) (needed : Nat → Prop) (owner : Nat)
    (known more : History) (inputs : List Computed) (leaves : List Nat)
    (folds : Nat) : Prop where
  /-- Everything is computed once, from what was computed before. -/
  sound : (more ++ known).Sound
  computed : ∀ input ∈ inputs, input ∈ (more ++ known).results
  /-- Every application is one of a node to its dependencies. -/
  shaped : ∀ application ∈ more, application.Shaped graph
  /-- The nodes that are computed are needed, and come before the visited one. -/
  needed : ∀ index, .node index ∈ more.results → index < owner ∧ needed index
  /-- The partial applications of the visited node are no larger than the inputs. -/
  parts : ∀ operand, .part owner operand ∈ more.results → operand.folds ≤ folds
  /-- What is read, or held to be read, is what has to be. -/
  balanced : ∀ value, (more.reads ++ inputs).count value =
    (more.demands graph ++ leaves.map Computed.node).count value
  /-- The visited node is applied as often as the inputs have applications. -/
  opened : more.owners.count owner = folds
  /-- Other nodes are applied as often as it takes to compute them. -/
  closed : ∀ index, index ≠ owner → more.owners.count index =
    more.results.count (.node index) * graph.applications index

variable {graph : Graph α} {needed : Nat → Prop} {owner : Nat}
  {known more : History} {inputs : List Computed} {leaves : List Nat}
  {folds : Nat}

/-- A node that is already computed is an input. -/
theorem Progress.leaf (sound : known.Sound) {index : Nat}
    (member : .node index ∈ known.results) :
    Progress graph needed owner known [] [.node index] [index] 0 where
  sound := sound
  computed := by simpa using member
  shaped := by simp
  needed := by simp [results]
  parts := by simp [results]
  balanced := by simp [reads, demands]
  opened := by simp [owners]
  closed := by simp [owners, results]

/-- Nothing but the visited node is left half computed. -/
theorem Progress.node_mem_results
    (progress : Progress graph needed owner known more inputs leaves folds)
    {index : Nat} (different : index ≠ owner) (applied : index ∈ more.owners) :
    .node index ∈ more.results := by
  have count := progress.closed index different
  have positive := List.count_pos_iff.mpr applied
  rw [count] at positive
  exact List.count_pos_iff.mp (Nat.pos_of_mul_pos_right positive)

/-- Only the visited node and nodes before it are applied. -/
theorem Progress.le_of_mem_owners
    (progress : Progress graph needed owner known more inputs leaves folds)
    {index : Nat} (applied : index ∈ more.owners) : index ≤ owner := by
  by_cases same : index = owner
  · omega
  · have := (progress.needed index (progress.node_mem_results same applied)).1
    omega

theorem Progress.ready
    (progress : Progress graph needed owner known more inputs leaves folds)
    (ready : known.Ready owner) : (more ++ known).Ready owner := by
  intro index applied before
  rw [owners_append, List.mem_append] at applied
  rw [results_append, List.mem_append]
  rcases applied with applied | applied
  · exact Or.inl (progress.node_mem_results (by omega) applied)
  · exact Or.inr (ready index applied before)

theorem Progress.perm
    (progress : Progress graph needed owner known more inputs leaves folds)
    {otherInputs : List Computed} {otherLeaves : List Nat} {otherFolds : Nat}
    (sameInputs : otherInputs.Perm inputs) (sameLeaves : otherLeaves.Perm leaves)
    (sameFolds : otherFolds = folds) :
    Progress graph needed owner known more otherInputs otherLeaves
      otherFolds where
  sound := progress.sound
  computed := fun input member =>
    progress.computed input (sameInputs.mem_iff.mp member)
  shaped := progress.shaped
  needed := progress.needed
  parts := fun operand member => sameFolds ▸ progress.parts operand member
  balanced := by
    intro value
    have balanced := progress.balanced value
    rw [List.count_append, List.count_append] at balanced ⊢
    rwa [sameInputs.count_eq, (sameLeaves.map _).count_eq]
  opened := progress.opened.trans sameFolds.symm
  closed := progress.closed

/-- Progress upon progress is progress. -/
theorem Progress.append
    (progress : Progress graph needed owner known more inputs leaves folds)
    {most : History} {otherInputs : List Computed} {otherLeaves : List Nat}
    {otherFolds : Nat}
    (other : Progress graph needed owner (more ++ known) most otherInputs
      otherLeaves otherFolds) :
    Progress graph needed owner known (most ++ more) (inputs ++ otherInputs)
      (leaves ++ otherLeaves) (folds + otherFolds) where
  sound := by simpa using other.sound
  computed := by
    intro input member
    rw [List.append_assoc, results_append, List.mem_append]
    rcases List.mem_append.mp member with member | member
    · exact Or.inr (progress.computed input member)
    · have computed := other.computed input member
      rwa [results_append, List.mem_append] at computed
  shaped := by
    rw [List.forall_mem_append]
    exact ⟨other.shaped, progress.shaped⟩
  needed := by
    intro index member
    rw [results_append, List.mem_append] at member
    exact member.elim (other.needed index) (progress.needed index)
  parts := by
    intro operand member
    rw [results_append, List.mem_append] at member
    rcases member with member | member
    · exact Nat.le_add_left_of_le (other.parts operand member)
    · exact Nat.le_add_right_of_le (progress.parts operand member)
  balanced := by
    intro value
    have first := progress.balanced value
    have second := other.balanced value
    simp only [reads_append, demands_append, List.map_append,
      List.count_append] at first second ⊢
    omega
  opened := by
    rw [owners_append, List.count_append, other.opened, progress.opened]
    omega
  closed := by
    intro index different
    rw [owners_append, results_append, List.count_append, List.count_append,
      other.closed index different, progress.closed index different,
      Nat.add_mul]

/-- A partial application of two inputs is an input. -/
theorem Progress.fold {first second : Operand}
    (progress : Progress graph needed owner known more
      [.ofOperand owner first, .ofOperand owner second] leaves
      (first.folds + second.folds))
    (many : 2 < (graph.dependencies owner).length)
    (untouched : owner ∉ known.owners) :
    Progress graph needed owner known
      (⟨.part owner (.fold first second),
        [.ofOperand owner first, .ofOperand owner second]⟩ :: more)
      [.part owner (.fold first second)] leaves
      (first.folds + second.folds + 1) where
  sound := by
    rw [List.cons_append, sound_cons]
    refine ⟨progress.computed, ?_, progress.sound⟩
    rw [results_append, List.mem_append]
    rintro (member | member)
    -- The inputs do not hold a partial application as large as the new one.
    · have := progress.parts _ member
      simp only [Operand.folds] at this
      omega
    · exact untouched (mem_owners_of_mem_results member)
  computed := by simp
  shaped := by
    rw [List.forall_mem_cons]
    exact ⟨.part many, progress.shaped⟩
  needed := by simpa using progress.needed
  parts := by
    intro operand member
    rw [results_cons, List.mem_cons] at member
    rcases member with equal | member
    · cases equal
      exact Nat.le_refl _
    · exact Nat.le_succ_of_le (progress.parts operand member)
  balanced := by
    intro value
    have balanced := progress.balanced value
    simp only [reads_cons, demands_cons, Application.demands,
      List.count_append] at balanced ⊢
    omega
  opened := by
    rw [owners_cons, List.count_cons, progress.opened]
    simp [Computed.owner]
  closed := by
    intro index different
    rw [owners_cons, results_cons, List.count_cons, List.count_cons,
      progress.closed index different]
    simp [Computed.owner, Ne.symm different]

/-- The outermost application of a node makes it an input of later ones. -/
theorem Progress.node {index : Nat} {order : List Nat}
    (progress : Progress graph needed index known more
      ((Operand.ofDependencies order).map (.ofOperand index))
      ((Operand.ofDependencies order).flatMap Operand.leaves)
      (Operand.totalFolds (Operand.ofDependencies order)))
    (perm : order.Perm (graph.dependencies index))
    (declared : (graph.dependencies index).length ≤ 2 →
      order = graph.dependencies index)
    (fresh : .node index ∉ known.results) (isNeeded : needed index)
    (before : index < owner) :
    Progress graph needed owner known
      (⟨.node index, (Operand.ofDependencies order).map (.ofOperand index)⟩ ::
        more)
      [.node index] [index] 0 := by
  have notYet : Computed.node index ∉ more.results := fun member =>
    Nat.lt_irrefl _ (progress.needed index member).1
  have notLater : owner ∉ more.owners := fun applied => by
    have := progress.le_of_mem_owners applied
    omega
  have applied : more.owners.count index + 1 = graph.applications index := by
    rw [progress.opened, Operand.totalFolds_ofDependencies, perm.length_eq,
      Graph.applications]
  constructor
  · rw [List.cons_append, sound_cons]
    refine ⟨progress.computed, ?_, progress.sound⟩
    rw [results_append, List.mem_append]
    exact fun member => member.elim notYet fresh
  · simp
  · rw [List.forall_mem_cons]
    exact ⟨.node perm declared, progress.shaped⟩
  · intro other member
    rw [results_cons, List.mem_cons] at member
    rcases member with equal | member
    · cases equal
      exact ⟨before, isNeeded⟩
    · have earlier := progress.needed other member
      exact ⟨by omega, earlier.2⟩
  · intro operand member
    rw [results_cons, List.mem_cons] at member
    rcases member with equal | member
    · cases equal
    · exact absurd (mem_owners_of_mem_results member) notLater
  · intro value
    have balanced := progress.balanced value
    have leaves := (((Operand.perm_leaves_ofDependencies order).trans perm).map
      Computed.node).count_eq value
    simp only [reads_cons, demands_cons, Application.demands, List.map_cons,
      List.map_nil, List.count_append] at balanced leaves ⊢
    omega
  · rw [owners_cons, List.count_cons, List.count_eq_zero.mpr notLater]
    simp [Computed.owner, Nat.ne_of_lt before]
  · intro other different
    rw [owners_cons, results_cons, List.count_cons, List.count_cons]
    by_cases same : other = index
    · subst other
      simp only [Computed.owner, beq_self_eq_true, if_true,
        List.count_eq_zero.mpr notYet, applied]
      omega
    · rw [progress.closed other same]
      simp [Computed.owner, Ne.symm same]

end History

end SolidField
