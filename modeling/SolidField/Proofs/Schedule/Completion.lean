import SolidField.Proofs.Schedule.Visit

/-!
# Complete histories

The history of a whole trial computes exactly the nodes that are used.  Every
value that it computes is read as often as the allocator was told to expect, and
the root is computed last.
-/

universe u

namespace SolidField

def Computed.node? : Computed → Option Nat
  | node index => some index
  | part _ _ => none

namespace History

variable {α : Type u} {graph : Graph α} {history : History}

/-! ## Counting demands -/

def nodes (history : History) : List Nat :=
  history.results.filterMap Computed.node?

theorem mem_nodes {index : Nat} :
    index ∈ history.nodes ↔ .node index ∈ history.results := by
  rw [nodes, List.mem_filterMap]
  constructor
  · rintro ⟨_ | _, member, same⟩
    · cases same
      exact member
    · cases same
  · exact fun member => ⟨_, member, rfl⟩

theorem Sound.nodup_nodes (sound : history.Sound) : history.nodes.Nodup := by
  refine List.Pairwise.filterMap Computed.node? ?_ sound.nodup
  rintro (_ | _) (_ | _) different first same second other <;>
    simp_all [Computed.node?]

theorem mem_demands {index dependency : Nat}
    (computed : .node index ∈ history.results)
    (listed : dependency ∈ graph.dependencies index) :
    .node dependency ∈ history.demands graph := by
  rcases List.mem_map.mp computed with ⟨application, member, result⟩
  refine List.mem_flatMap.mpr ⟨application, member, ?_⟩
  rw [Application.demands, result]
  exact List.mem_map_of_mem listed

/-- A node is demanded as often as the computed nodes depend on it. -/
theorem count_demands_node (graph : Graph α) (history : History) (index : Nat) :
    (history.demands graph).count (.node index) =
      (history.nodes.flatMap graph.dependencies).count index := by
  induction history with
  | nil => rfl
  | cons application earlier induction =>
      rcases application with ⟨result, inputs⟩
      rw [demands_cons, List.count_append, induction]
      cases result with
      | node owner =>
          simp only [Application.demands]
          rw [Placement.count_map_eq_count Computed.node
              fun other _ same => Computed.node.inj same]
          simp [nodes, Computed.node?]
      | part owner operand =>
          simp [Application.demands, nodes, List.filterMap_cons, Computed.node?]

/-- A partial application is demanded as often as it is computed. -/
theorem count_demands_part (graph : Graph α) (history : History) (owner : Nat)
    (operand : Operand) :
    (history.demands graph).count (.part owner operand) =
      history.results.count (.part owner operand) := by
  induction history with
  | nil => rfl
  | cons application earlier induction =>
      rcases application with ⟨result, inputs⟩
      rw [demands_cons, List.count_append, induction, results_cons,
        List.count_cons]
      cases result with
      | node index =>
          have absent : (Application.demands graph ⟨.node index, inputs⟩).count
              (.part owner operand) = 0 := by
            simp [Application.demands, List.count_eq_zero]
          simp [absent]
      | part other another =>
          rw [Application.demands, List.count_singleton, Nat.add_comm]

/-! ## Completeness -/

/-- What is true of the history of a whole trial. -/
structure Complete (graph : Graph α) (root : NodeId) (history : History) :
    Prop where
  /-- Everything is computed once, from what was computed before. -/
  sound : history.Sound
  /-- Every application is one of a node to its dependencies. -/
  shaped : ∀ application ∈ history, application.Shaped graph
  /-- The root is computed. -/
  computesRoot : .node root.index ∈ history.results
  /-- The nodes that are computed are used. -/
  isUsed : ∀ index, .node index ∈ history.results →
    index < graph.size ∧ 0 < (graph.uses root).getD index 0
  /-- What is read is what has to be. -/
  balanced : ∀ value,
    history.reads.count value = (history.demands graph).count value
  /-- A node is applied as often as it takes to compute it once. -/
  applied : ∀ index, history.owners.count index =
    history.results.count (.node index) * graph.applications index

/-- Whatever a trial arranges, its recording is one of a complete history. -/
theorem complete_record (valid : graph.Valid) {root : NodeId}
    (inside : root.index < graph.size) (order : TrialOrder) :
    (graph.record root order).history.Complete graph root ∧
      (graph.record root order).Follows graph (graph.uses root)
        (graph.record root order).history := by
  have rootUsed : 0 < (graph.uses root).getD root.index 0 := by
    rw [valid.getD_uses root inside, if_pos rfl]
    omega
  have start := Recording.follows_start graph (graph.uses root) order
  have computes : Recording.Computes graph (graph.uses root)
      (fun index => 0 < (graph.uses root).getD index 0) graph.size
      (Recording.enter (Recording.visit graph (graph.uses root) graph.size) root.index)
      (.node root.index) [root.index] 0 :=
    Recording.computes_enter valid
      (fun index => valid.uses_pos_of_mem_dependencies) inside inside rootUsed
      inside
  rcases
      computes [] (.start graph.size order) start trivial
        (by simp [Ready, owners]) (by simp) with
    ⟨history, follows, -, progress⟩
  rw [List.append_nil] at follows
  have entered : (Recording.start graph.size order).trial.register? root.index = none :=
    start.trial.register? root.index
  rw [Recording.enter, entered] at follows
  have recorded : (graph.record root order).history = history := follows.history
  rw [recorded]
  refine ⟨?_, follows⟩
  have sound := progress.sound
  have computed := progress.computed
  have balanced := progress.balanced
  rw [List.append_nil] at sound computed
  refine ⟨sound, progress.shaped, computed _ (by simp), progress.needed, ?_, ?_⟩
  · intro value
    have balanced := balanced value
    simp only [List.map_cons, List.map_nil, List.count_append] at balanced
    omega
  · intro index
    by_cases last : index = graph.size
    · have absent : Computed.node index ∉ history.results := fun member =>
        Nat.lt_irrefl _ (last ▸ (progress.needed index member).1)
      rw [List.count_eq_zero.mpr absent, last, progress.opened, Nat.zero_mul]
    · exact progress.closed index last

variable {root : NodeId}

/-- What a computed node depends on is computed. -/
theorem Complete.mem_results_of_mem_dependencies
    (complete : history.Complete graph root) {index dependency : Nat}
    (computed : .node index ∈ history.results)
    (listed : dependency ∈ graph.dependencies index) :
    .node dependency ∈ history.results := by
  have demanded : 0 < (history.demands graph).count (.node dependency) :=
    List.count_pos_iff.mpr (mem_demands computed listed)
  rw [← complete.balanced, List.count_pos_iff] at demanded
  exact complete.sound.mem_results_of_mem_reads _ demanded

/-- Every node that is used is computed. -/
theorem Complete.mem_results_of_used (valid : graph.Valid)
    (complete : history.Complete graph root) {index : Nat}
    (inside : index < graph.size)
    (isUsed : 0 < (graph.uses root).getD index 0) :
    .node index ∈ history.results := by
  -- Down from the last node: what uses a node is behind it.
  induction distance : graph.size - index using Nat.strongRecOn
    generalizing index with
  | ind distance induction =>
      subst distance
      rw [valid.getD_uses root inside] at isUsed
      by_cases isRoot : index = root.index
      · exact isRoot ▸ complete.computesRoot
      · rw [if_neg isRoot, Nat.zero_add, Graph.occurrences_pos_iff] at isUsed
        rcases isUsed with ⟨other, below, otherUsed, listed⟩
        have before := valid.lt_of_mem_dependencies index listed
        have computed := induction (graph.size - other) (by omega) below
          otherUsed rfl
        exact complete.mem_results_of_mem_dependencies computed listed

/-- The nodes that are computed are those that are used. -/
theorem Complete.perm_nodes (valid : graph.Valid)
    (complete : history.Complete graph root) :
    history.nodes.Perm (Graph.used (graph.uses root) graph.size) := by
  apply (List.perm_ext_iff_of_nodup complete.sound.nodup_nodes
    (List.nodup_range.filter _)).mpr
  intro index
  simp only [mem_nodes, List.mem_filter, List.mem_range,
    decide_eq_true_eq]
  exact ⟨complete.isUsed index,
    fun ⟨inside, isUsed⟩ => complete.mem_results_of_used valid inside isUsed⟩

/-- Whatever is computed is told to the allocator with a positive number of reads. -/
theorem Complete.uses_pos (complete : history.Complete graph root) {value : Computed}
    (member : value ∈ history.results) : 0 < value.uses (graph.uses root) := by
  cases value with
  | node index => exact (complete.isUsed index member).2
  | part owner operand => exact Nat.one_pos

/-- The allocator is told as many reads as there are, the result included. -/
theorem Complete.uses_eq (valid : graph.Valid)
    (complete : history.Complete graph root) {value : Computed}
    (member : value ∈ history.results) :
    value.uses (graph.uses root) =
      history.reads.count value + if value = .node root.index then 1 else 0 := by
  rw [complete.balanced]
  cases value with
  | node index =>
      rcases complete.isUsed index member with ⟨inside, -⟩
      rw [Computed.uses, valid.getD_uses root inside, count_demands_node,
        ((complete.perm_nodes valid).flatMap_right _).count_eq,
        Graph.occurrences,
        Nat.add_comm]
      simp
  | part owner operand =>
      rw [count_demands_part]
      have once := List.nodup_iff_count.mp complete.sound.nodup
        (.part owner operand)
      have computed := List.count_pos_iff.mpr member
      simp [Computed.uses]
      omega

/-- The nodes that are used are applied as often as it takes to compute them. -/
theorem Complete.count_owners (valid : graph.Valid)
    (complete : history.Complete graph root) (index : Nat) :
    history.owners.count index =
      if 0 < (graph.uses root).getD index 0 then graph.applications index
      else 0 := by
  rw [complete.applied]
  split
  · next isUsed =>
      have member := complete.mem_results_of_used valid
        (Graph.lt_size_of_uses_pos isUsed) isUsed
      have positive := List.count_pos_iff.mpr member
      have once := List.nodup_iff_count.mp complete.sound.nodup (.node index)
      rw [Nat.le_antisymm once positive, Nat.one_mul]
  · next unused =>
      have absent : Computed.node index ∉ history.results := fun member =>
        unused (complete.isUsed index member).2
      rw [List.count_eq_zero.mpr absent, Nat.zero_mul]

/-- The root is computed last. -/
theorem Complete.result_eq (valid : graph.Valid) {application : Application}
    {earlier : History}
    (complete : Complete graph root (application :: earlier)) :
    application.result = .node root.index := by
  apply Decidable.by_contra
  intro different
  have member : application.result ∈ results (application :: earlier) := by
    simp
  have uses := complete.uses_eq valid member
  rw [if_neg different,
    List.count_eq_zero.mpr complete.sound.not_mem_reads] at uses
  cases result : application.result with
  | node index =>
      have isUsed := (complete.isUsed index (result ▸ member)).2
      rw [result, Computed.uses] at uses
      omega
  | part owner operand =>
      rw [result, Computed.uses] at uses
      omega

/-! ## Applied nodes -/

/--
Every application but that of the evaluation point applies an admissible
node.
-/
theorem Complete.exists_admissible (valid : graph.Valid)
    (complete : history.Complete graph root) {application : Application}
    (member : application ∈ history) (other : application.result ≠ .node 0) :
    ∃ node, graph.node? ⟨application.result.owner⟩ = some node ∧
      node.Admissible application.result.owner := by
  cases complete.shaped application member with
  | node perm declared =>
      rename_i index order
      apply valid.exists_admissible
      · exact (complete.isUsed index (List.mem_map_of_mem member)).1
      · exact fun isZero => other (congrArg Computed.node isZero)
  | part many =>
      rename_i owner first second
      have inside : owner < graph.size := by
        apply Nat.lt_of_not_le
        intro outside
        rw [Graph.dependencies_of_le outside] at many
        cases many
      have notPoint : owner ≠ 0 := by
        rintro rfl
        rw [valid.dependencies_zero] at many
        cases many
      exact valid.exists_admissible inside notPoint

/-! ## Pending reads -/

/-- The placement after a history of the program that returns a root. -/
abbrev placement (graph : Graph α) (root : NodeId) (history : History) :
    Placement :=
  Placement.ofHistory graph (graph.uses root) history

/--
The reads of a value that later applications make, the result of the program
included.
-/
def pending (root : NodeId) (later : History) (value : Computed) : Nat :=
  later.reads.count value + if value = .node root.index then 1 else 0

theorem pending_append (root : NodeId) (later : History)
    (application : Application) (value : Computed) :
    pending root (later ++ [application]) value =
      application.inputs.count value + pending root later value := by
  simp only [pending, reads_append, reads_cons, List.count_append]
  simp only [reads, List.flatMap_nil, List.count_nil]
  omega

theorem Complete.uses_eq_pending (valid : graph.Valid) {later earlier : History}
    {application : Application}
    (complete : Complete graph root (later ++ application :: earlier)) :
    application.result.uses (graph.uses root) =
      pending root later application.result := by
  have unread := List.count_eq_zero.mpr complete.sound.of_append.not_mem_reads
  rw [complete.uses_eq valid (by simp), pending, reads_append,
    List.count_append, unread]
  rfl

/-- The latest application of the earlier part is the first of the later one. -/
theorem Complete.regroup {later earlier : History} {application : Application}
    (complete : Complete graph root (later ++ application :: earlier)) :
    Complete graph root (later ++ [application] ++ earlier) := by
  simpa using complete

/-- At every moment the allocator keeps what is still to be read apart. -/
theorem Complete.allocated (valid : graph.Valid) (later : History)
    {earlier : History} (complete : Complete graph root (later ++ earlier)) :
    (placement graph root earlier).Allocated
      earlier.results (pending root later) := by
  -- The application at the front of the earlier part is pending for that part.
  induction earlier generalizing later with
  | nil => constructor <;> simp [results]
  | cons application earlier induction =>
      have sound := complete.sound.of_append
      have before := induction (later ++ [application]) complete.regroup
      exact before.apply sound.1 sound.2.1
        (fun value _ => pending_append root later application value)
        (complete.uses_eq_pending valid)

/-! ## The evaluation point -/

/-- Whatever is computed, the evaluation point is computed first. -/
theorem Complete.point_mem_results (valid : graph.Valid) (later : History)
    {earlier : History}
    (complete : Complete graph root (later ++ earlier))
    (nonempty : earlier ≠ []) : .node 0 ∈ earlier.results := by
  induction earlier generalizing later with
  | nil => exact absurd rfl nonempty
  | cons application earlier induction =>
      rw [results_cons, List.mem_cons]
      match earlier with
      | _ :: _ =>
          exact Or.inr (induction (later ++ [application]) complete.regroup (by simp))
      | [] =>
          have unread : application.inputs = [] :=
            List.eq_nil_iff_forall_not_mem.mpr fun input read => by
              simpa [results] using complete.sound.of_append.1 input read
          cases complete.shaped application (by simp) with
          | part many => cases unread
          | node perm declared =>
              rename_i index order
              simp only [List.map_eq_nil_iff] at unread
              have leaves := Operand.perm_leaves_ofDependencies order
              rw [unread] at leaves
              have empty := (leaves.trans perm).nil_eq
              have inside := (complete.isUsed index (by simp)).1
              rw [valid.eq_zero_of_dependencies inside empty.symm]
              exact Or.inl rfl

end History

end SolidField
