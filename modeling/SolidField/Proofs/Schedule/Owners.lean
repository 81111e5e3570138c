import Mathlib.Data.List.Basic
import SolidField.Proofs.Schedule.Completion

/-!
# What the applications of a node read

In a complete history the outermost application of a node comes after the partial
ones.  Together they read every partial result and every occurrence of a dependency
of the node, each once, however the dependencies were arranged.
-/

universe u

namespace SolidField

/-! ## The nodes that a value is made of -/

namespace Computed

def leaves : Computed → List Nat
  | node index => [index]
  | part _ operand => operand.leaves

def isPart : Computed → Bool
  | node _ => false
  | part _ _ => true

@[simp]
theorem leaves_ofOperand (owner : Nat) (operand : Operand) :
    (ofOperand owner operand).leaves = operand.leaves := by
  cases operand <;> rfl

theorem owner_of_ofOperand_eq_part {owner other : Nat} {operand same : Operand}
    (equal : ofOperand owner operand = part other same) : other = owner := by
  cases operand with
  | node index => cases equal
  | fold first second => exact (Computed.part.inj equal).1.symm

/-- Values that are nodes are the nodes that they are made of. -/
theorem eq_map_leaves {values : List Computed}
    (nodes : ∀ value ∈ values, value.isPart = false) :
    values = (values.flatMap leaves).map node := by
  induction values with
  | nil => rfl
  | cons value values induction =>
      rw [List.forall_mem_cons] at nodes
      rw [List.flatMap_cons, List.map_append, ← induction nodes.2]
      cases value with
      | node index => rfl
      | part owner operand => cases nodes.1

end Computed

namespace Application

variable {α : Type u} {graph : Graph α} {application : Application}

/-- A partial result is read by applications of its own node. -/
theorem Shaped.owner_of_read (shaped : application.Shaped graph) {owner : Nat}
    {operand : Operand} (read : .part owner operand ∈ application.inputs) :
    application.result.owner = owner := by
  cases shaped with
  | node perm declared =>
      rcases List.mem_map.mp read with ⟨other, -, equal⟩
      exact (Computed.owner_of_ofOperand_eq_part equal).symm
  | part many =>
      rw [List.mem_cons, List.mem_singleton] at read
      rcases read with equal | equal
      · exact (Computed.owner_of_ofOperand_eq_part equal.symm).symm
      · exact (Computed.owner_of_ofOperand_eq_part equal.symm).symm

/-- The outermost application of a node is made of its dependencies. -/
theorem Shaped.perm_leaves (shaped : application.Shaped graph) {index : Nat}
    (result : application.result = .node index) :
    (application.inputs.flatMap Computed.leaves).Perm (graph.dependencies index) := by
  cases shaped with
  | part many => cases result
  | @node index order perm declared =>
      cases result
      refine List.Perm.trans ?_ perm
      rw [List.flatMap_map]
      simp only [Computed.leaves_ofOperand]
      exact Operand.perm_leaves_ofDependencies order

/-- A partial application is made of what its inputs are made of. -/
theorem Shaped.leaves_part (shaped : application.Shaped graph) {owner : Nat}
    {operand : Operand} (result : application.result = .part owner operand) :
    application.inputs.flatMap Computed.leaves = application.result.leaves := by
  cases shaped with
  | node perm declared => cases result
  | part many =>
      rw [List.flatMap_cons, List.flatMap_singleton, Computed.leaves_ofOperand,
        Computed.leaves_ofOperand]
      rfl

end Application

namespace History

variable {α : Type u} {graph : Graph α} {root : NodeId} {history : History}

/-! ## The applications of a node -/

/-- The applications of a node, the latest first. -/
def ofOwner (history : History) (owner : Nat) : History :=
  history.filter fun application => application.result.owner = owner

theorem mem_ofOwner {owner : Nat} {application : Application} :
    application ∈ history.ofOwner owner ↔
      application ∈ history ∧ application.result.owner = owner := by
  rw [ofOwner, List.mem_filter, decide_eq_true_eq]

theorem ofOwner_cons_of_eq {application : Application} {earlier : History}
    {owner : Nat} (own : application.result.owner = owner) :
    ofOwner (application :: earlier) owner = application :: ofOwner earlier owner :=
  List.filter_cons_of_pos (decide_eq_true own)

theorem ofOwner_cons_of_ne {application : Application} {earlier : History}
    {owner : Nat} (other : application.result.owner ≠ owner) :
    ofOwner (application :: earlier) owner = ofOwner earlier owner :=
  List.filter_cons_of_neg (by simpa using other)

/-- A partial result is read by the applications of its node only. -/
theorem count_reads_ofOwner
    (shaped : ∀ application ∈ history, application.Shaped graph) (owner : Nat)
    (operand : Operand) :
    (history.ofOwner owner).reads.count (.part owner operand) =
      history.reads.count (.part owner operand) := by
  induction history with
  | nil => rfl
  | cons application earlier induction =>
      rw [List.forall_mem_cons] at shaped
      rw [reads_cons, List.count_append, ← induction shaped.2]
      by_cases own : application.result.owner = owner
      · rw [ofOwner_cons_of_eq own, reads_cons, List.count_append]
      · have unread : Computed.part owner operand ∉ application.inputs :=
          fun read => own (shaped.1.owner_of_read read)
        rw [ofOwner_cons_of_ne own, List.count_eq_zero.mpr unread, Nat.zero_add]

theorem count_results_ofOwner (history : History) (value : Computed) :
    (history.ofOwner value.owner).results.count value = history.results.count value := by
  induction history with
  | nil => rfl
  | cons application earlier induction =>
      by_cases own : application.result.owner = value.owner
      · rw [ofOwner_cons_of_eq own, results_cons, results_cons, List.count_cons,
          List.count_cons, induction]
      · have other : application.result ≠ value := fun same => own (same ▸ rfl)
        rw [ofOwner_cons_of_ne own, results_cons, List.count_cons_of_ne other, induction]

/-- The applications of a node that is computed are the outermost one and parts. -/
structure Outermost (history : History) (index : Nat) (application : Application)
    (parts : History) : Prop where
  ofOwner : history.ofOwner index = application :: parts
  result : application.result = .node index
  parts : ∀ part ∈ parts, ∃ operand, part.result = .part index operand

/-- A partial result is read later, by an application of the same node. -/
theorem Complete.exists_later_reader (valid : graph.Valid) {later earlier : History}
    {application : Application}
    (complete : (later ++ application :: earlier : History).Complete graph root)
    {owner : Nat} {operand : Operand} (result : application.result = .part owner operand) :
    ∃ reader ∈ later, reader.result.owner = owner := by
  have uses := complete.uses_eq valid
    (show application.result ∈ results (later ++ application :: earlier) by simp)
  have unread := complete.sound.of_append.not_mem_reads
  rw [result] at uses unread
  have notRoot : Computed.part owner operand ≠ .node root.index := by
    intro same
    cases same
  have read : 0 < (reads (later ++ application :: earlier)).count (.part owner operand) := by
    rw [Computed.uses, if_neg notRoot] at uses
    omega
  rw [List.count_pos_iff, reads_append, List.mem_append] at read
  rcases List.mem_flatMap.mp (read.resolve_right unread) with ⟨reader, member, reads⟩
  have shaped := complete.shaped reader (List.mem_append_left _ member)
  exact ⟨reader, member, shaped.owner_of_read reads⟩

/-- The latest application of a node computes it. -/
theorem Complete.result_of_latest (valid : graph.Valid)
    (complete : history.Complete graph root) {index : Nat} {application : Application}
    {parts : History} (latest : history.ofOwner index = application :: parts) :
    application.result = .node index := by
  rcases List.filter_eq_cons_iff.mp latest with ⟨later, earlier, rfl, others, own, -⟩
  rw [decide_eq_true_eq] at own
  cases result : application.result with
  | node other =>
      rw [result] at own
      exact congrArg _ own
  | part owner operand =>
      rcases complete.exists_later_reader valid result with ⟨reader, member, same⟩
      rw [result] at own
      exact absurd (decide_eq_true (same.trans own)) (others reader member)

/-- A node that is computed is computed after its partial results. -/
theorem Complete.exists_outermost (valid : graph.Valid)
    (complete : history.Complete graph root) {index : Nat}
    (member : .node index ∈ history.results) :
    ∃ application parts, history.Outermost index application parts := by
  rcases List.mem_map.mp member with ⟨computes, listed, result⟩
  have own : computes ∈ history.ofOwner index :=
    mem_ofOwner.mpr ⟨listed, by rw [result]; rfl⟩
  cases split : history.ofOwner index with
  | nil =>
      rw [split] at own
      cases own
  | cons application parts =>
      have latest := complete.result_of_latest valid split
      have distinct : (results (application :: parts)).Nodup := by
        rw [← split]
        exact complete.sound.nodup.sublist (List.filter_sublist.map _)
      rw [results_cons, latest, List.nodup_cons] at distinct
      refine ⟨application, parts, split, latest, fun part held => ?_⟩
      have ownPart : part ∈ history.ofOwner index := by simp [split, held]
      have same := (mem_ofOwner.mp ownPart).2
      cases value : part.result with
      | node other =>
          rw [value] at same
          obtain rfl : other = index := same
          exact absurd (value ▸ List.mem_map_of_mem held) distinct.1
      | part owner operand =>
          rw [value] at same
          obtain rfl : owner = index := same
          exact ⟨operand, rfl⟩

variable {index : Nat} {application : Application} {parts : History}

/-- The partial results that a node reads are those that it computes. -/
theorem Complete.perm_parts (complete : history.Complete graph root)
    (outermost : history.Outermost index application parts) :
    ((reads (application :: parts)).filter Computed.isPart).Perm (results parts) := by
  have owners : ∀ own ∈ application :: parts, own.result.owner = index := by
    rw [← outermost.ofOwner]
    exact fun own member => (mem_ofOwner.mp member).2
  rw [List.perm_iff_count]
  intro value
  cases value with
  | node other =>
      rw [List.count_eq_zero.mpr, List.count_eq_zero.mpr]
      · intro member
        rcases List.mem_map.mp member with ⟨part, member, result⟩
        rcases outermost.parts part member with ⟨operand, isPart⟩
        cases result.symm.trans isPart
      · simp [Computed.isPart]
  | part owner operand =>
      rw [List.count_filter rfl]
      by_cases own : owner = index
      · subst own
        have first : application.result ≠ .part owner operand := by
          rw [outermost.result]
          exact nofun
        have read := count_reads_ofOwner complete.shaped owner operand
        have computed := count_results_ofOwner history (.part owner operand)
        rw [Computed.owner, outermost.ofOwner, results_cons,
          List.count_cons_of_ne first] at computed
        rw [← outermost.ofOwner, read, complete.balanced, count_demands_part, computed]
      · rw [List.count_eq_zero.mpr, List.count_eq_zero.mpr]
        · intro member
          rcases List.mem_map.mp member with ⟨part, member, result⟩
          have same := owners part (List.mem_cons_of_mem _ member)
          rw [result] at same
          exact own same
        · intro member
          rcases List.mem_flatMap.mp member with ⟨reader, member, read⟩
          have listed : reader ∈ history := by
            rw [← outermost.ofOwner] at member
            exact (mem_ofOwner.mp member).1
          have same := (complete.shaped reader listed).owner_of_read read
          exact own (same.symm.trans (owners reader member))

/-- What a node and its partial results are made of. -/
theorem Complete.perm_leaves (complete : history.Complete graph root)
    (outermost : history.Outermost index application parts) :
    ((reads (application :: parts)).flatMap Computed.leaves).Perm
      (graph.dependencies index ++ (results parts).flatMap Computed.leaves) := by
  have shaped : ∀ own ∈ application :: parts, own.Shaped graph := by
    rw [← outermost.ofOwner]
    exact fun own member => complete.shaped own (mem_ofOwner.mp member).1
  rw [List.forall_mem_cons] at shaped
  have below : (reads parts).flatMap Computed.leaves =
      (results parts).flatMap Computed.leaves := by
    rw [reads, List.flatMap_assoc, results, List.flatMap_map]
    refine List.flatMap_congr fun part member => ?_
    rcases outermost.parts part member with ⟨operand, result⟩
    exact (shaped.2 part member).leaves_part result
  rw [reads_cons, List.flatMap_append, below]
  exact (shaped.1.perm_leaves outermost.result).append_right _

/--
The applications of a node read its partial results and the occurrences of its
dependencies, each once.
-/
theorem Complete.perm_reads (complete : history.Complete graph root)
    (outermost : history.Outermost index application parts) :
    (reads (application :: parts)).Perm
      (results parts ++ (graph.dependencies index).map .node) := by
  have held := complete.perm_parts outermost
  let nodes := (reads (application :: parts)).filter fun value => !value.isPart
  have split : ((reads (application :: parts)).filter Computed.isPart ++ nodes).Perm
      (reads (application :: parts)) := List.filter_append_perm _ _
  have leaves : (nodes.flatMap Computed.leaves).Perm (graph.dependencies index) := by
    have all := (split.flatMap_right Computed.leaves).trans
      (complete.perm_leaves outermost)
    rw [List.flatMap_append] at all
    have same := held.flatMap_right Computed.leaves
    rw [← List.perm_append_left_iff ((results parts).flatMap Computed.leaves)]
    exact ((same.symm.append_right _).trans all).trans List.perm_append_comm
  have isNode : ∀ value ∈ nodes, value.isPart = false := fun value member => by
    simpa using (List.mem_filter.mp member).2
  refine split.symm.trans (held.append ?_)
  rw [Computed.eq_map_leaves isNode]
  exact leaves.map _

end History

end SolidField
