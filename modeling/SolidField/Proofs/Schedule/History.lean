import SolidField.Proofs.Schedule.Uses

/-!
# Histories of a trial

A trial computes values of nodes and, for a node with more than two
dependencies, partial applications of its operation.  A history lists these
applications by name, the latest first, without registers.  It is sound if every
application reads earlier results and makes a new one.

A history determines the registers: `Placement.ofHistory` runs the allocator
along it.  The order of evaluation can therefore be studied apart from the
allocation.
-/

universe u

namespace SolidField

/-! ## Operands -/

namespace Operand

/-- The nodes that an operand is made of, from the left. -/
def leaves : Operand → List Nat
  | node index => [index]
  | fold first second => first.leaves ++ second.leaves

/-- The number of partial applications in an operand. -/
def folds : Operand → Nat
  | node _ => 0
  | fold first second => first.folds + second.folds + 1

def totalFolds : List Operand → Nat
  | [] => 0
  | operand :: operands => operand.folds + totalFolds operands

@[simp]
theorem totalFolds_nil : totalFolds [] = 0 := rfl

@[simp]
theorem totalFolds_cons (operand : Operand) (operands : List Operand) :
    totalFolds (operand :: operands) = operand.folds + totalFolds operands := rfl

/-- The second input of every partial application is a node. -/
def IsChain : Operand → Prop
  | node _ => True
  | fold first second => first.IsChain ∧ second.folds = 0

theorem leaves_chain (first : Operand) (rest : List Nat) :
    (chain first rest).leaves = first.leaves ++ rest := by
  induction rest generalizing first with
  | nil => simp [chain]
  | cons index rest induction =>
      rw [chain, List.foldl_cons, ← chain, induction]
      simp [leaves]

theorem folds_chain (first : Operand) (rest : List Nat) :
    (chain first rest).folds = first.folds + rest.length := by
  induction rest generalizing first with
  | nil => simp [chain]
  | cons index rest induction =>
      rw [chain, List.foldl_cons, ← chain, induction]
      simp only [folds, List.length_cons]
      omega

theorem isChain_chain {first : Operand} (isChain : first.IsChain)
    (rest : List Nat) : (chain first rest).IsChain := by
  induction rest generalizing first with
  | nil => exact isChain
  | cons index rest induction => exact induction ⟨isChain, rfl⟩

/-- More than two dependencies become the last one and a chain of the others. -/
theorem ofDependencies_of_two_lt {dependencies : List Nat}
    (many : 2 < dependencies.length) :
    ∃ first others last, dependencies = first :: (others ++ [last]) ∧
      ofDependencies dependencies = [node last, chain (node first) others] ∧
      others.length + 2 = dependencies.length := by
  match dependencies with
  | first :: second :: third :: rest =>
      refine ⟨first, (second :: third :: rest).dropLast,
        (second :: third :: rest).getLast (by simp), ?_, ?_, ?_⟩
      · rw [List.dropLast_concat_getLast]
      · simp [ofDependencies, List.getLast?_eq_some_getLast]
      · simp
  | [] | [_] | [_, _] => simp at many

/-- Up to two dependencies are the operands. -/
theorem ofDependencies_of_le_two {dependencies : List Nat}
    (few : dependencies.length ≤ 2) :
    ofDependencies dependencies = dependencies.map node := by
  match dependencies with
  | [] | [_] | [_, _] => rfl
  | _ :: _ :: _ :: _ => simp at few

end Operand

/-! ## Applications -/

/-- A value that a trial computes. -/
inductive Computed where
  | node (index : Nat)
  | part (owner : Nat) (operand : Operand)
deriving DecidableEq

namespace Computed

def ofOperand (owner : Nat) : Operand → Computed
  | .node index => node index
  | .fold first second => part owner (.fold first second)

def owner : Computed → Nat
  | node index => index
  | part owner _ => owner

/-- The reads that the allocator is told to expect. -/
def uses (table : Array Nat) : Computed → Nat
  | node index => table.getD index 0
  | part _ _ => 1

end Computed

/-- An operation that a trial emits: what it computes from what. -/
structure Application where
  result : Computed
  inputs : List Computed

namespace Application

variable {α : Type u}

/--
The reads that have to happen because an application was emitted: those of
the dependencies of its node, or that of the partial application itself.
-/
def demands (graph : Graph α) (application : Application) : List Computed :=
  match application.result with
  | .node index => (graph.dependencies index).map .node
  | .part owner operand => [.part owner operand]

/--
An application computes a node from its dependencies in some order, or a
partial application from its two sides.
-/
inductive Shaped (graph : Graph α) : Application → Prop where
  /-- The outermost application of a node; only a chain may be reordered. -/
  | node {index : Nat} {order : List Nat}
      (perm : order.Perm (graph.dependencies index))
      (declared : (graph.dependencies index).length ≤ 2 →
        order = graph.dependencies index) :
      Shaped graph
        ⟨.node index, (Operand.ofDependencies order).map (.ofOperand index)⟩
  /-- A partial application of a node with more than two dependencies. -/
  | part {owner : Nat} {first second : Operand}
      (many : 2 < (graph.dependencies owner).length) :
      Shaped graph
        ⟨.part owner (.fold first second),
          [.ofOperand owner first, .ofOperand owner second]⟩

end Application

/-! ## Histories -/

/-- The applications of a trial, the latest first. -/
abbrev History := List Application

namespace History

variable {α : Type u}

/-- What has been computed. -/
def results (history : History) : List Computed :=
  history.map Application.result

/-- What has been read, as often as it was. -/
def reads (history : History) : List Computed :=
  history.flatMap Application.inputs

/-- What has to be read, as often as it must be. -/
def demands (graph : Graph α) (history : History) : List Computed :=
  history.flatMap (Application.demands graph)

/-- The nodes whose operations were applied, as often as they were. -/
def owners (history : History) : List Nat :=
  history.map fun application => application.result.owner

/-- Every application reads earlier results and makes a new one. -/
def Sound : History → Prop
  | [] => True
  | application :: earlier =>
      (∀ input ∈ application.inputs, input ∈ results earlier) ∧
        application.result ∉ results earlier ∧ Sound earlier

@[simp]
theorem results_cons (application : Application) (history : History) :
    results (application :: history) =
      application.result :: results history := rfl

@[simp]
theorem results_append (later earlier : History) :
    results (later ++ earlier) = results later ++ results earlier := by
  simp [results]

@[simp]
theorem reads_cons (application : Application) (history : History) :
    reads (application :: history) =
      application.inputs ++ reads history := rfl

@[simp]
theorem reads_append (later earlier : History) :
    reads (later ++ earlier) = reads later ++ reads earlier := by
  simp [reads]

@[simp]
theorem demands_cons (graph : Graph α) (application : Application)
    (history : History) :
    demands graph (application :: history) =
      application.demands graph ++ demands graph history := rfl

@[simp]
theorem demands_append (graph : Graph α) (later earlier : History) :
    demands graph (later ++ earlier) =
      demands graph later ++ demands graph earlier := by
  simp [demands]

@[simp]
theorem owners_cons (application : Application) (history : History) :
    owners (application :: history) =
      application.result.owner :: owners history := rfl

@[simp]
theorem owners_append (later earlier : History) :
    owners (later ++ earlier) = owners later ++ owners earlier := by
  simp [owners]

theorem sound_cons {application : Application} {earlier : History} :
    Sound (application :: earlier) ↔
      (∀ input ∈ application.inputs, input ∈ results earlier) ∧
        application.result ∉ results earlier ∧ Sound earlier := Iff.rfl

theorem Sound.of_append {later earlier : History}
    (sound : Sound (later ++ earlier)) : Sound earlier := by
  induction later with
  | nil => exact sound
  | cons application later induction => exact induction sound.2.2

/-- Nothing is computed twice. -/
theorem Sound.nodup {history : History} (sound : history.Sound) :
    history.results.Nodup := by
  induction history with
  | nil => exact List.nodup_nil
  | cons application earlier induction =>
      exact List.nodup_cons.mpr ⟨sound.2.1, induction sound.2.2⟩

theorem Sound.mem_results_of_mem_reads {history : History}
    (sound : history.Sound) :
    ∀ input ∈ history.reads, input ∈ history.results := by
  induction history with
  | nil => simp [reads]
  | cons application earlier induction =>
      intro input member
      rw [reads_cons, List.mem_append] at member
      rw [results_cons]
      refine List.mem_cons_of_mem _ ?_
      exact member.elim (sound.1 input) (induction sound.2.2 input)

/-- A value is read only after it was computed. -/
theorem Sound.not_mem_reads {application : Application} {earlier : History}
    (sound : Sound (application :: earlier)) :
    application.result ∉ reads (application :: earlier) := by
  intro member
  rw [reads_cons, List.mem_append] at member
  exact sound.2.1
    (member.elim (sound.1 _) (sound.2.2.mem_results_of_mem_reads _))

end History

end SolidField
