import SolidField.Proofs.Graph.Folding
import SolidField.Proofs.Schedule.Completion

/-!
# Values along a history

The orders in which a history applies chains are a folding of the graph.  Under
the values of that folding every application takes the values of its inputs to
the value of its result.
-/

universe u

namespace SolidField

variable {α : Type u}

/-! ## Chains -/

namespace Operand

variable [Scalar α] {opcode : Opcode} {parameters : List α}
  {value : Nat → Vec4 α}

def value? (opcode : Opcode) (parameters : List α) (value : Nat → Vec4 α) :
    Operand → Option (Vec4 α)
  | node index => some (value index)
  | fold first second =>
      (first.value? opcode parameters value).bind fun a =>
        (second.value? opcode parameters value).bind fun b =>
          Kernel.evaluate? opcode parameters a b

theorem exists_value? (kernel : opcode.hasKernel = true)
    (accepted : opcode.parameters.accepts parameters.length = true)
    (value : Nat → Vec4 α) (operand : Operand) :
    ∃ result, operand.value? opcode parameters value = some result := by
  induction operand with
  | node index => exact ⟨value index, rfl⟩
  | fold first second firstInduction secondInduction =>
      rcases firstInduction with ⟨a, firstValue⟩
      rcases secondInduction with ⟨b, secondValue⟩
      simp only [value?, firstValue, secondValue, Option.bind_some]
      exact Kernel.exists_evaluate? kernel accepted a b

/-- The value of a chain is the chain of the values. -/
theorem value?_chain (first : Operand) (rest : List Nat) :
    (chain first rest).value? opcode parameters value =
      (first.value? opcode parameters value).bind fun folded =>
        opcode.chain? parameters folded (rest.map value) := by
  induction rest generalizing first with
  | nil => simp [chain, Opcode.chain?]
  | cons index rest induction =>
      rw [chain, List.foldl_cons, ← chain, induction]
      simp only [value?, Option.bind_some, Option.bind_assoc, List.map_cons,
        Opcode.chain?, List.foldlM_cons, Option.bind_eq_bind]

end Operand

/-- The outermost application of a chain takes the last value first. -/
theorem Opcode.combine?_append [Scalar α] {opcode : Opcode}
    {parameters : List α} {first last : Vec4 α} {others : List (Vec4 α)}
    (nonempty : others ≠ []) :
    opcode.combine? parameters (first :: (others ++ [last])) =
      (opcode.chain? parameters first others).bind fun folded =>
        Kernel.evaluate? opcode parameters last folded := by
  match others with
  | [] => exact absurd rfl nonempty
  | second :: rest =>
      cases rest with
      | nil => simp [combine?]
      | cons third rest =>
          have front : (third :: (rest ++ [last])).dropLast = third :: rest := by
            rw [← List.cons_append, List.dropLast_concat]
          simp [combine?, front, List.getLastD_eq_getLast?,
            List.getLast?_cons]

/-! ## The order of a history -/

namespace History

variable {history : History}

theorem Sound.eq_of_result_eq (sound : history.Sound)
    {application other : Application} (member : application ∈ history)
    (otherMember : other ∈ history) (same : application.result = other.result) :
    application = other := by
  induction history with
  | nil => cases member
  | cons latest earlier induction =>
      have absent : ∀ application ∈ earlier,
          application.result ≠ latest.result := by
        intro application listed equal
        exact sound.2.1 (equal ▸ List.mem_map_of_mem listed)
      rw [List.mem_cons] at member otherMember
      rcases member with rfl | member
      · rcases otherMember with rfl | otherMember
        · rfl
        · exact absurd same.symm (absent other otherMember)
      · rcases otherMember with rfl | otherMember
        · exact absurd same (absent application member)
        · exact induction sound.2.2 member otherMember

/-- Nodes are computed from their dependencies in the order of a folding. -/
def OrderedBy (history : History) (order : NodeId → List NodeId) : Prop :=
  ∀ application ∈ history, ∀ index, application.result = .node index →
    application.inputs =
      (Operand.ofDependencies ((order ⟨index⟩).map NodeId.index)).map
        (.ofOperand index)

/-- A history fixes a folding. -/
theorem exists_folding {graph : Graph α} (sound : history.Sound)
    (shaped : ∀ application ∈ history, application.Shaped graph) :
    ∃ order, graph.Folding order ∧ history.OrderedBy order := by
  -- A node that is not computed keeps its declared order.
  have choice : ∀ id : NodeId, ∃ order : List NodeId,
      (∀ node, graph.node? id = some node → order.Perm node.dependencies ∧
        (node.dependencies.length ≤ 2 → order = node.dependencies)) ∧
      ∀ application ∈ history, application.result = .node id.index →
        application.inputs =
          (Operand.ofDependencies (order.map NodeId.index)).map
            (.ofOperand id.index) := by
    intro id
    by_cases computed : ∃ application ∈ history,
        application.result = .node id.index
    · rcases computed with ⟨application, member, result⟩
      cases shaped application member with
      | part many => cases result
      | node perm declared =>
          rename_i index order
          cases result
          refine ⟨order.map NodeId.mk, fun node found => ?_, ?_⟩
          · rw [Graph.dependencies_of_node? found] at perm declared
            constructor
            · simpa [Function.comp_def] using perm.map NodeId.mk
            · intro few
              rw [declared (by simpa using few)]
              simp [Function.comp_def]
          · intro other otherMember otherResult
            rw [sound.eq_of_result_eq otherMember member otherResult]
            simp [Function.comp_def]
    · rcases Option.eq_none_or_eq_some (graph.node? id) with
        found | ⟨node, found⟩
      · refine ⟨[], fun node other => ?_, fun application member result => ?_⟩
        · rw [found] at other
          cases other
        · exact absurd ⟨application, member, result⟩ computed
      · refine ⟨node.dependencies, fun other otherFound => ?_,
          fun application member result => ?_⟩
        · rw [found] at otherFound
          cases otherFound
          exact ⟨List.Perm.refl _, fun _ => rfl⟩
        · exact absurd ⟨application, member, result⟩ computed
  rcases Classical.axiomOfChoice choice with ⟨order, chosen⟩
  exact ⟨order,
    ⟨fun id node found => ((chosen id).1 node found).1,
      fun id node found => ((chosen id).1 node found).2⟩,
    fun application member index result =>
      (chosen ⟨index⟩).2 application member result⟩

end History

/-! ## The values of applications -/

variable [Scalar α]

/-- The value of what a trial computes, from the values of the nodes. -/
def Computed.value (graph : Graph α) (value : NodeId → Vec4 α) :
    Computed → Vec4 α
  | node index => value ⟨index⟩
  | part owner operand =>
      ((graph.node? ⟨owner⟩).bind fun node =>
        operand.value? node.opcode node.parameters fun index =>
          value ⟨index⟩).getD 0

theorem Computed.value_ofOperand {graph : Graph α} {value : NodeId → Vec4 α}
    {owner : Nat} {node : Node α} (found : graph.node? ⟨owner⟩ = some node)
    {operand : Operand} {result : Vec4 α}
    (computed : operand.value? node.opcode node.parameters
      (fun index => value ⟨index⟩) = some result) :
    (ofOperand owner operand).value graph value = result := by
  cases operand with
  | node index => exact Option.some.inj computed
  | fold first second =>
      simp only [ofOperand, Computed.value, found, Option.bind_some, computed,
        Option.getD_some]

namespace Application

/--
The operation of an application takes the values of its inputs to the value of
its result.  With one input, the second value does not matter.
-/
inductive Yields (graph : Graph α) (value : Computed → Vec4 α)
    (application : Application) (node : Node α) : Prop where
  | unary {input : Computed} (inputs : application.inputs = [input])
      (computed : ∀ b,
        Kernel.evaluate? node.opcode node.parameters (value input) b =
          some (value application.result))
  | binary {first second : Computed}
      (inputs : application.inputs = [first, second])
      (computed :
        Kernel.evaluate? node.opcode node.parameters (value first)
          (value second) = some (value application.result))

variable {graph : Graph α} {order : NodeId → List NodeId} {point : Vec3 α}
  {value : NodeId → Vec4 α}

theorem yields_part {owner : Nat} {node : Node α}
    (found : graph.node? ⟨owner⟩ = some node)
    (admissible : node.Admissible owner) (first second : Operand) :
    Yields graph (Computed.value graph value)
      ⟨.part owner (.fold first second),
        [.ofOperand owner first, .ofOperand owner second]⟩ node := by
  obtain ⟨a, firstValue⟩ := first.exists_value? admissible.kernel
    admissible.parameters fun index => value ⟨index⟩
  obtain ⟨b, secondValue⟩ := second.exists_value? admissible.kernel
    admissible.parameters fun index => value ⟨index⟩
  rcases
      Kernel.exists_evaluate? admissible.kernel admissible.parameters a b with
    ⟨result, computed⟩
  refine .binary rfl ?_
  have folded : (Operand.fold first second).value? node.opcode node.parameters
      (fun index => value ⟨index⟩) = some result := by
    simp only [Operand.value?, firstValue, secondValue, Option.bind_some,
      computed]
  have whole : (Computed.part owner (.fold first second)).value graph value =
      result := Computed.value_ofOperand found folded
  rw [Computed.value_ofOperand found firstValue,
    Computed.value_ofOperand found secondValue, computed]
  exact congrArg some whole.symm

theorem yields_node {index : Nat} {node : Node α}
    (found : graph.node? ⟨index⟩ = some node)
    (admissible : node.Admissible index) (folding : graph.Folding order)
    (folded : graph.FoldedValuation order point value) :
    Yields graph (Computed.value graph value)
      ⟨.node index,
        (Operand.ofDependencies ((order ⟨index⟩).map NodeId.index)).map
          (.ofOperand index)⟩ node := by
  have notPoint := Opcode.ne_point_of_hasKernel admissible.kernel
  have combined := folded.node _ node found notPoint
  have arity := admissible.arity
  have length : ((order ⟨index⟩).map NodeId.index).length =
      node.dependencies.length := by
    rw [List.length_map]
    exact (folding.perm _ node found).length_eq
  have values : (order ⟨index⟩).map value =
      ((order ⟨index⟩).map NodeId.index).map fun index => value ⟨index⟩ := by
    simp [Function.comp_def]
  rw [values] at combined
  rw [← length] at arity
  generalize (order ⟨index⟩).map NodeId.index = dependencies at combined arity ⊢
  by_cases many : 2 < dependencies.length
  · rcases Operand.ofDependencies_of_two_lt many with
      ⟨first, others, last, rfl, operands, count⟩
    have nonempty : (others.map fun index => value ⟨index⟩) ≠ [] := by
      rw [ne_eq, List.map_eq_nil_iff]
      rintro rfl
      simp at many
    rw [List.map_cons, List.map_append, List.map_singleton,
      Opcode.combine?_append nonempty, Option.bind_eq_some_iff] at combined
    rcases combined with ⟨chained, chain, computed⟩
    rw [operands]
    refine .binary rfl ?_
    have whole : (Operand.chain (.node first) others).value? node.opcode
        node.parameters (fun index => value ⟨index⟩) = some chained := by
      rw [Operand.value?_chain]
      exact chain
    rw [Computed.value_ofOperand found whole]
    exact computed
  · match dependencies with
    | [] => simp [Opcode.combine?] at combined
    | [only] =>
        apply Yields.unary rfl
        intro b
        have unread : node.opcode.arity.readsSecond = false := by
          cases shape : node.opcode.arity <;>
            simp_all [Arity.accepts, Arity.readsSecond]
        rw [Kernel.evaluate?_ignores_second unread _ _ b 0]
        exact combined
    | [first, second] => exact .binary rfl combined
    | _ :: _ :: _ :: _ => simp at many

end Application

/--
Every application of a complete history that applies an admissible node
yields its value.
-/
theorem History.Complete.yields {graph : Graph α} {root : NodeId}
    {history : History} {order : NodeId → List NodeId} {point : Vec3 α}
    {value : NodeId → Vec4 α} (complete : history.Complete graph root)
    (folding : graph.Folding order) (ordered : history.OrderedBy order)
    (folded : graph.FoldedValuation order point value)
    {application : Application} (member : application ∈ history)
    {node : Node α}
    (found : graph.node? ⟨application.result.owner⟩ = some node)
    (admissible : node.Admissible application.result.owner) :
    application.Yields graph (Computed.value graph value) node := by
  have inputs := ordered application member
  cases complete.shaped application member with
  | @node index _ perm declared =>
      have yields : Application.Yields graph (Computed.value graph value)
          ⟨.node index, _⟩ node :=
        Application.yields_node found admissible folding folded
      rwa [← inputs index rfl] at yields
  | part many =>
      exact Application.yields_part found admissible _ _

end SolidField
