import SolidField.Graph.Interpretation
import SolidField.Proofs.Graph.Construction

/-!
# The value of a node

A node of a valid graph has the value that its operation gives to the values of
its dependencies, and keeps this value whatever is added to the graph.
-/

universe u v

namespace SolidField

theorem mapM_congr_of_mem {β : Type u} {γ : Type v} {function other : β → Option γ}
    {items : List β} (same : ∀ item ∈ items, function item = other item) :
    items.mapM function = items.mapM other := by
  induction items with
  | nil => rfl
  | cons item items induction =>
      rw [List.forall_mem_cons] at same
      rw [List.mapM_cons, List.mapM_cons, same.1, induction same.2]

/--
A function that computes a node within a bound from its dependencies within the
next smaller bound is the same within every bound behind the node.
-/
theorem Graph.Valid.eq_of_descent {α : Type u} {γ : Type v} {graph : Graph α}
    (valid : graph.Valid) {compute : Nat → NodeId → Option γ}
    (combine : Node α → Option (List γ) → Option γ)
    (step : ∀ bound id, compute (bound + 1) id =
      (graph.node? id).bind fun node =>
        combine node (node.dependencies.mapM (compute bound)))
    {bound other : Nat} {id : NodeId} (below : id.index < bound)
    (otherBelow : id.index < other) : compute bound id = compute other id := by
  induction bound generalizing other id with
  | zero => omega
  | succ bound induction =>
      match other with
      | 0 => omega
      | other + 1 =>
          rw [step, step]
          cases found : graph.node? id with
          | none => rfl
          | some node =>
              have same : node.dependencies.mapM (compute bound) =
                  node.dependencies.mapM (compute other) := by
                apply mapM_congr_of_mem
                intro dependency member
                have before := valid.earlier found dependency member
                exact induction (by omega) (by omega)
              rw [Option.bind_some, Option.bind_some, same]

namespace Opcode

variable {α : Type u} [Scalar α] {opcode : Opcode} {parameters : List α}

theorem exists_chain? (kernel : opcode.hasKernel = true)
    (accepted : opcode.parameters.accepts parameters.length = true)
    (first : Vec4 α) (rest : List (Vec4 α)) :
    ∃ value, opcode.chain? parameters first rest = some value := by
  induction rest generalizing first with
  | nil => exact ⟨first, rfl⟩
  | cons second rest induction =>
      rcases Kernel.exists_evaluate? kernel accepted first second with
        ⟨folded, computed⟩
      rcases induction folded with ⟨value, chained⟩
      refine ⟨value, ?_⟩
      simpa [chain?, List.foldlM_cons, computed] using chained

/-- An operation that finds its parameters combines any values but none. -/
theorem exists_combine? (kernel : opcode.hasKernel = true)
    (accepted : opcode.parameters.accepts parameters.length = true)
    {values : List (Vec4 α)} (nonempty : values ≠ []) :
    ∃ value, opcode.combine? parameters values = some value := by
  match values with
  | [] => exact absurd rfl nonempty
  | [value] => exact Kernel.exists_evaluate? kernel accepted value 0
  | [first, second] => exact Kernel.exists_evaluate? kernel accepted first second
  | first :: second :: third :: rest =>
      rcases
          exists_chain? kernel accepted first
            (second :: (third :: rest).dropLast) with
        ⟨others, chained⟩
      rcases
          Kernel.exists_evaluate? kernel accepted
            ((third :: rest).getLastD second) others with
        ⟨value, computed⟩
      exact ⟨value, by simp only [combine?, chained, Option.bind_eq_bind,
        Option.bind_some, computed]⟩

variable {motive : List (Vec4 α) → Vec4 α → Prop}

/-- What one more application keeps holds of a chain. -/
theorem chain?_induction
    (append : ∀ {values folded last value}, motive values folded →
      Kernel.evaluate? opcode parameters folded last = some value →
        motive (values ++ [last]) value)
    {values rest : List (Vec4 α)} {folded value : Vec4 α}
    (holds : motive values folded)
    (chained : opcode.chain? parameters folded rest = some value) :
    motive (values ++ rest) value := by
  induction rest generalizing values folded with
  | nil =>
      cases chained
      rwa [List.append_nil]
  | cons last rest induction =>
      simp only [chain?, List.foldlM_cons, Option.bind_eq_bind,
        Option.bind_eq_some_iff] at chained
      rcases chained with ⟨next, computed, chained⟩
      have further := induction (append holds computed) chained
      rwa [List.append_assoc] at further

/-- What one more application on either side keeps holds of all values combined. -/
theorem combine?_induction (single : ∀ value, motive [value] value)
    (append : ∀ {values folded last value}, motive values folded →
      Kernel.evaluate? opcode parameters folded last = some value ∨
          Kernel.evaluate? opcode parameters last folded = some value →
        motive (values ++ [last]) value)
    {values : List (Vec4 α)} {value : Vec4 α} (many : 2 ≤ values.length)
    (combined : opcode.combine? parameters values = some value) :
    motive values value := by
  match values with
  | [first, second] => exact append (single first) (Or.inl combined)
  | first :: second :: third :: rest =>
      simp only [combine?, Option.bind_eq_bind, Option.bind_eq_some_iff] at combined
      rcases combined with ⟨others, chained, computed⟩
      have holds := chain?_induction (fun holds computed =>
        append holds (Or.inl computed)) (single first) chained
      have whole := append holds (Or.inr computed)
      have same : (third :: rest).dropLast ++ [(third :: rest).getLastD second] =
          third :: rest := by
        rw [List.getLastD_eq_getLast?,
          List.getLast?_eq_some_getLast (List.cons_ne_nil _ _), Option.getD_some,
          List.dropLast_concat_getLast]
      simpa only [List.append_assoc, List.cons_append, List.nil_append, same]
        using whole

end Opcode

namespace Interpretation

variable {α : Type u} [Scalar α]

/-- Under the standard interpretation operations combine values as they do. -/
theorem combine?_standard :
    (standard : Interpretation α).combine? = Opcode.combine? := by
  funext opcode parameters values
  unfold combine?
  split <;> rfl

end Interpretation

namespace Graph

variable {α : Type u} [Scalar α] {graph larger : Graph α} {point : Vec3 α}

/-! ## Values under an interpretation -/

section Interpreted

variable {interpretation : Interpretation α}

/-- Every bound behind a node gives the same value. -/
theorem Valid.valueBelowUnder?_eq (valid : graph.Valid) {bound other : Nat}
    {id : NodeId} (below : id.index < bound) (otherBelow : id.index < other) :
    graph.valueBelowUnder? interpretation point bound id =
      graph.valueBelowUnder? interpretation point other id :=
  valid.eq_of_descent
    (fun node values =>
      if node.opcode = .point then some (Kernel.pointValue point)
      else values.bind (interpretation.combine? node.opcode node.parameters))
    (fun _ _ => rfl) below otherBelow

theorem valueUnder?_of_isPoint {id : NodeId} {node : Node α}
    (found : graph.node? id = some node) (isPoint : node.opcode = .point) :
    graph.valueUnder? interpretation point id =
      some (Kernel.pointValue point) := by
  simp [valueUnder?, valueBelowUnder?, found, isPoint]

/-- Any other node combines the values of its dependencies. -/
theorem Valid.valueUnder?_of_node? (valid : graph.Valid) {id : NodeId}
    {node : Node α} (found : graph.node? id = some node)
    (notPoint : node.opcode ≠ .point) :
    graph.valueUnder? interpretation point id =
      (node.dependencies.mapM (graph.valueUnder? interpretation point)).bind
        (interpretation.combine? node.opcode node.parameters) := by
  have same :
      node.dependencies.mapM
          (graph.valueBelowUnder? interpretation point id.index) =
        node.dependencies.mapM (graph.valueUnder? interpretation point) :=
    mapM_congr_of_mem fun dependency member =>
      valid.valueBelowUnder?_eq (valid.earlier found dependency member)
        (Nat.lt_succ_self _)
  rw [valueUnder?, valueBelowUnder?, found]
  simp only [Option.bind_eq_bind, Option.bind_some, if_neg notPoint, same]

/-- A node keeps its value when a graph is extended. -/
theorem Extends.valueUnder?_eq (extended : graph.Extends larger)
    (valid : graph.Valid) (validLarger : larger.Valid) {id : NodeId}
    (inside : id.index < graph.size) :
    larger.valueUnder? interpretation point id =
      graph.valueUnder? interpretation point id := by
  rcases id with ⟨index⟩
  induction index using Nat.strongRecOn with
  | ind index induction =>
      rcases exists_node?_of_lt inside with ⟨node, found⟩
      rcases extended ⟨index⟩ node found with ⟨same, sameFound, operation⟩
      rcases Node.eq_of_operation_eq operation with
        ⟨opcode, parameters, dependencies, -⟩
      by_cases isPoint : node.opcode = .point
      · rw [valueUnder?_of_isPoint found isPoint,
          valueUnder?_of_isPoint sameFound (opcode.trans isPoint)]
      · have values :
            node.dependencies.mapM (larger.valueUnder? interpretation point) =
              node.dependencies.mapM (graph.valueUnder? interpretation point) := by
          apply mapM_congr_of_mem
          intro dependency member
          have before := valid.earlier found dependency member
          exact induction dependency.index before
            (Nat.lt_trans before inside)
        rw [valid.valueUnder?_of_node? found isPoint,
          validLarger.valueUnder?_of_node? sameFound (opcode ▸ isPoint), opcode,
          parameters, dependencies, values]

end Interpreted

/-! ## Values -/

theorem valueBelowUnder?_standard (graph : Graph α) (point : Vec3 α)
    (bound : Nat) :
    graph.valueBelowUnder? .standard point bound =
      graph.valueBelow? point bound := by
  induction bound with
  | zero => rfl
  | succ bound induction =>
      funext id
      simp only [valueBelowUnder?, valueBelow?, induction,
        Interpretation.combine?_standard]

/-- Values of nodes are those under the standard interpretation. -/
theorem valueUnder?_standard (graph : Graph α) (point : Vec3 α) :
    graph.valueUnder? .standard point = graph.value? point := by
  funext id
  rw [valueUnder?, valueBelowUnder?_standard, value?]

theorem value?_of_isPoint {id : NodeId} {node : Node α}
    (found : graph.node? id = some node) (isPoint : node.opcode = .point) :
    graph.value? point id = some (Kernel.pointValue point) := by
  rw [← valueUnder?_standard]
  exact valueUnder?_of_isPoint found isPoint

/-- Any other node combines the values of its dependencies. -/
theorem Valid.value?_of_node? (valid : graph.Valid) {id : NodeId} {node : Node α}
    (found : graph.node? id = some node) (notPoint : node.opcode ≠ .point) :
    graph.value? point id =
      (node.dependencies.mapM (graph.value? point)).bind
        (node.opcode.combine? node.parameters) := by
  rw [← valueUnder?_standard, ← Interpretation.combine?_standard]
  exact valid.valueUnder?_of_node? found notPoint

/-- A node keeps its value when a graph is extended. -/
theorem Extends.value?_eq (extended : graph.Extends larger)
    (valid : graph.Valid) (validLarger : larger.Valid) {id : NodeId}
    (inside : id.index < graph.size) :
    larger.value? point id = graph.value? point id := by
  rw [← valueUnder?_standard, ← valueUnder?_standard]
  exact extended.valueUnder?_eq valid validLarger inside

end Graph

end SolidField
