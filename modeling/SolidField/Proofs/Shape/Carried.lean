import SolidField.Proofs.Shape.Payload

/-!
# Values with pending transforms

A node that applies a transform stands for the value that it acts on and the
transform that it applies.  This holds alike for the similarities that move points
and for the transforms that move values, and is what merging works with.
-/

universe u

namespace SolidField

variable {α : Type u} [Scalar α]

/-! ## The two kinds of transforms -/

/-- A kind of transforms that are merged: how nodes apply and remember them. -/
structure TransformKind (α : Type u) [Scalar α] (τ : Type u) where
  opcode : Opcode
  select : Payload α → Option τ
  payload : τ → Payload α
  parameters : τ → List α
  act : τ → Vec4 α → Vec4 α
  isTransform : opcode = .transformTo ∨ opcode = .transformFrom
  /-- The transform of a payload is the one that it was made of. -/
  select_payload : ∀ transform, select (payload transform) = some transform
  /-- A node of the operation remembers its transform. -/
  remembered : ∀ {listed : List α} {recorded : Option (Payload α)},
    Payload.Records opcode listed recorded →
      ∃ transform, recorded = some (payload transform) ∧
        listed = parameters transform
  /-- No other node remembers a transform of this kind. -/
  forgotten : ∀ {other : Opcode} {listed : List α} {recorded : Payload α},
    other ≠ opcode → Payload.Records other listed (some recorded) →
      select recorded = none
  /-- The parameters of a transform record its payload. -/
  records : ∀ transform,
    Payload.Records opcode (parameters transform) (some (payload transform))
  accepted : ∀ transform,
    opcode.parameters.accepts (parameters transform).length = true
  evaluate?_eq : ∀ transform value second,
    Kernel.evaluate? opcode (parameters transform) value second =
      some (act transform value)

namespace TransformKind

/-- The similarities that move points. -/
def point : TransformKind α (Similarity α) where
  opcode := .transformTo
  select := Payload.point?
  payload := .point
  parameters := Similarity.parameters
  act := Kernel.transformTo
  isTransform := Or.inl rfl
  select_payload := fun _ => rfl
  remembered := by
    intro listed recorded records
    cases records with
    | point _ same => exact ⟨_, rfl, same⟩
    | value isFrom => cases isFrom
    | plain notTo => exact absurd rfl notTo
  forgotten := by
    intro other listed recorded different records
    cases records with
    | point isTo => exact absurd isTo different
    | value => rfl
  records := fun _ => .point rfl rfl
  accepted := fun _ => rfl
  evaluate?_eq := fun _ _ _ => rfl

/-- The transforms that move values. -/
def value : TransformKind α (ValueTransform α) where
  opcode := .transformFrom
  select := Payload.value?
  payload := fun transform => .value transform.rotation transform.scale
  parameters := ValueTransform.parameters
  act := fun transform => Kernel.transformFrom transform.rotation transform.scale
  isTransform := Or.inr rfl
  select_payload := fun _ => rfl
  remembered := by
    intro listed recorded records
    cases records with
    | point isTo => cases isTo
    | value _ same => exact ⟨_, rfl, same⟩
    | plain _ notFrom => exact absurd rfl notFrom
  forgotten := by
    intro other listed recorded different records
    cases records with
    | point => rfl
    | value isFrom => exact absurd isFrom different
  records := fun _ => .value rfl rfl
  accepted := fun _ => rfl
  evaluate?_eq := fun _ _ _ => rfl

variable {τ : Type u} (kind : TransformKind α τ)

theorem hasKernel : kind.opcode.hasKernel = true := by
  rcases kind.isTransform with isTo | isFrom
  · rw [isTo]
    rfl
  · rw [isFrom]
    rfl

theorem arity_eq : kind.opcode.arity = .unary := by
  rcases kind.isTransform with isTo | isFrom
  · rw [isTo]
    rfl
  · rw [isFrom]
    rfl

/-- A value after the transform that is pending for it, if there is one. -/
def result (source : Vec4 α) : Option τ → Vec4 α
  | some transform => kind.act transform source
  | none => source

end TransformKind

/-! ## Nodes and their transforms -/

namespace Graph

variable {graph larger : Graph α} {id : NodeId} {τ : Type u}

/-- In a merged graph, exactly the nodes of a kind remember a transform of it. -/
theorem Merged.transform?_cases (merged : graph.Merged)
    (kind : TransformKind α τ) {node : Node α}
    (found : graph.node? id = some node) :
    (∃ transform source, node.opcode = kind.opcode ∧
        node.parameters = kind.parameters transform ∧
        node.dependencies = [source] ∧
        graph.transform? kind.select id = some (transform, source)) ∨
      (node.opcode ≠ kind.opcode ∧ graph.transform? kind.select id = none) := by
  have records := merged.recorded id node found
  have notFirst : node.opcode = kind.opcode → id ≠ point := by
    rintro isKind rfl
    rcases merged.valid.point with ⟨first, firstFound, opcode, -⟩
    rw [firstFound] at found
    cases found
    exact Opcode.ne_point_of_hasKernel kind.hasKernel (isKind.symm.trans opcode)
  by_cases isKind : node.opcode = kind.opcode
  · have arity :=
      (merged.valid.admissible id node found (notFirst isKind)).arity
    rw [isKind, kind.arity_eq, Arity.accepts, decide_eq_true_eq] at arity
    rcases List.length_eq_one_iff.mp arity with ⟨source, single⟩
    rw [isKind] at records
    rcases kind.remembered records with ⟨transform, payload, listed⟩
    refine Or.inl ⟨transform, source, isKind, listed, single, ?_⟩
    rw [transform?_of_node? found payload single, kind.select_payload]
    rfl
  · refine Or.inr ⟨isKind, ?_⟩
    cases payload : node.payload with
    | none => exact transform?_eq_none found (Or.inl payload)
    | some recorded =>
        rw [payload] at records
        cases listed : node.dependencies with
        | nil =>
            exact transform?_eq_none found (Or.inr listed)
        | cons source others =>
            rw [transform?_of_node? found payload listed,
              kind.forgotten isKind records]
            rfl

/--
The node that a transform of a node acts on; the node itself if it applies
none.
-/
def base (graph : Graph α) (kind : TransformKind α τ) (id : NodeId) : NodeId :=
  ((graph.transform? kind.select id).map Prod.snd).getD id

/-- What a transform acts on is no transform of its kind. -/
theorem Merged.base_spec (merged : graph.Merged) (kind : TransformKind α τ)
    (inside : id.index < graph.size) :
    (graph.base kind id).index < graph.size ∧
      ∃ node, graph.node? (graph.base kind id) = some node ∧
        node.opcode ≠ kind.opcode := by
  rcases exists_node?_of_lt inside with ⟨node, found⟩
  rcases merged.transform?_cases kind found with
    ⟨transform, source, opcode, -, single, remembers⟩ | ⟨different, forgets⟩
  · have before : source.index < id.index :=
      merged.valid.earlier found source (by simp [single])
    rcases exists_node?_of_lt (Nat.lt_trans before inside) with
      ⟨other, otherFound⟩
    rw [base, remembers]
    refine ⟨Nat.lt_trans before inside, other, otherFound, ?_⟩
    rw [← opcode]
    refine merged.apart id node found ?_ source (by simp [single]) other otherFound
    rw [opcode]
    exact kind.isTransform
  · rw [base, forgets]
    exact ⟨inside, node, found, different⟩

/-! ## Carried values -/

/-- A node stands for a value with a transform that has yet to act on it. -/
structure Carries (graph : Graph α) (point : Vec3 α) (kind : TransformKind α τ)
    (id : NodeId) (source : Vec4 α) (pending : Option τ) : Prop where
  /-- The node is in the graph. -/
  inside : id.index < graph.size
  /-- The node applies the transform, if there is one. -/
  pending : (graph.transform? kind.select id).map Prod.fst = pending
  /-- It applies it to the value. -/
  source : graph.value? point (graph.base kind id) = some source

variable {point : Vec3 α} {kind : TransformKind α τ} {source : Vec4 α}
  {pending : Option τ}

/-- A node has the value that it stands for. -/
theorem Carries.value?_eq (carries : graph.Carries point kind id source pending)
    (merged : graph.Merged) :
    graph.value? point id = some (kind.result source pending) := by
  rcases carries with ⟨inside, remembered, value⟩
  rcases exists_node?_of_lt inside with ⟨node, found⟩
  obtain ⟨transform, origin, opcode, listed, single, remembers⟩ |
      ⟨different, forgets⟩ := merged.transform?_cases kind found
  · rw [base, remembers] at value
    rw [remembers] at remembered
    have notPoint : node.opcode ≠ .point :=
      opcode ▸ Opcode.ne_point_of_hasKernel kind.hasKernel
    have original : graph.value? point origin = some source := value
    rw [merged.valid.value?_of_node? found notPoint, single, ← remembered,
      opcode, listed]
    simp [original, Opcode.combine?, kind.evaluate?_eq, TransformKind.result]
  · rw [base, forgets] at value
    rw [forgets] at remembered
    rw [← remembered]
    exact value

/-- What a node stands for does not change when a graph is extended. -/
theorem Carries.extend (carries : graph.Carries point kind id source pending)
    (merged : graph.Merged) (mergedLarger : larger.Merged)
    (extended : graph.Extends larger) :
    larger.Carries point kind id source pending := by
  have same := extended.transform?_eq kind.select carries.inside
  have sameBase : larger.base kind id = graph.base kind id := by
    rw [base, same, base]
  rcases exists_node?_of_lt carries.inside with ⟨node, found⟩
  rcases extended id node found with ⟨other, otherFound, -⟩
  refine ⟨index_lt_of_node? otherFound, same ▸ carries.pending, ?_⟩
  rw [sameBase, extended.value?_eq merged.valid mergedLarger.valid
    (merged.base_spec kind carries.inside).1]
  exact carries.source

end Graph

end SolidField
