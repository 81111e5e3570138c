import Mathlib.Data.List.Forall2
import SolidField.Proofs.Geometry.Similarity
import SolidField.Proofs.Shape.Interpretation

/-!
# Merging preserves meaning

In exact arithmetic a merged node does what the nodes that it replaces would do one
after the other, and a merged node that is left out would have done nothing.  A
shape with unit rotations therefore has the value that it has without merging,
whatever the kernels of the other operations are.
-/

universe u

namespace SolidField

variable {α : Type u}

/-! ## Laws of merging -/

/--
Why transforms of a kind may be merged: a composite acts as one transform after the
other, and one that is left out leaves what the kind acts on as it is.
-/
structure TransformKind.Laws [Scalar α] {τ : Type u} (kind : TransformKind α τ)
    (after : τ → τ → τ) (isIdentity : τ → Bool) where
  /-- What is needed of a transform. -/
  proper : τ → Prop
  /-- What is needed of a value that it acts on. -/
  admits : Vec4 α → Prop
  proper_after : ∀ {t u}, proper t → proper u → proper (after t u)
  act_after : ∀ {t u}, proper t → proper u → ∀ a,
    kind.act (after t u) a = kind.act t (kind.act u a)
  act_identity : ∀ {t}, isIdentity t = true → ∀ a, admits a → kind.act t a = a

/-- A transform after the one that is pending is proper, and acts after it. -/
theorem TransformKind.Laws.composite [Scalar α] {τ : Type u} {kind : TransformKind α τ}
    {after : τ → τ → τ} {isIdentity : τ → Bool} (laws : kind.Laws after isIdentity)
    {transform : τ} {pending : Option τ} (proper : laws.proper transform)
    (earlier : ∀ first ∈ pending, laws.proper first) :
    laws.proper (pending.elim transform (after transform)) ∧
      ∀ a, kind.act (pending.elim transform (after transform)) a =
        kind.act transform (kind.result a pending) := by
  cases pending with
  | none => exact ⟨proper, fun _ => rfl⟩
  | some first =>
      have first_proper := earlier first rfl
      exact ⟨laws.proper_after proper first_proper, laws.act_after proper first_proper⟩

section Laws

variable [ExactScalar α]

/-- Similarities with unit rotations act on points, whose distance is zero. -/
def pointLaws :
    (TransformKind.point (α := α)).Laws Similarity.after Similarity.isIdentity where
  proper t := t.rotation.IsUnit
  admits a := a.w = 0
  proper_after := Similarity.isUnit_after
  act_after unit other a :=
    congrArg Kernel.pointValue (Similarity.apply_after unit other a.truncate)
  act_identity same a flat := by
    show Kernel.pointValue (Similarity.apply _ a.truncate) = a
    rw [Similarity.eq_identity_of_isIdentity same, Similarity.apply_identity]
    exact Vec4.ext rfl rfl rfl flat.symm

/-- Transforms with unit rotations act on any values. -/
def valueLaws :
    (TransformKind.value (α := α)).Laws ValueTransform.after
      ValueTransform.isIdentity where
  proper t := t.rotation.IsUnit
  admits _ := True
  proper_after := ValueTransform.isUnit_after
  act_after := ValueTransform.transformFrom_after
  act_identity same a _ := by
    rw [ValueTransform.eq_identity_of_isIdentity same]
    exact ValueTransform.transformFrom_identity a

end Laws

/-! ## Nodes under an interpretation -/

namespace Interpretation

variable [Scalar α] (interpretation : Interpretation α)

theorem combine?_of_kind {τ : Type u} (kind : TransformKind α τ) (transform : τ)
    (a : Vec4 α) :
    interpretation.combine? kind.opcode (kind.parameters transform) [a] =
      some (kind.act transform a) := by
  rw [← kind.evaluate?_eq transform a 0]
  rcases kind.isTransform with isTo | isFrom
  · rw [isTo]
    rfl
  · rw [isFrom]
    rfl

theorem combine?_of_plain {opcode : Opcode} (notTo : opcode ≠ .transformTo)
    (notFrom : opcode ≠ .transformFrom) (notFold : opcode ≠ .revolutionTo)
    (parameters : List α) (values : List (Vec4 α)) :
    interpretation.combine? opcode parameters values =
      interpretation.operate? opcode parameters values := by
  unfold combine?
  split
  · exact absurd rfl notTo
  · exact absurd rfl notFrom
  · exact absurd rfl notFold
  · rfl

end Interpretation

namespace Graph

variable [Scalar α] {interpretation : Interpretation α} {graph larger : Graph α}
  {point : Vec3 α} {id : NodeId} {τ : Type u}

/-- A node has the value of its base, after the transform that it applies. -/
theorem Merged.valueUnder?_eq (merged : graph.Merged) (kind : TransformKind α τ)
    (inside : id.index < graph.size) :
    graph.valueUnder? interpretation point id =
      (graph.valueUnder? interpretation point (graph.base kind id)).map fun source =>
        kind.result source ((graph.transform? kind.select id).map Prod.fst) := by
  rcases exists_node?_of_lt inside with ⟨node, found⟩
  rcases merged.transform?_cases kind found with
    ⟨transform, source, opcode, listed, single, remembers⟩ | ⟨-, forgets⟩
  · have notPoint : node.opcode ≠ .point :=
      opcode ▸ Opcode.ne_point_of_hasKernel kind.hasKernel
    rw [merged.valid.valueUnder?_of_node? found notPoint, single, opcode, listed,
      base, remembers]
    cases value : graph.valueUnder? interpretation point source with
    | none => simp [value]
    | some a =>
        simp [value, interpretation.combine?_of_kind, TransformKind.result]
  · rw [base, forgets]
    simp [TransformKind.result]

/-- The base of a base is the base. -/
theorem Merged.base_base (merged : graph.Merged) (kind : TransformKind α τ)
    (inside : id.index < graph.size) :
    graph.base kind (graph.base kind id) = graph.base kind id := by
  rw [base, merged.transform?_base kind inside]
  rfl

variable {kind : TransformKind α τ} {after : τ → τ → τ} {isIdentity : τ → Bool}

/--
A node has a value, should there be one, that transforms may be merged with: the
one that it applies is proper, and acts on what it admits.
-/
structure Stands (laws : kind.Laws after isIdentity)
    (interpretation : Interpretation α) (point : Vec3 α) (graph : Graph α)
    (id : NodeId) (value : Option (Vec4 α)) : Prop where
  inside : id.index < graph.size
  proper : ∀ transform ∈ (graph.transform? kind.select id).map Prod.fst,
    laws.proper transform
  admits : ∀ a ∈ graph.valueUnder? interpretation point (graph.base kind id),
    laws.admits a
  value : graph.valueUnder? interpretation point id = value

variable {laws : kind.Laws after isIdentity} {value : Option (Vec4 α)}

theorem Stands.extend (stands : Stands laws interpretation point graph id value)
    (merged : graph.Merged) (mergedLarger : larger.Merged)
    (extended : graph.Extends larger) :
    Stands laws interpretation point larger id value := by
  have same := extended.transform?_eq kind.select stands.inside
  have sameBase : larger.base kind id = graph.base kind id := by
    rw [base, same, base]
  refine ⟨extended.index_lt stands.inside, same ▸ stands.proper, ?_, ?_⟩
  · rw [sameBase, extended.valueUnder?_eq merged.valid mergedLarger.valid
      (merged.base_spec kind stands.inside).1]
    exact stands.admits
  · rw [extended.valueUnder?_eq merged.valid mergedLarger.valid stands.inside]
    exact stands.value

section Gains

variable {opcode : Opcode} {parameters : List α} {dependencies : List NodeId}
  {payload : Option (Payload α)}

/-- A node that was made has the value of its operation on its dependencies. -/
theorem Gains.valueUnder?_eq (merged : graph.Merged) (mergedLarger : larger.Merged)
    (extended : graph.Extends larger)
    (gains : graph.Gains larger opcode parameters dependencies payload id)
    (kernel : opcode.hasKernel = true)
    (inside : ∀ dependency ∈ dependencies, dependency.index < graph.size) :
    larger.valueUnder? interpretation point id =
      (dependencies.mapM (graph.valueUnder? interpretation point)).bind
        (interpretation.combine? opcode parameters) := by
  rcases gains.found with ⟨node, found, operation⟩
  rcases Node.eq_of_operation_eq_make operation with
    ⟨isOpcode, listed, declared, -⟩
  have notPoint : node.opcode ≠ .point :=
    isOpcode ▸ Opcode.ne_point_of_hasKernel kernel
  have same : dependencies.mapM (larger.valueUnder? interpretation point) =
      dependencies.mapM (graph.valueUnder? interpretation point) :=
    mapM_congr_of_mem fun dependency member =>
      extended.valueUnder?_eq merged.valid mergedLarger.valid
        (inside dependency member)
  rw [mergedLarger.valid.valueUnder?_of_node? found notPoint, isOpcode, listed,
    declared, same]

/-- A node of a plain operation stands for its value, nothing being pending. -/
theorem Gains.stands_of_plain (mergedLarger : larger.Merged)
    (gains : graph.Gains larger opcode parameters dependencies payload id)
    (different : opcode ≠ kind.opcode)
    (valued : larger.valueUnder? interpretation point id = value)
    (admits : ∀ a ∈ value, laws.admits a) :
    Stands laws interpretation point larger id value := by
  have forgets := gains.transform?_eq_none kind mergedLarger different
  refine ⟨gains.inside, ?_, ?_, valued⟩
  · rw [forgets]
    nofun
  · rw [base, forgets]
    exact valued ▸ admits

end Gains

variable [DecidableEq α]

/-- Applying a proper transform makes a node of the transformed value. -/
theorem Merged.stands_wrap (merged : graph.Merged)
    (stands : Stands laws interpretation point graph id value) {transform : τ}
    (proper : laws.proper transform) :
    let composite := ((graph.transform? kind.select id).map Prod.fst).elim transform
      (after transform)
    Build.Ensures (fun _ => True)
      (fun larger result =>
        Stands laws interpretation point larger result
          (value.map (kind.act transform)))
      graph
      (if isIdentity composite then
        (.ok (graph.base kind id), graph)
      else
        Build.make kind.opcode (kind.parameters composite) [graph.base kind id]
          (some (kind.payload composite)) graph) := by
  intro composite
  have whole : graph.valueUnder? interpretation point id = _ :=
    merged.valueUnder?_eq kind stands.inside
  -- The composite acts on the base as the transform acts on the value of the node.
  have ⟨composed, acts⟩ := laws.composite proper stands.proper
  have moved : value.map (kind.act transform) =
      (graph.valueUnder? interpretation point (graph.base kind id)).map
        (kind.act composite) := by
    rw [← stands.value, whole, Option.map_map]
    exact congrArg (Option.map · _) (funext fun a => (acts a).symm)
  rw [moved]
  have insideBase := (merged.base_spec kind stands.inside).1
  refine merged.ensures_wrap trivial kind stands.inside composite _
    (fun dropped => ?_)
    (@fun larger _ _ mergedLarger extended gains => ⟨trivial, ?_⟩)
  · refine ⟨insideBase, ?_, ?_, ?_⟩
    · rw [merged.transform?_base kind stands.inside]
      nofun
    · rw [merged.base_base kind stands.inside]
      exact stands.admits
    · have admits := stands.admits
      cases source : graph.valueUnder? interpretation point (graph.base kind id) with
      | none => rfl
      | some a =>
          rw [source] at admits
          rw [Option.map_some, laws.act_identity dropped a (admits a rfl)]
  · have remembers := gains.transform?_eq kind mergedLarger
    have same :
        larger.valueUnder? interpretation point (graph.base kind id) = _ :=
      extended.valueUnder?_eq merged.valid mergedLarger.valid insideBase
    refine ⟨gains.inside, ?_, ?_, ?_⟩
    · rw [remembers]
      rintro _ ⟨⟩
      exact composed
    · rw [base, remembers]
      exact fun a found => stands.admits a (same ▸ found)
    · rw [mergedLarger.valueUnder?_eq kind gains.inside, base, remembers]
      exact congrArg (Option.map (kind.act composite)) same

end Graph

/-! ## Shapes -/

namespace Shape

open SolidField.Graph

variable [ExactScalar α] {interpretation : Interpretation α} {point : Vec3 α}
  {graph : Graph α} {id : NodeId}

/-- A node stands for a point. -/
abbrev StandsForPoint (interpretation : Interpretation α) (point : Vec3 α)
    (graph : Graph α) (id : NodeId) (place : Vec3 α) : Prop :=
  Stands pointLaws interpretation point graph id (some (Kernel.pointValue place))

/-- A node stands for a value, should there be one. -/
abbrev StandsForValue (interpretation : Interpretation α) (point : Vec3 α)
    (graph : Graph α) (id : NodeId) (value : Option (Vec4 α)) : Prop :=
  Stands valueLaws interpretation point graph id value

/-- Nodes stand for the values of the shapes of a list at a place. -/
def StandForFields (interpretation : Interpretation α) (point : Vec3 α)
    (graph : Graph α) (place : Vec3 α) : List NodeId → List (Shape α) → Prop :=
  List.Forall₂ fun id shape => StandsForValue interpretation point graph id
    (shape.fieldUnder? interpretation place)

theorem StandForFields.inside {place : Vec3 α} {ids : List NodeId}
    {shapes : List (Shape α)}
    (stand : StandForFields interpretation point graph place ids shapes) :
    ∀ id ∈ ids, id.index < graph.size := by
  induction stand with
  | nil => simp
  | cons first _ induction =>
      rw [List.forall_mem_cons]
      exact ⟨first.inside, induction⟩

theorem StandForFields.mapM_eq {place : Vec3 α} {ids : List NodeId}
    {shapes : List (Shape α)}
    (stand : StandForFields interpretation point graph place ids shapes) :
    ids.mapM (graph.valueUnder? interpretation point) =
      allFieldsUnder? interpretation place shapes := by
  induction stand with
  | nil => rfl
  | cons first _ induction =>
      rw [List.mapM_cons, first.value, induction, allFieldsUnder?]

theorem length_of_allFieldsUnder? {place : Vec3 α} {shapes : List (Shape α)}
    {values : List (Vec4 α)}
    (valued : allFieldsUnder? interpretation place shapes = some values) :
    values.length = shapes.length := by
  induction shapes generalizing values with
  | nil =>
      cases valued
      rfl
  | cons shape shapes induction =>
      simp only [allFieldsUnder?, Option.bind_eq_bind,
        Option.bind_eq_some_iff] at valued
      rcases valued with ⟨value, -, others, othersValued, same⟩
      cases same
      rw [List.length_cons, List.length_cons, induction othersValued]

/-- Unless there is just one of them, a boolean operates on its values. -/
theorem bind_combinedUnder? {opcode : Opcode} {radius : α} {place : Vec3 α}
    {shapes : List (Shape α)} (many : shapes.length ≠ 1) :
    (allFieldsUnder? interpretation place shapes).bind
        (combinedUnder? interpretation opcode radius) =
      (allFieldsUnder? interpretation place shapes).bind
        (interpretation.operate? opcode [filletParameter radius]) := by
  refine Option.bind_congr fun values valued => ?_
  rw [← length_of_allFieldsUnder? valued] at many
  match values with
  | [] => rfl
  | [_] => exact absurd rfl many
  | _ :: _ :: _ => rfl

variable [DecidableEq α]

/-- A plain operation makes a node that stands for what it makes of values. -/
theorem stands_plain {opcode : Opcode} {parameters : List α}
    {dependencies : List NodeId} (merged : graph.Merged)
    (notTo : opcode ≠ .transformTo) (notFrom : opcode ≠ .transformFrom)
    (notFold : opcode ≠ .revolutionTo) (kernel : opcode.hasKernel = true)
    (inside : ∀ dependency ∈ dependencies, dependency.index < graph.size)
    {values : Option (List (Vec4 α))}
    (valued : dependencies.mapM (graph.valueUnder? interpretation point) = values) :
    Build.Ensures (fun _ => True)
      (fun larger result => StandsForValue interpretation point larger result
        (values.bind (interpretation.operate? opcode parameters)))
      graph (Build.make opcode parameters dependencies none graph) := by
  refine merged.ensures_plain trivial notTo notFrom
    fun mergedLarger extended gains => ⟨trivial, ?_⟩
  refine gains.stands_of_plain mergedLarger notFrom ?_ fun _ _ => trivial
  rw [gains.valueUnder?_eq merged mergedLarger extended kernel inside, valued]
  congr 1
  funext values
  exact interpretation.combine?_of_plain notTo notFrom notFold parameters values

theorem stands_unary {opcode : Opcode} {parameters : List α} (merged : graph.Merged)
    (notTo : opcode ≠ .transformTo) (notFrom : opcode ≠ .transformFrom)
    (notFold : opcode ≠ .revolutionTo) (kernel : opcode.hasKernel = true)
    (inside : id.index < graph.size) {value : Option (Vec4 α)}
    (valued : graph.valueUnder? interpretation point id = value) :
    Build.Ensures (fun _ => True)
      (fun larger result => StandsForValue interpretation point larger result
        (value.bind fun a => interpretation.operate? opcode parameters [a]))
      graph (Build.make opcode parameters [id] none graph) := by
  have values : [id].mapM (graph.valueUnder? interpretation point) =
      value.map fun a => [a] := by
    rw [List.mapM_cons, valued]
    cases value <;> rfl
  have made : Build.Ensures _ _ graph (Build.make opcode parameters [id] none graph) :=
    stands_plain merged notTo notFrom notFold kernel (by simpa using inside) values
  rwa [Option.bind_map] at made

theorem stands_binary {opcode : Opcode} {parameters : List α} {other : NodeId}
    (merged : graph.Merged) (notTo : opcode ≠ .transformTo)
    (notFrom : opcode ≠ .transformFrom) (notFold : opcode ≠ .revolutionTo)
    (kernel : opcode.hasKernel = true) (inside : id.index < graph.size)
    (otherInside : other.index < graph.size) {value otherValue : Option (Vec4 α)}
    (valued : graph.valueUnder? interpretation point id = value)
    (otherValued : graph.valueUnder? interpretation point other = otherValue) :
    Build.Ensures (fun _ => True)
      (fun larger result => StandsForValue interpretation point larger result
        (value.bind fun a => otherValue.bind fun b =>
          interpretation.operate? opcode parameters [a, b]))
      graph (Build.make opcode parameters [id, other] none graph) := by
  have values : [id, other].mapM (graph.valueUnder? interpretation point) =
      value.bind fun a => otherValue.map fun b => [a, b] := by
    rw [List.mapM_cons, List.mapM_cons, valued, otherValued]
    cases value <;> cases otherValue <;> rfl
  have made : Build.Ensures _ _ graph
      (Build.make opcode parameters [id, other] none graph) :=
    stands_plain merged notTo notFrom notFold kernel (by simp [inside, otherInside])
      values
  simpa only [Option.bind_assoc, Option.bind_map, Function.comp_def] using made

/-- A boolean of nodes stands for the combination of their values. -/
theorem stands_combine {opcode : Opcode} {place : Vec3 α} {ids : List NodeId}
    {shapes : List (Shape α)} (merged : graph.Merged)
    (arity : opcode.arity = .associative) (radius : α)
    (stand : StandForFields interpretation point graph place ids shapes) :
    Build.Ensures (fun _ => True)
      (fun larger result => StandsForValue interpretation point larger result
        ((allFieldsUnder? interpretation place shapes).bind
          (combinedUnder? interpretation opcode radius)))
      graph (Build.combine opcode (filletParameter radius) ids graph) := by
  have notTo : opcode ≠ .transformTo := by
    rintro rfl
    cases arity
  have notFrom : opcode ≠ .transformFrom := by
    rintro rfl
    cases arity
  have notFold : opcode ≠ .revolutionTo := by
    rintro rfl
    cases arity
  have kernel : opcode.hasKernel = true := by
    cases opcode <;> first | rfl | cases arity
  have made : Build.Ensures _ _ graph
      (Build.make opcode [filletParameter radius] ids none graph) :=
    stands_plain merged notTo notFrom notFold kernel stand.inside stand.mapM_eq
  unfold Build.combine
  split
  · obtain ⟨shape, others, stands, nothing, rfl⟩ := List.forall₂_cons_left_iff.mp stand
    obtain rfl := List.forall₂_nil_left_iff.mp nothing
    refine .pure merged trivial ?_
    rw [allFieldsUnder?, allFieldsUnder?]
    cases field : shape.fieldUnder? interpretation place with
    | none => rwa [field] at stands
    | some value => rwa [field] at stands
  · next several =>
      have many : shapes.length ≠ 1 := by
        rw [← stand.length_eq, ne_eq, List.length_eq_one_iff]
        exact fun ⟨single, same⟩ => several single same
      rwa [bind_combinedUnder? many]

mutual

/-- Lowering a shape at a point makes a node of its value at the point. -/
theorem stands_lowerAt (shape : Shape α) {graph : Graph α} {id : NodeId}
    {place : Vec3 α} (unit : ∀ t ∈ shape.similarities, t.rotation.IsUnit)
    (merged : graph.Merged)
    (stands : StandsForPoint interpretation point graph id place) :
    Build.Ensures (fun _ => True)
      (fun larger result => StandsForValue interpretation point larger result
        (shape.fieldUnder? interpretation place))
      graph (shape.lowerAt id graph) := by
  match shape with
  | rectangle _ | circle _ | polygon _ | sphere _ | box _ | cylinder _ _ =>
      exact stands_unary merged (by decide) (by decide) (by decide) rfl
        stands.inside stands.value
  | extrusion profile height =>
      rw [similarities] at unit
      rw [lowerAt, fieldUnder?]
      apply (stands_lowerAt profile unit merged stands).bind
      intro _ _ mergedLarger extended _ profileStands
      have pointStands := stands.extend merged mergedLarger extended
      exact stands_binary mergedLarger (by decide) (by decide) (by decide) rfl
        profileStands.inside pointStands.inside profileStands.value
        pointStands.value
  | revolution profile =>
      rw [similarities] at unit
      rw [lowerAt, fieldUnder?]
      have folds : Build.Ensures (fun _ => True)
          (fun larger folded => StandsForPoint interpretation point larger folded
            (interpretation.fold place))
          graph (Build.make .revolutionTo [] [id] none graph) := by
        refine merged.ensures_plain trivial nofun nofun
          fun mergedFolded extended gains => ⟨trivial, ?_⟩
        refine gains.stands_of_plain mergedFolded nofun ?_ ?_
        · rw [gains.valueUnder?_eq merged mergedFolded extended rfl
            (by simpa using stands.inside), List.mapM_cons, stands.value]
          rfl
        · rintro _ ⟨⟩
          rfl
      apply folds.bind
      intro _ _ mergedFolded extendedFolded _ foldedStands
      apply (stands_lowerAt profile unit mergedFolded foldedStands).bind
      intro _ _ mergedLarger extended _ profileStands
      have pointStands :=
        stands.extend merged mergedLarger (extendedFolded.trans extended)
      exact stands_binary mergedLarger (by decide) (by decide) (by decide) rfl
        profileStands.inside pointStands.inside profileStands.value
        pointStands.value
  | union shapes radius | intersection shapes radius =>
      rw [similarities] at unit
      rw [lowerAt, fieldUnder?]
      exact (stands_lowerAllAt shapes unit merged stands).bind
        fun mergedLarger _ _ stand => stands_combine mergedLarger rfl radius stand
  | subtraction base tool radius =>
      rw [similarities, List.forall_mem_append] at unit
      rw [lowerAt, fieldUnder?]
      apply (stands_lowerAt base unit.1 merged stands).bind
      intro _ _ mergedBase extendedBase _ baseStands
      have pointStands := stands.extend merged mergedBase extendedBase
      apply (stands_lowerAt tool unit.2 mergedBase pointStands).bind
      intro _ _ mergedLarger extended _ toolStands
      have stillStands := baseStands.extend mergedBase mergedLarger extended
      exact stands_binary mergedLarger (by decide) (by decide) (by decide) rfl
        stillStands.inside toolStands.inside stillStands.value toolStands.value
  | offset shape _ | shell shape _ =>
      rw [similarities] at unit
      rw [lowerAt, fieldUnder?]
      exact (stands_lowerAt shape unit merged stands).bind
        fun mergedLarger _ _ childStands =>
          stands_unary mergedLarger (by decide) (by decide) (by decide) rfl
            childStands.inside childStands.value
  | transformed shape transform =>
      rw [similarities, List.forall_mem_cons] at unit
      rw [lowerAt, fieldUnder?]
      apply (merged.ensures_requireValid trivial transform).bind
      rintro _ graph _ _ _ ⟨rfl, -⟩
      have moves : Build.Ensures (fun _ => True)
          (fun larger moved => StandsForPoint interpretation point larger moved
            (transform.inverse.apply place))
          graph (Build.movePoint id transform.inverse graph) := by
        rw [movePoint_eq]
        exact merged.stands_wrap stands (Similarity.isUnit_inverse unit.1)
      apply moves.bind
      intro _ _ mergedMoved _ _ movedStands
      apply (stands_lowerAt shape unit.2 mergedMoved movedStands).bind
      intro _ _ mergedLarger _ _ childStands
      have proper : (ValueTransform.ofSimilarity transform).rotation.IsUnit := unit.1
      have wraps := mergedLarger.stands_wrap childStands proper
      rw [moveValue_eq, bind_pure_comp, Option.map_eq_map]
      exact wraps

/-- Lowering a list of shapes makes a node for each of them. -/
theorem stands_lowerAllAt (shapes : List (Shape α)) {graph : Graph α} {id : NodeId}
    {place : Vec3 α} (unit : ∀ t ∈ allSimilarities shapes, t.rotation.IsUnit)
    (merged : graph.Merged)
    (stands : StandsForPoint interpretation point graph id place) :
    Build.Ensures (fun _ => True)
      (fun larger ids =>
        StandForFields interpretation point larger place ids shapes)
      graph (lowerAllAt id shapes graph) := by
  match shapes with
  | [] => exact .pure merged trivial .nil
  | shape :: shapes =>
      rw [allSimilarities, List.forall_mem_append] at unit
      rw [lowerAllAt]
      apply (stands_lowerAt shape unit.1 merged stands).bind
      intro _ _ mergedFirst extendedFirst _ firstStands
      have pointStands := stands.extend merged mergedFirst extendedFirst
      apply (stands_lowerAllAt shapes unit.2 mergedFirst pointStands).bind
      intro _ _ mergedLarger extended _ othersStand
      exact .pure mergedLarger trivial
        (.cons (firstStands.extend mergedFirst mergedLarger extended) othersStand)

end

/-- Lowering a shape makes a node of its value. -/
theorem stands_lower (shape : Shape α)
    (unit : ∀ t ∈ shape.similarities, t.rotation.IsUnit) (merged : graph.Merged)
    (interpretation : Interpretation α) (point : Vec3 α) :
    Build.Ensures (fun _ => True)
      (fun larger result => StandsForValue interpretation point larger result
        (shape.fieldUnder? interpretation point))
      graph (shape.lower graph) := by
  rcases merged.valid.point with ⟨node, found, isPoint, nothing⟩
  have forgets : graph.transform? Payload.point? Graph.point = none :=
    transform?_eq_none found (Or.inr nothing)
  have value : graph.valueUnder? interpretation point Graph.point =
      some (Kernel.pointValue point) := valueUnder?_of_isPoint found isPoint
  refine shape.stands_lowerAt unit merged
    ⟨index_lt_of_node? found, ?_, ?_, value⟩
  · show ∀ t ∈ (graph.transform? Payload.point? Graph.point).map Prod.fst, _
    rw [forgets]
    nofun
  · have base : graph.base TransformKind.point Graph.point = Graph.point :=
      congrArg (fun remembered => (remembered.map Prod.snd).getD Graph.point) forgets
    rw [base, value]
    rintro _ ⟨⟩
    rfl

/--
Whatever shapes were lowered before, a shape is lowered if its similarities are
valid and its booleans not empty, and only then.  If its rotations are unit
rotations, its node has the value that the shape has without merging, at every point
and whatever the kernels of the other operations are.
-/
theorem lowered_value_eq_unmerged (earlier : List (Shape α)) (shape : Shape α)
    (unit : ∀ t ∈ shape.similarities, t.rotation.IsUnit) :
    let graph := Graph.initial.lowerAll earlier
    ((∃ root larger, shape.lower graph = (.ok root, larger)) ↔
      shape.hasOperands ∧ ∀ t ∈ shape.similarities, t.isValid) ∧
      ∀ root larger, shape.lower graph = (.ok root, larger) →
        ∀ (interpretation : Interpretation α) (point : Vec3 α),
          larger.valueUnder? interpretation point root =
            shape.fieldUnder? interpretation point := by
  intro graph
  have merged : graph.Merged := merged_lowerAll earlier
  refine ⟨exists_lower_iff merged shape, ?_⟩
  intro root larger lowered interpretation point
  have ensures := shape.stands_lower unit merged interpretation point
  rw [lowered] at ensures
  exact (ensures.result root rfl).value

/-- A revolved disc, turned by a quarter of the way there and back, and moved. -/
def turnedRing : Shape ℚ :=
  .transformed
    (.transformed
      (.offset
        (.transformed (.revolution (.circle 1)) ⟨⟨0, 0, 3 / 5, 4 / 5⟩, 1, 0⟩)
        (1 / 4))
      ⟨⟨0, 0, -3 / 5, 4 / 5⟩, 1 / 2, ⟨1, 0, 2⟩⟩)
    ⟨⟨0, 0, 3 / 5, 4 / 5⟩, 2, ⟨0, 1, 0⟩⟩

/-- The two outer transforms of the ring undo each other for values, not for points. -/
theorem turnedRing_value_eq_unmerged :
    let larger := (turnedRing.lower (Graph.initial.lowerAll [])).2
    (larger.valueTransform? ⟨8⟩).isNone = true ∧
      ∀ (interpretation : Interpretation ℚ) (point : Vec3 ℚ),
        larger.valueUnder? interpretation point ⟨8⟩ =
          turnedRing.fieldUnder? interpretation point := by
  intro larger
  have found : (turnedRing.lower (Graph.initial.lowerAll [])).1.toOption =
      some ⟨8⟩ := by
    decide +kernel
  refine ⟨by decide +kernel, ?_⟩
  exact (lowered_value_eq_unmerged [] turnedRing (by decide +kernel)).2 ⟨8⟩ larger
    (lower_eq_ok found)

end Shape

end SolidField
