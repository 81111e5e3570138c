import SolidField.Proofs.Shape.Carried

/-!
# Lowering preserves meaning

Lowering a shape agrees with evaluating it along its tree: in whatever graph
earlier shapes have left behind, the node of a shape has the value of the shape
and the transform that is pending for it.
-/

universe u

namespace SolidField

variable {α : Type u}

/-! ## Steps that agree with results -/

namespace Build

/--
A building step agrees with a result that is expected of it: either both fail, or
the step returns something related to the result.  In both cases it keeps the
graph merged and only adds to it.
-/
inductive Agrees {β : Type} {γ : Type u} (relates : Graph α → β → γ → Prop)
    (graph : Graph α) : Except (BuildError α) β × Graph α → Option γ → Prop where
  | ok {result : β} {value : γ} {larger : Graph α} (merged : larger.Merged)
      (extended : graph.Extends larger) (related : relates larger result value) :
      Agrees relates graph (.ok result, larger) (some value)
  | error {error : BuildError α} {larger : Graph α} (merged : larger.Merged)
      (extended : graph.Extends larger) :
      Agrees relates graph (.error error, larger) none

variable {β δ : Type} {γ ζ : Type u} {relates : Graph α → β → γ → Prop}
  {relatesNext : Graph α → δ → ζ → Prop} {graph : Graph α}

/-- After a step that succeeds as expected the next one decides. -/
theorem Agrees.bind_some {step : Build α β} {next : β → Build α δ} {value : γ}
    {expected : Option ζ} (first : Agrees relates graph (step graph) (some value))
    (second : ∀ {result : β} {larger : Graph α}, larger.Merged →
      graph.Extends larger → relates larger result value →
        Agrees relatesNext larger (next result larger) expected) :
    Agrees relatesNext graph ((step >>= next) graph) expected := by
  cases reached : step graph with
  | mk outcome larger =>
      rw [reached] at first
      cases first with
      | ok merged extended related =>
          rw [Attempt.bind_apply_ok reached]
          have further := second merged extended related
          generalize next _ larger = outcome at further
          cases further with
          | ok mergedNext extendedNext relatedNext =>
              exact .ok mergedNext (extended.trans extendedNext) relatedNext
          | error mergedNext extendedNext =>
              exact .error mergedNext (extended.trans extendedNext)

/-- Steps that agree one after the other agree. -/
theorem Agrees.bind {step : Build α β} {next : β → Build α δ}
    {expected : Option γ} {expectedNext : γ → Option ζ}
    (first : Agrees relates graph (step graph) expected)
    (second : ∀ {result : β} {value : γ} {larger : Graph α}, larger.Merged →
      graph.Extends larger → relates larger result value →
        Agrees relatesNext larger (next result larger) (expectedNext value)) :
    Agrees relatesNext graph ((step >>= next) graph)
      (expected.bind expectedNext) := by
  cases expected with
  | some value => exact first.bind_some second
  | none =>
      cases reached : step graph with
      | mk outcome larger =>
          rw [reached] at first
          cases first with
          | error merged extended =>
              rw [Attempt.bind_apply_error reached]
              exact .error merged extended

/-- Whether it fails or not, a step that agrees keeps a graph merged. -/
theorem Agrees.merged {outcome : Except (BuildError α) β × Graph α}
    {expected : Option γ} (agrees : Agrees relates graph outcome expected) :
    outcome.2.Merged := by
  cases agrees with
  | ok merged => exact merged
  | error merged => exact merged

theorem Agrees.pure (merged : graph.Merged) {result : β} {value : γ}
    (related : relates graph result value) :
    Agrees relates graph ((pure result : Build α β) graph) (some value) :=
  .ok merged (Graph.Extends.refl graph) related

theorem Agrees.map {outcome : Except (BuildError α) β × Graph α}
    {expected : Option γ} {relatesOther : Graph α → β → ζ → Prop}
    (agrees : Agrees relates graph outcome expected) (function : γ → ζ)
    (weaker : ∀ larger result value, relates larger result value →
      relatesOther larger result (function value)) :
    Agrees relatesOther graph outcome (expected.map function) := by
  cases agrees with
  | ok merged extended related =>
      exact .ok merged extended (weaker _ _ _ related)
  | error merged extended => exact .error merged extended

end Build

/-! ## Frames and pending values in a graph -/

variable [Scalar α]

namespace Graph

variable {graph larger : Graph α} {point : Vec3 α} {id : NodeId}

/-- A node stands for a frame. -/
def HoldsFrame (point : Vec3 α) (graph : Graph α) (id : NodeId)
    (frame : Frame α) : Prop :=
  graph.Carries point .point id frame.source frame.pending

/-- A node stands for a value with its pending transform. -/
def HoldsValue (point : Vec3 α) (graph : Graph α) (id : NodeId)
    (result : Pending α) : Prop :=
  graph.Carries point .value id result.source result.pending

theorem HoldsFrame.value?_eq {frame : Frame α}
    (holds : graph.HoldsFrame point id frame) (merged : graph.Merged) :
    graph.value? point id = some frame.point := by
  rw [Carries.value?_eq holds merged, Frame.point]
  cases frame.pending <;> rfl

theorem HoldsValue.value?_eq {result : Pending α}
    (holds : graph.HoldsValue point id result) (merged : graph.Merged) :
    graph.value? point id = some result.value := by
  rw [Carries.value?_eq holds merged, Pending.value]
  cases result.pending <;> rfl

/-- Nodes stand for values, one each. -/
def HoldsValues (point : Vec3 α) (graph : Graph α) :
    List NodeId → List (Pending α) → Prop
  | [], [] => True
  | id :: ids, result :: results =>
      graph.HoldsValue point id result ∧ graph.HoldsValues point ids results
  | _, _ => False

theorem HoldsValues.inside {ids : List NodeId} {results : List (Pending α)}
    (holds : graph.HoldsValues point ids results) :
    ∀ id ∈ ids, id.index < graph.size := by
  induction ids generalizing results with
  | nil => simp
  | cons id ids induction =>
      cases results with
      | nil => cases holds
      | cons result results =>
          rw [List.forall_mem_cons]
          exact ⟨Carries.inside holds.1, induction holds.2⟩

theorem HoldsValues.mapM_eq {ids : List NodeId} {results : List (Pending α)}
    (holds : graph.HoldsValues point ids results) (merged : graph.Merged) :
    ids.mapM (graph.value? point) = some (results.map Pending.value) := by
  induction ids generalizing results with
  | nil =>
      cases results with
      | nil => rfl
      | cons result results => cases holds
  | cons id ids induction =>
      cases results with
      | nil => cases holds
      | cons result results =>
          rw [List.mapM_cons, HoldsValue.value?_eq holds.1 merged,
            induction holds.2]
          rfl

/-- A node of a plain operation stands for a value that nothing is pending for. -/
structure Plain (point : Vec3 α) (graph : Graph α) (id : NodeId)
    (value : Vec4 α) : Prop where
  inside : id.index < graph.size
  value : graph.value? point id = some value
  /-- It applies no transform. -/
  bare : ∀ {τ : Type u} (kind : TransformKind α τ),
    graph.transform? kind.select id = none

theorem Plain.carries {τ : Type u} {value : Vec4 α}
    (plain : graph.Plain point id value) (kind : TransformKind α τ) :
    graph.Carries point kind id value none where
  inside := plain.inside
  pending := by rw [plain.bare, Option.map_none]
  source := by rw [base, plain.bare, Option.map_none, Option.getD_none, plain.value]

theorem Merged.holdsFrame_point {graph : Graph α} (merged : graph.Merged)
    (point : Vec3 α) :
    graph.HoldsFrame point Graph.point (.ofPoint (Kernel.pointValue point)) := by
  rcases merged.valid.point with ⟨node, found, isPoint, none⟩
  exact Plain.carries
    ⟨index_lt_of_node? found, value?_of_isPoint found isPoint,
      fun _ => transform?_eq_none found (Or.inr none)⟩ .point

theorem holdsValue_of_plain {outcome : Except (BuildError α) NodeId × Graph α}
    {expected : Option (Vec4 α)}
    (agrees : Build.Agrees (Plain point) graph outcome expected) :
    Build.Agrees (HoldsValue point) graph outcome
      (expected.map Pending.ofValue) :=
  agrees.map Pending.ofValue fun _ _ _ plain => plain.carries .value

theorem holdsFrame_of_plain {outcome : Except (BuildError α) NodeId × Graph α}
    {expected : Option (Vec4 α)}
    (agrees : Build.Agrees (Plain point) graph outcome expected) :
    Build.Agrees (HoldsFrame point) graph outcome
      (expected.map Frame.ofPoint) :=
  agrees.map Frame.ofPoint fun _ _ _ plain => plain.carries .point

variable [DecidableEq α] {opcode : Opcode} {parameters : List α}
  {dependencies : List NodeId}

/-- A plain operation is made, and has the value that it computes. -/
theorem Merged.agrees_make (merged : graph.Merged) (notTo : opcode ≠ .transformTo)
    (notFrom : opcode ≠ .transformFrom) (kernel : opcode.hasKernel = true)
    (arity : opcode.arity.accepts dependencies.length = true)
    (accepted : opcode.parameters.accepts parameters.length = true)
    (inside : ∀ id ∈ dependencies, id.index < graph.size)
    {values : List (Vec4 α)}
    (valued : dependencies.mapM (graph.value? point) = some values)
    {value : Vec4 α}
    (combined : opcode.combine? parameters values = some value) :
    Build.Agrees (Plain point) graph
      (Build.make opcode parameters dependencies none graph) (some value) := by
  obtain ⟨id, larger, node, made, mergedLarger, extended, found, sameOpcode,
      sameParameters, sameDependencies, forgets⟩ :=
    merged.exists_make kernel arity accepted inside (.plain notTo notFrom)
      fun isTransform => absurd isTransform (by simp [notTo, notFrom])
  have notPoint : node.opcode ≠ .point :=
    sameOpcode ▸ Opcode.ne_point_of_hasKernel kernel
  have same : dependencies.mapM (larger.value? point) = some values := by
    rw [← valued]
    exact mapM_congr_of_mem fun dependency member =>
      extended.value?_eq merged.valid mergedLarger.valid
        (inside dependency member)
  rw [made]
  refine .ok mergedLarger extended ⟨index_lt_of_node? found, ?_, fun kind => ?_⟩
  · rw [mergedLarger.valid.value?_of_node? found notPoint, sameDependencies, same,
      sameOpcode, sameParameters]
    exact combined
  · exact transform?_eq_none found (Or.inl forgets)

theorem Merged.agrees_unary (merged : graph.Merged)
    (notTo : opcode ≠ .transformTo) (notFrom : opcode ≠ .transformFrom)
    (kernel : opcode.hasKernel = true) (arity : opcode.arity = .unary)
    (accepted : opcode.parameters.accepts parameters.length = true)
    (inside : id.index < graph.size) {input value : Vec4 α}
    (valued : graph.value? point id = some input)
    (computed : Kernel.evaluate? opcode parameters input 0 = some value) :
    Build.Agrees (Plain point) graph
      (Build.make opcode parameters [id] none graph) (some value) := by
  have inputs : [id].mapM (graph.value? point) = some [input] := by
    rw [List.mapM_cons, valued]
    rfl
  exact merged.agrees_make notTo notFrom kernel (by rw [arity]; rfl) accepted
    (by simpa using inside) inputs computed

theorem Merged.agrees_binary (merged : graph.Merged) {other : NodeId}
    (notTo : opcode ≠ .transformTo) (notFrom : opcode ≠ .transformFrom)
    (kernel : opcode.hasKernel = true) (arity : opcode.arity = .binary)
    (accepted : opcode.parameters.accepts parameters.length = true)
    (inside : id.index < graph.size) (otherInside : other.index < graph.size)
    {first second value : Vec4 α}
    (valued : graph.value? point id = some first)
    (otherValued : graph.value? point other = some second)
    (computed : Kernel.evaluate? opcode parameters first second = some value) :
    Build.Agrees (Plain point) graph
      (Build.make opcode parameters [id, other] none graph) (some value) := by
  have inputs : [id, other].mapM (graph.value? point) = some [first, second] := by
    rw [List.mapM_cons, valued, List.mapM_cons, otherValued]
    rfl
  exact merged.agrees_make notTo notFrom kernel (by rw [arity]; rfl) accepted
    (by simp [inside, otherInside]) inputs computed

/-- The combination of the nodes of a list agrees with that of their values. -/
theorem Merged.agrees_combine (merged : graph.Merged) {ids : List NodeId}
    {results : List (Pending α)}
    (holds : graph.HoldsValues point ids results)
    (arity : opcode.arity = .associative) (layout : opcode.parameters = .fixed 1)
    (radius : α) :
    Build.Agrees (HoldsValue point) graph
      (Build.combine opcode (filletParameter radius) ids graph)
      (Shape.combined? opcode radius results) := by
  have notTo : opcode ≠ .transformTo := by
    rintro rfl
    cases arity
  have notFrom : opcode ≠ .transformFrom := by
    rintro rfl
    cases arity
  have kernel : opcode.hasKernel = true := by
    cases opcode <;> first | rfl | cases arity
  have accepted :
      opcode.parameters.accepts [filletParameter radius].length = true := by
    rw [layout]
    rfl
  have values := holds.mapM_eq merged
  match ids, results with
  | [], [] =>
      rcases graph.make_cases opcode [filletParameter radius] [] none with
        ⟨error, -, failed⟩ | ⟨_, clear, -⟩ | ⟨clear, -⟩
      · simp only [Build.combine, Build.make, failed]
        exact .error merged (Extends.refl graph)
      · have few := (obstacle?_eq_none_iff.mp clear).2.1
        rw [arity] at few
        cases few
      · have few := (obstacle?_eq_none_iff.mp clear).2.1
        rw [arity] at few
        cases few
  | [_], [_] => exact .pure merged holds.1
  | first :: second :: ids, firstValue :: secondValue :: results =>
      have nonempty :
          (firstValue :: secondValue :: results).map Pending.value ≠ [] := by
        simp
      rcases Opcode.exists_combine? kernel accepted nonempty with
        ⟨value, combined⟩
      have made := merged.agrees_make notTo notFrom kernel
        (by rw [arity]; simp [Arity.accepts]) accepted holds.inside values
        combined
      rw [Shape.combined?, combined]
      · exact holdsValue_of_plain made
      · intro single
        simp

/-! ## Merging transforms -/

/-- A node for a transform of a base stands for what the transform acts on. -/
theorem Merged.agrees_wrap {τ : Type u} (merged : graph.Merged)
    {kind : TransformKind α τ} {source : Vec4 α} {pending : Option τ}
    (carries : graph.Carries point kind id source pending) (transform : τ)
    (isIdentity : Bool) :
    Build.Agrees
      (fun larger result (_ : PUnit) => larger.Carries point kind result source
        (if isIdentity then none else some transform))
      graph
      (if isIdentity then
        (.ok (graph.base kind id), graph)
      else
        Build.make kind.opcode (kind.parameters transform) [graph.base kind id]
          (some (kind.payload transform)) graph)
      (some ⟨⟩) := by
  rcases merged.base_spec kind carries.inside with
    ⟨inside, node, found, different⟩
  cases isIdentity with
  | true =>
      -- The base is no transform of the kind, so nothing is pending for it.
      have forgets : graph.transform? kind.select (graph.base kind id) = none := by
        rcases merged.transform?_cases kind found with
          ⟨-, -, isKind, -⟩ | ⟨-, forgets⟩
        · exact absurd isKind different
        · exact forgets
      refine .ok merged (Extends.refl graph) ⟨inside, ?_, ?_⟩
      · rw [forgets]
        rfl
      · rw [base, forgets]
        exact carries.source
  | false =>
      have apart : kind.opcode = .transformTo ∨ kind.opcode = .transformFrom →
          ∀ dependency ∈ [graph.base kind id], ∀ source,
            graph.node? dependency = some source →
              source.opcode ≠ kind.opcode := by
        intro _ dependency member source sourceFound
        rw [List.mem_singleton.mp member, found] at sourceFound
        cases sourceFound
        exact different
      obtain ⟨result, larger, new, made, mergedLarger, extended, newFound, -, -,
          dependencies, payload⟩ :=
        merged.exists_make kind.hasKernel (by rw [kind.arity_eq]; rfl)
          (kind.accepted transform) (by simpa using inside)
          (kind.records transform) apart
      have remembers : larger.transform? kind.select result =
          some (transform, graph.base kind id) := by
        rw [transform?_of_node? newFound payload dependencies,
          kind.select_payload]
        rfl
      simp only [Bool.false_eq_true, if_false, made]
      refine .ok mergedLarger extended ⟨index_lt_of_node? newFound, ?_, ?_⟩
      · rw [remembers]
        rfl
      · rw [base, remembers]
        exact (extended.value?_eq merged.valid mergedLarger.valid inside).trans
          carries.source

theorem movePoint_eq (graph : Graph α) (id : NodeId) (toChild : Similarity α) :
    Build.movePoint id toChild graph =
      let merged := ((graph.transform? Payload.point? id).map Prod.fst).elim
        toChild toChild.after
      if merged.isIdentity then
        (.ok (graph.base .point id), graph)
      else
        Build.make .transformTo merged.parameters [graph.base .point id]
          (some (.point merged)) graph := by
  rcases Option.eq_none_or_eq_some (graph.transform? Payload.point? id) with
    forgets | ⟨⟨previous, source⟩, remembers⟩
  · simp only [Build.movePoint, pointTransform?, base, TransformKind.point,
      forgets, Option.map_none, Option.elim_none, Option.getD_none]
  · simp only [Build.movePoint, pointTransform?, base, TransformKind.point,
      remembers, Option.map_some, Option.elim_some, Option.getD_some]

theorem moveValue_eq (graph : Graph α) (id : NodeId)
    (toParent : ValueTransform α) :
    Build.moveValue id toParent graph =
      let merged := ((graph.transform? Payload.value? id).map Prod.fst).elim
        toParent toParent.after
      if merged.isIdentity then
        (.ok (graph.base .value id), graph)
      else
        Build.make .transformFrom merged.parameters [graph.base .value id]
          (some (.value merged.rotation merged.scale)) graph := by
  rcases Option.eq_none_or_eq_some (graph.transform? Payload.value? id) with
    forgets | ⟨⟨inner, source⟩, remembers⟩
  · simp only [Build.moveValue, valueTransform?, base, TransformKind.value,
      forgets, Option.map_none, Option.elim_none, Option.getD_none]
  · simp only [Build.moveValue, valueTransform?, base, TransformKind.value,
      remembers, Option.map_some, Option.elim_some, Option.getD_some]

/-- Moving a point agrees with moving its frame. -/
theorem Merged.agrees_movePoint (merged : graph.Merged) {frame : Frame α}
    (holds : graph.HoldsFrame point id frame) (toChild : Similarity α) :
    Build.Agrees (HoldsFrame point) graph (Build.movePoint id toChild graph)
      (some (frame.move toChild)) := by
  have remembered : (graph.transform? Payload.point? id).map Prod.fst =
      frame.pending := Carries.pending holds
  rw [movePoint_eq, remembered]
  apply (merged.agrees_wrap holds _ _).map (fun _ => frame.move toChild)
  intro larger result _ carries
  rw [HoldsFrame, Frame.move]
  cases pending : frame.pending <;>
    simpa only [pending, Option.elim_none, Option.elim_some] using carries

/-- Moving a value back agrees with moving its pending value. -/
theorem Merged.agrees_moveValue (merged : graph.Merged) {result : Pending α}
    (holds : graph.HoldsValue point id result) (toParent : ValueTransform α) :
    Build.Agrees (HoldsValue point) graph (Build.moveValue id toParent graph)
      (some (result.move toParent)) := by
  have remembered : (graph.transform? Payload.value? id).map Prod.fst =
      result.pending := Carries.pending holds
  rw [moveValue_eq, remembered]
  apply (merged.agrees_wrap holds _ _).map (fun _ => result.move toParent)
  intro larger node _ carries
  rw [HoldsValue, Pending.move]
  cases pending : result.pending <;>
    simpa only [pending, Option.elim_none, Option.elim_some] using carries

end Graph

/-! ## Shapes -/

namespace Shape

open SolidField.Graph

variable [DecidableEq α] {graph : Graph α} {point : Vec3 α} {id : NodeId}
  {frame : Frame α}

/-- A primitive agrees with its field. -/
theorem agrees_primitive {opcode : Opcode} {parameters : List α}
    (merged : graph.Merged) (holds : graph.HoldsFrame point id frame)
    (primitive : opcode.isPrimitive = true)
    (accepted : opcode.parameters.accepts parameters.length = true)
    {value : Vec4 α}
    (computed : Kernel.evaluate? opcode parameters frame.point 0 = some value) :
    Build.Agrees (HoldsValue point) graph
      (Build.make opcode parameters [id] none graph)
      (some (.ofValue value)) := by
  have notTo : opcode ≠ .transformTo := by
    revert primitive
    cases opcode <;> decide
  have notFrom : opcode ≠ .transformFrom := by
    revert primitive
    cases opcode <;> decide
  have kernel : opcode.hasKernel = true := by
    revert primitive
    cases opcode <;> decide
  have arity : opcode.arity = .unary := by
    revert primitive
    cases opcode <;> decide
  exact holdsValue_of_plain (merged.agrees_unary notTo notFrom kernel arity
    accepted holds.inside (holds.value?_eq merged) computed)

mutual

/-- Lowering a shape at a node agrees with its field in the frame of the node. -/
theorem agrees_lowerAt (shape : Shape α) {graph : Graph α} {id : NodeId}
    {frame : Frame α} (merged : graph.Merged)
    (holds : graph.HoldsFrame point id frame) :
    Build.Agrees (HoldsValue point) graph (shape.lowerAt id graph)
      (shape.fieldIn? frame) := by
  -- Every step extends the graph, so what a node stood for before a step is
  -- carried over to the graph behind it.
  match shape with
  | rectangle halfSize => exact agrees_primitive merged holds rfl rfl rfl
  | circle radius => exact agrees_primitive merged holds rfl rfl rfl
  | polygon points =>
      refine agrees_primitive merged holds rfl rfl ?_
      rw [Kernel.evaluate?, Kernel.pairs_flatMap_toList]
  | sphere radius => exact agrees_primitive merged holds rfl rfl rfl
  | box halfExtents => exact agrees_primitive merged holds rfl rfl rfl
  | cylinder radius height => exact agrees_primitive merged holds rfl rfl rfl
  | extrusion profile height =>
      rw [lowerAt, fieldIn?]
      apply (agrees_lowerAt profile merged holds).bind
      intro _ _ _ mergedLarger extended profileHolds
      have pointHolds : HoldsFrame point _ id frame :=
        Carries.extend holds merged mergedLarger extended
      exact holdsValue_of_plain (mergedLarger.agrees_binary (by decide)
        (by decide) rfl rfl rfl profileHolds.inside pointHolds.inside
        (profileHolds.value?_eq mergedLarger)
        (pointHolds.value?_eq mergedLarger) rfl)
  | revolution profile =>
      rw [lowerAt, fieldIn?]
      have folds : Build.Agrees (HoldsFrame point) graph
          (Build.make .revolutionTo [] [id] none graph)
          (some (.ofPoint (Kernel.revolutionTo frame.point))) :=
        holdsFrame_of_plain (merged.agrees_unary (by decide) (by decide) rfl rfl
          rfl holds.inside (holds.value?_eq merged) rfl)
      apply folds.bind_some
      intro _ _ mergedFolded extendedFolded foldedHolds
      apply (agrees_lowerAt profile mergedFolded foldedHolds).bind
      intro _ _ _ mergedLarger extended profileHolds
      have pointHolds : HoldsFrame point _ id frame :=
        Carries.extend holds merged mergedLarger (extendedFolded.trans extended)
      exact holdsValue_of_plain (mergedLarger.agrees_binary (by decide)
        (by decide) rfl rfl rfl profileHolds.inside pointHolds.inside
        (profileHolds.value?_eq mergedLarger)
        (pointHolds.value?_eq mergedLarger) rfl)
  | union shapes radius =>
      rw [lowerAt, fieldIn?]
      exact (agrees_lowerAllAt shapes merged holds).bind
        fun mergedLarger _ shapesHold =>
          mergedLarger.agrees_combine shapesHold rfl rfl radius
  | intersection shapes radius =>
      rw [lowerAt, fieldIn?]
      exact (agrees_lowerAllAt shapes merged holds).bind
        fun mergedLarger _ shapesHold =>
          mergedLarger.agrees_combine shapesHold rfl rfl radius
  | subtraction base tool radius =>
      rw [lowerAt, fieldIn?]
      apply (agrees_lowerAt base merged holds).bind
      intro _ _ _ mergedBase extendedBase baseHolds
      have pointHolds : HoldsFrame point _ id frame :=
        Carries.extend holds merged mergedBase extendedBase
      apply (agrees_lowerAt tool mergedBase pointHolds).bind
      intro _ _ _ mergedLarger extended toolHolds
      have stillHolds : HoldsValue point _ _ _ :=
        Carries.extend baseHolds mergedBase mergedLarger extended
      exact holdsValue_of_plain (mergedLarger.agrees_binary (by decide)
        (by decide) rfl rfl rfl stillHolds.inside toolHolds.inside
        (stillHolds.value?_eq mergedLarger)
        (toolHolds.value?_eq mergedLarger) rfl)
  | offset shape distance =>
      rw [lowerAt, fieldIn?]
      apply (agrees_lowerAt shape merged holds).bind
      intro _ _ _ mergedLarger _ childHolds
      exact holdsValue_of_plain (mergedLarger.agrees_unary (by decide)
        (by decide) rfl rfl rfl childHolds.inside
        (childHolds.value?_eq mergedLarger) rfl)
  | shell shape thickness =>
      rw [lowerAt, fieldIn?]
      apply (agrees_lowerAt shape merged holds).bind
      intro _ _ _ mergedLarger _ childHolds
      exact holdsValue_of_plain (mergedLarger.agrees_unary (by decide)
        (by decide) rfl rfl rfl childHolds.inside
        (childHolds.value?_eq mergedLarger) rfl)
  | transformed shape transform =>
      rw [lowerAt, fieldIn?, Build.requireValid]
      split
      · rw [Attempt.bind_apply_ok (Attempt.pure_apply _ _)]
        apply (merged.agrees_movePoint holds transform.inverse).bind_some
        intro _ _ mergedMoved _ movedHolds
        exact (agrees_lowerAt shape mergedMoved movedHolds).bind
          fun mergedLarger _ childHolds =>
            mergedLarger.agrees_moveValue childHolds _
      · exact .error merged (Extends.refl graph)

/-- Lowering a list of shapes agrees with their fields. -/
theorem agrees_lowerAllAt (shapes : List (Shape α)) {graph : Graph α}
    {id : NodeId} {frame : Frame α} (merged : graph.Merged)
    (holds : graph.HoldsFrame point id frame) :
    Build.Agrees (HoldsValues point) graph (lowerAllAt id shapes graph)
      (allFieldsIn? frame shapes) := by
  match shapes with
  | [] => exact .pure merged trivial
  | shape :: shapes =>
      rw [lowerAllAt, allFieldsIn?]
      apply (agrees_lowerAt shape merged holds).bind
      intro _ _ _ mergedFirst extendedFirst firstHolds
      have pointHolds : HoldsFrame point _ id frame :=
        Carries.extend holds merged mergedFirst extendedFirst
      apply (agrees_lowerAllAt shapes mergedFirst pointHolds).bind
      intro _ _ _ mergedLarger extended othersHold
      exact .pure mergedLarger
        ⟨Carries.extend firstHolds mergedFirst mergedLarger extended, othersHold⟩

end

end Shape

/-! ## Graphs of lowered shapes -/

namespace Graph

variable [DecidableEq α]

/-- Lower one shape after the other, whether that succeeds or not. -/
def lowerAll (graph : Graph α) (shapes : List (Shape α)) : Graph α :=
  shapes.foldl (fun graph shape => (shape.lower graph).2) graph

/-- Lowering a shape in a merged graph agrees with its field. -/
theorem Merged.agrees_lower {graph : Graph α} (merged : graph.Merged)
    (shape : Shape α) (point : Vec3 α) :
    Build.Agrees (HoldsValue point) graph (shape.lower graph)
      (shape.fieldIn? (.ofPoint (Kernel.pointValue point))) :=
  shape.agrees_lowerAt merged (merged.holdsFrame_point point)

theorem Merged.lower {graph : Graph α} (merged : graph.Merged)
    (shape : Shape α) : (shape.lower graph).2.Merged :=
  (merged.agrees_lower shape 0).merged

/-- Whatever shapes are lowered, their graph is merged. -/
theorem merged_lowerAll (shapes : List (Shape α)) :
    (initial.lowerAll shapes).Merged := by
  have kept : ∀ graph : Graph α, graph.Merged →
      (graph.lowerAll shapes).Merged := by
    intro graph merged
    induction shapes generalizing graph with
    | nil => exact merged
    | cons shape shapes induction => exact induction _ (merged.lower shape)
  exact kept initial merged_initial

end Graph

namespace Shape

variable [DecidableEq α]

/--
Whatever shapes were lowered before, lowering a shape succeeds exactly if it has
a field.  Its node then has the value of the field, and remembers exactly the
transform that is pending for it.  The nodes that were there keep their values.
-/
theorem lower_agrees_with_field (earlier : List (Shape α)) (shape : Shape α)
    (point : Vec3 α) :
    let graph := Graph.initial.lowerAll earlier
    let larger := (shape.lower graph).2
    (match (shape.lower graph).1 with
      | .ok id => ∃ result,
          shape.fieldIn? (.ofPoint (Kernel.pointValue point)) = some result ∧
            larger.value? point id = some result.value ∧
            (larger.valueTransform? id).map Prod.fst = result.pending
      | .error _ =>
          shape.fieldIn? (.ofPoint (Kernel.pointValue point)) = none) ∧
      ∀ id, id.index < graph.size →
        larger.value? point id = graph.value? point id := by
  intro graph larger
  have merged : graph.Merged := Graph.merged_lowerAll earlier
  have agrees := merged.agrees_lower shape point
  simp only [larger]
  generalize shape.lower graph = outcome at agrees
  generalize shape.fieldIn? _ = expected at agrees ⊢
  cases agrees with
  | ok mergedLarger extended related =>
      exact ⟨⟨_, rfl, related.value?_eq mergedLarger, related.pending⟩,
        fun id => extended.value?_eq merged.valid mergedLarger.valid⟩
  | error mergedLarger extended =>
      exact ⟨rfl, fun id => extended.value?_eq merged.valid mergedLarger.valid⟩

/-- A sphere of radius one, made twice as large. -/
def scaledSphere : Shape Single :=
  .transformed (.sphere 1) (.ofScale .two)

/--
A node that another shape left behind, before that shape failed, is found with
its transform.
-/
theorem scaledSphere_agrees_with_field :
    let earlier := [.union [scaledSphere, .union [] 0] 0]
    let graph := Graph.initial.lowerAll earlier
    let larger := (scaledSphere.lower graph).2
    graph.size = 4 ∧ larger.size = 4 ∧
      ∀ point, ∃ result,
        scaledSphere.fieldIn? (.ofPoint (Kernel.pointValue point)) =
            some result ∧
          larger.value? point ⟨3⟩ = some result.value ∧
          result.pending = some ⟨.identity, .two⟩ := by
  intro earlier graph larger
  refine ⟨by decide +kernel, by decide +kernel, fun point => ?_⟩
  have found : (scaledSphere.lower graph).1.toOption = some ⟨3⟩ := by
    decide +kernel
  have remembered : (larger.valueTransform? ⟨3⟩).map Prod.fst =
      some ⟨.identity, .two⟩ := by
    decide +kernel
  rcases lower_agrees_with_field earlier scaledSphere point with ⟨agrees, -⟩
  cases outcome : (scaledSphere.lower graph).1 with
  | error error =>
      rw [outcome] at found
      cases found
  | ok id =>
      rw [outcome] at found
      cases found
      simp only [graph, earlier] at outcome
      rw [outcome] at agrees
      rcases agrees with ⟨result, field, value, pending⟩
      exact ⟨result, field, value, pending.symm.trans remembered⟩

end Shape

end SolidField
