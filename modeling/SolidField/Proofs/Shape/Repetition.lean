import SolidField.Proofs.Shape.Building
import SolidField.Shape.Sharp

/-!
# Lowering a shape again

A graph that a shape was lowered into has a node for everything that the shape asks
for.  It keeps them while other shapes are lowered, and it finds the first node of an
operation, which is the same in every graph that is larger.  So the shape has the
same node when it is lowered again, and nothing is made for it.
-/

universe u

namespace SolidField

variable {α : Type u}

/-! ## Nodes that are found again -/

theorem Node.computes_eq [DecidableEq α] {node other : Node α} {opcode : Opcode}
    {parameters : List α} {dependencies : List NodeId}
    (same : node.operation = other.operation) :
    node.computes opcode parameters dependencies =
      other.computes opcode parameters dependencies := by
  rcases eq_of_operation_eq same with ⟨opcodes, listed, declared, -⟩
  rw [computes, computes, opcodes, listed, declared]

namespace Graph

variable {graph larger : Graph α} {opcode : Opcode} {parameters : List α}
  {dependencies : List NodeId} {payload : Option (Payload α)} {id : NodeId}

/-- What can be made a node of a graph can be made one of a larger graph. -/
theorem Extends.obstacle?_eq_none (extended : graph.Extends larger)
    (clear : graph.obstacle? opcode parameters dependencies = none) :
    larger.obstacle? opcode parameters dependencies = none := by
  rw [obstacle?_eq_none_iff] at clear ⊢
  rcases clear with ⟨kernel, arity, accepted, inside⟩
  exact ⟨kernel, arity, accepted,
    fun id member => extended.index_lt (inside id member)⟩

variable [DecidableEq α]

/-- A node is found if it computes what is asked for and no earlier one does. -/
theorem find?_eq_some_iff :
    graph.find? opcode parameters dependencies = some id ↔
      (∃ node, graph.node? id = some node ∧
        node.computes opcode parameters dependencies = true) ∧
      ∀ earlier node, earlier.index < id.index → graph.node? earlier = some node →
        node.computes opcode parameters dependencies = false := by
  rw [find?, Option.map_eq_some_iff]
  constructor
  · rintro ⟨index, found, rfl⟩
    rcases Array.findIdx?_eq_some_iff_getElem.mp found with ⟨inside, computes, first⟩
    refine ⟨⟨_, Array.getElem?_eq_getElem inside, computes⟩, ?_⟩
    intro earlier node before nodeFound
    rcases Array.getElem?_eq_some_iff.mp nodeFound with ⟨_, rfl⟩
    simpa using first earlier.index before
  · rintro ⟨⟨node, nodeFound, computes⟩, first⟩
    rcases Array.getElem?_eq_some_iff.mp nodeFound with ⟨inside, rfl⟩
    refine ⟨id.index, Array.findIdx?_eq_some_iff_getElem.mpr
      ⟨inside, computes, fun index before => ?_⟩, rfl⟩
    rw [first ⟨index⟩ _ before (Array.getElem?_eq_getElem _)]
    exact Bool.false_ne_true

/-- No node computes what is not found. -/
theorem computes_of_find?_eq_none
    (missing : graph.find? opcode parameters dependencies = none) {node : Node α}
    (found : graph.node? id = some node) :
    node.computes opcode parameters dependencies = false := by
  rw [find?, Option.map_eq_none_iff, Array.findIdx?_eq_none_iff] at missing
  exact missing node (Array.mem_of_getElem? found)

/-- The first node of an operation is the first one in every larger graph. -/
theorem Extends.find?_eq_some (extended : graph.Extends larger)
    (found : graph.find? opcode parameters dependencies = some id) :
    larger.find? opcode parameters dependencies = some id := by
  rcases find?_eq_some_iff.mp found with ⟨⟨node, nodeFound, computes⟩, first⟩
  refine find?_eq_some_iff.mpr ⟨?_, ?_⟩
  · rcases extended id node nodeFound with ⟨same, sameFound, operation⟩
    exact ⟨same, sameFound, (Node.computes_eq operation).trans computes⟩
  · intro earlier node before laterFound
    obtain ⟨former, formerFound⟩ := exists_node?_of_lt
      (Nat.lt_trans before (index_lt_of_node? nodeFound))
    rcases extended earlier former formerFound with ⟨same, sameFound, operation⟩
    obtain rfl : node = same := Option.some.inj (laterFound.symm.trans sameFound)
    exact (Node.computes_eq operation).trans (first earlier former before formerFound)

/-- A node that was missing is the first of its operation once it is there. -/
theorem find?_insert
    (missing : graph.find? opcode parameters dependencies = none) :
    (graph.insert (.make opcode parameters dependencies payload)).2.find?
      opcode parameters dependencies = some ⟨graph.size⟩ := by
  refine find?_eq_some_iff.mpr ⟨⟨_, node?_insert_self graph _, ?_⟩, ?_⟩
  · simp [Node.computes, Node.make]
  · intro earlier node before found
    rcases node?_insert_cases found with ⟨rfl, -⟩ | ⟨former, formerFound, operation⟩
    · exact absurd before (Nat.lt_irrefl _)
    · rw [← Node.computes_eq operation]
      exact computes_of_find?_eq_none missing formerFound

end Graph

/-! ## Steps that are repeated -/

namespace Build

variable {β γ : Type}

/--
In every graph that has the nodes of a graph, a step returns the same result and
makes no node.
-/
def Settled (graph : Graph α) (step : Build α β) (result : β) : Prop :=
  ∀ larger : Graph α, graph.Extends larger →
    ∃ hits, step larger = (.ok result, { larger with hits })

/-- A step is settled in the graph that it leads to, where it succeeds. -/
structure Repeats (post : Graph α → β → Prop) (graph : Graph α) (step : Build α β) :
    Prop where
  ensures : Ensures (fun _ => True) post graph (step graph)
  settled : ∀ {result larger}, step graph = (.ok result, larger) →
    Settled larger step result

variable {graph larger : Graph α} {post : Graph α → β → Prop}
  {postNext : Graph α → γ → Prop} {step : Build α β} {next : β → Build α γ}

theorem Settled.mono {result : β} (settled : Settled graph step result)
    (extended : graph.Extends larger) : Settled larger step result :=
  fun _ further => settled _ (extended.trans further)

theorem Settled.bind {result : β} {final : γ} (first : Settled graph step result)
    (second : Settled graph (next result) final) :
    Settled graph (step >>= next) final := by
  intro larger extended
  obtain ⟨hits, stepped⟩ := first larger extended
  rw [Attempt.bind_apply_ok stepped]
  obtain ⟨more, finished⟩ := second { larger with hits } extended
  exact ⟨more, finished⟩

theorem Repeats.bind (first : Repeats post graph step)
    (second : ∀ {result : β} {larger : Graph α}, larger.Merged →
      graph.Extends larger → post larger result →
        Repeats postNext larger (next result)) :
    Repeats postNext graph (step >>= next) where
  ensures := first.ensures.bind fun merged extended _ described =>
    (second merged extended described).ensures
  settled := by
    intro final largest finished
    obtain ⟨result, larger, stepped, finished⟩ :=
      Attempt.bind_apply_eq_ok_iff.mp finished
    obtain ⟨merged, extended, -, described⟩ := first.ensures
    rw [stepped] at merged extended described
    have repeats := second merged extended (described result rfl)
    have further := repeats.ensures.extended
    rw [finished] at further
    exact ((first.settled stepped).mono further).bind (repeats.settled finished)

theorem settled_pure (graph : Graph α) (result : β) :
    Settled graph (pure result) result :=
  fun larger _ => ⟨larger.hits, rfl⟩

theorem repeats_pure (merged : graph.Merged) {result : β}
    (described : post graph result) : Repeats post graph (pure result) where
  ensures := .pure merged trivial described
  settled := by
    rintro _ _ ⟨⟩
    exact settled_pure _ result

/-! ## Steps of lowering -/

section

variable [DecidableEq α] {opcode : Opcode} {parameters : List α}
  {dependencies : List NodeId} {payload : Option (Payload α)} {id : NodeId}

/-- Where a node is found, asking for it makes none. -/
theorem settled_of_find? (clear : graph.obstacle? opcode parameters dependencies = none)
    (found : graph.find? opcode parameters dependencies = some id) :
    Settled graph (make opcode parameters dependencies payload) id := by
  intro larger extended
  refine ⟨larger.hits + 1, ?_⟩
  simp only [make, Graph.make, extended.obstacle?_eq_none clear,
    extended.find?_eq_some found]

/-- A node that was made is found whenever it is asked for again. -/
theorem settled_make
    (made : make opcode parameters dependencies payload graph = (.ok id, larger)) :
    Settled larger (make opcode parameters dependencies payload) id := by
  rcases graph.make_cases opcode parameters dependencies payload with
    ⟨error, -, failed⟩ | ⟨other, clear, found, hit⟩ | ⟨clear, missing, inserted⟩
  · simp only [make, failed] at made
    cases made
  · simp only [make, hit] at made
    cases made
    exact (settled_of_find? clear found).mono (Graph.Extends.refl graph)
  · simp only [make, inserted] at made
    cases made
    exact settled_of_find? ((Graph.extends_insert graph _).obstacle?_eq_none clear)
      (Graph.find?_insert missing)

/-- Asking for a node of an operation that applies no transform. -/
theorem repeats_plain (merged : graph.Merged) (notTo : opcode ≠ .transformTo)
    (notFrom : opcode ≠ .transformFrom) :
    Repeats (fun larger id => id.index < larger.size) graph
      (make opcode parameters dependencies) where
  ensures := merged.ensures_plain trivial notTo notFrom fun _ _ gains =>
    ⟨trivial, gains.inside⟩
  settled := settled_make

theorem repeats_combine (merged : graph.Merged) {parameter : α} {ids : List NodeId}
    (arity : opcode.arity = .associative) (inside : ∀ id ∈ ids, id.index < graph.size) :
    Repeats (fun larger id => id.index < larger.size) graph
      (combine opcode parameter ids) where
  ensures := merged.ensures_combine trivial arity
    (fun single same => inside single (same ▸ List.mem_cons_self)) fun _ _ gains =>
      ⟨trivial, gains.inside⟩
  settled := by
    unfold combine
    split
    · rintro _ _ ⟨⟩
      exact settled_pure _ _
    · exact settled_make

variable [Scalar α]

omit [DecidableEq α] in
theorem repeats_requireValid (merged : graph.Merged) (transform : Similarity α) :
    Repeats (fun larger _ => larger = graph) graph (requireValid transform) where
  ensures := (merged.ensures_requireValid trivial transform).mono fun _ => And.left
  settled := by
    unfold requireValid
    split
    · rintro _ _ ⟨⟩
      exact settled_pure _ _
    · rintro _ _ ⟨⟩

/--
Applying a transform to a node.  The node has the same base and the same transform
pending in every larger graph, so that the merged transform is the same one there.
-/
theorem repeats_wrap {τ : Type u} (kind : TransformKind α τ) (transform : τ)
    (after : τ → τ → τ) (isIdentity : τ → Bool) {wrap : Build α NodeId}
    (wraps : ∀ graph, wrap graph =
      let composite := ((graph.transform? kind.select id).map Prod.fst).elim transform
        (after transform)
      if isIdentity composite then
        (.ok (graph.base kind id), graph)
      else
        make kind.opcode (kind.parameters composite) [graph.base kind id]
          (some (kind.payload composite)) graph)
    (merged : graph.Merged) (inside : id.index < graph.size) :
    Repeats (fun larger id => id.index < larger.size) graph wrap := by
  have ensures : Ensures (fun _ => True) (fun larger id => id.index < larger.size)
      graph (wrap graph) := by
    rw [wraps]
    exact merged.ensures_wrap trivial kind inside _ _
      (fun _ => (merged.base_spec kind inside).1)
      fun _ _ _ gains => ⟨trivial, gains.inside⟩
  refine ⟨ensures, fun {result larger} wrapped => ?_⟩
  intro largest further
  have extended : graph.Extends largest := by
    have first := ensures.extended
    rw [wrapped] at first
    exact first.trans further
  have same := extended.transform?_eq kind.select inside
  have sameBase : largest.base kind id = graph.base kind id := by
    rw [Graph.base, same, Graph.base]
  rw [wraps] at wrapped ⊢
  rw [same, sameBase]
  dsimp only at wrapped ⊢
  split at wrapped
  next dropped =>
    cases wrapped
    exact ⟨largest.hits, if_pos dropped⟩
  next kept =>
    rw [if_neg kept]
    exact settled_make wrapped largest further

theorem repeats_movePoint (merged : graph.Merged) (inside : id.index < graph.size)
    (toChild : Similarity α) :
    Repeats (fun larger id => id.index < larger.size) graph
      (movePoint id toChild) :=
  repeats_wrap .point toChild Similarity.after Similarity.isIdentity
    (fun graph => graph.movePoint_eq id toChild) merged inside

theorem repeats_moveValue (merged : graph.Merged) (inside : id.index < graph.size)
    (toParent : ValueTransform α) :
    Repeats (fun larger id => id.index < larger.size) graph
      (moveValue id toParent) :=
  repeats_wrap .value toParent ValueTransform.after ValueTransform.isIdentity
    (fun graph => graph.moveValue_eq id toParent) merged inside

end

end Build

/-! ## Shapes -/

namespace Shape

open SolidField.Build

variable [Scalar α] [DecidableEq α]

mutual

/-- Lowering a shape at a node settles it. -/
theorem repeats_lowerAt (shape : Shape α) {graph : Graph α} {id : NodeId}
    (merged : graph.Merged) (inside : id.index < graph.size) :
    Repeats (fun larger id => id.index < larger.size) graph (shape.lowerAt id) := by
  match shape with
  | rectangle _ | circle _ | polygon _ | sphere _ | box _ | cylinder _ _ =>
      exact repeats_plain merged nofun nofun
  | extrusion profile _ | offset profile _ | shell profile _ =>
      rw [lowerAt]
      exact (repeats_lowerAt profile merged inside).bind fun mergedLarger _ _ =>
        repeats_plain mergedLarger nofun nofun
  | revolution profile =>
      rw [lowerAt]
      have folds : Repeats (fun larger id => id.index < larger.size) graph
          (make .revolutionTo [] [id]) := repeats_plain merged nofun nofun
      apply folds.bind
      intro _ _ mergedFolded _ insideFolded
      exact (repeats_lowerAt profile mergedFolded insideFolded).bind
        fun mergedLarger _ _ => repeats_plain mergedLarger nofun nofun
  | union shapes _ | intersection shapes _ =>
      rw [lowerAt]
      exact (repeats_lowerAllAt shapes merged inside).bind
        fun mergedLarger _ insideShapes =>
          repeats_combine mergedLarger rfl insideShapes
  | subtraction base tool _ =>
      rw [lowerAt]
      apply (repeats_lowerAt base merged inside).bind
      intro _ _ mergedBase extendedBase _
      exact (repeats_lowerAt tool mergedBase (extendedBase.index_lt inside)).bind
        fun mergedLarger _ _ => repeats_plain mergedLarger nofun nofun
  | transformed shape transform =>
      rw [lowerAt]
      apply (repeats_requireValid merged transform).bind
      rintro _ graph _ _ rfl
      apply (repeats_movePoint merged inside _).bind
      intro _ _ mergedMoved _ insideMoved
      exact (repeats_lowerAt shape mergedMoved insideMoved).bind
        fun mergedLarger _ insideChild => repeats_moveValue mergedLarger insideChild _

/-- Lowering a list of shapes at a node settles it. -/
theorem repeats_lowerAllAt (shapes : List (Shape α)) {graph : Graph α} {id : NodeId}
    (merged : graph.Merged) (inside : id.index < graph.size) :
    Repeats (fun larger ids => ∀ id ∈ ids, id.index < larger.size) graph
      (lowerAllAt id shapes) := by
  match shapes with
  | [] => exact repeats_pure merged nofun
  | shape :: shapes =>
      rw [lowerAllAt]
      apply (repeats_lowerAt shape merged inside).bind
      intro _ _ mergedFirst extendedFirst insideFirst
      apply (repeats_lowerAllAt shapes mergedFirst
        (extendedFirst.index_lt inside)).bind
      intro _ _ mergedLarger extended insideOthers
      refine repeats_pure mergedLarger ?_
      rw [List.forall_mem_cons]
      exact ⟨extended.index_lt insideFirst, insideOthers⟩

end

theorem repeats_lower {graph : Graph α} (merged : graph.Merged) (shape : Shape α) :
    Repeats (fun larger id => id.index < larger.size) graph shape.lower :=
  shape.repeats_lowerAt merged merged.valid.positive

end Shape

/-! ## Sharp fillets -/

theorem Single.less_zero_eq (radius : Single) :
    Single.less 0 radius = !radius.isSharp := by
  have zero : Single.isNaN 0 = false := by decide
  have reversed : decide (rank 0 < radius.rank) = !decide (radius.rank ≤ rank 0) := by
    rw [← decide_not, decide_eq_decide, Int.not_le]
  rw [less, isSharp, atMost, zero, reversed]
  cases radius.isNaN <;> simp

theorem filletParameter_sharpened (radius : Single) :
    filletParameter radius.sharpened = filletParameter radius := by
  show (if Single.less 0 radius.sharpened then radius.sharpened else -1) =
    if Single.less 0 radius then radius else -1
  rw [Single.less_zero_eq, Single.less_zero_eq, Single.isSharp_sharpened,
    Single.sharpened]
  cases radius.isSharp <;> rfl

namespace Shape

mutual

/-- Lowering does not tell sharp fillets apart. -/
theorem lowerAt_sharpened (shape : Shape Single) (id : NodeId) :
    shape.sharpened.lowerAt id = shape.lowerAt id := by
  match shape with
  | rectangle _ | circle _ | polygon _ | sphere _ | box _ | cylinder _ _ => rfl
  | extrusion child _ | offset child _ | shell child _ | transformed child _ =>
      rw [sharpened, lowerAt, lowerAt]
      simp only [lowerAt_sharpened child]
  | revolution profile =>
      rw [sharpened, lowerAt, lowerAt]
      simp only [lowerAt_sharpened profile]
  | union shapes radius | intersection shapes radius =>
      rw [sharpened, lowerAt, lowerAt, lowerAllAt_sharpened shapes,
        filletParameter_sharpened]
  | subtraction base tool radius =>
      rw [sharpened, lowerAt, lowerAt, lowerAt_sharpened base, lowerAt_sharpened tool,
        filletParameter_sharpened]

theorem lowerAllAt_sharpened (shapes : List (Shape Single)) (id : NodeId) :
    lowerAllAt id (allSharpened shapes) = lowerAllAt id shapes := by
  match shapes with
  | [] => rfl
  | shape :: shapes =>
      rw [allSharpened, lowerAllAt, lowerAllAt, lowerAt_sharpened shape,
        lowerAllAt_sharpened shapes]

end

/-- Shapes that differ in the radii of sharp fillets alone are lowered alike. -/
theorem lower_eq_of_sharpened_eq {shape other : Shape Single}
    (alike : shape.sharpened = other.sharpened) : shape.lower = other.lower := by
  rw [lower, ← lowerAt_sharpened, alike, lowerAt_sharpened, lower]

end Shape

/-! ## Graphs of lowered shapes -/

theorem Graph.Merged.extends_lowerAll [Scalar α] [DecidableEq α] {graph : Graph α}
    (merged : graph.Merged) (shapes : List (Shape α)) :
    graph.Extends (graph.lowerAll shapes) := by
  induction shapes generalizing graph with
  | nil => exact Extends.refl graph
  | cons shape shapes induction =>
      exact (shape.repeats_lower merged).ensures.extended.trans
        (induction (merged.lower shape))

namespace Shape

/--
A shape that has been lowered has the same node whenever it is lowered again, or
another shape that differs from it in the radii of sharp fillets alone, whatever
shapes were lowered before and in between.  Nothing of any node changes by that.
-/
theorem lower_again (earlier between : List (Shape Single))
    {shape other : Shape Single} {root : NodeId} {larger : Graph Single}
    (lowered : shape.lower (Graph.initial.lowerAll earlier) = (.ok root, larger))
    (alike : shape.sharpened = other.sharpened) :
    let graph := larger.lowerAll between
    ∃ hits, other.lower graph = (.ok root, { graph with hits }) := by
  intro graph
  have repeats := shape.repeats_lower (Graph.merged_lowerAll earlier)
  have merged := repeats.ensures.merged
  rw [lowered] at merged
  rw [← lower_eq_of_sharpened_eq alike]
  exact repeats.settled lowered graph (merged.extends_lowerAll between)

/-- A sphere without another one of twice the size, whose edges have a radius. -/
def dividedSphere (radius : Single) : Shape Single :=
  .transformed (.subtraction (.sphere 1) scaledSphere radius)
    (.ofTranslation ⟨1, 0, 0⟩)

/-- No radius and a negative zero make the same edges, after other shapes as before. -/
theorem dividedSphere_again :
    let graph := ((dividedSphere .nan).lower (Graph.initial.lowerAll [.sphere 1])).2
    let larger := graph.lowerAll
      [.offset scaledSphere 1, .union [.circle 1, .union [] 0] 0]
    graph.size < larger.size ∧ ∃ hits,
      (dividedSphere (-0)).lower larger = (.ok ⟨7⟩, { larger with hits }) := by
  intro graph larger
  have found : ((dividedSphere .nan).lower
      (Graph.initial.lowerAll [.sphere 1])).1.toOption = some ⟨7⟩ := by
    decide +kernel
  have radii : Single.sharpened .nan = Single.sharpened (-0) := by decide
  have alike : (dividedSphere .nan).sharpened = (dividedSphere (-0)).sharpened := by
    simp only [dividedSphere, sharpened, radii]
  exact ⟨by decide +kernel, lower_again _ _ (lower_eq_ok found) alike⟩

end Shape

end SolidField
