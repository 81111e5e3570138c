import SolidField.Proofs.Shape.Building
import SolidField.Shape.Refusal

/-!
# What lowering refuses

Every node that a shape asks for is one that can be made, except for a boolean
without operands.  Lowering a shape therefore fails on account of the first part that
is refused, and succeeds if no part is.
-/

universe u

namespace SolidField

variable {α : Type u}

/-! ## Steps that fail in one way -/

namespace Build

/-- A step fails with a given error, or succeeds if there is none. -/
structure Refuses {β : Type} (post : Graph α → β → Prop) (graph : Graph α)
    (outcome : Except (BuildError α) β × Graph α) (refusal? : Option (BuildError α)) :
    Prop where
  ensures : Ensures (fun _ => True) post graph outcome
  refused : ∀ error, outcome.1 = .error error ↔ refusal? = some error

variable {β γ : Type} {post : Graph α → β → Prop} {postNext : Graph α → γ → Prop}
  {graph : Graph α} {refusal? : Option (BuildError α)}

theorem Refuses.pure (merged : graph.Merged) {result : β}
    (described : post graph result) :
    Refuses post graph ((pure result : Build α β) graph) none :=
  ⟨.pure merged trivial described, by simp⟩

theorem Refuses.error (merged : graph.Merged) (error : BuildError α) :
    Refuses post graph (.error error, graph) (some error) :=
  ⟨.error merged trivial error, by simp⟩

/-- A step that succeeds leaves it to the next one whether there is an error. -/
theorem Refuses.bind {step : Build α β} {next : β → Build α γ}
    {nextRefusal? : Option (BuildError α)}
    (first : Refuses post graph (step graph) refusal?)
    (second : ∀ {result : β} {larger : Graph α}, larger.Merged →
      graph.Extends larger → post larger result →
        Refuses postNext larger (next result larger) nextRefusal?) :
    Refuses postNext graph ((step >>= next) graph) (refusal?.or nextRefusal?) := by
  obtain ⟨ensures, refused⟩ := first
  refine ⟨?_, ?_⟩
  · exact ensures.bind fun merged extended _ described =>
      (second merged extended described).ensures
  · obtain ⟨merged, extended, -, described⟩ := ensures
    rcases reached : step graph with ⟨error | result, larger⟩ <;>
      rw [reached] at merged extended described refused
    · rw [Attempt.bind_apply_error reached, (refused error).mp rfl]
      simp
    · have accepted : refusal? = none :=
        Option.eq_none_iff_forall_ne_some.mpr fun error refuses => by
          cases (refused error).mpr refuses
      rw [Attempt.bind_apply_ok reached, accepted, Option.none_or]
      exact (second merged extended (described result rfl)).refused

/-- Before a step that is not refused it is the first one that decides. -/
theorem Refuses.bind_none {step : Build α β} {next : β → Build α γ}
    (first : Refuses post graph (step graph) refusal?)
    (second : ∀ {result : β} {larger : Graph α}, larger.Merged →
      graph.Extends larger → post larger result →
        Refuses postNext larger (next result larger) none) :
    Refuses postNext graph ((step >>= next) graph) refusal? := by
  rw [← Option.or_none (o := refusal?)]
  exact first.bind second

/-- A result is found if and only if nothing is refused. -/
theorem Refuses.exists_ok_iff {outcome : Except (BuildError α) β × Graph α}
    (refuses : Refuses post graph outcome refusal?) :
    (∃ result larger, outcome = (.ok result, larger)) ↔ refusal? = none := by
  have refused := refuses.refused
  rcases outcome with ⟨error | result, larger⟩
  · rw [(refused error).mp rfl]
    simp
  · refine iff_of_true ⟨result, larger, rfl⟩ ?_
    exact Option.eq_none_iff_forall_ne_some.mpr fun error refuses => by
      cases (refused error).mpr refuses

/-! ## Steps of lowering -/

/-- A step that makes a node of a graph. -/
abbrev RefusesNode (graph : Graph α)
    (outcome : Except (BuildError α) NodeId × Graph α)
    (refusal? : Option (BuildError α)) : Prop :=
  Refuses (fun larger id => id.index < larger.size) graph outcome refusal?

section

variable [DecidableEq α] {opcode : Opcode} {parameters : List α}
  {dependencies : List NodeId} {payload : Option (Payload α)} {id : NodeId}

/-- A node that can be made is made. -/
theorem refuses_make (merged : graph.Merged)
    (clear : graph.obstacle? opcode parameters dependencies = none)
    (recorded : Payload.Records opcode parameters payload)
    (apart : opcode = .transformTo ∨ opcode = .transformFrom →
      ∀ dependency ∈ dependencies, ∀ source,
        graph.node? dependency = some source → source.opcode ≠ opcode) :
    RefusesNode graph (make opcode parameters dependencies payload graph) none where
  ensures := merged.ensures_make trivial recorded apart fun _ _ gains =>
    ⟨trivial, gains.inside⟩
  refused := by
    obtain ⟨kernel, arity, accepted, inside⟩ := Graph.obstacle?_eq_none_iff.mp clear
    obtain ⟨id, larger, -, made, -⟩ :=
      merged.exists_make kernel arity accepted inside recorded apart
    simp [made]

theorem refuses_plain (merged : graph.Merged) (notTo : opcode ≠ .transformTo)
    (notFrom : opcode ≠ .transformFrom) (kernel : opcode.hasKernel = true)
    (arity : opcode.arity.accepts dependencies.length = true)
    (accepted : opcode.parameters.accepts parameters.length = true)
    (inside : ∀ id ∈ dependencies, id.index < graph.size) :
    RefusesNode graph (make opcode parameters dependencies none graph) none :=
  refuses_make merged (Graph.obstacle?_eq_none_iff.mpr ⟨kernel, arity, accepted, inside⟩)
    (.plain notTo notFrom) fun isTransform => absurd isTransform (by simp [notTo, notFrom])

theorem refuses_unary (merged : graph.Merged) (notTo : opcode ≠ .transformTo)
    (notFrom : opcode ≠ .transformFrom) (kernel : opcode.hasKernel = true)
    (arity : opcode.arity = .unary)
    (accepted : opcode.parameters.accepts parameters.length = true)
    (inside : id.index < graph.size) :
    RefusesNode graph (make opcode parameters [id] none graph) none :=
  refuses_plain merged notTo notFrom kernel (by rw [arity]; rfl) accepted
    (List.forall_mem_singleton.mpr inside)

theorem refuses_binary (merged : graph.Merged) {other : NodeId}
    (arity : opcode.arity = .binary)
    (accepted : opcode.parameters.accepts parameters.length = true)
    (inside : id.index < graph.size) (otherInside : other.index < graph.size) :
    RefusesNode graph (make opcode parameters [id, other] none graph) none := by
  have plain : opcode ≠ .transformTo ∧ opcode ≠ .transformFrom ∧
      opcode.hasKernel = true := by
    cases opcode <;> first | cases arity; done | decide
  exact refuses_plain merged plain.1 plain.2.1 plain.2.2 (by rw [arity]; rfl) accepted
    (by simp [inside, otherInside])

/-- A boolean is refused if it has no operands; then its arity is not met. -/
theorem refuses_combine (merged : graph.Merged) {parameter : α} {ids : List NodeId}
    (arity : opcode.arity = .associative) (layout : opcode.parameters = .fixed 1)
    (inside : ∀ id ∈ ids, id.index < graph.size) :
    RefusesNode graph (combine opcode parameter ids graph)
      (if ids.isEmpty then some (.arityMismatch opcode 0) else none) := by
  have plain : opcode ≠ .transformTo ∧ opcode ≠ .transformFrom ∧
      opcode.isReserved = false := by
    cases opcode <;> first | cases arity; done | decide
  match ids with
  | [] =>
      have failed : combine opcode parameter [] graph =
          (.error (.arityMismatch opcode 0), graph) := by
        simp [combine, make, Graph.make, Graph.obstacle?, plain, arity, Arity.accepts]
      rw [failed]
      exact .error merged _
  | [single] => exact .pure merged (inside single (by simp))
  | first :: second :: others =>
      exact refuses_plain merged plain.1 plain.2.1 (by simp [Opcode.hasKernel, plain])
        (by simp [arity, Arity.accepts]) (by rw [layout]; rfl) inside

variable [Scalar α]

omit [DecidableEq α] in
theorem refuses_requireValid (merged : graph.Merged) (transform : Similarity α) :
    Refuses (fun larger _ => larger = graph) graph (requireValid transform graph)
      (if transform.isValid then none
        else some (.invalidShape (.transform transform))) := by
  unfold requireValid
  split
  · exact .pure merged rfl
  · exact .error merged _

/-- A transform is merged, dropped or made a node, but not refused. -/
theorem refuses_wrap {τ : Type u} (merged : graph.Merged) (kind : TransformKind α τ)
    (inside : id.index < graph.size) (transform : τ) (isIdentity : Bool) :
    RefusesNode graph
      (if isIdentity then
        (.ok (graph.base kind id), graph)
      else
        make kind.opcode (kind.parameters transform) [graph.base kind id]
          (some (kind.payload transform)) graph) none := by
  obtain ⟨baseInside, node, baseFound, different⟩ := merged.base_spec kind inside
  cases isIdentity with
  | true => exact .pure merged baseInside
  | false =>
      refine refuses_make merged (Graph.obstacle?_eq_none_iff.mpr ⟨kind.hasKernel, ?_,
        kind.accepted transform, List.forall_mem_singleton.mpr baseInside⟩)
        (kind.records transform) ?_
      · rw [kind.arity_eq]
        rfl
      · intro _ dependency member source found
        rw [List.mem_singleton.mp member, baseFound] at found
        cases found
        exact different

theorem refuses_movePoint (merged : graph.Merged) (inside : id.index < graph.size)
    (toChild : Similarity α) :
    RefusesNode graph (movePoint id toChild graph) none := by
  rw [Graph.movePoint_eq]
  exact refuses_wrap merged .point inside _ _

theorem refuses_moveValue (merged : graph.Merged) (inside : id.index < graph.size)
    (toParent : ValueTransform α) :
    RefusesNode graph (moveValue id toParent graph) none := by
  rw [Graph.moveValue_eq]
  exact refuses_wrap merged .value inside _ _

end

end Build

/-! ## Shapes -/

namespace Shape

open SolidField.Build

variable [Scalar α]

theorem findSome?_union (shapes : List (Shape α)) (radius : α) :
    [union shapes radius].findSome? refusal? =
      if shapes.isEmpty then some (.arityMismatch .union 0) else none := by
  cases shapes <;> rfl

theorem findSome?_intersection (shapes : List (Shape α)) (radius : α) :
    [intersection shapes radius].findSome? refusal? =
      if shapes.isEmpty then some (.arityMismatch .intersection 0) else none := by
  cases shapes <;> rfl

theorem findSome?_transformed (child : Shape α) (transform : Similarity α) :
    [transformed child transform].findSome? refusal? =
      if transform.isValid then none
        else some (.invalidShape (.transform transform)) := by
  rw [List.findSome?_singleton, refusal?]

/-- Only invalid similarities and booleans without operands are refused. -/
theorem refusal?_eq_none_iff {part : Shape α} :
    part.refusal? = none ↔
      (∀ child transform, part = transformed child transform →
        transform.isValid = true) ∧
      ∀ radius, part ≠ union [] radius ∧ part ≠ intersection [] radius := by
  cases part with
  | union shapes _ | intersection shapes _ => cases shapes <;> simp [refusal?]
  | transformed child transform => simp [refusal?]
  | _ => simp [refusal?]

theorem refusal?_eq_some {part : Shape α} {error : BuildError α}
    (refused : part.refusal? = some error) :
    (∃ transform, error = .invalidShape (.transform transform)) ∨
      error = .arityMismatch .union 0 ∨ error = .arityMismatch .intersection 0 := by
  unfold refusal? at refused
  split at refused
  · exact .inr (.inl (Option.some.inj refused).symm)
  · exact .inr (.inr (Option.some.inj refused).symm)
  · split at refused
    · cases refused
    · exact .inl ⟨_, (Option.some.inj refused).symm⟩
  · cases refused

variable [DecidableEq α]

mutual

/-- Lowering a shape at a node is refused on account of its first refused part. -/
theorem refuses_lowerAt (shape : Shape α) {graph : Graph α} {id : NodeId}
    (merged : graph.Merged) (inside : id.index < graph.size) :
    RefusesNode graph (shape.lowerAt id graph) (shape.parts.findSome? refusal?) := by
  match shape with
  | rectangle _ | circle _ | polygon _ | sphere _ | box _ | cylinder _ _ =>
      exact refuses_unary merged nofun nofun rfl rfl rfl inside
  | extrusion profile _ =>
      rw [lowerAt, parts, List.findSome?_append]
      apply (refuses_lowerAt profile merged inside).bind
      intro _ _ mergedLarger extended insideProfile
      exact refuses_binary mergedLarger rfl rfl insideProfile (extended.index_lt inside)
  | revolution profile =>
      rw [lowerAt, parts, List.findSome?_append]
      have folds : RefusesNode graph (make .revolutionTo [] [id] none graph) none :=
        refuses_unary merged nofun nofun rfl rfl rfl inside
      apply folds.bind
      intro _ _ mergedFolded extendedFolded insideFolded
      apply (refuses_lowerAt profile mergedFolded insideFolded).bind
      intro _ _ mergedLarger extended insideProfile
      exact refuses_binary mergedLarger rfl rfl insideProfile
        (extended.index_lt (extendedFolded.index_lt inside))
  | offset child _ | shell child _ =>
      rw [lowerAt, parts, List.findSome?_append]
      exact (refuses_lowerAt child merged inside).bind fun mergedLarger _ insideChild =>
        refuses_unary mergedLarger nofun nofun rfl rfl rfl insideChild
  | union shapes _ =>
      rw [lowerAt, parts, List.findSome?_append, findSome?_union]
      apply (refuses_lowerAllAt shapes merged inside).bind
      rintro _ _ mergedLarger _ ⟨insideShapes, same⟩
      rw [← same]
      exact refuses_combine mergedLarger rfl rfl insideShapes
  | intersection shapes _ =>
      rw [lowerAt, parts, List.findSome?_append, findSome?_intersection]
      apply (refuses_lowerAllAt shapes merged inside).bind
      rintro _ _ mergedLarger _ ⟨insideShapes, same⟩
      rw [← same]
      exact refuses_combine mergedLarger rfl rfl insideShapes
  | subtraction base tool _ =>
      rw [lowerAt, parts, List.findSome?_append, List.findSome?_append, Option.or_assoc]
      apply (refuses_lowerAt base merged inside).bind
      intro _ _ mergedBase extendedBase insideBase
      apply (refuses_lowerAt tool mergedBase (extendedBase.index_lt inside)).bind
      intro _ _ mergedLarger extended insideTool
      exact refuses_binary mergedLarger rfl rfl (extended.index_lt insideBase) insideTool
  | transformed child transform =>
      rw [lowerAt, parts, ← List.singleton_append, List.findSome?_append,
        findSome?_transformed]
      apply (refuses_requireValid merged transform).bind
      rintro _ graph _ _ rfl
      apply (refuses_movePoint merged inside _).bind
      intro _ _ mergedMoved _ insideMoved
      exact (refuses_lowerAt child mergedMoved insideMoved).bind_none
        fun mergedLarger _ insideChild => refuses_moveValue mergedLarger insideChild _

/-- Lowering a list of shapes at a node is refused on account of the first one. -/
theorem refuses_lowerAllAt (shapes : List (Shape α)) {graph : Graph α} {id : NodeId}
    (merged : graph.Merged) (inside : id.index < graph.size) :
    Refuses
      (fun larger ids => (∀ id ∈ ids, id.index < larger.size) ∧
        ids.isEmpty = shapes.isEmpty)
      graph (lowerAllAt id shapes graph) ((allParts shapes).findSome? refusal?) := by
  match shapes with
  | [] => exact .pure merged ⟨nofun, rfl⟩
  | shape :: shapes =>
      rw [lowerAllAt, allParts, List.findSome?_append]
      apply (refuses_lowerAt shape merged inside).bind
      intro _ _ mergedFirst extendedFirst insideFirst
      apply (refuses_lowerAllAt shapes mergedFirst
        (extendedFirst.index_lt inside)).bind_none
      rintro _ _ mergedLarger extended ⟨insideOthers, -⟩
      refine .pure mergedLarger ⟨?_, rfl⟩
      rw [List.forall_mem_cons]
      exact ⟨extended.index_lt insideFirst, insideOthers⟩

end

/--
Whatever shapes were lowered before, a shape is lowered if every similarity in it is
valid and no union or intersection empty, and only then.  Otherwise the error is that
of the first part to be refused, a similarity coming before what it places and
operands from the left before their boolean.  There are no other errors.
-/
theorem lower_refuses (earlier : List (Shape α)) (shape : Shape α) :
    let graph := Graph.initial.lowerAll earlier
    ((∃ root larger, shape.lower graph = (.ok root, larger)) ↔
      ∀ part ∈ shape.parts,
        (∀ child transform, part = transformed child transform →
          transform.isValid = true) ∧
        ∀ radius, part ≠ union [] radius ∧ part ≠ intersection [] radius) ∧
    (∀ error, (∃ larger, shape.lower graph = (.error error, larger)) ↔
      shape.firstRefusal? = some error) ∧
    ∀ error larger, shape.lower graph = (.error error, larger) →
      (∃ transform, error = .invalidShape (.transform transform)) ∨
        error = .arityMismatch .union 0 ∨ error = .arityMismatch .intersection 0 := by
  intro graph
  have merged : graph.Merged := Graph.merged_lowerAll earlier
  have refuses := shape.refuses_lowerAt merged merged.valid.positive
  have fails : ∀ error, (∃ larger, shape.lower graph = (.error error, larger)) ↔
      shape.firstRefusal? = some error := by
    intro error
    rw [firstRefusal?, ← refuses.refused error]
    exact ⟨fun ⟨larger, failed⟩ => congrArg Prod.fst failed,
      fun failed => ⟨_, Prod.ext failed rfl⟩⟩
  refine ⟨?_, fails, ?_⟩
  · refine refuses.exists_ok_iff.trans ?_
    rw [List.findSome?_eq_none_iff]
    exact forall₂_congr fun _ _ => refusal?_eq_none_iff
  · intro error larger failed
    have first := (fails error).mp ⟨larger, failed⟩
    obtain ⟨part, -, refused⟩ := List.exists_of_findSome?_eq_some first
    exact refusal?_eq_some refused

/-- A union of a disc and two shapes that are refused, one of them in two places. -/
def refusedUnion : Shape Single :=
  .union
    [.circle 1, .transformed (.union [] 0) (.ofScale 0), .intersection [] 0] 0

/-- The scale comes first, although the union that it is applied to is empty as well. -/
theorem refusedUnion_refuses_scale :
    ∃ larger, refusedUnion.lower (Graph.initial.lowerAll [.sphere 1]) =
      (.error (.invalidShape (.transform (.ofScale 0))), larger) := by
  have first : refusedUnion.firstRefusal? =
      some (.invalidShape (.transform (.ofScale 0))) := by
    decide +kernel
  exact ((lower_refuses [.sphere 1] refusedUnion).2.1 _).mpr first

end Shape

end SolidField
