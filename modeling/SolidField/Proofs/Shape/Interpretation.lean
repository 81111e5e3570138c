import Mathlib.Tactic.Tauto
import SolidField.Shape.Composite
import SolidField.Shape.Interpretation
import SolidField.Proofs.Shape.Building

/-!
# Values of lowered shapes under an interpretation

The standard interpretation of a shape is its field with every similarity on its own.
A shape has a value to be lowered to if its similarities are valid and its booleans
have operands.
-/

universe u

namespace SolidField

variable {α : Type u} [Scalar α]

/-! ## The standard interpretation -/

namespace Shape

theorem combinedUnder?_standard (opcode : Opcode) (radius : α) :
    combinedUnder? .standard opcode radius = plainCombined? opcode radius := by
  funext values
  match values with
  | [] => rfl
  | [_] => rfl
  | _ :: _ :: _ => rfl

mutual

/-- The kernels themselves give a shape its plain field. -/
theorem fieldUnder?_standard (shape : Shape α) (point : Vec3 α) :
    shape.fieldUnder? .standard point =
      shape.plainFieldAt? (Kernel.pointValue point) := by
  match shape with
  | rectangle _ | circle _ | sphere _ | box _ | cylinder _ _ => rfl
  | polygon points =>
      rw [fieldUnder?, plainFieldAt?]
      show Kernel.evaluate? .polygon _ _ 0 = _
      rw [Kernel.evaluate?, Kernel.pairs_flatMap_toList]
  | extrusion profile height =>
      rw [fieldUnder?, plainFieldAt?, fieldUnder?_standard profile]
      rfl
  | revolution profile =>
      rw [fieldUnder?, plainFieldAt?, fieldUnder?_standard profile]
      rfl
  | union shapes radius =>
      rw [fieldUnder?, plainFieldAt?, allFieldsUnder?_standard shapes,
        combinedUnder?_standard]
  | intersection shapes radius =>
      rw [fieldUnder?, plainFieldAt?, allFieldsUnder?_standard shapes,
        combinedUnder?_standard]
  | subtraction base tool radius =>
      rw [fieldUnder?, plainFieldAt?, fieldUnder?_standard base,
        fieldUnder?_standard tool]
      rfl
  | offset shape distance =>
      rw [fieldUnder?, plainFieldAt?, fieldUnder?_standard shape]
      rfl
  | shell shape thickness =>
      rw [fieldUnder?, plainFieldAt?, fieldUnder?_standard shape]
      rfl
  | transformed shape transform =>
      rw [fieldUnder?, plainFieldAt?, fieldUnder?_standard shape]
      rfl

/-- The kernels themselves give the shapes of a list their plain fields. -/
theorem allFieldsUnder?_standard (shapes : List (Shape α)) (point : Vec3 α) :
    allFieldsUnder? .standard point shapes =
      allPlainFieldsAt? (Kernel.pointValue point) shapes := by
  match shapes with
  | [] => rfl
  | shape :: shapes =>
      rw [allFieldsUnder?, allPlainFieldsAt?, fieldUnder?_standard shape,
        allFieldsUnder?_standard shapes]

end

/-! ## Shapes that are lowered -/

theorem isSome_bind_iff {β γ : Type u} {tried : Option β} {next : β → Option γ}
    {succeeds : Prop}
    (after : ∀ value, tried = some value → ((next value).isSome ↔ succeeds)) :
    (tried.bind next).isSome ↔ tried.isSome ∧ succeeds := by
  cases tried with
  | none => simp
  | some value => simpa using after value rfl

/-- What always succeeds behind an attempt does not decide whether it does. -/
theorem isSome_bind_some_iff {β γ : Type u} {tried : Option β} {next : β → γ} :
    (tried.bind fun value => some (next value)).isSome ↔ tried.isSome := by
  cases tried <;> simp

theorem isSome_combined? {opcode : Opcode} (arity : opcode.arity = .associative)
    (layout : opcode.parameters = .fixed 1) (radius : α)
    (results : List (Pending α)) :
    (combined? opcode radius results).isSome = !results.isEmpty := by
  have kernel : opcode.hasKernel = true := by
    cases opcode <;> first | rfl | cases arity
  have accepted :
      opcode.parameters.accepts [filletParameter radius].length = true := by
    rw [layout]
    rfl
  match results with
  | [] => rfl
  | [_] => rfl
  | first :: second :: others =>
      have nonempty : (first :: second :: others).map Pending.value ≠ [] := by simp
      rcases Opcode.exists_combine? kernel accepted nonempty with
        ⟨value, combined⟩
      rw [combined?, combined]
      · rfl
      · intro single
        simp

theorem isEmpty_of_allFieldsIn? {frame : Frame α} {shapes : List (Shape α)}
    {results : List (Pending α)}
    (valued : allFieldsIn? frame shapes = some results) :
    results.isEmpty = shapes.isEmpty := by
  cases shapes with
  | nil =>
      cases valued
      rfl
  | cons shape shapes =>
      simp only [allFieldsIn?, Option.bind_eq_bind, Option.bind_eq_some_iff] at valued
      rcases valued with ⟨value, -, values, -, same⟩
      cases same
      rfl

/-- A boolean has a field if its operands have one and there is one of them. -/
theorem isSome_boolean_iff {opcode : Opcode} (arity : opcode.arity = .associative)
    (layout : opcode.parameters = .fixed 1) (radius : α) (shapes : List (Shape α))
    (frame : Frame α) :
    ((allFieldsIn? frame shapes).bind (combined? opcode radius)).isSome ↔
      (allFieldsIn? frame shapes).isSome ∧ (!shapes.isEmpty) = true := by
  refine isSome_bind_iff fun results valued => ?_
  rw [isSome_combined? arity layout, isEmpty_of_allFieldsIn? valued]

mutual

/-- A shape has a field if its similarities are valid and its booleans not empty. -/
theorem isSome_fieldIn?_iff (shape : Shape α) (frame : Frame α) :
    (shape.fieldIn? frame).isSome ↔
      shape.hasOperands ∧ ∀ transform ∈ shape.similarities, transform.isValid := by
  match shape with
  | rectangle _ | circle _ | polygon _ | sphere _ | box _ | cylinder _ _ =>
      simp [fieldIn?, hasOperands, similarities]
  | extrusion profile _ =>
      rw [fieldIn?, hasOperands, similarities, ← isSome_fieldIn?_iff profile frame]
      exact isSome_bind_some_iff
  | revolution profile =>
      rw [fieldIn?, hasOperands, similarities,
        ← isSome_fieldIn?_iff profile (.ofPoint (Kernel.revolutionTo frame.point))]
      exact isSome_bind_some_iff
  | offset shape _ | shell shape _ =>
      rw [fieldIn?, hasOperands, similarities, ← isSome_fieldIn?_iff shape frame]
      exact isSome_bind_some_iff
  | union shapes radius | intersection shapes radius =>
      rw [fieldIn?, hasOperands, similarities]
      refine (isSome_boolean_iff rfl rfl radius shapes frame).trans ?_
      rw [isSome_allFieldsIn?_iff shapes frame, Bool.and_eq_true]
      tauto
  | subtraction base tool radius =>
      rw [fieldIn?, hasOperands, similarities]
      refine (isSome_bind_iff fun _ _ => isSome_bind_some_iff).trans ?_
      rw [isSome_fieldIn?_iff base frame, isSome_fieldIn?_iff tool frame,
        Bool.and_eq_true, List.forall_mem_append]
      tauto
  | transformed shape transform =>
      rw [fieldIn?, hasOperands, similarities, List.forall_mem_cons]
      split
      · next valid =>
          refine isSome_bind_some_iff.trans ?_
          rw [isSome_fieldIn?_iff shape]
          tauto
      · next invalid =>
          simp [invalid]

/-- The shapes of a list have fields if all of them have one. -/
theorem isSome_allFieldsIn?_iff (shapes : List (Shape α)) (frame : Frame α) :
    (allFieldsIn? frame shapes).isSome ↔
      allHaveOperands shapes ∧
        ∀ transform ∈ allSimilarities shapes, transform.isValid := by
  match shapes with
  | [] => simp [allFieldsIn?, allHaveOperands, allSimilarities]
  | shape :: shapes =>
      rw [allFieldsIn?, allHaveOperands, allSimilarities]
      refine (isSome_bind_iff fun _ _ => isSome_bind_some_iff).trans ?_
      rw [isSome_fieldIn?_iff shape frame, isSome_allFieldsIn?_iff shapes frame,
        Bool.and_eq_true, List.forall_mem_append]
      tauto

end

variable [DecidableEq α]

/--
A shape is lowered into a merged graph if its similarities are valid and its
booleans not empty.
-/
theorem exists_lower_iff {graph : Graph α} (merged : graph.Merged)
    (shape : Shape α) :
    (∃ root larger, shape.lower graph = (.ok root, larger)) ↔
      shape.hasOperands ∧ ∀ transform ∈ shape.similarities, transform.isValid := by
  rw [← isSome_fieldIn?_iff shape (.ofPoint (Kernel.pointValue 0))]
  have agrees := merged.agrees_lower shape 0
  generalize shape.lower graph = outcome at agrees
  generalize shape.fieldIn? _ = expected at agrees ⊢
  cases agrees with
  | ok => exact iff_of_true ⟨_, _, rfl⟩ rfl
  | error => simp

end Shape

end SolidField
