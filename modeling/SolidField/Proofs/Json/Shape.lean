import SolidField.Proofs.Json.Recovery

/-!
# Shapes survive JSON

A shape is read back from its JSON form if its numbers are finite and the form is not
nested too deeply for the reader, and in no other case is anything read.
-/

namespace SolidField

open Json (Recovers recovers_ofSingle)

/-! ## Geometric values -/

theorem Vec2.recovers_toJson (v : Vec2 Single) :
    Recovers (fun limit => Vec2.ofJson? limit v.toJson) v v.isFinite
      v.toJson.nesting := by
  have components := (recovers_ofSingle v.x).bind fun x =>
    (recovers_ofSingle v.y).bind fun y => .pure (Vec2.mk x y)
  rw [Bool.and_true] at components
  exact components.inside

theorem Vec3.recovers_toJson (v : Vec3 Single) :
    Recovers (fun limit => Vec3.ofJson? limit v.toJson) v v.isFinite
      v.toJson.nesting := by
  have components := (recovers_ofSingle v.x).bind fun x =>
    (recovers_ofSingle v.y).bind fun y =>
      (recovers_ofSingle v.z).bind fun z => .pure (Vec3.mk x y z)
  rw [Bool.and_true, ← Bool.and_assoc] at components
  exact components.inside

theorem Rotation.recovers_toJson (q : Rotation Single) :
    Recovers (fun limit => Rotation.ofJson? limit q.toJson) q q.isFinite
      q.toJson.nesting := by
  have components := (recovers_ofSingle q.x).bind fun x =>
    (recovers_ofSingle q.y).bind fun y =>
      (recovers_ofSingle q.z).bind fun z =>
        (recovers_ofSingle q.w).bind fun w => .pure (Rotation.mk x y z w)
  rw [Bool.and_true, ← Bool.and_assoc, ← Bool.and_assoc] at components
  exact components.inside

/-- A similarity is a record of its parts. -/
theorem Similarity.recovers_toJson (t : Similarity Single) :
    Recovers (fun limit => Similarity.ofJson? limit t.toJson) t
      (t.rotation.isFinite && (Scalar.isFinite t.scale && t.translation.isFinite))
      t.toJson.nesting := by
  have parts := t.rotation.recovers_toJson.bind fun rotation =>
    (recovers_ofSingle t.scale).bind fun scale =>
      t.translation.recovers_toJson.bind fun translation =>
        .pure (Similarity.mk rotation scale translation)
  rw [Bool.and_true] at parts
  exact parts.inside

/-! ## Shapes -/

namespace Shape

theorem kindToJson_eq (kind : String) (fields : List (String × Json)) :
    kindToJson kind fields = .object [(some kind, .ofFields fields)] := rfl

/-- Two containers are entered before the fields of a kind are read. -/
theorem recovers_kindToJson {kind : String} {fields : List (String × Json)}
    {shape : Shape Single} {accepted : Bool} {read : Nat → Option (Shape Single)}
    (recovers : Recovers read shape accepted
      (Json.nestingOfMembers (fields.map fun field => (some field.1, field.2))))
    (reads : ∀ depth, ofJson? (depth + 3) (kindToJson kind fields) = read (depth + 1)) :
    Recovers (fun limit => ofJson? limit (kindToJson kind fields)) shape accepted
      (kindToJson kind fields).nesting := by
  have entered : (fun limit => ofJson? limit (kindToJson kind fields)) =
      fun limit => (Json.enter? limit).bind fun inner => (Json.enter? inner).bind read := by
    funext limit
    rcases limit with _ | _ | _ | depth
    · rfl
    · rfl
    · rfl
    · exact reads depth
  have nesting : (kindToJson kind fields).nesting = 1 + (1 + _) :=
    congrArg (1 + ·) (Nat.max_zero _)
  rw [entered, nesting]
  exact recovers.inside.inside

variable {β γ : Type} {kind first second : String} {form formOfSecond : Json}
  {read : Nat → Option β} {readSecond : Nat → Option γ} {value : β} {valueOfSecond : γ}
  {accepted acceptedSecond : Bool}

/-- A kind with one field. -/
theorem recovers_of_field (build : β → Shape Single)
    (recovers : Recovers read value accepted form.nesting)
    (reads : ∀ depth, ofJson? (depth + 3) (kindToJson kind [(first, form)]) =
      (read (depth + 1)).bind fun x => some (build x)) :
    Recovers (fun limit => ofJson? limit (kindToJson kind [(first, form)])) (build value)
      accepted (kindToJson kind [(first, form)]).nesting := by
  have fields := recovers.bind fun x => .pure (build x)
  rw [Bool.and_true] at fields
  exact recovers_kindToJson fields reads

/-- A kind with two fields. -/
theorem recovers_of_fields (build : β → γ → Shape Single)
    (recovers : Recovers read value accepted form.nesting)
    (recoversSecond :
      Recovers readSecond valueOfSecond acceptedSecond formOfSecond.nesting)
    (reads : ∀ depth, ofJson? (depth + 3)
        (kindToJson kind [(first, form), (second, formOfSecond)]) =
      (read (depth + 1)).bind fun x =>
        (readSecond (depth + 1)).bind fun y => some (build x y)) :
    Recovers
      (fun limit => ofJson? limit
        (kindToJson kind [(first, form), (second, formOfSecond)]))
      (build value valueOfSecond) (accepted && acceptedSecond)
      (kindToJson kind [(first, form), (second, formOfSecond)]).nesting := by
  have fields := recovers.bind fun x =>
    recoversSecond.bind fun y => .pure (build x y)
  rw [Bool.and_true] at fields
  exact recovers_kindToJson fields reads

theorem allToJson_eq_map (shapes : List (Shape Single)) :
    allToJson shapes = shapes.map toJson := by
  induction shapes with
  | nil => rfl
  | cons shape shapes induction => rw [allToJson, induction, List.map_cons]

theorem allFinite_eq_all (shapes : List (Shape Single)) :
    allFinite shapes = shapes.all isFinite := by
  induction shapes with
  | nil => rfl
  | cons shape shapes induction => rw [allFinite, induction, List.all_cons]

/-- The operands of a boolean are an array of shapes. -/
theorem recovers_allToJson {shapes : List (Shape Single)}
    (recovers : ∀ shape ∈ shapes, Recovers (fun limit => ofJson? limit shape.toJson) shape
      shape.isFinite shape.toJson.nesting) :
    Recovers (fun limit => itemsOfJson? ofJson? limit (.array (allToJson shapes))) shapes
      (allFinite shapes) (Json.array (allToJson shapes)).nesting := by
  rw [allToJson_eq_map, allFinite_eq_all]
  exact .items recovers

mutual

/-- Every shape is recovered from its JSON form. -/
theorem recovers_toJson (shape : Shape Single) :
    Recovers (fun limit => ofJson? limit shape.toJson) shape shape.isFinite
      shape.toJson.nesting := by
  cases shape with
  | rectangle halfSize =>
      exact recovers_of_field rectangle halfSize.recovers_toJson fun _ => rfl
  | circle radius =>
      exact recovers_of_field circle (recovers_ofSingle radius) fun _ => rfl
  | polygon points =>
      have array := Recovers.items fun point (_ : point ∈ points) =>
        point.recovers_toJson
      exact recovers_of_field polygon array fun _ => rfl
  | sphere radius =>
      exact recovers_of_field sphere (recovers_ofSingle radius) fun _ => rfl
  | box halfExtents =>
      exact recovers_of_field box halfExtents.recovers_toJson fun _ => rfl
  | cylinder radius height =>
      exact recovers_of_fields cylinder (recovers_ofSingle radius)
        (recovers_ofSingle height) fun _ => rfl
  | extrusion profile height =>
      exact recovers_of_fields extrusion (recovers_toJson profile)
        (recovers_ofSingle height) fun _ => rfl
  | revolution profile =>
      exact recovers_of_field revolution (recovers_toJson profile) fun _ => rfl
  | union shapes radius =>
      have operands := recovers_allToJson (recovers_all shapes)
      refine recovers_of_fields union operands (recovers_ofSingle radius) fun depth => ?_
      rw [kindToJson_eq, ofJson?]
      cases depth <;> rfl
  | intersection shapes radius =>
      have operands := recovers_allToJson (recovers_all shapes)
      refine recovers_of_fields intersection operands (recovers_ofSingle radius)
        fun depth => ?_
      rw [kindToJson_eq, ofJson?]
      cases depth <;> rfl
  | subtraction base tool radius =>
      have fields := (recovers_toJson base).bind fun base =>
        (recovers_toJson tool).bind fun tool =>
          (recovers_ofSingle radius).bind fun radius =>
            .pure (subtraction base tool radius)
      rw [Bool.and_true, ← Bool.and_assoc] at fields
      exact recovers_kindToJson fields fun _ => rfl
  | offset operand distance =>
      exact recovers_of_fields offset (recovers_toJson operand)
        (recovers_ofSingle distance) fun _ => rfl
  | shell operand thickness =>
      exact recovers_of_fields shell (recovers_toJson operand)
        (recovers_ofSingle thickness) fun _ => rfl
  | transformed operand transform =>
      rw [isFinite, Bool.and_assoc, Bool.and_assoc]
      exact recovers_of_fields transformed (recovers_toJson operand)
        transform.recovers_toJson fun _ => rfl

theorem recovers_all (shapes : List (Shape Single)) :
    ∀ shape ∈ shapes, Recovers (fun limit => ofJson? limit shape.toJson) shape
      shape.isFinite shape.toJson.nesting := by
  cases shapes with
  | nil => exact nofun
  | cons first rest =>
      rw [List.forall_mem_cons]
      exact ⟨recovers_toJson first, recovers_all rest⟩

end

/-- A shape is found at any limit, none included, exactly where it is recovered. -/
theorem ofJson?_toJson_eq_some_iff {shape other : Shape Single} {limit : Nat} :
    ofJson? limit shape.toJson = some other ↔
      other = shape ∧ shape.isFinite = true ∧ shape.toJson.nesting < limit := by
  rcases Nat.eq_zero_or_pos limit with rfl | positive
  · exact iff_of_false nofun fun found => absurd found.2.2 (Nat.not_lt_zero _)
  · exact recovers_toJson shape limit other positive

/-- Offsets inside each other around a ball, each of which adds two containers. -/
def nestedOffset : Nat → Shape Single
  | 0 => sphere 1
  | depth + 1 => offset (nestedOffset depth) 1

theorem nestedOffset_isFinite (depth : Nat) : (nestedOffset depth).isFinite = true := by
  induction depth with
  | zero => rfl
  | succ depth induction => rw [nestedOffset, isFinite, induction]; rfl

theorem nesting_nestedOffset (depth : Nat) :
    (nestedOffset depth).toJson.nesting = 2 * depth + 2 := by
  induction depth with
  | zero => rfl
  | succ depth induction =>
      simp only [nestedOffset, toJson, kindToJson, Json.ofFields, List.map_cons,
        List.map_nil, Json.nesting, Json.nestingOfMembers, induction,
        Json.nesting_ofSingle]
      omega

/--
A reader that admits a limited nesting gets a shape back from its JSON form, bit for
bit, if every number of the shape is finite and the form stays within the limit, and
gets no shape at all otherwise.  Different finite shapes have different forms, however
deep they are.
-/
theorem json_determines_finite (shape : Shape Single) :
    (∀ limit, ofJson? limit shape.toJson =
        if shape.isFinite = true ∧ shape.toJson.nesting < limit then some shape
        else none) ∧
      ∀ other : Shape Single, shape.isFinite = true → other.isFinite = true →
        shape.toJson = other.toJson → shape = other := by
  refine ⟨fun limit => ?_, fun other finite otherFinite same => ?_⟩
  · split
    · next readable => exact ofJson?_toJson_eq_some_iff.mpr ⟨rfl, readable⟩
    · next unreadable =>
        refine Option.eq_none_iff_forall_ne_some.mpr fun found read => ?_
        exact unreadable (ofJson?_toJson_eq_some_iff.mp read).2
  · have ofShape := ofJson?_toJson_eq_some_iff.mpr
      ⟨rfl, finite, Nat.lt_succ_self shape.toJson.nesting⟩
    rw [same] at ofShape
    exact (ofJson?_toJson_eq_some_iff.mp ofShape).1

/-- An enlarged ball that is moved along the first axis. -/
def movedBall (x : Single) : Shape Single :=
  transformed (offset (sphere 1) 1) ⟨⟨0, 0, 0, 1⟩, 1, ⟨x, 0, 0⟩⟩

/-- Balls that differ in the sign of a zero only survive, and stay apart. -/
theorem movedBall_survives_json :
    ofJson? Json.nestingLimit (movedBall 0).toJson = some (movedBall 0) ∧
      ofJson? Json.nestingLimit (movedBall (-0)).toJson = some (movedBall (-0)) ∧
      ofJson? Json.nestingLimit (movedBall .infinity).toJson = none ∧
      (movedBall 0).toJson ≠ (movedBall (-0)).toJson := by
  refine ⟨?_, ?_, ?_, fun same => ?_⟩
  · rw [(json_determines_finite _).1, if_pos (by decide)]
  · rw [(json_determines_finite _).1, if_pos (by decide)]
  · rw [(json_determines_finite _).1, if_neg (by decide)]
  · have equal := (json_determines_finite _).2 _ (by decide) (by decide) same
    simp only [movedBall, transformed.injEq, true_and, Similarity.mk.injEq,
      Vec3.mk.injEq, and_true] at equal
    exact absurd equal (by decide)

/-- A ball inside 63 offsets nests 128 containers, which is more than a text may. -/
theorem nested_offsets_lost_in_json :
    (nestedOffset 63).isFinite = true ∧
      ofJson? Json.nestingLimit (nestedOffset 63).toJson = none := by
  refine ⟨nestedOffset_isFinite 63, ?_⟩
  refine Option.eq_none_iff_forall_ne_some.mpr fun found read => ?_
  have nested := (ofJson?_toJson_eq_some_iff.mp read).2.2
  rw [nesting_nestedOffset, Json.nestingLimit] at nested
  omega

end Shape

end SolidField
