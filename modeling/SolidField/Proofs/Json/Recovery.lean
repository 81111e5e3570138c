import SolidField.Json.Capacity
import SolidField.Proofs.Json.Number

/-!
# Readers that recover a value

A reader recovers a value from its form if it finds exactly that value, provided that
the value is accepted and that the form nests less deeply than the limit admits.  The
rules follow the construction of a reader: results, sequences, containers and lists.
-/

namespace SolidField

namespace Json

/-- Within a limit of nesting, a reader finds exactly one value. -/
def Recovers {β : Type} (read : Nat → Option β) (value : β) (accepted : Bool)
    (nesting : Nat) : Prop :=
  ∀ limit other, 0 < limit →
    (read limit = some other ↔ other = value ∧ accepted = true ∧ nesting < limit)

/-- A container is entered if the limit admits it. -/
theorem enter?_eq_some_iff {limit inner : Nat} :
    enter? limit = some inner ↔ inner = limit - 1 ∧ 1 < limit := by
  rcases limit with _ | _ | limit <;> simp [enter?, eq_comm]

namespace Recovers

variable {β γ : Type} {read : Nat → Option β} {value : β} {accepted : Bool}
  {nesting : Nat}

theorem pure (value : β) : Recovers (fun _ => some value) value true 0 := by
  intro limit other positive
  rw [Option.some.injEq, eq_comm]
  exact ⟨fun same => ⟨same, rfl, positive⟩, fun found => found.1⟩

/-- What is read next does not depend on the value that has been read. -/
theorem bind {next : β → Nat → Option γ} {result : β → γ} {acceptedNext : Bool}
    {nestingNext : Nat} (first : Recovers read value accepted nesting)
    (rest : ∀ x, Recovers (next x) (result x) acceptedNext nestingNext) :
    Recovers (fun limit => (read limit).bind fun x => next x limit) (result value)
      (accepted && acceptedNext) (max nesting nestingNext) := by
  intro limit other positive
  rw [Option.bind_eq_some_iff, Bool.and_eq_true, Nat.max_lt]
  constructor
  · rintro ⟨x, readFirst, readNext⟩
    rcases (first limit x positive).mp readFirst with ⟨rfl, ok, deep⟩
    rcases (rest _ limit other positive).mp readNext with ⟨same, okNext, deepNext⟩
    exact ⟨same, ⟨ok, okNext⟩, deep, deepNext⟩
  · rintro ⟨same, ⟨ok, okNext⟩, deep, deepNext⟩
    exact ⟨value, (first limit value positive).mpr ⟨rfl, ok, deep⟩,
      (rest _ limit other positive).mpr ⟨same, okNext, deepNext⟩⟩

/-- What is inside a container is read within a limit that is lower by one. -/
theorem inside (recovers : Recovers read value accepted nesting) :
    Recovers (fun limit => (enter? limit).bind read) value accepted (1 + nesting) := by
  intro limit other _
  simp only [Option.bind_eq_some_iff, enter?_eq_some_iff, and_assoc, exists_eq_left]
  constructor
  · rintro ⟨entered, found⟩
    rcases (recovers _ other (Nat.sub_pos_of_lt entered)).mp found with
      ⟨same, ok, deep⟩
    exact ⟨same, ok, by omega⟩
  · rintro ⟨same, ok, deep⟩
    exact ⟨by omega, (recovers _ other (by omega)).mpr ⟨same, ok, by omega⟩⟩

/-- Values that are read one by one are read as a list. -/
theorem mapM {read : Nat → Json → Option β} {write : β → Json} {accepted : β → Bool}
    {values : List β}
    (recovers : ∀ value ∈ values, Recovers (fun limit => read limit (write value)) value
      (accepted value) (write value).nesting) :
    Recovers (fun limit => (values.map write).mapM (read limit)) values
      (values.all accepted) (nestingOfItems (values.map write)) := by
  induction values with
  | nil => exact pure []
  | cons value values induction =>
      rw [List.forall_mem_cons] at recovers
      have both := recovers.1.bind fun first =>
        (induction recovers.2).bind fun rest => pure (first :: rest)
      rw [Bool.and_true, Nat.max_zero] at both
      simp only [List.map_cons, List.mapM_cons]
      exact both

/-- An array of values is read by reading its items one container deeper. -/
theorem items {read : Nat → Json → Option β} {write : β → Json} {accepted : β → Bool}
    {values : List β}
    (recovers : ∀ value ∈ values, Recovers (fun limit => read limit (write value)) value
      (accepted value) (write value).nesting) :
    Recovers (fun limit => Shape.itemsOfJson? read limit (.array (values.map write)))
      values (values.all accepted) (Json.array (values.map write)).nesting :=
  (mapM recovers).inside

end Recovers

@[simp]
theorem nesting_ofSingle (x : Single) : (ofSingle x).nesting = 0 := by
  rw [ofSingle]
  split <;> rfl

/-- A finite number is read at any depth. -/
theorem recovers_ofSingle (x : Single) :
    Recovers (fun _ => (ofSingle x).single?) x (Scalar.isFinite x)
      (ofSingle x).nesting := by
  intro limit other positive
  rw [nesting_ofSingle, single?_ofSingle, show Scalar.isFinite x = x.isFinite from rfl]
  split
  · next finite => simp [finite, positive, eq_comm]
  · next unbounded => simp [unbounded]

end Json

end SolidField
