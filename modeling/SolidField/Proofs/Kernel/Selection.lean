import SolidField.Proofs.Graph.Evaluation
import SolidField.Proofs.Numeric.Negation

/-!
# Sharp booleans of many operands

Without a fillet, a union or an intersection is one of its operands, bit for bit, in
whatever order its chain takes them: one with the least distance or one with the
greatest.  Equal distances, as those of the two zeros, may be taken from different
operands.
-/

namespace SolidField

/-! ## Positions on the number line -/

namespace Single

/-- Among numbers, the comparison is that of the positions on the number line. -/
theorem atMost_iff_rank_le {x y : Single} (number : x.isNaN = false)
    (other : y.isNaN = false) : x.atMost y = true ↔ x.rank ≤ y.rank := by
  simp [atMost, number, other]

end Single

theorem Vec4.neg_neg_single (v : Vec4 Single) : - -v = v :=
  Vec4.ext (Single.neg_neg _) (Single.neg_neg _) (Single.neg_neg _) (Single.neg_neg _)

/-! ## Sharp kernels -/

namespace Kernel

variable {radius : Single} {a b value : Vec4 Single}

theorem roundUnion_of_sharp (sharp : radius.atMost 0 = true) (a b : Vec4 Single) :
    roundUnion a b radius = sharpUnion a b :=
  if_pos sharp

/-- A sharp union is the operand that does not come after the other one. -/
theorem evaluate?_union_cases (sharp : radius.atMost 0 = true)
    (number : a.w.isNaN = false) (other : b.w.isNaN = false)
    (computed : evaluate? .union [radius] a b = some value) :
    value = a ∧ a.w.rank ≤ b.w.rank ∨ value = b ∧ b.w.rank ≤ a.w.rank := by
  obtain rfl := Option.some.inj computed
  have comparison : Scalar.atMost a.w b.w = true ↔ a.w.rank ≤ b.w.rank :=
    Single.atMost_iff_rank_le number other
  rw [roundUnion_of_sharp sharp, sharpUnion]
  split
  · next before => exact Or.inl ⟨rfl, comparison.mp before⟩
  · next after => exact Or.inr ⟨rfl, by rw [comparison] at after; omega⟩

/-- A sharp intersection is the operand that does not come before the other one. -/
theorem evaluate?_intersection_cases (sharp : radius.atMost 0 = true)
    (number : a.w.isNaN = false) (other : b.w.isNaN = false)
    (computed : evaluate? .intersection [radius] a b = some value) :
    value = a ∧ b.w.rank ≤ a.w.rank ∨ value = b ∧ a.w.rank ≤ b.w.rank := by
  obtain rfl := Option.some.inj computed
  have first : (-a).w.isNaN = false := (Single.isNaN_neg a.w).trans number
  have second : (-b).w.isNaN = false := (Single.isNaN_neg b.w).trans other
  have firstRank : (-a).w.rank = -a.w.rank := Single.rank_neg a.w
  have secondRank : (-b).w.rank = -b.w.rank := Single.rank_neg b.w
  rcases evaluate?_union_cases sharp first second rfl with
    ⟨same, before⟩ | ⟨same, before⟩
  · exact Or.inl ⟨by rw [roundIntersection, same, Vec4.neg_neg_single], by omega⟩
  · exact Or.inr ⟨by rw [roundIntersection, same, Vec4.neg_neg_single], by omega⟩

end Kernel

/-! ## Many operands -/

namespace Opcode

/-- The position on the number line, from the end that a sharp boolean prefers. -/
def preference : Opcode → Single → Int
  | .intersection, x => -x.rank
  | _, x => x.rank

/-- A value is one of a list, and an operation prefers no other one to it. -/
structure Selects (opcode : Opcode) (values : List (Vec4 Single))
    (value : Vec4 Single) : Prop where
  listed : value ∈ values
  preferred : ∀ other ∈ values, opcode.preference value.w ≤ opcode.preference other.w

variable {opcode : Opcode} {radius : Single} {values order : List (Vec4 Single)}
  {value : Vec4 Single}

/-- A sharp boolean of two operands is the one that it prefers. -/
theorem evaluate?_cases (boolean : opcode = .union ∨ opcode = .intersection)
    (sharp : radius.atMost 0 = true) {a b : Vec4 Single} (number : a.w.isNaN = false)
    (other : b.w.isNaN = false)
    (computed : Kernel.evaluate? opcode [radius] a b = some value) :
    value = a ∧ opcode.preference a.w ≤ opcode.preference b.w ∨
      value = b ∧ opcode.preference b.w ≤ opcode.preference a.w := by
  rcases boolean with rfl | rfl
  · exact Kernel.evaluate?_union_cases sharp number other computed
  · simp only [preference, Int.neg_le_neg_iff]
    exact Kernel.evaluate?_intersection_cases sharp number other computed

/-- One more application keeps what was selected, or selects the new operand. -/
theorem Selects.append {folded last : Vec4 Single} (selects : opcode.Selects values folded)
    (selected : value = folded ∧ opcode.preference folded.w ≤ opcode.preference last.w ∨
      value = last ∧ opcode.preference last.w ≤ opcode.preference folded.w) :
    opcode.Selects (values ++ [last]) value := by
  rcases selected with ⟨rfl, before⟩ | ⟨rfl, before⟩
  · refine ⟨List.mem_append_left _ selects.listed, ?_⟩
    rw [List.forall_mem_append, List.forall_mem_singleton]
    exact ⟨selects.preferred, before⟩
  · refine ⟨List.mem_append_right _ (List.mem_singleton_self _), ?_⟩
    rw [List.forall_mem_append, List.forall_mem_singleton]
    exact ⟨fun other member => Int.le_trans before (selects.preferred other member),
      Int.le_refl _⟩

theorem Selects.perm (selects : opcode.Selects order value) (perm : order.Perm values) :
    opcode.Selects values value where
  listed := perm.mem_iff.mp selects.listed
  preferred other member := selects.preferred other (perm.mem_iff.mpr member)

/-- A sharp boolean of many operands selects one of them. -/
theorem selects_of_combine? (boolean : opcode = .union ∨ opcode = .intersection)
    (sharp : radius.atMost 0 = true) (many : 2 ≤ values.length)
    (numbers : ∀ value ∈ values, value.w.isNaN = false)
    (combined : opcode.combine? [radius] values = some value) :
    opcode.Selects values value := by
  refine combine?_induction (motive := fun values value =>
      (∀ value ∈ values, value.w.isNaN = false) → opcode.Selects values value)
    (fun value _ => ⟨List.mem_singleton_self value, by simp⟩) ?_ many combined numbers
  intro values folded last value induction computed numbers
  rw [List.forall_mem_append, List.forall_mem_singleton] at numbers
  have selects := induction numbers.1
  have number := numbers.1 folded selects.listed
  refine selects.append ?_
  -- Only the outermost application has the last operand in front.
  rcases computed with computed | computed
  · exact evaluate?_cases boolean sharp number numbers.2 computed
  · exact (evaluate?_cases boolean sharp numbers.2 number computed).symm

/-- In every order of its operands a sharp boolean has a value, which it selects. -/
theorem exists_selects (boolean : opcode = .union ∨ opcode = .intersection)
    (sharp : radius.atMost 0 = true) (many : 2 ≤ values.length)
    (numbers : ∀ value ∈ values, value.w.isNaN = false) (perm : order.Perm values) :
    ∃ value, opcode.combine? [radius] order = some value ∧
      opcode.Selects values value := by
  have manyArranged : 2 ≤ order.length := by
    rwa [perm.length_eq]
  have nonempty : order ≠ [] := by
    rintro rfl
    simp at manyArranged
  have exists_value : ∃ value, opcode.combine? [radius] order = some value := by
    rcases boolean with rfl | rfl
    · exact exists_combine? rfl rfl nonempty
    · exact exists_combine? rfl rfl nonempty
  rcases exists_value with ⟨value, combined⟩
  refine ⟨value, combined, Selects.perm ?_ perm⟩
  exact selects_of_combine? boolean sharp manyArranged
    (fun value member => numbers value (perm.mem_iff.mp member)) combined

/-- Two values that are selected from the same list have equal distances. -/
theorem Selects.equal {other : Vec4 Single}
    (boolean : opcode = .union ∨ opcode = .intersection)
    (numbers : ∀ value ∈ values, value.w.isNaN = false)
    (selects : opcode.Selects values value) (another : opcode.Selects values other) :
    value.w.equal other.w = true := by
  have before := selects.preferred other another.listed
  have after := another.preferred value selects.listed
  have same : value.w.rank = other.w.rank := by
    rcases boolean with rfl | rfl
    · exact Int.le_antisymm before after
    · simp only [preference, Int.neg_le_neg_iff] at before after
      exact Int.le_antisymm after before
  simp [Single.equal, numbers value selects.listed, numbers other another.listed, same]

/--
In every order of its operands a sharp union is one of them, bit for bit, whose
distance is at most that of every other one, and a sharp intersection is one whose
distance is at least that of every other one.  In any two orders the distances are
numerically equal.
-/
theorem sharp_booleans_select_operands {radius : Single}
    (sharp : radius.atMost 0 = true) {values : List (Vec4 Single)}
    (many : 2 ≤ values.length) (numbers : ∀ value ∈ values, value.w.isNaN = false) :
    (∀ order : List (Vec4 Single), order.Perm values →
      (∃ value ∈ values, Opcode.union.combine? [radius] order = some value ∧
        ∀ other ∈ values, value.w.atMost other.w = true) ∧
      ∃ value ∈ values, Opcode.intersection.combine? [radius] order = some value ∧
        ∀ other ∈ values, other.w.atMost value.w = true) ∧
    ∀ opcode : Opcode, opcode = .union ∨ opcode = .intersection →
      ∀ first second : List (Vec4 Single), first.Perm values → second.Perm values →
        ∃ value other, opcode.combine? [radius] first = some value ∧
          opcode.combine? [radius] second = some other ∧
          value.w.equal other.w = true := by
  constructor
  · intro order perm
    constructor
    · obtain ⟨value, combined, listed, preferred⟩ :=
        exists_selects (Or.inl rfl) sharp many numbers perm
      refine ⟨value, listed, combined, fun other member => ?_⟩
      rw [Single.atMost_iff_rank_le (numbers value listed) (numbers other member)]
      exact preferred other member
    · obtain ⟨value, combined, listed, preferred⟩ :=
        exists_selects (Or.inr rfl) sharp many numbers perm
      refine ⟨value, listed, combined, fun other member => ?_⟩
      rw [Single.atMost_iff_rank_le (numbers other member) (numbers value listed)]
      exact Int.neg_le_neg_iff.mp (preferred other member)
  · intro opcode boolean first second firstPerm secondPerm
    obtain ⟨value, combined, selects⟩ :=
      exists_selects boolean sharp many numbers firstPerm
    obtain ⟨other, otherCombined, another⟩ :=
      exists_selects boolean sharp many numbers secondPerm
    exact ⟨value, other, combined, otherCombined, selects.equal boolean numbers another⟩

/-- Values at the two zeros, and one between them in the list that is farther away. -/
def signedZeros : List (Vec4 Single) :=
  [⟨1, 0, 0, 0⟩, ⟨0, 0, 1, 1⟩, ⟨0, 1, 0, -0⟩]

/-- Two orders may select different zeros, whose distances are equal. -/
theorem signedZeros_select_operands :
    let reversed : List (Vec4 Single) := signedZeros.reverse
    (∃ value ∈ signedZeros, Opcode.union.combine? [-1] reversed = some value ∧
      ∀ other ∈ signedZeros, value.w.atMost other.w = true) ∧
      ∃ value other, Opcode.union.combine? [-1] signedZeros = some value ∧
        Opcode.union.combine? [-1] reversed = some other ∧
          value ≠ other ∧ value.w.equal other.w = true := by
  intro reversed
  rcases
      sharp_booleans_select_operands (show (-1 : Single).atMost 0 = true by decide)
        (show 2 ≤ signedZeros.length by decide) (by decide) with
    ⟨selected, equal⟩
  have perm : reversed.Perm signedZeros := List.reverse_perm _
  rcases equal .union (Or.inl rfl) signedZeros reversed (List.Perm.refl _) perm with
    ⟨value, other, combined, otherCombined, same⟩
  refine ⟨(selected reversed perm).1, value, other, combined, otherCombined, ?_, same⟩
  rintro rfl
  exact absurd (combined.trans otherCombined.symm) (by decide)

end Opcode

end SolidField
