import Mathlib.Algebra.Order.BigOperators.Group.List
import Mathlib.Tactic.Linarith
import Mathlib.Tactic.Ring
import SolidField.Numeric.Ordered
import SolidField.Proofs.Kernel.Content
import SolidField.Proofs.Schedule.Values

/-!
# Filleted booleans of many operands

Over an ordered scalar a fillet of positive radius may be applied in any order and
any nesting.  Its distance depends on how deep each operand lies within the radius:
the squares of the depths add up, and the distance is the radius less the root of
their sum, or that of the nearest operand if none lies within the radius.
-/

universe u

namespace SolidField

namespace Kernel

variable {α : Type u} [OrderedScalar α]

/-- How deep a distance lies within a radius. -/
def depth (radius distance : α) : α :=
  max (radius - distance) 0

/-- The squares of the depths of all distances. -/
def depthSquares (radius : α) (distances : List α) : α :=
  (distances.map fun distance => depth radius distance ^ 2).sum

/-- The distance of a union with a fillet, whatever the order of its operands. -/
def filletedUnion (radius : α) (distances : List α) : α :=
  if ∃ distance ∈ distances, distance < radius then
    radius - Scalar.sqrt (depthSquares radius distances)
  else
    distances.min?.getD radius

/-- The distance of an intersection with a fillet, whatever the order of its operands. -/
def filletedIntersection (radius : α) (distances : List α) : α :=
  if ∃ distance ∈ distances, -radius < distance then
    Scalar.sqrt (distances.map fun distance => max (radius + distance) 0 ^ 2).sum - radius
  else
    distances.max?.getD (-radius)

/-! ## Depths -/

section Depths

variable {radius a b : α} {distances others : List α}

theorem depth_of_le (outside : radius ≤ a) : depth radius a = 0 :=
  max_eq_right (sub_nonpos.mpr outside)

theorem depth_of_lt (inside : a < radius) : depth radius a = radius - a :=
  max_eq_left (sub_nonneg.mpr inside.le)

theorem depthSquares_nonneg (radius : α) (distances : List α) :
    0 ≤ depthSquares radius distances := by
  refine List.sum_nonneg fun square member => ?_
  rcases List.mem_map.mp member with ⟨distance, -, rfl⟩
  exact sq_nonneg _

theorem depthSquares_append (radius : α) (distances others : List α) :
    depthSquares radius (distances ++ others) =
      depthSquares radius distances + depthSquares radius others := by
  rw [depthSquares, List.map_append, List.sum_append]
  rfl

/-- Nothing is deep if everything is at least the radius away. -/
theorem depthSquares_eq_zero (outside : ∀ distance ∈ distances, radius ≤ distance) :
    depthSquares radius distances = 0 := by
  refine List.sum_eq_zero fun square member => ?_
  rcases List.mem_map.mp member with ⟨distance, listed, rfl⟩
  rw [depth_of_le (outside distance listed), zero_pow two_ne_zero]

theorem depthSquares_pos (inside : ∃ distance ∈ distances, distance < radius) :
    0 < depthSquares radius distances := by
  rcases inside with ⟨distance, listed, nearer⟩
  have deep : 0 < depth radius distance ^ 2 := by
    rw [depth_of_lt nearer]
    exact pow_pos (sub_pos.mpr nearer) 2
  refine deep.trans_le (List.single_le_sum ?_ _ (List.mem_map_of_mem listed))
  intro square member
  rcases List.mem_map.mp member with ⟨other, -, rfl⟩
  exact sq_nonneg _

end Depths

/-! ## One application -/

section Application

variable {radius a b : α}

/-- The length of a planar vector is the root of the squares of its components. -/
theorem length_positivePart (a b : α) :
    (⟨radius - a, radius - b⟩ : Vec2 α).positivePart.length =
      Scalar.sqrt (depth radius a ^ 2 + depth radius b ^ 2) := by
  rw [sq, sq, depth, depth, ← OrderedScalar.scalarMax_eq, ← OrderedScalar.scalarMax_eq]
  rfl

/-- A union is sharp where neither operand lies within the radius. -/
theorem unionDistance_of_outside (first : radius ≤ a) (second : radius ≤ b) :
    unionDistance a b radius = min a b := by
  have flat : Scalar.sqrt (depth radius a ^ 2 + depth radius b ^ 2) = 0 := by
    rw [depth_of_le first, depth_of_le second]
    simpa using OrderedScalar.sqrt_mul_self_eq (le_refl (0 : α))
  simp only [unionDistance, length_positivePart, flat, OrderedScalar.atMost_iff_le,
    OrderedScalar.equal_iff_eq, if_true, ite_self, ← min_def]

/-- Elsewhere it is nearer than the radius by the length of both depths. -/
theorem unionDistance_of_inside (positive : 0 < radius)
    (inside : a < radius ∨ b < radius) :
    unionDistance a b radius =
      radius - Scalar.sqrt (depth radius a ^ 2 + depth radius b ^ 2) := by
  have squares : 0 < depth radius a ^ 2 + depth radius b ^ 2 := by
    rcases inside with nearer | nearer
    · refine add_pos_of_pos_of_nonneg (pow_pos ?_ 2) (sq_nonneg _)
      rw [depth_of_lt nearer]
      exact sub_pos.mpr nearer
    · refine add_pos_of_nonneg_of_pos (sq_nonneg _) (pow_pos ?_ 2)
      rw [depth_of_lt nearer]
      exact sub_pos.mpr nearer
  have long : Scalar.sqrt (depth radius a ^ 2 + depth radius b ^ 2) ≠ 0 := by
    rw [ne_eq, OrderedScalar.sqrt_eq_zero_iff squares.le]
    exact squares.ne'
  have sharp : min a b ≤ radius := by
    rcases inside with nearer | nearer
    · exact (min_le_left a b).trans nearer.le
    · exact (min_le_right a b).trans nearer.le
  simp only [unionDistance, length_positivePart, OrderedScalar.atMost_iff_le,
    OrderedScalar.equal_iff_eq, OrderedScalar.scalarMax_eq, if_neg long,
    if_neg (not_le.mpr positive), ← min_def, max_eq_left sharp]

end Application

/-! ## Many applications -/

section Folds

variable {radius : α} {distances others : List α}

theorem filletedUnion_of_inside (inside : ∃ distance ∈ distances, distance < radius) :
    filletedUnion radius distances =
      radius - Scalar.sqrt (depthSquares radius distances) :=
  if_pos inside

/-- Where nothing lies within the radius, a union is as near as its nearest operand. -/
theorem filletedUnion_isLeast (nonempty : distances ≠ [])
    (outside : ∀ distance ∈ distances, radius ≤ distance) :
    filletedUnion radius distances ∈ distances ∧
      ∀ distance ∈ distances, filletedUnion radius distances ≤ distance := by
  have none : ¬∃ distance ∈ distances, distance < radius := by
    rintro ⟨distance, listed, nearer⟩
    exact absurd (outside distance listed) (not_le.mpr nearer)
  rw [filletedUnion, if_neg none]
  obtain ⟨least, found⟩ := Option.isSome_iff_exists.mp
    (List.isSome_min?_of_ne_nil nonempty)
  rw [found, Option.getD_some]
  exact List.min?_eq_some_iff.mp found

/-- A union of many lies as deep within the radius as its operands together. -/
theorem depth_filletedUnion (nonempty : distances ≠ []) :
    depth radius (filletedUnion radius distances) ^ 2 =
      depthSquares radius distances := by
  by_cases inside : ∃ distance ∈ distances, distance < radius
  · have square := OrderedScalar.sqrt_mul_self (depthSquares_nonneg radius distances)
    have root := OrderedScalar.sqrt_nonneg (depthSquares_nonneg radius distances)
    rw [filletedUnion_of_inside inside, depth, sub_sub_cancel, max_eq_left root, sq,
      square]
  · have outside : ∀ distance ∈ distances, radius ≤ distance :=
      fun distance listed => not_lt.mp fun nearer => inside ⟨distance, listed, nearer⟩
    rw [depthSquares_eq_zero outside,
      depth_of_le (outside _ (filletedUnion_isLeast nonempty outside).1),
      zero_pow two_ne_zero]

/-- A union of many lies within the radius if one of its operands does. -/
theorem filletedUnion_lt_iff (nonempty : distances ≠ []) :
    filletedUnion radius distances < radius ↔
      ∃ distance ∈ distances, distance < radius := by
  constructor
  · intro nearer
    by_contra none
    have outside : ∀ distance ∈ distances, radius ≤ distance :=
      fun distance listed => not_lt.mp fun inside => none ⟨distance, listed, inside⟩
    exact absurd (outside _ (filletedUnion_isLeast nonempty outside).1)
      (not_le.mpr nearer)
  · intro inside
    have deep := depthSquares_pos inside
    have root := OrderedScalar.sqrt_nonneg deep.le
    have long : Scalar.sqrt (depthSquares radius distances) ≠ 0 :=
      fun zero => deep.ne' ((OrderedScalar.sqrt_eq_zero_iff deep.le).mp zero)
    rw [filletedUnion_of_inside inside]
    exact sub_lt_self radius (root.lt_of_ne' long)

/-- A union of two unions is the union of all their operands. -/
theorem unionDistance_filletedUnion (positive : 0 < radius) (nonempty : distances ≠ [])
    (others_nonempty : others ≠ []) :
    unionDistance (filletedUnion radius distances) (filletedUnion radius others) radius =
      filletedUnion radius (distances ++ others) := by
  by_cases inside : ∃ distance ∈ distances ++ others, distance < radius
  · have either : filletedUnion radius distances < radius ∨
        filletedUnion radius others < radius := by
      rw [filletedUnion_lt_iff nonempty, filletedUnion_lt_iff others_nonempty]
      rcases inside with ⟨distance, listed, nearer⟩
      rcases List.mem_append.mp listed with listed | listed
      · exact Or.inl ⟨distance, listed, nearer⟩
      · exact Or.inr ⟨distance, listed, nearer⟩
    rw [unionDistance_of_inside positive either, depth_filletedUnion nonempty,
      depth_filletedUnion others_nonempty, ← depthSquares_append,
      filletedUnion_of_inside inside]
  · have outside : ∀ distance ∈ distances ++ others, radius ≤ distance :=
      fun distance listed => not_lt.mp fun nearer => inside ⟨distance, listed, nearer⟩
    rw [List.forall_mem_append] at outside
    rcases filletedUnion_isLeast nonempty outside.1 with ⟨first, firstLeast⟩
    rcases filletedUnion_isLeast others_nonempty outside.2 with ⟨second, secondLeast⟩
    have whole := filletedUnion_isLeast (List.append_ne_nil_of_left_ne_nil nonempty others)
      (List.forall_mem_append.mpr outside)
    rw [unionDistance_of_outside (outside.1 _ first) (outside.2 _ second)]
    refine le_antisymm ?_ ?_
    · rcases List.mem_append.mp whole.1 with listed | listed
      · exact (min_le_left _ _).trans (firstLeast _ listed)
      · exact (min_le_right _ _).trans (secondLeast _ listed)
    · exact le_min (whole.2 _ (List.mem_append_left _ first))
        (whole.2 _ (List.mem_append_right _ second))

theorem filletedUnion_singleton (radius distance : α) :
    filletedUnion radius [distance] = distance := by
  by_cases inside : distance < radius
  · have squares : depthSquares radius [distance] =
        (radius - distance) * (radius - distance) := by
      rw [depthSquares, List.map_singleton, List.sum_singleton, depth_of_lt inside, sq]
    rw [filletedUnion_of_inside ⟨distance, List.mem_singleton_self distance, inside⟩,
      squares, OrderedScalar.sqrt_mul_self_eq (sub_nonneg.mpr inside.le), sub_sub_cancel]
  · refine List.mem_singleton.mp (filletedUnion_isLeast (List.cons_ne_nil _ _) ?_).1
    rintro other listed
    rw [List.mem_singleton.mp listed]
    exact not_lt.mp inside

/-- The order of the operands does not matter. -/
theorem filletedUnion_perm (perm : distances.Perm others) :
    filletedUnion radius distances = filletedUnion radius others := by
  by_cases inside : ∃ distance ∈ distances, distance < radius
  · have otherInside : ∃ distance ∈ others, distance < radius := by
      rcases inside with ⟨distance, listed, nearer⟩
      exact ⟨distance, perm.mem_iff.mp listed, nearer⟩
    rw [filletedUnion_of_inside inside, filletedUnion_of_inside otherInside,
      depthSquares, depthSquares, (perm.map _).sum_eq]
  · rcases eq_or_ne distances [] with rfl | nonempty
    · rw [perm.nil_eq]
    · have others_nonempty : others ≠ [] := fun empty =>
        nonempty (empty ▸ perm).eq_nil
      have outside : ∀ distance ∈ distances, radius ≤ distance :=
        fun distance listed => not_lt.mp fun nearer => inside ⟨distance, listed, nearer⟩
      have first := filletedUnion_isLeast nonempty outside
      have second := filletedUnion_isLeast others_nonempty
        fun distance listed => outside distance (perm.mem_iff.mpr listed)
      exact le_antisymm (first.2 _ (perm.mem_iff.mpr second.1))
        (second.2 _ (perm.mem_iff.mp first.1))

/-- The dual formula is that of the union of what is outside the operands. -/
theorem filletedIntersection_eq (radius : α) (distances : List α) :
    filletedIntersection radius distances =
      -(filletedUnion radius (distances.map (-·))) := by
  have depths : (distances.map fun distance => max (radius + distance) 0 ^ 2) =
      (distances.map (-·)).map fun distance => depth radius distance ^ 2 := by
    rw [List.map_map]
    refine List.map_congr_left fun distance _ => ?_
    rw [Function.comp_apply, depth, sub_neg_eq_add]
  by_cases inside : ∃ distance ∈ distances, -radius < distance
  · have negated : ∃ distance ∈ distances.map (-·), distance < radius := by
      rcases inside with ⟨distance, listed, beyond⟩
      exact ⟨-distance, List.mem_map_of_mem listed, neg_lt.mp beyond⟩
    rw [filletedIntersection, if_pos inside, depths, filletedUnion_of_inside negated,
      neg_sub]
    rfl
  · rcases eq_or_ne distances [] with rfl | nonempty
    · simp [filletedIntersection, filletedUnion]
    · have negated : ∀ distance ∈ distances.map (-·), radius ≤ distance := by
        rw [List.forall_mem_map]
        exact fun distance listed => le_neg.mp <| not_lt.mp fun beyond =>
          inside ⟨distance, listed, beyond⟩
      rcases filletedUnion_isLeast (by simpa using nonempty) negated with ⟨member, least⟩
      rw [List.forall_mem_map] at least
      rcases List.mem_map.mp member with ⟨farthest, listed, same⟩
      have found : distances.max? = some farthest := List.max?_eq_some_iff.mpr
        ⟨listed, fun distance other => neg_le_neg_iff.mp (same ▸ least distance other)⟩
      rw [filletedIntersection, if_neg inside, found, ← same, Option.getD_some, neg_neg]

/-- An intersection of two intersections is the intersection of all their operands. -/
theorem intersectionDistance_filletedIntersection (positive : 0 < radius)
    (nonempty : distances ≠ []) (others_nonempty : others ≠ []) :
    -(unionDistance (-(filletedIntersection radius distances))
        (-(filletedIntersection radius others)) radius) =
      filletedIntersection radius (distances ++ others) := by
  rw [filletedIntersection_eq, filletedIntersection_eq, filletedIntersection_eq, neg_neg,
    neg_neg, List.map_append, unionDistance_filletedUnion positive (by simpa using nonempty)
      (by simpa using others_nonempty)]

theorem filletedIntersection_singleton (radius distance : α) :
    filletedIntersection radius [distance] = distance := by
  rw [filletedIntersection_eq, List.map_singleton, filletedUnion_singleton, neg_neg]

theorem filletedIntersection_perm (perm : distances.Perm others) :
    filletedIntersection radius distances = filletedIntersection radius others := by
  rw [filletedIntersection_eq, filletedIntersection_eq, filletedUnion_perm (perm.map _)]

end Folds

end Kernel

/-! ## Nested applications -/

namespace Operand

variable {α : Type u} [Scalar α] {opcode : Opcode} {parameters : List α}

theorem leaves_ne_nil (operand : Operand) : operand.leaves ≠ [] := by
  induction operand with
  | node index => exact List.cons_ne_nil _ _
  | fold first second firstInduction _ =>
      exact List.append_ne_nil_of_left_ne_nil firstInduction _

/--
If an operation joins what lists of distances amount to, then every nesting of it
amounts to what its leaves do together.
-/
theorem exists_value?_of_joins (total : List α → α)
    (single : ∀ distance, total [distance] = distance)
    (joins : ∀ {distances others : List α} {a b : Vec4 α}, distances ≠ [] → others ≠ [] →
      a.w = total distances → b.w = total others →
        ∃ value, Kernel.evaluate? opcode parameters a b = some value ∧
          value.w = total (distances ++ others))
    (value : Nat → Vec4 α) (operand : Operand) :
    ∃ result, operand.value? opcode parameters value = some result ∧
      result.w = total (operand.leaves.map fun index => (value index).w) := by
  induction operand with
  | node index => exact ⟨value index, rfl, (single _).symm⟩
  | fold first second firstInduction secondInduction =>
      rcases firstInduction with ⟨a, firstValue, firstTotal⟩
      rcases secondInduction with ⟨b, secondValue, secondTotal⟩
      rcases
          joins (by simpa using first.leaves_ne_nil) (by simpa using second.leaves_ne_nil)
            firstTotal secondTotal with
        ⟨result, computed, total⟩
      refine ⟨result, ?_, ?_⟩
      · simp only [value?, firstValue, secondValue, Option.bind_some, computed]
      · rw [total, leaves, List.map_append]

end Operand

namespace Kernel

variable {α : Type u} [OrderedScalar α] {radius : α}

/--
However the operands of a filleted union or intersection are arranged and nested, the
distance of the whole is the same function of their distances.
-/
theorem filleted_booleans_reassociate (positive : 0 < radius) {values : List (Vec4 α)}
    (value : Nat → Vec4 α) (operand : Operand)
    (arranged : (operand.leaves.map value).Perm values) :
    (∃ result, operand.value? .union [radius] value = some result ∧
      result.w = filletedUnion radius (values.map Vec4.w)) ∧
      ∃ result, operand.value? .intersection [radius] value = some result ∧
        result.w = filletedIntersection radius (values.map Vec4.w) := by
  have distances : (operand.leaves.map fun index => (value index).w).Perm
      (values.map Vec4.w) := by
    have mapped := arranged.map Vec4.w
    rwa [List.map_map] at mapped
  constructor
  · rw [← filletedUnion_perm distances]
    refine operand.exists_value?_of_joins _ (filletedUnion_singleton radius) ?_ value
    intro distances others a b nonempty others_nonempty first second
    refine ⟨_, rfl, ?_⟩
    rw [w_roundUnion, first, second,
      unionDistance_filletedUnion positive nonempty others_nonempty]
  · rw [← filletedIntersection_perm distances]
    refine operand.exists_value?_of_joins _ (filletedIntersection_singleton radius) ?_ value
    intro distances others a b nonempty others_nonempty first second
    refine ⟨_, rfl, ?_⟩
    rw [w_roundIntersection, first, second,
      intersectionDistance_filletedIntersection positive nonempty others_nonempty]

/-- Three operands, two of them within a fillet of radius one, nested from the right. -/
theorem three_operands_reassociate :
    let value : Nat → Vec4 ℝ := fun index => ⟨1, 0, 0, if index = 0 then 3 else 0⟩
    let operand : Operand := .fold (.node 2) (.fold (.node 0) (.node 1))
    (∃ result, operand.value? .union [1] value = some result ∧
      result.w = 1 - Scalar.sqrt 2) ∧
      ∃ result, operand.value? .intersection [1] value = some result ∧
        result.w = Scalar.sqrt 18 - 1 := by
  intro value operand
  have arranged : (operand.leaves.map value).Perm [value 0, value 1, value 2] :=
    @List.perm_append_comm _ [value 2] [value 0, value 1]
  rcases filleted_booleans_reassociate one_pos value operand arranged with
    ⟨⟨joined, computed, union⟩, ⟨met, other, intersection⟩⟩
  refine ⟨⟨joined, computed, ?_⟩, ⟨met, other, ?_⟩⟩
  · rw [union, filletedUnion_of_inside (by norm_num [value])]
    norm_num [depthSquares, depth, value]
  · rw [intersection, filletedIntersection, if_pos (by norm_num [value])]
    norm_num [value]

end Kernel

end SolidField
