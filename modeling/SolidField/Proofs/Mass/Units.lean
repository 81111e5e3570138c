import Mathlib.Algebra.BigOperators.Group.List.Lemmas
import Mathlib.Data.Finset.Card
import Mathlib.Data.Prod.Basic
import SolidField.Mass.Account
import SolidField.Proofs.Subdivision.Cells

/-!
# Counting units

A box has as many units as its size says.  Boxes that do not overlap count together
what is counted in the region around them, so a count by cells is a count of units.
-/

namespace SolidField

/-- A sum over the items with a property is their number times what each counts. -/
theorem sum_map_ite_eq_countP_mul {β : Type} (items : List β) (property : β → Bool)
    (size : Nat) :
    (items.map fun item => if property item then size else 0).sum =
      items.countP property * size := by
  induction items with
  | nil => simp
  | cons item items induction =>
      rw [List.map_cons, List.sum_cons, induction, List.countP_cons]
      split
      · rw [Nat.add_mul, Nat.one_mul, Nat.add_comm]
      · rw [Nat.zero_add, Nat.add_zero]

namespace GridBox

@[simp]
theorem mem_units {box : GridBox} {unit : Vec3 Nat} :
    unit ∈ box.units ↔ box.Contains unit := by
  simp only [units, Finset.mem_image, Finset.mem_product, Finset.mem_Ico]
  constructor
  · rintro ⟨⟨x, y, z⟩, ⟨insideX, insideY, insideZ⟩, rfl⟩
    exact ⟨insideX, insideY, insideZ⟩
  · rintro ⟨x, y, z⟩
    exact ⟨(unit.x, unit.y, unit.z), ⟨x, y, z⟩, rfl⟩

theorem card_units (box : GridBox) :
    box.units.card = box.size.x * (box.size.y * box.size.z) := by
  have injective : Function.Injective fun unit : Nat × Nat × Nat =>
      (⟨unit.1, unit.2.1, unit.2.2⟩ : Vec3 Nat) := by
    rintro ⟨x, y, z⟩ ⟨x', y', z'⟩ same
    cases same
    rfl
  rw [units, Finset.card_image_of_injective _ injective, Finset.card_product,
    Finset.card_product, Nat.card_Ico, Nat.card_Ico, Nat.card_Ico]
  simp only [Nat.add_sub_cancel_left]

variable {β : Type} {items : List β} {box : β → GridBox} {region : GridBox}

/-- Boxes that tile a region lie in it. -/
theorem Tiles.within (tiles : Tiles (items.map box) region) {item : β}
    (member : item ∈ items) {unit : Vec3 Nat} (inside : (box item).Contains unit) :
    region.Contains unit := by
  have covered : 0 < covers (items.map box) unit :=
    List.countP_pos_iff.mpr
      ⟨box item, List.mem_map_of_mem member, decide_eq_true inside⟩
  rw [tiles unit] at covered
  by_contra outside
  rw [if_neg outside] at covered
  exact Nat.lt_irrefl 0 covered

/-- A unit of a box that overlaps no other is in none of the others. -/
theorem not_any_of_contains {item : β} {unit : Vec3 Nat} (inside : (box item).Contains unit)
    (once : covers ((item :: items).map box) unit ≤ 1) (counts : β → Bool) :
    (items.any fun other => (box other).Contains unit && counts other) = false := by
  rw [List.map_cons, covers_cons, if_pos inside] at once
  rw [List.any_eq_false]
  intro other member both
  rw [Bool.and_eq_true] at both
  have again : 0 < covers (items.map box) unit := List.countP_pos_iff.mpr
    ⟨box other, List.mem_map_of_mem member, both.1⟩
  omega

/--
What is counted box by box, in boxes that do not overlap, is counted in the region
around them.
-/
theorem sum_card_filter_units (once : ∀ unit, covers (items.map box) unit ≤ 1)
    (within : ∀ item ∈ items, ∀ unit, (box item).Contains unit → region.Contains unit)
    (counts : β → Vec3 Nat → Bool) :
    (items.map fun item => ((box item).units.filter fun unit => counts item unit).card).sum =
      (region.units.filter fun unit =>
        items.any fun item => (box item).Contains unit && counts item unit).card := by
  induction items with
  | nil => simp
  | cons item items induction =>
      rw [List.forall_mem_cons] at within
      have first : region.units.filter (fun unit =>
            ((box item).Contains unit && counts item unit) = true) =
          (box item).units.filter fun unit => counts item unit := by
        ext unit
        simp only [Finset.mem_filter, mem_units, Bool.and_eq_true, decide_eq_true_eq]
        exact ⟨fun ⟨_, inside, counted⟩ => ⟨inside, counted⟩,
          fun ⟨inside, counted⟩ => ⟨within.1 unit inside, inside, counted⟩⟩
      have apart : Disjoint
          (region.units.filter fun unit =>
            ((box item).Contains unit && counts item unit) = true)
          (region.units.filter fun unit => (items.any fun item =>
            (box item).Contains unit && counts item unit) = true) := by
        rw [Finset.disjoint_filter]
        intro unit _ here there
        rw [Bool.and_eq_true, decide_eq_true_eq] at here
        rw [not_any_of_contains here.1 (once unit) fun other => counts other unit] at there
        exact Bool.false_ne_true there
      have onceRest : ∀ unit, covers (items.map box) unit ≤ 1 := by
        intro unit
        have all := once unit
        rw [List.map_cons, covers_cons] at all
        omega
      rw [List.map_cons, List.sum_cons, induction onceRest within.2]
      simp only [List.any_cons, Bool.or_eq_true]
      rw [Finset.filter_or, Finset.card_union_of_disjoint apart, first]

/-- What is counted tile by tile is counted in the region. -/
theorem Tiles.sum_card_filter_units (tiles : Tiles (items.map box) region)
    (counts : β → Vec3 Nat → Bool) :
    (items.map fun item =>
        ((box item).units.filter fun unit => counts item unit).card).sum =
      (region.units.filter fun unit =>
        items.any fun item => (box item).Contains unit && counts item unit).card := by
  refine GridBox.sum_card_filter_units (fun unit => ?_)
    (fun item member unit => tiles.within member) counts
  rw [tiles unit]
  split <;> omega

section Samples

variable {corner dims : Vec3 Nat} {distances : List Single}

/-- The parts of edge one of a box, in the order of the packing, tile it. -/
theorem tiles_samples (complete : distances.length = dims.x * dims.y * dims.z) :
    Tiles (distances.zipIdx.map fun sample => part corner dims ⟨1, 1, 1⟩ sample.2)
      ⟨corner, dims⟩ := by
  have parts : (distances.zipIdx.map fun sample =>
        part corner dims ⟨1, 1, 1⟩ sample.2) =
      (List.range (dims.x * dims.y * dims.z)).map (part corner dims ⟨1, 1, 1⟩) := by
    rw [← complete, List.range_eq_range', ← List.zipIdx_map_snd 0 distances,
      List.map_map]
    rfl
  have whole : ofParts corner dims ⟨1, 1, 1⟩ = ⟨corner, dims⟩ := by
    simp only [ofParts, Nat.mul_one]
  intro unit
  rw [parts, covers_parts, whole]

/-- The sample of a unit is the one at its place in the packing. -/
theorem part_one_contains_iff {index : Nat} (small : index < dims.x * dims.y * dims.z)
    {unit : Vec3 Nat} (inside : (⟨corner, dims⟩ : GridBox).Contains unit) :
    (part corner dims ⟨1, 1, 1⟩ index).Contains unit ↔
      packIndex ⟨unit.x - corner.x, unit.y - corner.y, unit.z - corner.z⟩ dims =
        index := by
  have place : partIndex corner dims ⟨1, 1, 1⟩ unit =
      packIndex ⟨unit.x - corner.x, unit.y - corner.y, unit.z - corner.z⟩ dims := by
    simp only [partIndex, Nat.div_one]
  rw [part_contains_iff small, place]
  simp only [ofParts, Nat.mul_one, inside, true_and]

/-- The samples of a box with a property are as many as its units in such samples. -/
theorem countP_eq_card_units (complete : distances.length = dims.x * dims.y * dims.z)
    (property : Single → Bool) :
    distances.countP property =
      ((⟨corner, dims⟩ : GridBox).units.filter fun unit =>
        distances[packIndex ⟨unit.x - corner.x, unit.y - corner.y,
          unit.z - corner.z⟩ dims]?.any property).card := by
  have counted := (@tiles_samples corner dims distances complete).sum_card_filter_units
    fun sample _ => property sample.1
  have one : ∀ sample : Single × Nat,
      ((part corner dims ⟨1, 1, 1⟩ sample.2).units.filter fun _ =>
        property sample.1 = true).card = if property sample.1 then 1 else 0 := by
    intro sample
    rw [Finset.filter_const]
    split
    · rw [card_units]
      rfl
    · rfl
  simp only [one] at counted
  rw [sum_map_ite_eq_countP_mul _ (fun sample : Single × Nat => property sample.1),
    Nat.mul_one] at counted
  have samples : distances.zipIdx.countP (fun sample => property sample.1) =
      distances.countP property := by
    conv_rhs => rw [← List.zipIdx_map_fst 0 distances, List.countP_map]
    rfl
  rw [← samples, counted]
  refine congrArg Finset.card (Finset.filter_congr fun unit inside => ?_)
  rw [mem_units] at inside
  rw [List.any_eq_true, Option.any_eq_true]
  constructor
  · rintro ⟨⟨distance, index⟩, member, here⟩
    rw [Bool.and_eq_true, decide_eq_true_eq] at here
    have found := List.mem_zipIdx_iff_getElem?.mp member
    have small := (List.getElem?_eq_some_iff.mp found).1
    rw [complete] at small
    rw [part_one_contains_iff small inside] at here
    exact ⟨distance, here.1 ▸ found, here.2⟩
  · rintro ⟨distance, found, holds⟩
    have small := (List.getElem?_eq_some_iff.mp found).1
    rw [complete] at small
    refine ⟨(distance, _), List.mem_zipIdx_iff_getElem?.mpr found, ?_⟩
    rw [Bool.and_eq_true, decide_eq_true_eq]
    exact ⟨(part_one_contains_iff small inside).mpr rfl, holds⟩

end Samples

end GridBox

end SolidField
