import Mathlib.Algebra.Order.Ring.Nat
import SolidField.Subdivision.Run

/-!
# The order of leaf blocks

Two corners that tie in the order of all patterns are the same corner.  Leaf
blocks that differ in nothing but their corners therefore have one sorted list,
whatever order they come in.
-/

namespace SolidField

namespace Single

/-- The bits of a number are its sign and its magnitude. -/
theorem toNat_bits (x : Single) :
    x.bits.toNat = x.magnitude + if x.isNegative then 2 ^ 31 else 0 := by
  have masked : x.magnitude = x.bits.toNat % 2 ^ 31 := by
    rw [magnitude, UInt32.toNat_and]
    exact Nat.and_two_pow_sub_one_eq_mod _ 31
  have sign : x.isNegative = true ↔ 2 ^ 31 ≤ x.bits.toNat :=
    decide_eq_true_iff
  have small := x.bits.toNat_lt
  rw [masked]
  split
  · next negative =>
      rw [sign] at negative
      omega
  · next positive =>
      rw [sign] at positive
      omega

/-- No two patterns have the same place in the order of all patterns. -/
theorem eq_of_totalRank_eq {x y : Single} (same : x.totalRank = y.totalRank) :
    x = y := by
  have bits : x.bits.toNat = y.bits.toNat := by
    rw [toNat_bits, toNat_bits]
    simp only [totalRank] at same
    -- negative numbers rank below zero, the others from zero on
    cases negativeX : x.isNegative <;> cases negativeY : y.isNegative <;>
      simp only [negativeX, negativeY, if_true, Bool.false_eq_true, if_false]
        at same ⊢ <;>
      omega
  cases x
  cases y
  rw [UInt32.toNat_inj] at bits
  exact congrArg Single.mk bits

end Single

namespace LeafBlock

/-- Blocks are compared by one axis of their corners after the other. -/
theorem compareCorners_eq :
    compareCorners =
      compareLex
        (compareLex (compareOn fun block => block.corner.z.totalRank)
          (compareOn fun block => block.corner.y.totalRank))
        (compareOn fun block => block.corner.x.totalRank) := rfl

instance : Std.TransCmp compareCorners := by
  rw [compareCorners_eq]
  infer_instance

/-- Corners that tie are the same. -/
theorem corner_eq_of_isLE {a b : LeafBlock}
    (below : (compareCorners a b).isLE = true)
    (above : (compareCorners b a).isLE = true) : a.corner = b.corner := by
  have tie := Std.OrientedCmp.isLE_antisymm below above
  rw [compareCorners, Ordering.then_eq_eq, Ordering.then_eq_eq] at tie
  rcases tie with ⟨⟨z, y⟩, x⟩
  ext
  · exact Single.eq_of_totalRank_eq (Std.LawfulEqOrd.eq_of_compare x)
  · exact Single.eq_of_totalRank_eq (Std.LawfulEqOrd.eq_of_compare y)
  · exact Single.eq_of_totalRank_eq (Std.LawfulEqOrd.eq_of_compare z)

theorem pairwise_sortByCorner (blocks : List LeafBlock) :
    (sortByCorner blocks).Pairwise fun a b => (compareCorners a b).isLE = true := by
  refine List.pairwise_mergeSort (fun _ _ _ => Std.TransCmp.isLE_trans) ?_ blocks
  intro a b
  rw [Bool.or_eq_true]
  by_cases ordered : (compareCorners a b).isLE = true
  · exact Or.inl ordered
  · right
    rw [← Std.OrientedCmp.isGE_iff_isLE]
    cases compared : compareCorners a b with
    | lt => exact absurd (by rw [compared]; rfl) ordered
    | eq => rfl
    | gt => rfl

theorem sortByCorner_perm (blocks : List LeafBlock) :
    (sortByCorner blocks).Perm blocks :=
  List.mergeSort_perm _ _

/-- Blocks that differ in their corners only are sorted in one way. -/
theorem sortByCorner_eq_of_perm {blocks others : List LeafBlock}
    (same : blocks.Perm others)
    (alike : ∀ a ∈ blocks, ∀ b ∈ blocks, { a with corner := b.corner } = b) :
    sortByCorner blocks = sortByCorner others := by
  have sorted : (sortByCorner blocks).Perm (sortByCorner others) :=
    (sortByCorner_perm blocks).trans (same.trans (sortByCorner_perm others).symm)
  refine List.Perm.eq_of_pairwise ?_ (pairwise_sortByCorner blocks)
    (pairwise_sortByCorner others) sorted
  intro a b member otherMember below above
  have ofA := (sortByCorner_perm blocks).mem_iff.mp member
  have ofB := same.mem_iff.mpr ((sortByCorner_perm others).mem_iff.mp otherMember)
  have tie := alike a ofA b ofB
  rwa [← corner_eq_of_isLE below above] at tie

end LeafBlock

end SolidField
