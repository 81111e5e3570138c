import SolidField.Proofs.Subdivision.Levels
import SolidField.Subdivision.Hierarchy

/-!
# Level arithmetic in machine words

Rounding up to a multiple stays within any limit that is a multiple itself.  As
long as an extent can be counted, every sum and product of the level arithmetic
is far from the end of the words, so that nothing is lost in them.
-/

namespace SolidField

/-! ## Rounding up -/

theorem coverCount_le {length part count : Nat} (positive : 0 < part)
    (covered : length ≤ part * count) : coverCount length part ≤ count := by
  rw [coverCount, ← Nat.lt_succ_iff, Nat.div_lt_iff_lt_mul positive, Nat.succ_mul,
    Nat.mul_comm count]
  omega

theorem coverCount_le_self (length : Nat) {part : Nat} (positive : 0 < part) :
    coverCount length part ≤ length :=
  coverCount_le positive (Nat.le_mul_of_pos_left length positive)

/-- The largest multiple that rounding up leads to is the limit. -/
theorem roundUp_le {value multiple limit : Nat} (positive : 0 < multiple)
    (divides : multiple ∣ limit) (small : value ≤ limit) :
    roundUp value multiple ≤ limit := by
  rcases divides with ⟨count, rfl⟩
  rw [roundUp, Nat.mul_comm]
  exact Nat.mul_le_mul_left multiple (coverCount_le positive small)

theorem roundUp_lt (value : Nat) {multiple : Nat} (positive : 0 < multiple) :
    roundUp value multiple < value + multiple := by
  have divided := Nat.div_mul_le_self (value + multiple - 1) multiple
  rw [roundUp, coverCount]
  omega

/-! ## Shared rows -/

namespace SubdivisionConfig

variable (config : SubdivisionConfig) (finest : Bool)

theorem sharedRows_le : config.sharedRows finest ≤ 1 := by
  rw [sharedRows]
  split <;> decide

theorem sharedRows_eq :
    config.sharedRows finest =
      if finest then if config.overlapEdgeSamples then 1 else 0 else 0 := by
  rw [sharedRows]
  cases finest <;> rfl

theorem ownedCount_eq :
    config.ownedCount finest =
      if finest then
        config.latticeSize.toNat - if config.overlapEdgeSamples then 1 else 0
      else config.latticeSize.toNat := by
  rw [ownedCount, sharedRows_eq]
  cases finest <;> rfl

theorem sharedRowsWord_eq :
    config.sharedRowsWord finest = .ofNat (config.sharedRows finest) := by
  rw [sharedRowsWord, sharedRows]
  split <;> rfl

/-- A block owns what it does not share, and at least one cell. -/
theorem sub_sharedRows_le (samples : UInt32) :
    samples.toNat - config.sharedRows finest ≤
      (if finest then LeafBlock.ownedCount config.overlapEdgeSamples samples
        else samples).toNat := by
  cases finest with
  | false => exact Nat.sub_le _ _
  | true =>
      rw [if_pos rfl, LeafBlock.toNat_ownedCount, sharedRows, Bool.true_and]
      cases config.overlapEdgeSamples with
      | false => exact Nat.sub_le _ _
      | true => exact Nat.le_max_right _ _

end SubdivisionConfig

/-! ## Words -/

theorem coverCount_eq_ite (length : Nat) {part : Nat} (positive : 0 < part) :
    coverCount length part =
      if length % part = 0 then length / part else length / part + 1 := by
  have divided := Nat.div_add_mod' length part
  have below := Nat.mod_lt length positive
  rw [coverCount]
  split
  · next whole =>
      apply Nat.div_eq_of_lt_le
      · omega
      · rw [Nat.succ_mul]
        omega
  · next broken =>
      apply Nat.div_eq_of_lt_le
      · rw [Nat.succ_mul]
        omega
      · rw [Nat.succ_mul, Nat.succ_mul]
        omega

theorem toNat_coverCountWord (length : UInt64) {part : UInt64}
    (positive : 0 < part.toNat) :
    (coverCountWord length part).toNat = coverCount length.toNat part.toNat := by
  have small := Nat.lt_of_le_of_lt (coverCount_le_self length.toNat positive)
    length.toNat_lt
  have whole_iff : length % part = 0 ↔ length.toNat % part.toNat = 0 := by
    rw [← UInt64.toNat_inj, UInt64.toNat_mod]
    rfl
  rw [coverCount_eq_ite _ positive] at small ⊢
  rw [coverCountWord]
  by_cases whole : length.toNat % part.toNat = 0
  · rw [if_pos whole, if_pos (whole_iff.mpr whole), UInt64.toNat_div]
  · rw [if_neg whole] at small ⊢
    rw [if_neg (mt whole_iff.mp whole), UInt64.toNat_add, UInt64.toNat_div]
    exact Nat.mod_eq_of_lt small

theorem toNat_min (a b : UInt64) : (min a b).toNat = min a.toNat b.toNat := by
  show (if a ≤ b then a else b).toNat = _
  split
  · next ordered => exact (Nat.min_eq_left ordered).symm
  · next reversed => exact (Nat.min_eq_right (Nat.le_of_not_le reversed)).symm

theorem toNat_max (a b : UInt64) : (max a b).toNat = max a.toNat b.toNat := by
  show (if a ≤ b then b else a).toNat = _
  split
  · next ordered => exact (Nat.max_eq_right ordered).symm
  · next reversed => exact (Nat.max_eq_left (Nat.le_of_not_le reversed)).symm

theorem toNat_ofNat_of_le {value : Nat} (small : value ≤ maxGridExtent) :
    (UInt64.ofNat value).toNat = value :=
  UInt64.toNat_ofNat_of_lt' (Nat.lt_of_le_of_lt small (by decide))

/-- Nothing is lost when the cells of the top level are counted in words. -/
theorem topCellsWord_eq {config : SubdivisionConfig} (accepted : config.Accepted)
    {cell overlap axis : Nat} (limit : UInt32) (positive : 0 < cell)
    (cellCounted : cell ≤ maxGridExtent) (counted : axis ≤ maxGridExtent)
    (shared : overlap ≤ 1) :
    topCellsWord config (.ofNat cell) (.ofNat overlap) (.ofNat axis) limit =
      topCells config cell overlap axis limit := by
  have multiple : 0 < config.levelSizeMultiplier.toUInt64.toNat := accepted.multiplier
  have factor : config.levelSizeMultiplier.toUInt64.toNat =
      config.levelSizeMultiplier.toNat := rfl
  have parts : (coverCountWord (.ofNat axis) (.ofNat cell)).toNat =
      coverCount axis cell := by
    rw [toNat_coverCountWord, toNat_ofNat_of_le counted, toNat_ofNat_of_le cellCounted]
    rwa [toNat_ofNat_of_le cellCounted]
  have few := Nat.le_trans (coverCount_le_self axis positive) counted
  have word : maxGridExtent = 9007199254740992 := rfl
  have sum : (coverCountWord (.ofNat axis) (.ofNat cell) + .ofNat overlap).toNat =
      coverCount axis cell + overlap := by
    rw [UInt64.toNat_add, parts, toNat_ofNat_of_le (Nat.le_trans shared (by decide)),
      Nat.mod_eq_of_lt (by omega)]
  have rounded := roundUp_lt (coverCount axis cell + overlap) accepted.multiplier
  have product : (coverCountWord (coverCountWord (.ofNat axis) (.ofNat cell) +
      .ofNat overlap) config.levelSizeMultiplier.toUInt64 *
        config.levelSizeMultiplier.toUInt64).toNat =
      roundUp (coverCount axis cell + overlap) config.levelSizeMultiplier.toNat := by
    have bound := config.levelSizeMultiplier.toNat_lt
    rw [UInt64.toNat_mul, toNat_coverCountWord _ multiple, sum, ← roundUp, factor,
      Nat.mod_eq_of_lt (by omega)]
  have limited := limit.toNat_lt
  rw [← UInt32.toNat_inj, toNat_topCells, topCellsWord, UInt64.toNat_toUInt32,
    toNat_min, toNat_max, product, UInt32.toNat_toUInt64, UInt64.toNat_one]
  exact Nat.mod_eq_of_lt (Nat.lt_of_le_of_lt (Nat.min_le_right _ _) limited)


/-- Nothing is lost when a cell is multiplied by what a block owns. -/
theorem toNat_mul_ownedCountWord {config : SubdivisionConfig}
    (accepted : config.Accepted) {cell : Nat} (counted : cell ≤ maxGridExtent)
    (finest : Bool) :
    (UInt64.ofNat cell * config.ownedCountWord finest).toNat =
      cell * config.ownedCount finest := by
  have shared := config.sharedRows_le finest
  have several := accepted.several
  have word : (config.sharedRowsWord finest).toNat = config.sharedRows finest := by
    rw [config.sharedRowsWord_eq,
      toNat_ofNat_of_le (Nat.le_trans shared (by decide))]
  have owned : (config.ownedCountWord finest).toNat = config.ownedCount finest := by
    rw [SubdivisionConfig.ownedCountWord, UInt64.toNat_sub_of_le, word,
      UInt32.toNat_toUInt64, SubdivisionConfig.ownedCount]
    show (config.sharedRowsWord finest).toNat ≤ config.latticeSize.toUInt64.toNat
    rw [word, UInt32.toNat_toUInt64]
    omega
  have product : cell * config.ownedCount finest ≤ maxGridExtent * maxLatticeSize :=
    Nat.mul_le_mul counted (Nat.le_trans (Nat.sub_le _ _) accepted.few)
  rw [UInt64.toNat_mul, owned, toNat_ofNat_of_le counted]
  exact Nat.mod_eq_of_lt (Nat.lt_of_le_of_lt product (by decide))

end SolidField
