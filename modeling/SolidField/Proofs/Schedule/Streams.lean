import Mathlib.Data.Nat.ModEq
import Mathlib.Data.Nat.Prime.Basic
import SolidField.Schedule.Order

/-!
# Streams of their own

Multiplying words by an odd factor loses nothing, and neither does adding a word, or
combining a word with itself shifted to the right.  Trials therefore have different
seeds, and streams of different seeds begin with different numbers.
-/

namespace SolidField

/-! ## Operations on words that lose nothing -/

namespace Word

/-- An odd factor takes different words to different products. -/
theorem mul_right_injective (factor : UInt64) (odd : Odd factor.toNat) :
    Function.Injective fun word : UInt64 => word * factor := by
  intro first second same
  have residues : first.toNat * factor.toNat ≡ second.toNat * factor.toNat
      [MOD UInt64.size] := by
    simpa [Nat.ModEq] using congrArg UInt64.toNat same
  have coprime : Nat.Coprime UInt64.size factor.toNat :=
    Nat.Coprime.pow_left 64 (Nat.coprime_two_left.mpr odd)
  have equal := Nat.ModEq.cancel_right_of_coprime coprime residues
  exact UInt64.toNat_inj.mp (equal.eq_of_lt_of_lt first.toNat_lt second.toNat_lt)

/-- The bits of a word are known from the highest one down. -/
theorem xor_ushiftRight_injective {width shift : Nat} (positive : 0 < shift) :
    Function.Injective fun word : BitVec width => word ^^^ (word >>> shift) := by
  intro first second same
  have bits (distance : Nat) : ∀ index, width ≤ index + distance →
      first.getLsbD index = second.getLsbD index := by
    induction distance with
    | zero =>
        intro index (beyond : width ≤ index)
        rw [BitVec.getLsbD_of_ge _ _ beyond, BitVec.getLsbD_of_ge _ _ beyond]
    | succ distance induction =>
        intro index near
        have higher := induction (shift + index) (by omega)
        have combined := congrArg (fun word : BitVec width => word.getLsbD index) same
        simp only [BitVec.getLsbD_xor, BitVec.getLsbD_ushiftRight, higher] at combined
        exact Bool.xor_left_inj.mp combined
  exact BitVec.eq_of_getLsbD_eq fun index _ => bits width index (Nat.le_add_left _ _)

theorem xor_shiftRight_injective (shift : UInt64) (positive : 0 < shift.toNat % 64) :
    Function.Injective fun word : UInt64 => word ^^^ (word >>> shift) := by
  intro first second same
  refine UInt64.toBitVec_inj.mp (xor_ushiftRight_injective positive ?_)
  have bits := congrArg UInt64.toBitVec same
  simpa using bits

end Word

/-! ## Seeds and first numbers -/

namespace TrialOrder

theorem ofTrial_of_two_le {trial : Nat} (shuffles : 2 ≤ trial) (seed : UInt64) :
    ofTrial trial seed = shuffled (seed ^^^ UInt64.ofNat trial * seedStride) := by
  match trial with
  | trial + 2 => rfl

/-- The seeds of different trials differ. -/
theorem seed_injective (seed : UInt64) :
    Function.Injective fun trial : UInt64 => seed ^^^ trial * seedStride := by
  have multiplied := Word.mul_right_injective seedStride (by decide)
  intro first second same
  exact multiplied ((UInt64.xor_right_inj seed).mp same)

end TrialOrder

namespace RandomStream

theorem ofSeed_injective : Function.Injective ofSeed := by
  intro first second same
  exact (UInt64.add_left_inj step).mp (congrArg state same)

/-- No two states of a stream are mixed to the same number. -/
theorem mix_injective : Function.Injective mix := by
  have first := Word.xor_shiftRight_injective 30 (by decide)
  have second := Word.mul_right_injective 0xBF58476D1CE4E5B9 (by decide)
  have third := Word.xor_shiftRight_injective 27 (by decide)
  have fourth := Word.mul_right_injective 0x94D049BB133111EB (by decide)
  have last := Word.xor_shiftRight_injective 31 (by decide)
  exact last.comp (fourth.comp (third.comp (second.comp first)))

/-- A first number belongs to one seed only. -/
theorem next_ofSeed_injective :
    Function.Injective fun seed : UInt64 => (ofSeed seed).next.1 := by
  intro first second same
  have stepped : (ofSeed first).state = (ofSeed second).state :=
    (UInt64.add_left_inj step).mp (mix_injective same)
  exact ofSeed_injective (congrArg RandomStream.mk stepped)

/--
Any two trials that shuffle have different seeds, and streams of different seeds begin
with different numbers.
-/
theorem shuffled_streams_differ :
    (∀ seed first second : UInt64, 2 ≤ first → 2 ≤ second → first ≠ second →
      ∃ firstSeed secondSeed,
        TrialOrder.ofTrial first.toNat seed = .shuffled firstSeed ∧
          TrialOrder.ofTrial second.toNat seed = .shuffled secondSeed ∧
          firstSeed ≠ secondSeed) ∧
      (∀ firstSeed secondSeed : UInt64, firstSeed ≠ secondSeed →
        (ofSeed firstSeed).next.1 ≠ (ofSeed secondSeed).next.1) ∧
      Function.Injective ofSeed ∧ Function.Injective mix := by
  refine ⟨?_, fun _ _ => next_ofSeed_injective.ne, ofSeed_injective, mix_injective⟩
  intro seed first second shuffles others different
  have firstOrder := TrialOrder.ofTrial_of_two_le (UInt64.le_iff_toNat_le.mp shuffles) seed
  have secondOrder := TrialOrder.ofTrial_of_two_le (UInt64.le_iff_toNat_le.mp others) seed
  rw [UInt64.ofNat_toNat] at firstOrder secondOrder
  exact ⟨_, _, firstOrder, secondOrder, (TrialOrder.seed_injective seed).ne different⟩

/-- The first shuffle and the last one that can be counted. -/
theorem outermost_streams_differ :
    (2 : UInt64) ≤ 2 ∧ (2 : UInt64) ≤ 0xffffffffffffffff ∧
      (2 : UInt64) ≠ 0xffffffffffffffff ∧
      ∃ firstSeed secondSeed,
        TrialOrder.ofTrial 2 5 = .shuffled firstSeed ∧
          TrialOrder.ofTrial 18446744073709551615 5 = .shuffled secondSeed ∧
          firstSeed ≠ secondSeed ∧
          (ofSeed firstSeed).next.1 ≠ (ofSeed secondSeed).next.1 := by
  have least : (2 : UInt64) ≤ 2 := by decide
  have most : (2 : UInt64) ≤ 0xffffffffffffffff := by decide
  have different : (2 : UInt64) ≠ 0xffffffffffffffff := by decide
  rcases shuffled_streams_differ with ⟨seeds, numbers, -, -⟩
  rcases seeds 5 _ _ least most different with
    ⟨firstSeed, secondSeed, firstOrder, secondOrder, apart⟩
  exact ⟨least, most, different, firstSeed, secondSeed, firstOrder, secondOrder, apart,
    numbers _ _ apart⟩

end RandomStream

end SolidField
