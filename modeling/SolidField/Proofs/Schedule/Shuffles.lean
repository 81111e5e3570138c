import SolidField.Proofs.Schedule.Visit

/-!
# Shuffles

A number below a bound is the high word of a product of words, which is below the bound
whatever the state of the stream.  A shuffle therefore exchanges positions that a list
has, and what it arranges is a permutation of the list.
-/

namespace SolidField

namespace RandomStream

variable {β : Type} {stream : RandomStream} {items : Array β} {position : Nat}

/-! ## Numbers below a bound -/

/-- The high one of the two words of a product. -/
def highWord (a b : UInt64) : UInt64 :=
  ⟨((a.toBitVec.setWidth 128 * b.toBitVec.setWidth 128) >>> 64).setWidth 64⟩

/-- The product of two words has room in twice as many bits. -/
theorem toNat_highWord (a b : UInt64) :
    (highWord a b).toNat = a.toNat * b.toNat / UInt64.size := by
  have product : a.toNat * b.toNat < UInt64.size * UInt64.size :=
    Nat.mul_lt_mul'' a.toNat_lt b.toNat_lt
  have high : a.toNat * b.toNat / UInt64.size < UInt64.size :=
    Nat.div_lt_of_lt_mul product
  have wide (word : UInt64) : word.toNat % 2 ^ 128 = word.toNat :=
    Nat.mod_eq_of_lt (Nat.lt_trans word.toNat_lt (by decide))
  change (BitVec.setWidth 64 _).toNat = _
  rw [BitVec.toNat_setWidth, BitVec.toNat_ushiftRight, BitVec.toNat_mul,
    BitVec.toNat_setWidth, BitVec.toNat_setWidth, UInt64.toNat_toBitVec,
    UInt64.toNat_toBitVec, wide, wide, Nat.shiftRight_eq_div_pow]
  rw [Nat.mod_eq_of_lt (Nat.lt_of_lt_of_eq product (by decide))]
  exact Nat.mod_eq_of_lt high

theorem nextBelow_eq_highWord (stream : RandomStream) (bound : UInt64) :
    (stream.nextBelow bound.toNat).1 = (highWord stream.next.1 bound).toNat :=
  (toNat_highWord _ _).symm

/-! ## Exchanges -/

/-- The positions that a shuffle exchanges, from the given one down. -/
def exchanges : Nat → RandomStream → List (Nat × Nat)
  | 0, _ => []
  | position + 1, stream =>
      (position + 1, (stream.nextBelow (position + 2)).1) ::
        exchanges position (stream.nextBelow (position + 2)).2

/-- Exchange the items at two positions, both of which have to be in range. -/
def exchange? (items : Array β) (positions : Nat × Nat) : Option (Array β) :=
  if inside : positions.1 < items.size ∧ positions.2 < items.size then
    some (items.swap positions.1 positions.2 inside.1 inside.2)
  else
    none

theorem exchange?_eq_some {first second : Nat} (inside : first < items.size)
    (other : second < items.size) :
    exchange? items (first, second) = some (items.swapIfInBounds first second) := by
  rw [exchange?, dif_pos ⟨inside, other⟩, Array.swapIfInBounds_def, dif_pos inside,
    dif_pos other]

/-- Every position is exchanged with one that is not after it. -/
theorem exchanges_le {positions : Nat × Nat}
    (member : positions ∈ exchanges position stream) :
    positions.2 ≤ positions.1 ∧ positions.1 ≤ position := by
  induction position generalizing stream with
  | zero => cases member
  | succ position induction =>
      rw [exchanges, List.mem_cons] at member
      rcases member with rfl | later
      · have drawn : (stream.nextBelow (position + 2)).1 < position + 2 :=
          stream.nextBelow_lt (Nat.succ_pos _)
        exact ⟨Nat.lt_succ_iff.mp drawn, Nat.le_refl _⟩
      · have bounded := induction later
        omega

/-- A shuffle of as many items as there are positions exchanges them all in range. -/
theorem foldlM_exchange? (enough : position ≤ items.size - 1) :
    (exchanges position stream).foldlM exchange? items =
      some (shuffle position items stream).1 := by
  induction position generalizing items stream with
  | zero => rfl
  | succ position induction =>
      have drawn : (stream.nextBelow (position + 2)).1 < position + 2 :=
        stream.nextBelow_lt (Nat.succ_pos _)
      have inside : position + 1 < items.size := by omega
      have other : (stream.nextBelow (position + 2)).1 < items.size := by omega
      have rest : position ≤
          (items.swapIfInBounds (position + 1)
            (stream.nextBelow (position + 2)).1).size - 1 := by
        rw [Array.size_swapIfInBounds]
        omega
      rw [exchanges, List.foldlM_cons, exchange?_eq_some inside other,
        Option.bind_eq_bind, Option.bind_some, induction rest, shuffle, shuffle,
        exchangeAll]

end RandomStream

namespace Trial

/--
A number that is drawn is the high word of the product of a word with the bound, and it
is below the bound.  Whatever the order of a trial and the state of its stream, what is
arranged is a permutation, and a shuffle exchanges positions in range only.
-/
theorem arrange_permutes :
    (∀ (stream : RandomStream) (bound : UInt64), 0 < bound →
      (stream.nextBelow bound.toNat).1 =
          (RandomStream.highWord stream.next.1 bound).toNat ∧
        RandomStream.highWord stream.next.1 bound < bound) ∧
      ∀ {β : Type} (trial : Trial) (items : List β),
        (trial.arrange items).1.Perm items ∧
          ∀ stream, trial.arrangement = .shuffled stream →
            let exchanges := stream.exchanges (items.length - 1)
            (∀ positions ∈ exchanges,
              positions.1 < items.length ∧ positions.2 < items.length) ∧
              exchanges.foldlM RandomStream.exchange? items.toArray =
                some (trial.arrange items).1.toArray := by
  refine ⟨fun stream bound positive => ?_, fun trial items => ⟨?_, ?_⟩⟩
  · have below := stream.nextBelow_lt (UInt64.lt_iff_toNat_lt.mp positive)
    rw [RandomStream.nextBelow_eq_highWord] at below ⊢
    exact ⟨rfl, UInt64.lt_iff_toNat_lt.mpr below⟩
  · exact Arrangement.perm_arrange _ _
  · intro stream shuffled exchanges
    constructor
    · intro positions member
      have bounded := RandomStream.exchanges_le member
      have some_items : items.length ≠ 0 := by
        intro empty
        simp [exchanges, empty, RandomStream.exchanges] at member
      omega
    · rw [Trial.arrange, shuffled]
      exact RandomStream.foldlM_exchange? (Nat.le_refl _)

/-- A trial shuffles five items with four exchanges. -/
theorem shuffledTrial_permutes :
    let stream := RandomStream.ofSeed 3
    let trial := start 0 (.shuffled 3)
    (0 < (5 : UInt64) ∧ (stream.nextBelow 5).1 = 3 ∧
      RandomStream.highWord stream.next.1 5 < 5) ∧
      trial.arrangement = .shuffled stream ∧
      stream.exchanges 4 = [(4, 3), (3, 2), (2, 0), (1, 0)] ∧
      (trial.arrange [1, 2, 3, 4, 5]).1 = [2, 5, 1, 3, 4] ∧
      (trial.arrange [1, 2, 3, 4, 5]).1.Perm [1, 2, 3, 4, 5] ∧
      (∀ positions ∈ stream.exchanges 4, positions.1 < 5 ∧ positions.2 < 5) ∧
      (stream.exchanges 4).foldlM RandomStream.exchange? #[1, 2, 3, 4, 5] =
        some #[2, 5, 1, 3, 4] := by
  intro stream trial
  have positive : 0 < (5 : UInt64) := by decide
  have arranged : (trial.arrange [1, 2, 3, 4, 5]).1 = [2, 5, 1, 3, 4] := by
    decide +kernel
  have below := (arrange_permutes.1 stream 5 positive).2
  have permutes := arrange_permutes.2 trial [1, 2, 3, 4, 5]
  have exchanges := permutes.2 stream rfl
  rw [arranged] at exchanges
  exact ⟨⟨positive, by decide +kernel, below⟩, rfl, by decide +kernel, arranged,
    permutes.1, exchanges⟩

end Trial

end SolidField
