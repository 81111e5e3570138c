/-!
# Trial orders

Every trial of the scheduler arranges dependencies in an order of its own: as
they are declared, reversed, or shuffled by a stream of random numbers.  The
streams of different trials are independent of each other and of the number of
trials.
-/

namespace SolidField

/-- How a trial arranges dependencies. -/
inductive TrialOrder where
  | identity
  | reversed
  | shuffled (seed : UInt64)
deriving DecidableEq, Repr

namespace TrialOrder

/-- The factor that spreads trial numbers over the seeds. -/
def seedStride : UInt64 := 0xD1B54A32D192ED03

/-- The order of a trial: the declared one, the reversed one, then shuffles. -/
def ofTrial (trial : Nat) (seed : UInt64) : TrialOrder :=
  match trial with
  | 0 => identity
  | 1 => reversed
  | _ => shuffled (seed ^^^ UInt64.ofNat trial * seedStride)

end TrialOrder

/-- A stream of random numbers: a counter with a fixed step, mixed on output. -/
structure RandomStream where
  state : UInt64
deriving DecidableEq, Repr

namespace RandomStream

/-- The step of the counter. -/
def step : UInt64 := 0x9E3779B97F4A7C15

/-- The stream of a seed. -/
def ofSeed (seed : UInt64) : RandomStream :=
  ⟨seed + step⟩

/-- Spread the bits of a counter over a whole word. -/
def mix (state : UInt64) : UInt64 :=
  let z := (state ^^^ (state >>> 30)) * 0xBF58476D1CE4E5B9
  let z := (z ^^^ (z >>> 27)) * 0x94D049BB133111EB
  z ^^^ (z >>> 31)

/-- The next number. -/
def next (stream : RandomStream) : UInt64 × RandomStream :=
  let state := stream.state + step
  (mix state, ⟨state⟩)

/-- The next number below a bound: the high word of the product with it. -/
def nextBelow (stream : RandomStream) (bound : Nat) : Nat × RandomStream :=
  let (value, stream) := stream.next
  (value.toNat * bound / UInt64.size, stream)

/-- A number below a positive bound is below it. -/
theorem nextBelow_lt (stream : RandomStream) {bound : Nat}
    (positive : 0 < bound) : (stream.nextBelow bound).1 < bound := by
  have small : stream.next.1.toNat < UInt64.size := stream.next.1.toNat_lt
  simp only [nextBelow]
  rw [Nat.div_lt_iff_lt_mul (by decide), Nat.mul_comm bound]
  exact Nat.mul_lt_mul_of_lt_of_le small (Nat.le_refl _) positive

/--
Exchange the item at every position, from the given one down, with the one whose
position is drawn.
-/
def exchangeAll {β σ : Type} (draw : σ → Nat → Nat × σ) :
    Nat → Array β → σ → Array β × σ
  | 0, items, state => (items, state)
  | position + 1, items, state =>
      let (other, state) := draw state (position + 2)
      exchangeAll draw position (items.swapIfInBounds (position + 1) other) state

/--
Exchange the item at every position, from the given one down, with a random one
at or before it.
-/
def shuffle {β : Type} (position : Nat) (items : Array β)
    (stream : RandomStream) : Array β × RandomStream :=
  exchangeAll nextBelow position items stream

end RandomStream

/-- How the next dependencies are arranged, with the state of the random stream. -/
inductive Arrangement where
  | identity
  | reversed
  | shuffled (stream : RandomStream)
deriving DecidableEq, Repr

namespace Arrangement

/-- The arrangement that a trial starts with. -/
def ofOrder : TrialOrder → Arrangement
  | .identity => identity
  | .reversed => reversed
  | .shuffled seed => shuffled (.ofSeed seed)

/-- Arrange a list of items. -/
def arrange {β : Type} : Arrangement → List β → List β × Arrangement
  | identity, items => (items, identity)
  | reversed, items => (items.reverse, reversed)
  | shuffled stream, items =>
      let (items, stream) :=
        RandomStream.shuffle (items.length - 1) items.toArray stream
      (items.toList, shuffled stream)

end Arrangement

end SolidField
