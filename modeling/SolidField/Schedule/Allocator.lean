/-!
# Register allocation

An allocator hands out the lowest free register and counts the reads that its
value still has to serve.  A register is free again once that count is zero.  The
counts have no limit; in words of 32 bits they are the same as long as no value has
`2 ^ 32` reads.
-/

namespace SolidField

/-- The pending reads of every register, and how many registers there ever were. -/
structure Allocator where
  /-- The pending reads per register; a free register has none. -/
  reads : Array Nat
  /-- The largest number of registers in use so far. -/
  registersNeeded : Nat
deriving DecidableEq

namespace Allocator

def empty : Allocator :=
  ⟨#[], 0⟩

/-- The lowest register without pending reads, possibly a new one. -/
def lowestFree (allocator : Allocator) : Nat :=
  match allocator.reads.findIdx? fun count => count = 0 with
  | some register => register
  | none => allocator.reads.size

/-- Take the lowest free register for a value with the given number of reads. -/
def allocate (allocator : Allocator) (reads : Nat) : Nat × Allocator :=
  let register := allocator.lowestFree
  let table :=
    if register < allocator.reads.size then
      allocator.reads.setIfInBounds register reads
    else
      allocator.reads.push reads
  (register, ⟨table, max allocator.registersNeeded (register + 1)⟩)

/-- One pending read of a register has happened. -/
def release (allocator : Allocator) (register : Nat) : Allocator :=
  { allocator with
    reads := allocator.reads.modify register fun count => count - 1 }

/-- The register holds a value that is still to be read. -/
def isLive (allocator : Allocator) (register : Nat) : Bool :=
  match allocator.reads[register]? with
  | some count => 0 < count
  | none => false

end Allocator

end SolidField
