import SolidField.Proofs.Schedule.Live

/-!
# Counters in words

Uses and pending reads may be counted in 32-bit words.  An increment of a word wraps
around, and a decrement stops at zero.  An allocator with such counters stands for one
that counts without a limit, and it does the same as long as no value has `2 ^ 32`
reads or more.
-/

universe u

namespace SolidField

/-! ## Uses -/

namespace Graph

variable {α : Type u} {graph : Graph α}

/--
The uses of every node, counted in words: one for every occurrence among the
dependencies of the nodes that are needed, and one more for the root.
-/
def useWords (graph : Graph α) (needed : List NodeId) (root : NodeId) : Array UInt32 :=
  let occurrences := needed.flatMap fun id => graph.dependencies id.index
  (occurrences ++ [root.index]).foldl
    (fun words dependency => words.modify dependency (· + 1))
    (Array.replicate graph.size 0)

/-- The count of a node in words is that of its occurrences, wrapped around. -/
theorem getD_useWords (graph : Graph α) (needed : List NodeId) (root : NodeId)
    {id : NodeId} (inside : id.index < graph.size) :
    (graph.useWords needed root).getD id.index 0 =
      .ofNat ((needed.flatMap fun other => graph.dependencies other.index).count id.index +
        if id = root then 1 else 0) := by
  have steps : ∀ count : Nat, ∀ word : UInt32, (· + 1)^[count] word = word + .ofNat count := by
    intro count
    induction count with
    | zero => exact fun word => (UInt32.add_zero word).symm
    | succ count induction =>
        intro word
        rw [Function.iterate_succ_apply, induction, Nat.add_comm count 1, UInt32.ofNat_add,
          UInt32.add_assoc]
        rfl
  have rootCount : [root.index].count id.index = if id = root then 1 else 0 := by
    rw [List.count_singleton]
    by_cases same : id = root
    · simp [same]
    · have different : root.index ≠ id.index := fun equal =>
        same (congrArg NodeId.mk equal.symm)
      simp [same, different]
  rw [useWords, Array.getD_eq_getD_getElem?, getElem?_foldl_modify, Array.getElem?_replicate,
    if_pos inside, Option.map_some, Option.getD_some, steps, List.count_append, rootCount]
  exact UInt32.zero_add _

/-- Uses that are counted are the same in words, wrapped around. -/
theorem getD_useWords_eq_ofNat {needed : List NodeId} {root : NodeId}
    (counted : ∀ id : NodeId, (graph.uses root).getD id.index 0 =
      (needed.flatMap fun other => graph.dependencies other.index).count id.index +
        if id = root then 1 else 0) (id : NodeId) :
    (graph.useWords needed root).getD id.index 0 =
      .ofNat ((graph.uses root).getD id.index 0) := by
  by_cases inside : id.index < graph.size
  · rw [counted, graph.getD_useWords needed root inside]
  · have words : (graph.useWords needed root).size = graph.size := by
      rw [useWords, size_foldl_modify, Array.size_replicate]
    simp [Array.getD, words, size_uses, inside]

end Graph

/-! ## Allocators -/

/-- An allocator that counts pending reads in words. -/
structure WordAllocator where
  reads : Array UInt32
  registersNeeded : Nat
deriving DecidableEq

/-- The registers that calls hand out, in the order of the calls. -/
def Allocator.handedOut (allocator : Allocator) : List AllocatorCall → List Nat
  | [] => []
  | .release register :: calls => (allocator.release register).handedOut calls
  | .allocate reads :: calls =>
      (allocator.allocate reads).1 :: (allocator.allocate reads).2.handedOut calls

namespace WordAllocator

def empty : WordAllocator :=
  ⟨#[], 0⟩

/-- The lowest register without pending reads, possibly a new one. -/
def lowestFree (allocator : WordAllocator) : Nat :=
  match allocator.reads.findIdx? fun count => count = 0 with
  | some register => register
  | none => allocator.reads.size

/-- Take the lowest free register for a value with the given number of reads. -/
def allocate (allocator : WordAllocator) (reads : UInt32) : Nat × WordAllocator :=
  let register := allocator.lowestFree
  let table :=
    if register < allocator.reads.size then
      allocator.reads.setIfInBounds register reads
    else
      allocator.reads.push reads
  (register, ⟨table, max allocator.registersNeeded (register + 1)⟩)

/-- One pending read of a register has happened; below zero there is no count. -/
def release (allocator : WordAllocator) (register : Nat) : WordAllocator :=
  { allocator with
    reads := allocator.reads.modify register fun count =>
      if count = 0 then 0 else count - 1 }

/-- The allocator after a call, the number of reads being given in a word. -/
def serve (allocator : WordAllocator) : AllocatorCall → WordAllocator
  | .release register => allocator.release register
  | .allocate reads => (allocator.allocate (.ofNat reads)).2

/-- The allocator after calls, the first of them on an empty one. -/
def replay (calls : List AllocatorCall) : WordAllocator :=
  calls.foldl serve empty

/-- The registers that calls hand out, in the order of the calls. -/
def handedOut (allocator : WordAllocator) : List AllocatorCall → List Nat
  | [] => []
  | .release register :: calls => (allocator.release register).handedOut calls
  | .allocate reads :: calls =>
      (allocator.allocate (.ofNat reads)).1 ::
        (allocator.allocate (.ofNat reads)).2.handedOut calls

/-- The counts as numbers. -/
def toAllocator (allocator : WordAllocator) : Allocator :=
  ⟨allocator.reads.map UInt32.toNat, allocator.registersNeeded⟩

theorem toAllocator_empty : empty.toAllocator = .empty := by
  simp [empty, toAllocator, Allocator.empty]

theorem lowestFree_toAllocator (allocator : WordAllocator) :
    allocator.toAllocator.lowestFree = allocator.lowestFree := by
  have same : (fun count : UInt32 => decide (count.toNat = 0)) =
      fun count => decide (count = 0) := by
    funext count
    simp only [← UInt32.toNat_inj, UInt32.toNat_zero]
  have found : (allocator.toAllocator.reads.findIdx? fun count => count = 0) =
      allocator.reads.findIdx? fun count => count = 0 := by
    rw [toAllocator, Array.findIdx?_map]
    exact congrArg allocator.reads.findIdx? same
  rw [Allocator.lowestFree, lowestFree, found]
  cases allocator.reads.findIdx? fun count => count = 0 with
  | none => exact Array.size_map
  | some register => rfl

/-- Words are released as numbers are. -/
theorem toAllocator_release (allocator : WordAllocator) (register : Nat) :
    (allocator.release register).toAllocator =
      allocator.toAllocator.release register := by
  have same : ∀ count : UInt32,
      (if count = 0 then 0 else count - 1).toNat = count.toNat - 1 := by
    intro count
    split
    · next zero => rw [zero]; rfl
    · next positive =>
        have one : (1 : UInt32) ≤ count := by
          rw [UInt32.le_iff_toNat_le, UInt32.toNat_one, Nat.one_le_iff_ne_zero]
          exact fun zero => positive (UInt32.toNat_inj.mp zero)
        rw [UInt32.toNat_sub_of_le _ _ one]
        rfl
  rw [toAllocator, release, toAllocator, Allocator.release, Allocator.mk.injEq]
  refine ⟨Array.ext_getElem? fun other => ?_, rfl⟩
  rw [Array.getElem?_map, Array.getElem?_modify, Array.getElem?_modify, Array.getElem?_map]
  split
  · rw [Option.map_map, Option.map_map]
    exact congrArg (Option.map · _) (funext same)
  · rfl

/-- Words are allocated as numbers are. -/
theorem toAllocator_allocate (allocator : WordAllocator) (reads : UInt32) :
    ((allocator.allocate reads).1, (allocator.allocate reads).2.toAllocator) =
      allocator.toAllocator.allocate reads.toNat := by
  rw [Allocator.allocate, lowestFree_toAllocator]
  simp only [allocate, toAllocator, Array.size_map]
  split
  · rw [Array.map_setIfInBounds]
  · rw [Array.map_push]

/-- A call on words is one on numbers, if its number of reads fits a word. -/
theorem toAllocator_serve (allocator : WordAllocator) {call : AllocatorCall}
    (fits : ∀ reads, call = .allocate reads → reads < UInt32.size) :
    (allocator.serve call).toAllocator = allocator.toAllocator.serve call := by
  cases call with
  | release register => exact allocator.toAllocator_release register
  | allocate reads =>
      have allocated := allocator.toAllocator_allocate (.ofNat reads)
      rw [UInt32.toNat_ofNat_of_lt' (fits reads rfl)] at allocated
      exact congrArg Prod.snd allocated

/-- Calls whose numbers of reads fit words come to the same on words. -/
theorem toAllocator_replay {calls : List AllocatorCall}
    (fits : ∀ reads, .allocate reads ∈ calls → reads < UInt32.size) :
    (replay calls).toAllocator = Allocator.replay calls := by
  rw [replay, Allocator.replay, ← toAllocator_empty]
  generalize empty = allocator
  induction calls generalizing allocator with
  | nil => rfl
  | cons call calls induction =>
      rw [List.foldl_cons, List.foldl_cons,
        induction (fun reads member => fits reads (List.mem_cons_of_mem _ member)),
        toAllocator_serve]
      rintro reads rfl
      exact fits reads List.mem_cons_self

/-- Calls whose numbers of reads fit words hand out the same registers on words. -/
theorem handedOut_toAllocator {calls : List AllocatorCall} (allocator : WordAllocator)
    (fits : ∀ reads, .allocate reads ∈ calls → reads < UInt32.size) :
    allocator.handedOut calls = allocator.toAllocator.handedOut calls := by
  induction calls generalizing allocator with
  | nil => rfl
  | cons call calls induction =>
      have rest := fun allocator => induction allocator fun reads member =>
        fits reads (List.mem_cons_of_mem _ member)
      cases call with
      | release register =>
          rw [handedOut, Allocator.handedOut, rest, toAllocator_release]
      | allocate reads =>
          have allocated := allocator.toAllocator_allocate (.ofNat reads)
          rw [UInt32.toNat_ofNat_of_lt' (fits reads List.mem_cons_self)] at allocated
          rw [handedOut, Allocator.handedOut, rest, ← allocated]

end WordAllocator

/-! ## Recorded calls -/

/-- Registers that are released before a value is placed hand out nothing themselves. -/
theorem Allocator.handedOut_release (allocator : Allocator) (registers : List Nat)
    (reads : Nat) :
    allocator.handedOut (registers.map .release ++ [.allocate reads]) =
      [(registers.foldl Allocator.release allocator).lowestFree] := by
  induction registers generalizing allocator with
  | nil => rfl
  | cons register registers induction => exact induction _

theorem Allocator.handedOut_append (allocator : Allocator)
    (front back : List AllocatorCall) :
    allocator.handedOut (front ++ back) =
      allocator.handedOut front ++ (front.foldl serve allocator).handedOut back := by
  induction front generalizing allocator with
  | nil => rfl
  | cons call front induction =>
      cases call with
      | release register => exact induction _
      | allocate reads => exact congrArg _ (induction _)

namespace History

variable {α : Type u} {graph : Graph α} {uses : Array Nat}

/-- The calls of a history hand out the registers of its entries. -/
theorem handedOut_calls (graph : Graph α) (uses : Array Nat) (history : History) :
    Allocator.empty.handedOut (history.calls graph uses).flatten =
      (Placement.ofHistory graph uses history).entries.reverse.map
        ScheduleEntry.register := by
  induction history with
  | nil => rfl
  | cons application earlier induction =>
      have placed := replay_calls graph uses earlier
      rw [Allocator.replay] at placed
      rw [calls, List.flatten_append, List.flatten_singleton, Allocator.handedOut_append,
        induction, placed, Allocator.handedOut_release, Placement.ofHistory,
        Placement.apply, List.reverse_cons, List.map_append]
      rfl

/-- What a history allocates is for a node with its uses, or for a single read. -/
theorem eq_uses_of_mem_calls {history : History} {reads : Nat}
    (member : .allocate reads ∈ (history.calls graph uses).flatten) :
    reads = 1 ∨ ∃ index, reads = uses.getD index 0 := by
  induction history with
  | nil => cases member
  | cons application earlier induction =>
      rw [calls, List.flatten_append, List.flatten_singleton, List.mem_append,
        List.mem_append] at member
      rcases member with former | released | allocated
      · exact induction former
      · simp at released
      · rw [List.mem_singleton, AllocatorCall.allocate.injEq] at allocated
        cases result : application.result with
        | node index => exact Or.inr ⟨index, by rw [allocated, result, Computed.uses]⟩
        | part owner operand => exact Or.inl (by rw [allocated, result, Computed.uses])

end History

/-! ## Recorded trials -/

/-- With counters in words a recorded trial is the same. -/
structure Recording.CountsInWords (recording : Recording) (schedule : Schedule) :
    Prop where
  /-- After every entry the words are the counts. -/
  counts : ∀ position,
    (WordAllocator.replay (recording.calls.take position).flatten).toAllocator =
      Allocator.replay (recording.calls.take position).flatten
  /-- Every entry has the register that is handed out. -/
  registers : WordAllocator.empty.handedOut recording.calls.flatten =
    schedule.entries.map ScheduleEntry.register

/-- A history whose nodes all have uses that fit a word can be counted in words. -/
theorem Recording.Follows.countsInWords {α : Type u} {graph : Graph α} {uses : Array Nat}
    {recording : Recording} {history : History} (follows : recording.Follows graph uses history)
    (fits : ∀ index, uses.getD index 0 < UInt32.size) (trial : Nat) :
    recording.CountsInWords ((Placement.ofHistory graph uses history).schedule trial) := by
  have few : ∀ reads, .allocate reads ∈ recording.calls.flatten → reads < UInt32.size := by
    intro reads member
    rw [follows.calls] at member
    rcases History.eq_uses_of_mem_calls member with rfl | ⟨index, rfl⟩
    · decide
    · exact fits index
  constructor
  · intro position
    refine WordAllocator.toAllocator_replay fun reads member => few reads ?_
    rw [List.mem_flatten] at member ⊢
    rcases member with ⟨calls, held, member⟩
    exact ⟨calls, List.mem_of_mem_take held, member⟩
  · rw [WordAllocator.handedOut_toAllocator _ few, WordAllocator.toAllocator_empty,
      follows.calls]
    exact History.handedOut_calls graph uses history

end SolidField
