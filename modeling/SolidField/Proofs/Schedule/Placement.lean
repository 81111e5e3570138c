import SolidField.Proofs.Schedule.History

/-!
# Registers along a history

The allocator runs along a history: every application releases the registers
that it reads and takes the lowest one that is then free.  A value that is still
to be read keeps its register to itself, whatever is computed meanwhile, and the
allocator knows how many reads are pending.
-/

universe u

namespace SolidField

/-! ## The allocator -/

namespace Allocator

variable {allocator : Allocator}

theorem getElem?_release (allocator : Allocator) (register other : Nat) :
    (allocator.release register).reads[other]? =
      (allocator.reads[other]?).map fun count =>
        count - if register = other then 1 else 0 := by
  rw [release, Array.getElem?_modify]
  by_cases same : register = other
  · simp [same]
  · simp [same]

/-- Releasing registers takes away as many reads as they occur. -/
theorem getElem?_foldl_release (registers : List Nat) (allocator : Allocator)
    (other : Nat) :
    (registers.foldl release allocator).reads[other]? =
      (allocator.reads[other]?).map fun count =>
        count - registers.count other := by
  induction registers generalizing allocator with
  | nil => simp
  | cons register registers induction =>
      rw [List.foldl_cons, induction, getElem?_release, Option.map_map]
      congr 1
      funext count
      by_cases same : register = other
      · simp only [Function.comp, same, if_pos, List.count_cons_self]
        omega
      · simp [Function.comp, same]

@[simp]
theorem registersNeeded_foldl_release (registers : List Nat)
    (allocator : Allocator) :
    (registers.foldl release allocator).registersNeeded =
      allocator.registersNeeded := by
  induction registers generalizing allocator with
  | nil => rfl
  | cons register registers induction =>
      rw [List.foldl_cons, induction, release]

theorem getElem?_lowestFree (allocator : Allocator) :
    allocator.reads[allocator.lowestFree]? = none ∨
      allocator.reads[allocator.lowestFree]? = some 0 := by
  rw [lowestFree]
  split
  · next register found =>
      rcases Array.findIdx?_eq_some_iff_getElem.mp found with ⟨inside, free, -⟩
      exact Or.inr (by simpa [inside] using free)
  · exact Or.inl (by simp)

theorem lowestFree_le (allocator : Allocator) :
    allocator.lowestFree ≤ allocator.reads.size := by
  rw [lowestFree]
  split
  · next register found =>
      rcases Array.findIdx?_eq_some_iff_getElem.mp found with ⟨inside, -⟩
      exact Nat.le_of_lt inside
  · exact Nat.le_refl _

/-- Allocation sets the reads of the register that it takes, and no others. -/
theorem getElem?_allocate (allocator : Allocator) (reads other : Nat) :
    (allocator.allocate reads).2.reads[other]? =
      if other = allocator.lowestFree then some reads
      else allocator.reads[other]? := by
  have bounded := allocator.lowestFree_le
  simp only [allocate]
  split
  · next inside =>
      rw [Array.getElem?_setIfInBounds]
      by_cases same : other = allocator.lowestFree
      · simp [same, inside]
      · simp [same, Ne.symm same]
  · next outside =>
      have last : allocator.lowestFree = allocator.reads.size := by omega
      rw [Array.getElem?_push, last]

theorem lowestFree_lt_registersNeeded (allocator : Allocator) (reads : Nat) :
    allocator.lowestFree < (allocator.allocate reads).2.registersNeeded := by
  simp only [allocate]
  omega

theorem registersNeeded_le_allocate (allocator : Allocator) (reads : Nat) :
    allocator.registersNeeded ≤
      (allocator.allocate reads).2.registersNeeded := by
  simp only [allocate]
  omega

end Allocator

/-! ## Placements -/

/-- The registers of the values that a trial has computed. -/
structure Placement where
  allocator : Allocator
  register? : Computed → Option Nat
  entries : List ScheduleEntry

/-- The operation of the node at an index. -/
def Graph.opcodeAt {α : Type u} (graph : Graph α) (index : Nat) : Opcode :=
  ((graph.node? ⟨index⟩).map Node.opcode).getD .point

theorem Graph.opcodeAt_of_node? {α : Type u} {graph : Graph α} {index : Nat}
    {node : Node α} (found : graph.node? ⟨index⟩ = some node) :
    graph.opcodeAt index = node.opcode := by
  rw [opcodeAt, found]
  rfl

theorem Graph.Valid.opcodeAt_zero {α : Type u} {graph : Graph α}
    (valid : graph.Valid) : graph.opcodeAt 0 = .point := by
  rcases valid.point with ⟨node, found, isPoint, -⟩
  rw [opcodeAt_of_node? found, isPoint]

namespace Placement

variable {α : Type u}

def empty : Placement :=
  ⟨.empty, fun _ => none, []⟩

def inputs (placement : Placement) (application : Application) : List Nat :=
  application.inputs.map fun input => (placement.register? input).getD 0

/-- The allocator when an application has released what it reads. -/
def released (placement : Placement) (application : Application) : Allocator :=
  (placement.inputs application).foldl Allocator.release placement.allocator

def target (placement : Placement) (application : Application) : Nat :=
  (placement.released application).lowestFree

/-- The operation of an application in registers. -/
def entry (graph : Graph α) (placement : Placement) (application : Application) :
    ScheduleEntry where
  node := ⟨application.result.owner⟩
  opcode := graph.opcodeAt application.result.owner
  register := placement.target application
  inputs := placement.inputs application

/-- The placement after an application. -/
def apply (graph : Graph α) (uses : Array Nat) (placement : Placement)
    (application : Application) : Placement where
  allocator :=
    ((placement.released application).allocate
      (application.result.uses uses)).2
  register? computed :=
    if computed = application.result then some (placement.target application)
    else placement.register? computed
  entries := placement.entry graph application :: placement.entries

/-- The placement after a history. -/
def ofHistory (graph : Graph α) (uses : Array Nat) : History → Placement
  | [] => empty
  | application :: earlier => (ofHistory graph uses earlier).apply graph uses application

variable {graph : Graph α} {uses : Array Nat}

/-- What reads nothing and comes first takes the first register. -/
theorem target_nil (graph : Graph α) (uses : Array Nat) {application : Application}
    (unread : application.inputs = []) :
    (ofHistory graph uses []).target application = 0 := by
  rw [target, released, inputs, unread]
  simp [ofHistory, empty, Allocator.empty, Allocator.lowestFree]

theorem target_lt_registersNeeded (graph : Graph α) (uses : Array Nat)
    (placement : Placement) (application : Application) :
    placement.target application <
      (placement.apply graph uses application).allocator.registersNeeded :=
  Allocator.lowestFree_lt_registersNeeded _ _

theorem registersNeeded_le_apply (graph : Graph α) (uses : Array Nat)
    (placement : Placement) (application : Application) :
    placement.allocator.registersNeeded ≤
      (placement.apply graph uses application).allocator.registersNeeded := by
  refine Nat.le_trans ?_ (Allocator.registersNeeded_le_allocate _ _)
  simp [released]

theorem registersNeeded_le_append (graph : Graph α) (uses : Array Nat)
    (later earlier : History) :
    (ofHistory graph uses earlier).allocator.registersNeeded ≤
      (ofHistory graph uses (later ++ earlier)).allocator.registersNeeded := by
  induction later with
  | nil => exact Nat.le_refl _
  | cons application later induction =>
      exact Nat.le_trans induction (registersNeeded_le_apply graph uses _ _)

theorem register?_eq_none_iff (graph : Graph α) (uses : Array Nat)
    {history : History} {computed : Computed} :
    (ofHistory graph uses history).register? computed = none ↔
      computed ∉ history.results := by
  induction history with
  | nil => simp [ofHistory, empty, History.results]
  | cons application earlier induction =>
      simp only [ofHistory, apply, History.results_cons, List.mem_cons, not_or]
      split
      · simp [*]
      · simp [*]

theorem register?_append {later earlier : History} {computed : Computed}
    (sound : (later ++ earlier).Sound) (member : computed ∈ earlier.results) :
    (ofHistory graph uses (later ++ earlier)).register? computed =
      (ofHistory graph uses earlier).register? computed := by
  induction later with
  | nil => rfl
  | cons application later induction =>
      have different : computed ≠ application.result := by
        rintro rfl
        exact sound.2.1 (by simp [member])
      simp only [List.cons_append, ofHistory, apply, if_neg different]
      exact induction sound.2.2

/-! ## Pending reads -/

/--
Every value has a register.  One that is still to be read shares it with no other
such value, and the allocator counts its pending reads.
-/
structure Allocated (placement : Placement) (computed : List Computed)
    (pending : Computed → Nat) : Prop where
  /-- The values have registers. -/
  placed : ∀ value ∈ computed, ∃ register,
    placement.register? value = some register ∧
      register < placement.allocator.registersNeeded
  /-- The allocator counts the pending reads. -/
  counted : ∀ value ∈ computed, ∀ register,
    placement.register? value = some register → 0 < pending value →
      placement.allocator.reads[register]? = some (pending value)
  /-- Values with pending reads are apart. -/
  apart : ∀ value ∈ computed, ∀ other ∈ computed,
    0 < pending value → 0 < pending other →
      placement.register? value = placement.register? other → value = other

/-- A value occurs among inputs as often as its register among theirs. -/
theorem count_map_eq_count {β γ : Type} [BEq β] [LawfulBEq β] [BEq γ] [LawfulBEq γ]
    (function : β → γ) {values : List β} {value : β}
    (apart : ∀ other ∈ values, function other = function value → other = value) :
    (values.map function).count (function value) = values.count value := by
  induction values with
  | nil => rfl
  | cons other values induction =>
      rw [List.forall_mem_cons] at apart
      rw [List.map_cons, List.count_cons, List.count_cons, induction apart.2]
      by_cases same : other = value
      · simp [same]
      · have : function other ≠ function value := fun equal =>
          same (apart.1 equal)
        simp [same, this]

variable {placement : Placement} {computed : List Computed}
  {pending later : Computed → Nat} {application : Application}

/-- The register of a value is read as often as the value. -/
theorem Allocated.count_inputs (allocated : placement.Allocated computed pending)
    (known : ∀ input ∈ application.inputs, input ∈ computed)
    (served : ∀ value ∈ computed,
      pending value = application.inputs.count value + later value)
    {value : Computed} (member : value ∈ computed) (live : 0 < pending value)
    {register : Nat} (placed : placement.register? value = some register) :
    (placement.inputs application).count register = application.inputs.count value := by
  have equal : register = (placement.register? value).getD 0 := by
    rw [placed, Option.getD_some]
  rw [inputs, equal]
  apply count_map_eq_count
    (fun input => (placement.register? input).getD 0)
  intro other read same
  have pendingOther : 0 < pending other := by
    rw [served other (known other read)]
    have := List.count_pos_iff.mpr read
    omega
  refine allocated.apart other (known other read) value member pendingOther
    live ?_
  rcases allocated.placed other (known other read) with
    ⟨place, otherPlaced, -⟩
  simp only [otherPlaced, placed, Option.getD_some] at same
  rw [otherPlaced, placed, same]

/-- A release leaves to a value the reads that are pending after it. -/
theorem Allocated.getElem?_released
    (allocated : placement.Allocated computed pending)
    (known : ∀ input ∈ application.inputs, input ∈ computed)
    (served : ∀ value ∈ computed,
      pending value = application.inputs.count value + later value)
    {value : Computed} (member : value ∈ computed) (live : 0 < pending value)
    {register : Nat} (placed : placement.register? value = some register) :
    (placement.released application).reads[register]? =
      some (later value) := by
  rw [released, Allocator.getElem?_foldl_release,
    allocated.counted value member register placed live,
    allocated.count_inputs known served member live placed, served value member]
  simp

/-- What is still to be read is not overwritten. -/
theorem Allocated.register?_ne_target
    (allocated : placement.Allocated computed pending)
    (known : ∀ input ∈ application.inputs, input ∈ computed)
    (served : ∀ value ∈ computed,
      pending value = application.inputs.count value + later value)
    {value : Computed} (member : value ∈ computed) (live : 0 < later value) :
    placement.register? value ≠ some (placement.target application) := by
  intro placed
  have before : 0 < pending value := by
    rw [served value member]
    omega
  have left := allocated.getElem?_released known served member before placed
  have free := (placement.released application).getElem?_lowestFree
  rw [← target, left] at free
  simp at free
  omega

/-- An application keeps the registers of what is still to be read apart. -/
theorem Allocated.apply (allocated : placement.Allocated computed pending)
    (known : ∀ input ∈ application.inputs, input ∈ computed)
    (fresh : application.result ∉ computed)
    (served : ∀ value ∈ computed,
      pending value = application.inputs.count value + later value)
    (expected : application.result.uses uses = later application.result) :
    (placement.apply graph uses application).Allocated
      (application.result :: computed) later := by
  have different : ∀ value ∈ computed, value ≠ application.result := by
    rintro value member rfl
    exact fresh member
  have kept : ∀ value ∈ computed,
      (placement.apply graph uses application).register? value =
        placement.register? value :=
    fun value member => if_neg (different value member)
  have new : (placement.apply graph uses application).register?
      application.result = some (placement.target application) := if_pos rfl
  have overwritten : ∀ value ∈ computed, 0 < later value →
      placement.register? value ≠ some (placement.target application) :=
    fun value member live =>
      allocated.register?_ne_target known served member live
  constructor
  · rw [List.forall_mem_cons]
    constructor
    · exact ⟨_, new, target_lt_registersNeeded _ _ _ _⟩
    · intro value member
      rcases allocated.placed value member with ⟨register, placed, inside⟩
      exact ⟨register, (kept value member).trans placed,
        Nat.lt_of_lt_of_le inside (registersNeeded_le_apply _ _ _ _)⟩
  · rw [List.forall_mem_cons]
    constructor
    · intro register placed live
      rw [new, Option.some.injEq] at placed
      subst register
      simp [Placement.apply, Allocator.getElem?_allocate, target, expected]
    · intro value member register placed live
      rw [kept value member] at placed
      have unequal : register ≠ placement.target application := by
        rintro rfl
        exact overwritten value member live placed
      simp only [Placement.apply, Allocator.getElem?_allocate]
      rw [target] at unequal
      rw [if_neg unequal]
      refine allocated.getElem?_released known served member ?_ placed
      rw [served value member]
      omega
  -- Values apart before stay apart, and the new one overwrites none of them.
  · simp only [List.forall_mem_cons, new]
    refine ⟨⟨fun _ _ _ => trivial, ?_⟩, fun value member => ⟨?_, ?_⟩⟩
    · intro other member _ live same
      rw [kept other member] at same
      exact absurd same.symm (overwritten other member live)
    · intro live _ same
      rw [kept value member] at same
      exact absurd same (overwritten value member live)
    · intro other otherMember live otherLive same
      rw [kept value member, kept other otherMember] at same
      refine allocated.apart value member other otherMember ?_ ?_ same
      · rw [served value member]
        omega
      · rw [served other otherMember]
        omega

end Placement

end SolidField
