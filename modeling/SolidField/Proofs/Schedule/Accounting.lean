import Mathlib.Data.List.Forall2
import Mathlib.Data.List.Induction
import Mathlib.Data.List.Nodup
import SolidField.Proofs.Schedule.Words

/-!
# The account of reads

The allocator's account is exact.  A register with pending reads holds a value, and
the count is that of the reads of this value that are still to be scheduled, the
result of the program included.  Nothing is therefore allocated that is not read, and
nothing is released that is not live.  Counters of 32 bits give the same account of any
graph in which no node has `2 ^ 32` uses.
-/

universe u

namespace SolidField

/-! ## Calls in order -/

namespace Allocator

variable {allocator : Allocator}

theorem isLive_iff {register : Nat} :
    allocator.isLive register = true ↔ 0 < allocator.reads.getD register 0 := by
  rw [isLive, Array.getD_eq_getD_getElem?]
  cases allocator.reads[register]? with
  | none => simp
  | some count => simp

theorem admitsAll_append {front back : List AllocatorCall} :
    allocator.AdmitsAll (front ++ back) ↔
      allocator.AdmitsAll front ∧ (front.foldl serve allocator).AdmitsAll back := by
  induction front generalizing allocator with
  | nil => simp [AdmitsAll]
  | cons call front induction =>
      simp only [List.cons_append, AdmitsAll, induction, List.foldl_cons, and_assoc]

theorem getD_release (allocator : Allocator) (register other : Nat) :
    (allocator.release register).reads.getD other 0 =
      allocator.reads.getD other 0 - if register = other then 1 else 0 := by
  rw [Array.getD_eq_getD_getElem?, getElem?_release, Array.getD_eq_getD_getElem?]
  cases allocator.reads[other]? with
  | none => simp
  | some count => rfl

/-- Registers can be released as often as reads of them are pending. -/
theorem admitsAll_release {registers : List Nat}
    (pending : ∀ register, registers.count register ≤ allocator.reads.getD register 0) :
    allocator.AdmitsAll (registers.map .release) := by
  induction registers generalizing allocator with
  | nil => trivial
  | cons register registers induction =>
      refine ⟨isLive_iff.mpr ?_, induction fun other => ?_⟩
      · have := pending register
        rw [List.count_cons_self] at this
        omega
      · have := pending other
        rw [serve, getD_release]
        by_cases same : register = other
        · rw [if_pos same]
          rw [same, List.count_cons_self] at this
          omega
        · rw [if_neg same]
          rw [List.count_cons_of_ne same] at this
          omega

end Allocator

/-! ## What live registers hold -/

namespace Placement

variable {α : Type u} {graph : Graph α} {uses : Array Nat} {placement : Placement}
  {computed : List Computed} {pending later : Computed → Nat}
  {application : Application}

/-- A register with pending reads holds a value that has as many. -/
def Held (placement : Placement) (computed : List Computed)
    (pending : Computed → Nat) : Prop :=
  ∀ register count, placement.allocator.reads[register]? = some count → 0 < count →
    ∃ value ∈ computed, placement.register? value = some register ∧
      pending value = count

/-- An application leaves the pending reads to the values that are held. -/
theorem Held.apply (held : placement.Held computed pending)
    (allocated : placement.Allocated computed pending)
    (known : ∀ input ∈ application.inputs, input ∈ computed)
    (fresh : application.result ∉ computed)
    (served : ∀ value ∈ computed,
      pending value = application.inputs.count value + later value)
    (expected : application.result.uses uses = later application.result) :
    (placement.apply graph uses application).Held
      (application.result :: computed) later := by
  intro register count found positive
  simp only [Placement.apply, Allocator.getElem?_allocate] at found
  by_cases taken : register = (placement.released application).lowestFree
  · rw [if_pos taken, Option.some.injEq] at found
    refine ⟨application.result, by simp, ?_, expected ▸ found⟩
    rw [taken]
    exact if_pos rfl
  · rw [if_neg taken] at found
    have before := found
    rw [released, Allocator.getElem?_foldl_release, Option.map_eq_some_iff] at before
    rcases before with ⟨reads, before, remain⟩
    rcases held register reads before (by omega) with ⟨value, member, placed, counted⟩
    have left := allocated.getElem?_released known served member (by omega) placed
    refine ⟨value, List.mem_cons_of_mem _ member, ?_, ?_⟩
    · have different : value ≠ application.result := by
        rintro rfl
        exact fresh member
      exact (if_neg different).trans placed
    · exact Option.some.inj (left.symm.trans found)

/-- What an application reads can be released. -/
theorem Allocated.count_le (allocated : placement.Allocated computed pending)
    (known : ∀ input ∈ application.inputs, input ∈ computed)
    (served : ∀ value ∈ computed,
      pending value = application.inputs.count value + later value)
    (register : Nat) :
    (placement.inputs application).count register ≤
      placement.allocator.reads.getD register 0 := by
  by_cases read : register ∈ placement.inputs application
  · rcases List.mem_map.mp read with ⟨value, listed, same⟩
    have member := known value listed
    have live : 0 < pending value := by
      rw [served value member]
      have := List.count_pos_iff.mpr listed
      omega
    rcases allocated.placed value member with ⟨place, placed, -⟩
    rw [placed, Option.getD_some] at same
    rw [← same, allocated.count_inputs known served member live placed,
      Array.getD_eq_getD_getElem?, allocated.counted value member place placed live,
      Option.getD_some, served value member]
    omega
  · rw [List.count_eq_zero.mpr read]
    omega

end Placement

namespace History

section Places

variable {α : Type u} {graph : Graph α} {uses : Array Nat} {history : History}

/-- Values have places of their own. -/
theorem Sound.eq_of_place_eq (sound : history.Sound) {value other : Computed}
    (member : value ∈ history.results) (listed : other ∈ history.results)
    (same : history.place value = history.place other) : value = other := by
  induction history with
  | nil => cases member
  | cons application earlier induction =>
      rw [results_cons, List.mem_cons] at member listed
      rw [place, place] at same
      split at same <;> split at same
      · next first second => exact first.symm.trans second
      · next _ second =>
          have := place_lt (listed.resolve_left (Ne.symm second))
          omega
      · next first _ =>
          have := place_lt (member.resolve_left (Ne.symm first))
          omega
      · next first second =>
          exact induction sound.2.2 (member.resolve_left (Ne.symm first))
            (listed.resolve_left (Ne.symm second)) same

/-- What was last written to a register is a value that was placed in it. -/
theorem Sound.exists_of_lastWriter? (sound : history.Sound) {register writer : Nat}
    (wrote : lastWriter? register (Placement.ofHistory graph uses history).entries =
      some writer) :
    ∃ value ∈ history.results, history.place value = writer ∧
      (Placement.ofHistory graph uses history).register? value = some register := by
  induction history with
  | nil => cases wrote
  | cons application earlier induction =>
      rw [Placement.lastWriter?_cons] at wrote
      split at wrote
      · next target =>
          refine ⟨application.result, by simp, ?_, ?_⟩
          · rw [place_result]
            exact Option.some.inj wrote
          · rw [Placement.register?_cons, if_pos rfl, target]
      · rcases induction sound.2.2 wrote with ⟨value, member, place, placed⟩
        have different : value ≠ application.result := by
          rintro rfl
          exact sound.2.1 member
        refine ⟨value, by simp [member], ?_, ?_⟩
        · rw [place_of_ne different, place]
        · rw [Placement.register?_cons, if_neg different, placed]

end Places

/-! ## Recorded calls -/

section Calls

variable {α : Type u} {graph : Graph α} {root : NodeId}

/-- At every moment the registers with pending reads are those of values. -/
theorem Complete.held (valid : graph.Valid) (later : History) {earlier : History}
    (complete : Complete graph root (later ++ earlier)) :
    (placement graph root earlier).Held earlier.results (pending root later) := by
  induction earlier generalizing later with
  | nil => simp [Placement.Held, Placement.ofHistory, Placement.empty, Allocator.empty]
  | cons application earlier induction =>
      have sound := complete.sound.of_append
      have completeBefore := complete.regroup
      exact (induction _ completeBefore).apply (completeBefore.allocated valid _) sound.1
        sound.2.1 (fun value _ => pending_append root later application value)
        (complete.uses_eq_pending valid)

/-- Every call is in order when it is made. -/
theorem Complete.admitsAll (valid : graph.Valid) (later : History) {earlier : History}
    (complete : Complete graph root (later ++ earlier)) :
    Allocator.empty.AdmitsAll (calls graph (graph.uses root) earlier).flatten := by
  induction earlier generalizing later with
  | nil => trivial
  | cons application earlier induction =>
      have completeBefore := complete.regroup
      have replayed := replay_calls graph (graph.uses root) earlier
      rw [calls, List.flatten_append, List.flatten_singleton, Allocator.admitsAll_append]
      refine ⟨induction _ completeBefore, ?_⟩
      rw [← Allocator.replay, replayed, Allocator.admitsAll_append]
      refine ⟨Allocator.admitsAll_release fun register => ?_, ?_, trivial⟩
      · exact (completeBefore.allocated valid _).count_le complete.sound.of_append.1
          (fun value _ => pending_append root later application value) register
      · exact complete.uses_pos (by simp)

end Calls

/-! ## Pending reads -/

section Pending

variable {graph : Graph Single} {root : NodeId} {history : History}

theorem length_entries (history : History) (trial : Nat) :
    ((placement graph root history).schedule trial).entries.length = history.length := by
  rw [← Placement.length_entries graph (graph.uses root) history]
  exact List.length_reverse

/-- The entries of the earlier part of a history come first. -/
theorem reverse_take_entries (later earlier : History) (trial : Nat) :
    (((placement graph root (later ++ earlier)).schedule trial).entries.take
        earlier.length).reverse = (placement graph root earlier).entries := by
  rcases Placement.exists_entries_append graph (graph.uses root) later earlier with
    ⟨front, entries⟩
  rw [Placement.schedule, placement, entries, List.reverse_append,
    ← Placement.length_entries graph (graph.uses root) earlier, ← List.length_reverse,
    List.take_left, List.reverse_reverse]

/-- What is read from a position on, by the entries that wrote it. -/
theorem Complete.flatMap_sources_drop (valid : graph.Valid) (trial : Nat)
    {later earlier : History} (complete : Complete graph root (later ++ earlier)) :
    ((List.range (later ++ earlier).length).drop earlier.length).flatMap
        ((placement graph root (later ++ earlier)).schedule trial).sources =
      (later.reverse.flatMap Application.inputs).map fun input =>
        some (place (later ++ earlier) input) := by
  -- The earliest of the later applications has the first of the entries.
  induction later using List.reverseRecOn generalizing earlier with
  | nil =>
      have none : (List.range earlier.length).drop earlier.length = [] :=
        List.drop_eq_nil_of_le (by simp)
      rw [List.nil_append, none]
      rfl
  | append_singleton later application induction =>
      have inside : earlier.length < (List.range (later ++ [application] ++
          earlier).length).length := by
        simp
        omega
      rw [List.append_assoc, List.singleton_append] at complete inside ⊢
      rw [List.drop_eq_getElem_cons inside, List.getElem_range, List.flatMap_cons,
        complete.sources_eq valid trial]
      have further := induction complete
      rw [List.length_cons] at further
      rw [further, List.reverse_append, List.reverse_singleton, List.singleton_append,
        List.flatMap_cons, List.map_append]

/-- The reads of a value that are pending are those of the entries to come. -/
theorem Complete.pending_eq (valid : graph.Valid) (trial : Nat) {later earlier : History}
    (complete : Complete graph root (later ++ earlier)) {value : Computed}
    (member : value ∈ earlier.results) :
    let schedule := (placement graph root (later ++ earlier)).schedule trial
    (((List.range schedule.entries.length).drop earlier.length).flatMap
        schedule.sources).count (some (earlier.place value)) +
      (if schedule.returned? = some (earlier.place value) then 1 else 0) =
        pending root later value := by
  intro schedule
  have sound := complete.sound
  have listed : value ∈ (later ++ earlier).results := by simp [member]
  have length : schedule.entries.length = (later ++ earlier).length :=
    length_entries _ trial
  have apart : ∀ other ∈ later.reverse.flatMap Application.inputs,
      some (place (later ++ earlier) other) = some (place (later ++ earlier) value) →
        other = value := by
    intro other read same
    have read : other ∈ (later ++ earlier).reads := by
      rw [reads_append, List.mem_append]
      exact Or.inl (((List.reverse_perm later).flatMap_right _).mem_iff.mp read)
    exact sound.eq_of_place_eq (sound.mem_results_of_mem_reads _ read) listed
      (Option.some.inj same)
  have returned : (some (place (later ++ earlier) (.node root.index)) =
      some (place (later ++ earlier) value)) ↔ value = .node root.index := by
    rw [Option.some.injEq]
    exact ⟨fun same => (sound.eq_of_place_eq complete.computesRoot listed same).symm,
      fun same => same ▸ rfl⟩
  rw [length, ← place_append sound member, complete.flatMap_sources_drop valid trial,
    Placement.count_map_eq_count _ apart, complete.returned?_eq valid trial, pending]
  simp only [returned]
  rw [reads, ((List.reverse_perm later).flatMap_right _).count_eq]

/-- The allocator counts the reads that are still to be scheduled. -/
theorem Complete.getD_reads (valid : graph.Valid) (trial : Nat) {later earlier : History}
    (complete : Complete graph root (later ++ earlier)) (register : Nat) :
    (placement graph root earlier).allocator.reads.getD register 0 =
      ((placement graph root (later ++ earlier)).schedule trial).pendingReads
        earlier.length register := by
  have sound := complete.sound.of_append
  have wrote : 0 < (placement graph root earlier).allocator.reads.getD register 0 →
      ∃ value ∈ earlier.results, 0 < pending root later value ∧
        lastWriter? register (placement graph root earlier).entries =
          some (earlier.place value) := by
    intro positive
    rw [Array.getD_eq_getD_getElem?] at positive
    cases found : (placement graph root earlier).allocator.reads[register]? with
    | none => simp [found] at positive
    | some count =>
        rw [found, Option.getD_some] at positive
        rcases complete.held valid later register count found positive with
          ⟨value, member, placed, rfl⟩
        exact ⟨value, member, positive,
          complete.lastWriter?_eq valid later member positive placed⟩
  rw [Schedule.pendingReads, reverse_take_entries]
  cases last : lastWriter? register (placement graph root earlier).entries with
  | none =>
      apply Nat.eq_zero_of_not_pos
      intro positive
      rcases wrote positive with ⟨value, -, -, writer⟩
      cases last.symm.trans writer
  | some writer =>
      rcases sound.exists_of_lastWriter? last with ⟨value, member, rfl, placed⟩
      refine Eq.trans ?_ (complete.pending_eq valid trial member).symm
      by_cases live : 0 < pending root later value
      · rw [Array.getD_eq_getD_getElem?,
          (complete.allocated valid later).counted value member register placed live,
          Option.getD_some]
      · rw [Nat.eq_zero_of_not_pos live]
        apply Nat.eq_zero_of_not_pos
        intro positive
        rcases wrote positive with ⟨other, listed, otherLive, writer⟩
        have same := sound.eq_of_place_eq member listed
          (Option.some.inj (last.symm.trans writer))
        exact live (same ▸ otherLive)

/-- At the end the only live register is that of the result, for a single read. -/
theorem Complete.getD_reads_result (valid : graph.Valid) (trial : Nat)
    (complete : history.Complete graph root) (register : Nat) :
    (placement graph root history).allocator.reads.getD register 0 =
      if register = ((placement graph root history).schedule trial).resultRegister then 1
      else 0 := by
  have rootPlaced := complete.register?_root valid trial
  rw [Array.getD_eq_getD_getElem?]
  by_cases isResult :
      register = ((placement graph root history).schedule trial).resultRegister
  · have reads := (Complete.allocated valid [] complete).counted _ complete.computesRoot
      register (isResult ▸ rootPlaced) (by simp [pending])
    rw [if_pos isResult, reads]
    simp [pending, History.reads]
  · rw [if_neg isResult]
    cases found : (placement graph root history).allocator.reads[register]? with
    | none => rfl
    | some count =>
        apply Nat.eq_zero_of_not_pos
        intro positive
        rcases Complete.held valid [] complete register count found positive with
          ⟨value, -, placed, reads⟩
        have isRoot : value = .node root.index := by
          apply Decidable.by_contra
          intro other
          simp [pending, History.reads, other] at reads
          exact Nat.ne_of_lt positive reads
        rw [isRoot, rootPlaced, Option.some.injEq] at placed
        exact isResult placed.symm

/-- An entry takes the calls that release its inputs, and one that allocates. -/
theorem forall₂_calls (history : History) (trial : Nat) :
    List.Forall₂
      (fun entry calls => ∃ reads,
        calls = entry.inputs.map AllocatorCall.release ++ [.allocate reads])
      ((placement graph root history).schedule trial).entries
      (history.calls graph (graph.uses root)) := by
  induction history with
  | nil => exact .nil
  | cons application earlier induction =>
      have entries : ((placement graph root (application :: earlier)).schedule
          trial).entries =
            ((placement graph root earlier).schedule trial).entries ++
              [(placement graph root earlier).entry graph application] :=
        List.reverse_cons
      rw [entries, calls]
      exact List.rel_append induction (.cons ⟨_, rfl⟩ .nil)

end Pending

end History

/-! ## The account of a schedule -/

/-- The calls of a recorded trial, and the counts that they leave, are right. -/
structure Recording.Accounted (recording : Recording) (schedule : Schedule) : Prop where
  /-- Every entry releases its inputs and takes a register. -/
  entries : List.Forall₂
    (fun entry calls => ∃ reads,
      calls = entry.inputs.map AllocatorCall.release ++ [.allocate reads])
    schedule.entries recording.calls
  /-- The calls are all that happens to the allocator. -/
  replay : Allocator.replay recording.calls.flatten = recording.trial.allocator
  /-- No release is of a free register, and no allocation is without reads. -/
  admitted : Allocator.empty.AdmitsAll recording.calls.flatten
  /-- After every entry the counts are those of the reads to come. -/
  pending : ∀ position ≤ schedule.entries.length, ∀ register,
    (Allocator.replay (recording.calls.take position).flatten).reads.getD register 0 =
      schedule.pendingReads position register
  /-- At the end one register is live, that of the result, for one read. -/
  result : ∀ register, recording.trial.allocator.reads.getD register 0 =
    if register = schedule.resultRegister then 1 else 0

/-- The recording of a complete history is an exact account. -/
theorem Recording.Follows.accounted {graph : Graph Single} {root : NodeId}
    {recording : Recording} {history : History} (valid : graph.Valid)
    (complete : history.Complete graph root)
    (follows : recording.Follows graph (graph.uses root) history) (trial : Nat) :
    recording.Accounted ((history.placement graph root).schedule trial) where
  entries := follows.calls ▸ History.forall₂_calls history trial
  replay := by
    rw [follows.calls, follows.trial.allocator]
    exact History.replay_calls graph (graph.uses root) history
  admitted := follows.calls ▸ History.Complete.admitsAll valid [] complete
  pending := by
    intro position inside register
    rw [History.length_entries] at inside
    -- The history splits where the entries do.
    obtain ⟨later, earlier, rfl, rfl⟩ : ∃ later earlier : History,
        history = later ++ earlier ∧ earlier.length = position :=
      ⟨history.take (history.length - position), history.drop (history.length - position),
        (List.take_append_drop _ _).symm, by rw [List.length_drop]; omega⟩
    rw [follows.calls, History.take_calls, History.replay_calls]
    exact complete.getD_reads valid trial register
  result := by
    intro register
    rw [follows.trial.allocator]
    exact complete.getD_reads_result valid trial register

namespace Graph

/-- A node has the uses that the dependency lists of the needed nodes give it. -/
theorem Valid.exists_needed {graph : Graph Single} (valid : graph.Valid) {root : NodeId}
    (inside : root.index < graph.size) :
    ∃ needed : List NodeId, needed.Nodup ∧ (∀ id, id ∈ needed ↔ graph.Needs root id) ∧
      ∀ id, (graph.uses root).getD id.index 0 =
        (needed.flatMap fun other => graph.dependencies other.index).count id.index +
          if id = root then 1 else 0 := by
  refine ⟨(used (graph.uses root) graph.size).map NodeId.mk, ?_, fun id => ?_,
    fun id => ?_⟩
  · refine List.Nodup.map ?_ (List.nodup_range.filter _)
    exact fun first second same => NodeId.mk.inj same
  · rw [valid.needs_iff inside, List.mem_map]
    constructor
    · rintro ⟨index, member, rfl⟩
      exact of_decide_eq_true (List.mem_filter.mp member).2
    · intro isUsed
      exact ⟨id.index, List.mem_filter.mpr
        ⟨List.mem_range.mpr (lt_size_of_uses_pos isUsed), decide_eq_true isUsed⟩, rfl⟩
  · rw [List.flatMap_map]
    have same : id = root ↔ id.index = root.index :=
      ⟨congrArg NodeId.index, fun equal => congrArg NodeId.mk equal⟩
    by_cases here : id.index < graph.size
    · rw [valid.getD_uses root here, Nat.add_comm]
      simp only [same]
      rfl
    · have unused : (graph.uses root).getD id.index 0 = 0 :=
        Nat.eq_zero_of_not_pos fun isUsed => here (lt_size_of_uses_pos isUsed)
      have unlisted := valid.occurrences_eq_zero (graph.uses root) (Nat.le_of_not_lt here)
      have different : id ≠ root := fun equal => here (equal ▸ inside)
      rw [unused, if_neg different]
      exact unlisted.symm

/--
For every graph that can be made, the uses that are counted are the occurrences among
the dependencies of what the root needs, one more for the root, and none for any other
node.  With them the account of every trial is exact.

A count in words is the same up to multiples of `2 ^ 32`.  If every node has fewer uses
than that, it is the same, and with words the allocator comes to the same counts after
every entry and hands out the same registers.
-/
theorem schedule_accounted (requests : List (NodeRequest Single)) (root : NodeId)
    (inside : root.index < (initial.makeAll requests).size) (order : TrialOrder)
    (trial : Nat) :
    let graph := initial.makeAll requests
    (∃ needed : List NodeId, needed.Nodup ∧ (∀ id, id ∈ needed ↔ graph.Needs root id) ∧
      (∀ id ∈ needed, (graph.uses root).getD id.index 0 =
        (needed.flatMap fun other => graph.dependencies other.index).count id.index +
          if id = root then 1 else 0) ∧
      (∀ id, id ∉ needed → (graph.uses root).getD id.index 0 = 0) ∧
      ∀ id : NodeId, (graph.useWords needed root).getD id.index 0 =
        .ofNat ((graph.uses root).getD id.index 0)) ∧
    (graph.record root order).trial =
      (Trial.visit graph (graph.uses root) graph.size root.index
        (.start graph.size order)).2 ∧
    ∃ schedule, graph.schedule root order trial = .ok schedule ∧
      (graph.record root order).Accounted schedule ∧
      ((∀ index, (graph.uses root).getD index 0 < UInt32.size) →
        (graph.record root order).CountsInWords schedule) := by
  intro graph
  have valid : graph.Valid := valid_makeAll requests
  refine ⟨?_, graph.trial_record root order, ?_⟩
  · rcases valid.exists_needed inside with ⟨needed, nodup, members, counted⟩
    refine ⟨needed, nodup, members, fun id _ => counted id, fun id other => ?_,
      getD_useWords_eq_ofNat counted⟩
    rw [members, valid.needs_iff inside] at other
    exact Nat.eq_zero_of_not_pos other
  · rcases History.complete_record valid inside order with ⟨complete, follows⟩
    exact ⟨_, valid.schedule_record inside order trial,
      follows.accounted valid complete trial, fun fits => follows.countsInWords fits trial⟩

/--
The sphere of the wide union has a use for each of its three occurrences and one for
the shell; the sphere apart has none.
-/
theorem wideUnion_accounted :
    let graph := initial.makeAll wideUnion
    graph.uses ⟨4⟩ = #[1, 4, 1, 0, 1] ∧
      ∃ schedule, graph.schedule ⟨4⟩ (.shuffled 7) 2 = .ok schedule ∧
        (graph.record ⟨4⟩ (.shuffled 7)).Accounted schedule ∧
        (graph.record ⟨4⟩ (.shuffled 7)).CountsInWords schedule := by
  intro graph
  have uses : graph.uses ⟨4⟩ = #[1, 4, 1, 0, 1] := by decide +kernel
  have inside : NodeId.index ⟨4⟩ < graph.size := by decide +kernel
  rcases (schedule_accounted wideUnion ⟨4⟩ inside (.shuffled 7) 2).2.2 with
    ⟨schedule, scheduled, accounted, counts⟩
  refine ⟨uses, schedule, scheduled, accounted, counts fun index => ?_⟩
  have few : ∀ count ∈ graph.uses ⟨4⟩, count < UInt32.size := by
    rw [uses]
    decide
  rw [Array.getD_eq_getD_getElem?]
  cases found : (graph.uses ⟨4⟩)[index]? with
  | none => decide
  | some count => exact few count (Array.mem_of_getElem? found)

end Graph

end SolidField
