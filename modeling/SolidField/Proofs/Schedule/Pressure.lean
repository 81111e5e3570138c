import Mathlib.Data.List.Perm.Subperm
import SolidField.Proofs.Schedule.Accounting

/-!
# Register pressure

A value is live while reads of it are to come.  A trial takes a new register only
when all those before it are live, so it needs as many registers as there are live
values at the moment that has the most of them.
-/

universe u

namespace SolidField

/-- The registers below the lowest free one are live. -/
theorem Allocator.exists_of_lt_lowestFree {allocator : Allocator} {register : Nat}
    (below : register < allocator.lowestFree) :
    ∃ count, allocator.reads[register]? = some count ∧ 0 < count := by
  rw [lowestFree] at below
  split at below
  · next free found =>
      rcases Array.findIdx?_eq_some_iff_getElem.mp found with ⟨inside, -, before⟩
      have taken := before register below
      exact ⟨_, Array.getElem?_eq_getElem (by omega),
        by simpa [Nat.pos_iff_ne_zero] using taken⟩
  · next found =>
      rw [Array.findIdx?_eq_none_iff] at found
      have taken := found _ (Array.getElem_mem below)
      exact ⟨_, Array.getElem?_eq_getElem below,
        by simpa [Nat.pos_iff_ne_zero] using taken⟩

namespace Placement

variable {α : Type u} {graph : Graph α} {uses : Array Nat}

theorem registersNeeded_apply (graph : Graph α) (uses : Array Nat) (placement : Placement)
    (application : Application) :
    (placement.apply graph uses application).allocator.registersNeeded =
      max placement.allocator.registersNeeded (placement.target application + 1) := by
  simp [apply, Allocator.allocate, target, released]

end Placement

namespace History

variable {α : Type u} {graph : Graph α} {root : NodeId} {later earlier : History}
  {application : Application} {value : Computed}

/-- The values that are still to be read after a history, in a program with these uses. -/
def live (uses : Array Nat) (history : History) : List Computed :=
  history.results.filter fun value => history.reads.count value < value.uses uses

theorem mem_live {uses : Array Nat} :
    value ∈ earlier.live uses ↔
      value ∈ earlier.results ∧ earlier.reads.count value < value.uses uses := by
  rw [live, List.mem_filter, decide_eq_true_eq]

/-- What is live later was live before, if it was computed. -/
theorem mem_live_of_append {uses : Array Nat} (later : History)
    (member : value ∈ earlier.results) (isLive : value ∈ live uses (later ++ earlier)) :
    value ∈ earlier.live uses := by
  have unread := (mem_live.mp isLive).2
  rw [reads_append, List.count_append] at unread
  exact mem_live.mpr ⟨member, by omega⟩

/-- What is live was live in the earlier part, or it was computed in the later one. -/
theorem length_live_append_le (uses : Array Nat) (later earlier : History) :
    (live uses (later ++ earlier)).length ≤
      (later.live uses).length + (earlier.live uses).length := by
  simp only [live, results_append, reads_append, List.count_append, List.filter_append,
    List.length_append, ← List.countP_eq_length_filter]
  refine Nat.add_le_add (List.countP_mono_left fun value _ => ?_)
    (List.countP_mono_left fun value _ => ?_)
  · simp only [decide_eq_true_eq]
    omega
  · simp only [decide_eq_true_eq]
    omega

theorem length_live_le_length (uses : Array Nat) (history : History) :
    (history.live uses).length ≤ history.length := by
  have filtered : (history.live uses).length ≤ history.results.length :=
    List.length_filter_le _ _
  rwa [results, List.length_map] at filtered

/-- Only the uses of what was computed matter. -/
theorem live_congr {uses other : Array Nat}
    (same : ∀ value ∈ earlier.results, value.uses uses = value.uses other) :
    earlier.live uses = earlier.live other :=
  List.filter_congr fun value member => by rw [same value member]

/-- What is live has reads to come. -/
theorem Complete.mem_live_iff (valid : graph.Valid)
    (complete : Complete graph root (later ++ earlier)) :
    value ∈ earlier.live (graph.uses root) ↔
      value ∈ earlier.results ∧ 0 < pending root later value := by
  rw [mem_live]
  refine and_congr_right fun member => ?_
  have listed : value ∈ (later ++ earlier).results := by simp [member]
  rw [complete.uses_eq valid listed, pending, reads_append, List.count_append]
  omega

/-- After a whole trial only the root is live. -/
theorem Complete.eq_root_of_mem_live (valid : graph.Valid)
    (complete : Complete graph root earlier)
    (isLive : value ∈ earlier.live (graph.uses root)) :
    value = .node root.index := by
  have whole : Complete graph root ([] ++ earlier) := complete
  have reads := ((whole.mem_live_iff valid).mp isLive).2
  apply Decidable.by_contra
  intro other
  simp [pending, History.reads, other] at reads

/-- Live values are listed once. -/
theorem Sound.nodup_live (sound : earlier.Sound) (uses : Array Nat) :
    (earlier.live uses).Nodup :=
  sound.nodup.filter _

theorem Sound.length_live_le (sound : earlier.Sound) {uses : Array Nat}
    {values : List Computed} (listed : ∀ value ∈ earlier.live uses, value ∈ values) :
    (earlier.live uses).length ≤ values.length :=
  ((sound.nodup_live uses).subperm listed).length_le

theorem Complete.length_live_le_one (valid : graph.Valid)
    (complete : Complete graph root earlier) :
    (earlier.live (graph.uses root)).length ≤ 1 := by
  have listed : ∀ value ∈ earlier.live (graph.uses root),
      value ∈ [Computed.node root.index] := fun value isLive =>
    List.mem_singleton.mpr (complete.eq_root_of_mem_live valid isLive)
  exact complete.sound.length_live_le listed

/-- The register of a value that is computed. -/
theorem Complete.register?_eq (valid : graph.Valid)
    (complete : Complete graph root (later ++ earlier)) (member : value ∈ earlier.results) :
    (placement graph root earlier).register? value =
      some (((placement graph root earlier).register? value).getD 0) := by
  rcases (complete.allocated valid later).placed value member with ⟨register, placed, -⟩
  rw [placed, Option.getD_some]

/-- An application takes a register with all those before it live. -/
theorem Complete.target_lt_length_live (valid : graph.Valid)
    (complete : Complete graph root (later ++ application :: earlier)) :
    (placement graph root earlier).target application <
      (live (graph.uses root) (application :: earlier)).length := by
  have sound := complete.sound.of_append
  -- Every register up to the new one is that of a live value.
  have holders : ∀ register ≤ (placement graph root earlier).target application,
      ∃ value ∈ live (graph.uses root) (application :: earlier),
        (placement graph root (application :: earlier)).register? value =
          some register := by
    intro register most
    rcases Nat.lt_or_eq_of_le most with below | rfl
    · rcases Allocator.exists_of_lt_lowestFree below with ⟨count, found, positive⟩
      have kept : (placement graph root (application :: earlier)).allocator.reads[register]? =
          some count := by
        rw [placement, Placement.ofHistory, Placement.apply, Allocator.getElem?_allocate]
        exact (if_neg (Nat.ne_of_lt below)).trans found
      rcases complete.held valid later register count kept positive with
        ⟨value, member, placed, rfl⟩
      exact ⟨value, (complete.mem_live_iff valid).mpr ⟨member, positive⟩, placed⟩
    · refine ⟨application.result, mem_live.mpr ⟨by simp, ?_⟩, if_pos rfl⟩
      rw [List.count_eq_zero.mpr sound.not_mem_reads]
      exact complete.uses_pos (by simp)
  have covered : List.range ((placement graph root earlier).target application + 1) ⊆
      (live (graph.uses root) (application :: earlier)).map fun value =>
        ((placement graph root (application :: earlier)).register? value).getD 0 := by
    intro register member
    rcases holders register (Nat.lt_succ_iff.mp (List.mem_range.mp member)) with
      ⟨value, isLive, placed⟩
    exact List.mem_map.mpr ⟨value, isLive, by rw [placed, Option.getD_some]⟩
  have lengths := (List.nodup_range.subperm covered).length_le
  rw [List.length_range, List.length_map] at lengths
  exact lengths

/-- Live values have registers of their own. -/
theorem Complete.length_live_le_registersNeeded (valid : graph.Valid)
    (complete : Complete graph root (later ++ earlier)) :
    (earlier.live (graph.uses root)).length ≤
      (placement graph root earlier).allocator.registersNeeded := by
  have allocated := complete.allocated valid later
  let register := fun value => ((placement graph root earlier).register? value).getD 0
  have apart : ((earlier.live (graph.uses root)).map register).Nodup := by
    refine List.Nodup.map_on ?_ (complete.sound.of_append.nodup_live _)
    intro value isLive other otherLive same
    rcases (complete.mem_live_iff valid).mp isLive with ⟨member, reads⟩
    rcases (complete.mem_live_iff valid).mp otherLive with ⟨otherMember, otherReads⟩
    refine allocated.apart value member other otherMember reads otherReads ?_
    rw [complete.register?_eq valid member, complete.register?_eq valid otherMember]
    exact congrArg some same
  have inside : (earlier.live (graph.uses root)).map register ⊆
      List.range (placement graph root earlier).allocator.registersNeeded := by
    intro place member
    rcases List.mem_map.mp member with ⟨value, isLive, rfl⟩
    rcases allocated.placed value (mem_live.mp isLive).1 with ⟨place, placed, below⟩
    simp only [register, placed, Option.getD_some]
    exact List.mem_range.mpr below
  have lengths := (apart.subperm inside).length_le
  rwa [List.length_map, List.length_range] at lengths

/-- A trial needs as many registers as values are live at once. -/
theorem Complete.registersNeeded_le_iff (valid : graph.Valid) {history : History}
    (complete : history.Complete graph root) {bound : Nat} :
    (placement graph root history).allocator.registersNeeded ≤ bound ↔
      ∀ moment : History, moment <:+ history →
        (moment.live (graph.uses root)).length ≤ bound := by
  constructor
  · rintro enough moment ⟨later, rfl⟩
    exact Nat.le_trans (complete.length_live_le_registersNeeded valid)
      (Nat.le_trans (Placement.registersNeeded_le_append graph _ later moment) enough)
  · intro peak
    suffices part : ∀ later earlier, history = later ++ earlier →
        (placement graph root earlier).allocator.registersNeeded ≤ bound from
      part [] history rfl
    intro later earlier split
    induction earlier generalizing later with
    | nil => exact Nat.zero_le bound
    | cons application earlier induction =>
        subst split
        rw [placement, Placement.ofHistory, Placement.registersNeeded_apply, Nat.max_le]
        refine ⟨induction (later ++ [application]) (by simp), ?_⟩
        exact Nat.le_trans (complete.target_lt_length_live valid)
          (peak _ (List.suffix_append later _))

end History

end SolidField
