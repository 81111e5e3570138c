import Mathlib.Data.Set.Card
import SolidField.Proofs.Schedule.Pressure

/-!
# The peak of live registers

A register is live from the call that takes it until as many releases of it have
followed as it has reads.  The allocator knows how many of them are still to come, so it
takes the least register that is not live.  All registers before a new one are then
live, and no more registers were ever needed than were live at one moment.
-/

namespace SolidField

namespace Allocator

variable {calls before after moment : List AllocatorCall} {register reads : Nat}

/--
The registers that are live after calls.  One of the calls took the register, and fewer
releases of it followed than it has reads.
-/
def liveAfter (calls : List AllocatorCall) : Set Nat :=
  {register | ∃ before reads after, calls = before ++ .allocate reads :: after ∧
    ((replay before).allocate reads).1 = register ∧
    after.count (.release register) < reads}

/-! ## Pending reads -/

@[simp]
theorem replay_concat (calls : List AllocatorCall) (call : AllocatorCall) :
    replay (calls ++ [call]) = (replay calls).serve call :=
  List.foldl_concat _ _ _ _

/-- The register that is taken has no reads pending. -/
theorem getD_lowestFree (allocator : Allocator) :
    allocator.reads.getD allocator.lowestFree 0 = 0 := by
  rw [Array.getD_eq_getD_getElem?]
  rcases allocator.getElem?_lowestFree with beyond | free
  · rw [beyond, Option.getD_none]
  · rw [free, Option.getD_some]

theorem getD_allocate (allocator : Allocator) (reads other : Nat) :
    (allocator.allocate reads).2.reads.getD other 0 =
      if other = allocator.lowestFree then reads else allocator.reads.getD other 0 := by
  rw [Array.getD_eq_getD_getElem?, getElem?_allocate, Array.getD_eq_getD_getElem?]
  split
  · rw [Option.getD_some]
  · rfl

/-- A call takes a read from a register that has some pending only if it releases it. -/
theorem getD_serve_add_count {allocator : Allocator}
    (pending : 0 < allocator.reads.getD register 0) (call : AllocatorCall) :
    (allocator.serve call).reads.getD register 0 + [call].count (.release register) =
      allocator.reads.getD register 0 := by
  cases call with
  | release other =>
      rw [serve, getD_release, List.count_singleton]
      by_cases same : other = register
      · rw [if_pos same, if_pos (by simpa using same)]
        omega
      · rw [if_neg same, if_neg (by simpa using same)]
        omega
  | allocate reads =>
      have taken : register ≠ allocator.lowestFree := by
        rintro rfl
        rw [getD_lowestFree] at pending
        exact Nat.lt_irrefl 0 pending
      rw [serve, getD_allocate, if_neg taken]
      rfl

/-- After a call, a register has reads pending if it had, or if the call took it. -/
theorem getD_serve_cases {allocator : Allocator} {call : AllocatorCall}
    (pending : 0 < (allocator.serve call).reads.getD register 0) :
    0 < allocator.reads.getD register 0 ∨
      ∃ reads, call = .allocate reads ∧ (allocator.allocate reads).1 = register ∧
        (allocator.serve call).reads.getD register 0 = reads := by
  cases call with
  | release other =>
      rw [serve, getD_release] at pending
      exact Or.inl (by omega)
  | allocate reads =>
      rw [serve, getD_allocate] at pending ⊢
      by_cases taken : register = allocator.lowestFree
      · exact Or.inr ⟨reads, rfl, taken.symm, if_pos taken⟩
      · rw [if_neg taken] at pending
        exact Or.inl pending

/-- A register that was taken has the reads pending that were not released. -/
theorem pending_add_count (taken : ((replay before).allocate reads).1 = register)
    (unread : after.count (.release register) < reads) :
    (replay (before ++ .allocate reads :: after)).reads.getD register 0 +
        after.count (.release register) = reads := by
  induction after using List.reverseRecOn with
  | nil =>
      rw [replay_concat, serve, getD_allocate]
      exact if_pos taken.symm
  | append_singleton after call induction =>
      rw [List.count_append] at unread ⊢
      have account := induction (by omega)
      have pending :
          0 < (replay (before ++ .allocate reads :: after)).reads.getD register 0 := by
        omega
      have step := getD_serve_add_count pending call
      rw [← List.cons_append, ← List.append_assoc, replay_concat]
      omega

/-- A register with reads pending was taken, and the others of its reads were released. -/
theorem exists_taken (pending : 0 < (replay calls).reads.getD register 0) :
    ∃ before reads after, calls = before ++ .allocate reads :: after ∧
      ((replay before).allocate reads).1 = register ∧
      (replay calls).reads.getD register 0 + after.count (.release register) =
        reads := by
  induction calls using List.reverseRecOn with
  | nil => simp [replay, empty] at pending
  | append_singleton calls call induction =>
      rw [replay_concat] at pending ⊢
      rcases getD_serve_cases pending with former | ⟨reads, rfl, taken, fresh⟩
      · rcases induction former with ⟨before, reads, after, rfl, taken, account⟩
        refine ⟨before, reads, after ++ [call], by simp, taken, ?_⟩
        have step := getD_serve_add_count former call
        rw [List.count_append]
        omega
      · exact ⟨calls, reads, [], rfl, taken, fresh⟩

/-! ## Live registers -/

theorem mem_liveAfter_iff :
    register ∈ liveAfter calls ↔ 0 < (replay calls).reads.getD register 0 := by
  constructor
  · rintro ⟨before, reads, after, rfl, taken, unread⟩
    have account := pending_add_count taken unread
    omega
  · intro pending
    rcases exists_taken pending with ⟨before, reads, after, split, taken, account⟩
    exact ⟨before, reads, after, split, taken, by omega⟩

/-- The release of the last read frees the register that was taken. -/
theorem not_mem_liveAfter_of_released
    (taken : ((replay before).allocate reads).1 = register)
    (last : after.count (.release register) + 1 = reads) :
    register ∉ liveAfter (before ++ .allocate reads :: after ++ [.release register]) := by
  have account := pending_add_count taken (Nat.lt_of_succ_le last.le)
  rw [mem_liveAfter_iff, replay_concat, serve, getD_release, if_pos rfl]
  omega

/-- The register that is taken is the least one that is not live. -/
theorem isLeast_allocate (calls : List AllocatorCall) (reads : Nat) :
    IsLeast (liveAfter calls)ᶜ ((replay calls).allocate reads).1 := by
  constructor
  · rw [Set.mem_compl_iff, mem_liveAfter_iff]
    exact (getD_lowestFree _).not_gt
  · intro register dead
    rw [Set.mem_compl_iff, mem_liveAfter_iff, Array.getD_eq_getD_getElem?] at dead
    apply Nat.le_of_not_lt
    intro below
    rcases exists_of_lt_lowestFree below with ⟨count, found, positive⟩
    rw [found, Option.getD_some] at dead
    exact dead positive

/-! ## Registers needed -/

theorem registersNeeded_serve (allocator : Allocator) (call : AllocatorCall) :
    (allocator.serve call).registersNeeded =
      match call with
      | .release _ => allocator.registersNeeded
      | .allocate _ => max allocator.registersNeeded (allocator.lowestFree + 1) := by
  cases call <;> rfl

/-- The table has one place for each of the registers that were needed. -/
theorem size_replay (calls : List AllocatorCall) :
    (replay calls).reads.size = (replay calls).registersNeeded := by
  induction calls using List.reverseRecOn with
  | nil => rfl
  | append_singleton calls call induction =>
      rw [replay_concat, registersNeeded_serve, ← induction]
      cases call with
      | release register => exact Array.size_modify
      | allocate reads =>
          have bounded := (replay calls).lowestFree_le
          simp only [serve, allocate]
          split
          · rw [Array.size_setIfInBounds]
            omega
          · rw [Array.size_push]
            omega

theorem registersNeeded_mono (prior : moment <+: calls) :
    (replay moment).registersNeeded ≤ (replay calls).registersNeeded := by
  rcases prior with ⟨later, rfl⟩
  induction later using List.reverseRecOn with
  | nil => rw [List.append_nil]
  | append_singleton later call induction =>
      rw [← List.append_assoc, replay_concat, registersNeeded_serve]
      cases call with
      | release register => exact induction
      | allocate reads => exact induction.trans (Nat.le_max_left _ _)

/-- Only registers that were needed are live. -/
theorem encard_liveAfter_le (calls : List AllocatorCall) :
    (liveAfter calls).encard ≤ (replay calls).registersNeeded := by
  have inside : liveAfter calls ⊆ Finset.range (replay calls).registersNeeded := by
    intro register live
    rw [mem_liveAfter_iff, Array.getD_eq_getD_getElem?] at live
    rw [Finset.coe_range, Set.mem_Iio, ← size_replay]
    apply Nat.lt_of_not_le
    intro beyond
    rw [Array.getElem?_eq_none beyond] at live
    exact Nat.lt_irrefl 0 live
  refine (Set.encard_le_encard inside).trans_eq ?_
  rw [Set.encard_coe_eq_coe_finsetCard, Finset.card_range]

/-- Once a value that is read has its register, all registers up to that one are live. -/
theorem lowestFree_lt_encard_liveAfter (calls : List AllocatorCall) (read : 0 < reads) :
    ((replay calls).lowestFree + 1 : Nat) ≤
      (liveAfter (calls ++ [.allocate reads])).encard := by
  have inside : ↑(Finset.range ((replay calls).lowestFree + 1)) ⊆
      liveAfter (calls ++ [.allocate reads]) := by
    intro register member
    rw [Finset.coe_range, Set.mem_Iio] at member
    rw [mem_liveAfter_iff, replay_concat, serve, getD_allocate]
    split
    · exact read
    · next different =>
        rw [← mem_liveAfter_iff]
        apply not_not.mp
        intro dead
        have least := (isLeast_allocate calls reads).2 dead
        exact different (Nat.le_antisymm (Nat.lt_succ_iff.mp member) least)
  refine Eq.trans_le ?_ (Set.encard_le_encard inside)
  rw [Set.encard_coe_eq_coe_finsetCard, Finset.card_range]

/-- At some moment as many registers were live as were ever needed. -/
theorem exists_peak (read : ∀ reads, .allocate reads ∈ calls → 0 < reads) :
    ∃ moment, moment <+: calls ∧
      (liveAfter moment).encard = (replay calls).registersNeeded := by
  induction calls using List.reverseRecOn with
  | nil =>
      refine ⟨[], List.prefix_refl _, le_antisymm (encard_liveAfter_le []) ?_⟩
      exact zero_le
  | append_singleton calls call induction =>
      rcases induction fun reads member => read reads (List.mem_append_left _ member) with
        ⟨moment, prior, peak⟩
      have former : ∃ moment, moment <+: calls ++ [call] ∧
          (liveAfter moment).encard = (replay calls).registersNeeded :=
        ⟨moment, prior.trans (List.prefix_append _ _), peak⟩
      cases call with
      | release register =>
          rw [replay_concat, registersNeeded_serve]
          exact former
      | allocate reads =>
          rcases Nat.le_total ((replay calls).lowestFree + 1)
              (replay calls).registersNeeded with known | new
          -- A register that was needed before leaves the peak where it was.
          · rw [replay_concat, registersNeeded_serve, Nat.max_eq_left known]
            exact former
          · refine ⟨_, List.prefix_refl _, le_antisymm (encard_liveAfter_le _) ?_⟩
            rw [replay_concat, registersNeeded_serve, Nat.max_eq_right new]
            exact lowestFree_lt_encard_liveAfter calls (read reads (by simp))

/--
Whatever is allocated and released, the allocator takes the least register that is not
live, and it knows which ones are live.  A register is live from the call that takes it
until the last of its reads is released, and the registers that are needed are as many as
were live at once.  Releases of registers that are not live change nothing of this.
-/
theorem registersNeeded_isGreatest (calls : List AllocatorCall)
    (read : ∀ reads, .allocate reads ∈ calls → 0 < reads) :
    (∀ reads, IsLeast (liveAfter calls)ᶜ ((replay calls).allocate reads).1) ∧
      (∀ register, (replay calls).isLive register = true ↔ register ∈ liveAfter calls) ∧
      (∀ before reads after,
        let register := ((replay before).allocate reads).1
        calls = before ++ .allocate reads :: after ++ [.release register] →
          after.count (.release register) + 1 = reads → register ∉ liveAfter calls) ∧
      IsGreatest {count | ∃ moment, moment <+: calls ∧ (liveAfter moment).encard = count}
        (replay calls).registersNeeded := by
  refine ⟨isLeast_allocate calls, fun register => ?_, ?_, exists_peak read, ?_⟩
  · rw [isLive_iff, mem_liveAfter_iff]
  · intro before reads after register split last
    rw [split]
    exact not_mem_liveAfter_of_released rfl last
  · rintro count ⟨moment, prior, rfl⟩
    refine (encard_liveAfter_le moment).trans ?_
    exact Nat.cast_le.mpr (registersNeeded_mono prior)

/-- The second of three registers is taken again while the others are live. -/
def refilledGap : List AllocatorCall :=
  [.allocate 2, .allocate 1, .allocate 1, .release 1, .allocate 3, .release 0,
    .release 2, .release 0]

/-- Four values are read, but no more than three registers were live at once. -/
theorem refilledGap_isGreatest :
    (∀ reads, .allocate reads ∈ refilledGap → 0 < reads) ∧
      IsLeast (liveAfter refilledGap)ᶜ 0 ∧ 1 ∈ liveAfter refilledGap ∧
      0 ∉ liveAfter refilledGap ∧
      IsGreatest
        {count | ∃ moment, moment <+: refilledGap ∧ (liveAfter moment).encard = count}
        (3 : Nat) := by
  have read : ∀ reads, .allocate reads ∈ refilledGap → 0 < reads := by
    simp [refilledGap]
  rcases registersNeeded_isGreatest refilledGap read with ⟨least, live, freed, greatest⟩
  have needed : (replay refilledGap).registersNeeded = 3 := by decide +kernel
  have first : ((replay []).allocate 2).1 = 0 := by decide +kernel
  have taken : ((replay refilledGap).allocate 1).1 = 0 := by decide +kernel
  refine ⟨read, taken ▸ least 1, (live 1).mp (by decide +kernel), ?_, needed ▸ greatest⟩
  exact first ▸ freed [] 2 refilledGap.tail.dropLast (by decide +kernel) (by decide +kernel)

end Allocator

end SolidField
