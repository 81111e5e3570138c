import SolidField.Schedule.Sources
import SolidField.Proofs.Program.Compilation
import SolidField.Proofs.Schedule.Owners

/-!
# Where a history reads

Every application of a complete history stands at a place of its own in the schedule.
Its inputs are in registers that nothing has overwritten since they were computed, so
what last wrote them are the applications that they name.
-/

universe u

namespace SolidField

namespace History

variable {α : Type u}

/-- The place of the application that computes a value, in the order of evaluation. -/
def place : History → Computed → Nat
  | [], _ => 0
  | application :: earlier, value =>
      if application.result = value then earlier.length else place earlier value

@[simp]
theorem place_result (application : Application) (earlier : History) :
    place (application :: earlier) application.result = earlier.length :=
  if_pos rfl

theorem place_of_ne {application : Application} {earlier : History} {value : Computed}
    (other : value ≠ application.result) :
    place (application :: earlier) value = place earlier value :=
  if_neg other.symm

theorem place_lt {history : History} {value : Computed}
    (member : value ∈ history.results) : history.place value < history.length := by
  induction history with
  | nil => cases member
  | cons application earlier induction =>
      rw [place]
      split
      · exact Nat.lt_succ_self _
      · next other =>
          rw [results_cons, List.mem_cons] at member
          exact Nat.lt_succ_of_lt (induction (member.resolve_left (Ne.symm other)))

/-- What is computed later does not move a value. -/
theorem place_append {later earlier : History} (sound : (later ++ earlier).Sound)
    {value : Computed} (member : value ∈ earlier.results) :
    place (later ++ earlier) value = place earlier value := by
  induction later with
  | nil => rfl
  | cons application later induction =>
      have other : value ≠ application.result := by
        rintro rfl
        exact sound.2.1 (by simp [member])
      rw [List.cons_append, place_of_ne other, induction sound.2.2]

/-- An application has its place behind those before it. -/
theorem place_append_result {later earlier : History} {application : Application}
    (sound : Sound (later ++ application :: earlier)) :
    place (later ++ application :: earlier) application.result = earlier.length := by
  rw [place_append sound (by simp), place_result]

/-- The inputs of an application keep their places. -/
theorem place_append_input {later earlier : History} {application : Application}
    (sound : Sound (later ++ application :: earlier)) {input : Computed}
    (read : input ∈ application.inputs) :
    place (later ++ application :: earlier) input = place earlier input := by
  have before : Sound (later ++ [application] ++ earlier) := by simpa using sound
  rw [← place_append before (sound.of_append.1 input read), List.append_assoc,
    List.singleton_append]

end History

namespace Placement

variable {α : Type u} (graph : Graph α) (uses : Array Nat)

theorem length_entries (history : History) :
    (ofHistory graph uses history).entries.length = history.length := by
  induction history with
  | nil => rfl
  | cons application earlier induction =>
      rw [ofHistory, apply, List.length_cons, induction, List.length_cons]

theorem register?_cons (application : Application) (earlier : History)
    (value : Computed) :
    (ofHistory graph uses (application :: earlier)).register? value =
      if value = application.result then
        some ((ofHistory graph uses earlier).target application)
      else (ofHistory graph uses earlier).register? value := rfl

theorem lastWriter?_cons (application : Application) (earlier : History)
    (register : Nat) :
    lastWriter? register (ofHistory graph uses (application :: earlier)).entries =
      if (ofHistory graph uses earlier).target application = register then
        some earlier.length
      else lastWriter? register (ofHistory graph uses earlier).entries := by
  rw [← length_entries graph uses earlier]
  rfl

/-- The entries of a history end with those of its earlier part. -/
theorem exists_entries_append (later earlier : History) :
    ∃ front, (ofHistory graph uses (later ++ earlier)).entries =
      front ++ (ofHistory graph uses earlier).entries := by
  induction later with
  | nil => exact ⟨[], rfl⟩
  | cons application later induction =>
      rcases induction with ⟨front, entries⟩
      rw [List.cons_append, ofHistory, apply, entries]
      exact ⟨_ :: front, rfl⟩

/-- In the order of evaluation an application has the entries before it in front. -/
theorem exists_reverse_entries (later : History) (application : Application)
    (earlier : History) :
    ∃ rest,
      (ofHistory graph uses (later ++ application :: earlier)).entries.reverse =
        (ofHistory graph uses earlier).entries.reverse ++
          (ofHistory graph uses earlier).entry graph application :: rest := by
  rcases exists_entries_append graph uses later (application :: earlier) with
    ⟨front, entries⟩
  rw [entries, ofHistory, apply]
  exact ⟨front.reverse, by simp⟩

theorem positions_cons (application : Application) (earlier : History) (trial : Nat)
    (id : NodeId) :
    ((ofHistory graph uses (application :: earlier)).schedule trial).positions id =
      ((ofHistory graph uses earlier).schedule trial).positions id ++
        if application.result.owner = id.index then [earlier.length] else [] := by
  rcases id with ⟨index⟩
  have length : (ofHistory graph uses earlier).entries.reverse.length =
      earlier.length := by
    rw [List.length_reverse, length_entries]
  have entries : (ofHistory graph uses (application :: earlier)).entries.reverse =
      (ofHistory graph uses earlier).entries.reverse ++
        [(ofHistory graph uses earlier).entry graph application] := List.reverse_cons
  simp only [Schedule.positions, schedule]
  rw [entries, List.zipIdx_append, List.filter_append, List.map_append, Nat.zero_add,
    length, List.zipIdx_singleton]
  refine congrArg _ ?_
  by_cases own : application.result.owner = index
  · simp [entry, own]
  · simp [entry, own]

end Placement

namespace History

variable {α : Type u} {graph : Graph α} {root : NodeId} {history : History}

/-- What is still to be read was last written by the application that computed it. -/
theorem Complete.lastWriter?_eq (valid : graph.Valid) (later : History)
    {earlier : History} (complete : Complete graph root (later ++ earlier))
    {value : Computed} (member : value ∈ earlier.results)
    (live : 0 < pending root later value) {register : Nat}
    (placed : (placement graph root earlier).register? value = some register) :
    lastWriter? register (placement graph root earlier).entries =
      some (earlier.place value) := by
  -- The latest application has overwritten nothing that is still to be read.
  induction earlier generalizing later with
  | nil => cases member
  | cons application earlier induction =>
      have completeBefore := complete.regroup
      have sound := complete.sound.of_append
      have served := pending_append root later application
      rw [placement, Placement.register?_cons] at placed
      rw [placement, Placement.lastWriter?_cons]
      by_cases latest : value = application.result
      · rw [if_pos latest, Option.some.injEq] at placed
        rw [if_pos placed, latest, place_result]
      · rw [if_neg latest] at placed
        have known := (List.mem_cons.mp member).resolve_left latest
        have kept := (completeBefore.allocated valid _).register?_ne_target sound.1
          (fun value _ => served value) known live
        have other : (placement graph root earlier).target application ≠ register :=
          fun same => kept (same ▸ placed)
        rw [if_neg other, place_of_ne latest]
        exact induction _ completeBefore known (by rw [served]; omega) placed

/-- An application reads where its inputs were computed. -/
theorem Complete.sources_eq (valid : graph.Valid) {later earlier : History}
    {application : Application}
    (complete : Complete graph root (later ++ application :: earlier)) (trial : Nat) :
    ((placement graph root (later ++ application :: earlier)).schedule trial).sources
        earlier.length =
      application.inputs.map fun input =>
        some (place (later ++ application :: earlier) input) := by
  rcases Placement.exists_reverse_entries graph (graph.uses root) later application
      earlier with ⟨rest, entries⟩
  have length : (placement graph root earlier).entries.reverse.length =
      earlier.length := by
    rw [List.length_reverse, Placement.length_entries]
  have completeBefore := complete.regroup
  have known := complete.sound.of_append.1
  have found : ((placement graph root (later ++ application :: earlier)).schedule
      trial).entries[earlier.length]? =
        some ((placement graph root earlier).entry graph application) := by
    rw [Placement.schedule, placement, entries, ← length]
    simp
  have before : ((placement graph root (later ++ application :: earlier)).schedule
      trial).entries.take earlier.length =
        (placement graph root earlier).entries.reverse := by
    rw [Placement.schedule, placement, entries, ← length]
    exact List.take_left
  simp only [Schedule.sources, found, before, List.reverse_reverse, Placement.entry,
    Placement.inputs, List.map_map]
  refine List.map_congr_left fun input read => ?_
  have live : 0 < pending root (later ++ [application]) input := by
    rw [pending_append]
    have := List.count_pos_iff.mpr read
    omega
  rcases (completeBefore.allocated valid _).placed input (known input read) with
    ⟨register, placed, -⟩
  rw [Function.comp_apply, placed, Option.getD_some,
    completeBefore.lastWriter?_eq valid _ (known input read) live placed,
    place_append_input complete.sound read]

/-- Every application of a complete history has its place in the schedule. -/
theorem Complete.sources_place (valid : graph.Valid)
    (complete : history.Complete graph root) {application : Application}
    (member : application ∈ history) (trial : Nat) :
    ((placement graph root history).schedule trial).sources
        (history.place application.result) =
      application.inputs.map fun input => some (history.place input) := by
  rcases List.append_of_mem member with ⟨later, earlier, rfl⟩
  rw [place_append_result complete.sound]
  exact complete.sources_eq valid trial

/-- The entries of a node are those of its applications. -/
theorem Sound.positions_eq (sound : history.Sound) (uses : Array Nat) (trial : Nat)
    (id : NodeId) :
    ((Placement.ofHistory graph uses history).schedule trial).positions id =
      ((history.ofOwner id.index).map fun application =>
        history.place application.result).reverse := by
  induction history with
  | nil => rfl
  | cons application earlier induction =>
      have kept : (ofOwner earlier id.index).map (fun other =>
            place (application :: earlier) other.result) =
          (ofOwner earlier id.index).map fun other => place earlier other.result := by
        refine List.map_congr_left fun other member => place_of_ne fun same => ?_
        exact sound.2.1 (same ▸ List.mem_map_of_mem (mem_ofOwner.mp member).1)
      rw [Placement.positions_cons, induction sound.2.2, ← kept]
      by_cases own : application.result.owner = id.index
      · rw [if_pos own, ofOwner_cons_of_eq own, List.map_cons, List.reverse_cons,
          place_result]
      · rw [if_neg own, ofOwner_cons_of_ne own, List.append_nil]

end History

end SolidField
