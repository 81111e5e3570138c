import SolidField.Proofs.Schedule.Sources

/-!
# Schedules of live nodes

Every trial ends, and its schedule is what the root needs, in an order of
dependencies: each node is applied as often as it takes, every input is read where it
was computed, and nothing is computed in vain.
-/

universe u

namespace SolidField

/-! ## Bounds of a visit -/

namespace Trial

variable {α : Type u} {graph : Graph α} {first second : Nat → Trial → Nat × Trial}

/-- A visit of an operand visits the nodes that it is made of. -/
theorem visitOperand_congr {operand : Operand} (node : NodeId) (opcode : Opcode)
    (same : ∀ index ∈ operand.leaves, first index = second index) :
    visitOperand first node opcode operand = visitOperand second node opcode operand := by
  induction operand with
  | node index =>
      funext trial
      rw [visitOperand, visitOperand, enter, enter, same index (by simp [Operand.leaves])]
  | fold left right leftInduction rightInduction =>
      simp only [Operand.leaves, List.mem_append] at same
      funext trial
      rw [visitOperand, visitOperand,
        leftInduction fun index member => same index (Or.inl member),
        rightInduction fun index member => same index (Or.inr member)]

theorem visitInputs_congr {operands : List Operand} (node : NodeId) (opcode : Opcode)
    (same : ∀ index ∈ operands.flatMap Operand.leaves, first index = second index)
    (trial : Trial) :
    visitInputs first node opcode operands trial =
      visitInputs second node opcode operands trial := by
  have each : ∀ operand ∈ operands, visitOperand first node opcode operand =
      visitOperand second node opcode operand := fun operand member =>
    visitOperand_congr node opcode fun index leaf =>
      same index (List.mem_flatMap.mpr ⟨operand, member, leaf⟩)
  match operands with
  | [] => rfl
  | [operand] => rw [visitInputs, visitInputs, each operand (by simp)]
  | left :: right :: _ =>
      rw [visitInputs, visitInputs, each left (by simp), each right (by simp)]

/-- The operands of a node are made of its dependencies, however they are arranged. -/
theorem perm_leaves_operands (trial : Trial) (dependencies : List Nat) :
    ((trial.operands dependencies).1.flatMap Operand.leaves).Perm dependencies := by
  rw [operands]
  split
  · exact (Operand.perm_leaves_ofDependencies _).trans (Arrangement.perm_arrange _ _)
  · exact Operand.perm_leaves_ofDependencies _

/-- A visit does not depend on the bound: it ends before the bound is used up. -/
theorem visit_eq_of_lt (valid : graph.Valid) (uses : Array Nat) {bound other index : Nat}
    (below : index < bound) (belowOther : index < other) :
    visit graph uses bound index = visit graph uses other index := by
  induction bound generalizing other index with
  | zero => omega
  | succ bound induction =>
      obtain ⟨other, rfl⟩ := Nat.exists_eq_add_one_of_ne_zero (Nat.ne_zero_of_lt belowOther)
      funext trial
      rw [visit, visit]
      split
      · rfl
      · next node found =>
          have same : ∀ dependency ∈ (trial.operands (graph.dependencies index)).1.flatMap
              Operand.leaves, visit graph uses bound dependency =
                visit graph uses other dependency := by
            intro dependency member
            have listed := (trial.perm_leaves_operands _).mem_iff.mp member
            have before := valid.lt_of_mem_dependencies dependency listed
            exact induction (by omega) (by omega)
          simp only [visitInputs_congr ⟨index⟩ node.opcode same]

end Trial

/-! ## Needed nodes -/

namespace Graph

variable {α : Type u} {graph : Graph α} {root id : NodeId}

/-- The nodes that a root needs are those that are counted as used. -/
theorem Valid.needs_iff (valid : graph.Valid) (inside : root.index < graph.size) :
    graph.Needs root id ↔ 0 < (graph.uses root).getD id.index 0 := by
  constructor
  · intro needs
    induction needs with
    | root =>
        rw [valid.getD_uses root inside, if_pos rfl]
        omega
    | dependency needs found listed isUsed =>
        refine valid.uses_pos_of_mem_dependencies isUsed _ ?_
        rw [dependencies_of_node? found]
        exact List.mem_map_of_mem listed
  · intro isUsed
    -- Down from the last node: what uses a node is behind it.
    induction distance : graph.size - id.index using Nat.strongRecOn
      generalizing id with
    | ind distance induction =>
        subst distance
        have here := lt_size_of_uses_pos isUsed
        rw [valid.getD_uses root here] at isUsed
        by_cases isRoot : id.index = root.index
        · have same : id = root := congrArg NodeId.mk isRoot
          exact same ▸ Needs.root
        · rw [if_neg isRoot, Nat.zero_add, occurrences_pos_iff] at isUsed
          rcases isUsed with ⟨other, below, otherUsed, listed⟩
          have before := valid.lt_of_mem_dependencies id.index listed
          have needs : graph.Needs root ⟨other⟩ :=
            induction (graph.size - other) (by omega) otherUsed rfl
          rcases exists_node?_of_lt below with ⟨node, found⟩
          rw [dependencies_of_node? found, List.mem_map] at listed
          rcases listed with ⟨dependency, listed, same⟩
          have same : dependency = id := congrArg NodeId.mk same
          exact same ▸ Needs.dependency needs found listed

end Graph

/-! ## The inputs of applications -/

namespace Application

variable {α : Type u} {graph : Graph α} {application : Application}

/-- Up to two dependencies are read in their order. -/
theorem Shaped.inputs_eq_of_le_two (shaped : application.Shaped graph) {index : Nat}
    (result : application.result = .node index)
    (few : (graph.dependencies index).length ≤ 2) :
    application.inputs = (graph.dependencies index).map .node := by
  cases shaped with
  | part many => cases result
  | node perm declared =>
      cases result
      rw [declared few, Operand.ofDependencies_of_le_two few, List.map_map]
      rfl

/-- More than two dependencies take binary applications. -/
theorem Shaped.length_inputs_of_two_lt (shaped : application.Shaped graph)
    (many : 2 < (graph.dependencies application.result.owner).length) :
    application.inputs.length = 2 := by
  cases shaped with
  | part _ => rfl
  | node perm declared =>
      rw [List.length_map, Operand.length_ofDependencies, perm.length_eq]
      exact Nat.min_eq_right (Nat.le_of_lt many)

end Application

/-! ## Entries of a complete history -/

namespace History

section Places

variable {α : Type u} {history : History}

theorem Sound.exists_place (sound : history.Sound) {position : Nat}
    (inside : position < history.length) :
    ∃ application ∈ history, history.place application.result = position := by
  induction history with
  | nil => cases inside
  | cons latest earlier induction =>
      rcases Nat.lt_succ_iff_lt_or_eq.mp inside with before | last
      · rcases induction sound.2.2 before with ⟨application, member, place⟩
        refine ⟨application, List.mem_cons_of_mem _ member, ?_⟩
        rw [place_of_ne, place]
        intro same
        exact sound.2.1 (same ▸ List.mem_map_of_mem member)
      · exact ⟨latest, by simp, by rw [place_result, last]⟩

/-- An application comes after those that compute its inputs. -/
theorem Sound.place_lt_place (sound : history.Sound) {application : Application}
    (member : application ∈ history) {input : Computed}
    (read : input ∈ application.inputs) :
    history.place input < history.place application.result := by
  rcases List.append_of_mem member with ⟨later, earlier, rfl⟩
  rw [place_append_input sound read, place_append_result sound]
  exact place_lt (sound.of_append.1 input read)

end Places

section Nodes

variable {α : Type u} {graph : Graph α} {root : NodeId} {history : History}
  {index : Nat} {application : Application} {parts : History}

theorem Outermost.positions_eq (outermost : history.Outermost index application parts)
    (sound : history.Sound) (uses : Array Nat) (trial : Nat) :
    ((Placement.ofHistory graph uses history).schedule trial).positions ⟨index⟩ =
      (parts.map fun part => history.place part.result).reverse ++
        [history.place (.node index)] := by
  rw [sound.positions_eq, outermost.ofOwner, List.map_cons, List.reverse_cons,
    outermost.result]

/-- A node is complete where it is computed. -/
theorem Complete.completion?_eq (valid : graph.Valid)
    (complete : history.Complete graph root) (trial : Nat)
    (computed : .node index ∈ history.results) :
    ((placement graph root history).schedule trial).completion? ⟨index⟩ =
      some (history.place (.node index)) := by
  rcases complete.exists_outermost valid computed with ⟨application, parts, outermost⟩
  rw [Schedule.completion?, outermost.positions_eq complete.sound, List.getLast?_concat]

/-- A node has as many entries as it takes to compute it. -/
theorem Complete.length_parts (complete : history.Complete graph root)
    (outermost : history.Outermost index application parts)
    (computed : .node index ∈ history.results) :
    parts.length + 1 = graph.applications index := by
  have count : history.owners.count index = (history.ofOwner index).length := by
    rw [owners, List.count_eq_countP, List.countP_map, ofOwner, List.countP_eq_length_filter]
    rfl
  have once : history.results.count (.node index) = 1 :=
    Nat.le_antisymm (List.nodup_iff_count.mp complete.sound.nodup _)
      (List.count_pos_iff.mpr computed)
  rw [complete.applied, outermost.ofOwner, once, Nat.one_mul] at count
  exact count.symm

/-- What the entries of a node read, all together. -/
theorem Complete.flatMap_sources_perm (valid : graph.Valid)
    (complete : history.Complete graph root)
    (outermost : history.Outermost index application parts) (trial : Nat) :
    let schedule := (placement graph root history).schedule trial
    ((schedule.positions ⟨index⟩).flatMap schedule.sources).Perm
      ((reads (application :: parts)).map fun input => some (history.place input)) := by
  intro schedule
  have sources : ∀ own ∈ application :: parts,
      schedule.sources (history.place own.result) =
        own.inputs.map fun input => some (history.place input) := by
    rw [← outermost.ofOwner]
    exact fun own member => complete.sources_place valid (mem_ofOwner.mp member).1 trial
  rw [complete.sound.positions_eq, outermost.ofOwner, reads, List.map_flatMap,
    ← List.flatMap_congr sources]
  refine ((List.reverse_perm _).flatMap_right _).trans (List.Perm.of_eq ?_)
  rw [List.flatMap_map]

/-- The dependencies of a computed node are complete where they are computed. -/
theorem Complete.map_completion? (valid : graph.Valid)
    (complete : history.Complete graph root) (trial : Nat) {id : NodeId} {node : Node α}
    (found : graph.node? id = some node) (computed : .node id.index ∈ history.results) :
    node.dependencies.map ((placement graph root history).schedule trial).completion? =
      (graph.dependencies id.index).map fun dependency =>
        some (history.place (.node dependency)) := by
  rw [Graph.dependencies_of_node? found, List.map_map]
  refine List.map_congr_left fun dependency listed => ?_
  refine complete.completion?_eq valid trial
    (complete.mem_results_of_mem_dependencies computed ?_)
  rw [Graph.dependencies_of_node? found]
  exact List.mem_map_of_mem listed

/-- The entries of a computed node compute it. -/
theorem Complete.computes (valid : graph.Valid) (complete : history.Complete graph root)
    (trial : Nat) {id : NodeId} {node : Node α} (found : graph.node? id = some node)
    (computed : .node id.index ∈ history.results) :
    ((placement graph root history).schedule trial).Computes id node := by
  rcases complete.exists_outermost valid computed with ⟨application, parts, outermost⟩
  have own : ∀ own ∈ application :: parts, own ∈ history ∧ own.result.owner = id.index := by
    rw [← outermost.ofOwner]
    exact fun own => mem_ofOwner.mp
  have positions : ((placement graph root history).schedule trial).positions id = _ :=
    outermost.positions_eq complete.sound (graph.uses root) trial
  have completions := complete.map_completion? valid trial found computed
  have length := complete.length_parts outermost computed
  have dependencies : (graph.dependencies id.index).length =
      node.dependencies.length := by
    rw [Graph.dependencies_of_node? found, List.length_map]
  rw [Graph.applications, dependencies] at length
  constructor
  · intro entry member same
    rw [Placement.schedule, List.mem_reverse] at member
    rcases Placement.exists_application_of_mem member with
      ⟨later, placed, earlier, -, rfl⟩
    rw [← Graph.opcodeAt_of_node? found, ← same]
    rfl
  · intro few
    obtain rfl : parts = [] := List.eq_nil_of_length_eq_zero (by omega)
    have shaped := complete.shaped application (own application (by simp)).1
    refine ⟨_, positions, ?_⟩
    rw [completions, ← outermost.result,
      complete.sources_place valid (own application (by simp)).1,
      shaped.inputs_eq_of_le_two outermost.result (by omega), List.map_map]
    rfl
  · intro many
    refine ⟨?_, ?_, ?_⟩
    · rw [positions, List.length_append, List.length_reverse, List.length_map,
        List.length_singleton]
      omega
    · intro position member
      rw [complete.sound.positions_eq, List.mem_reverse, outermost.ofOwner,
        List.mem_map] at member
      rcases member with ⟨reader, member, rfl⟩
      rcases own reader member with ⟨listed, owner⟩
      rw [complete.sources_place valid listed, List.length_map]
      refine (complete.shaped reader listed).length_inputs_of_two_lt ?_
      rw [owner, dependencies]
      exact many
    · refine (complete.flatMap_sources_perm valid outermost trial).trans ?_
      refine ((complete.perm_reads outermost).map _).trans ?_
      rw [positions, List.dropLast_concat, completions, List.map_append, List.map_map]
      refine List.Perm.append_right _ ?_
      rw [results, List.map_map, List.map_reverse, List.map_map]
      exact (List.reverse_perm _).symm

end Nodes

section Order

variable {graph : Graph Single} {root : NodeId} {history : History}

/-- Only the nodes that the root needs have entries. -/
theorem Complete.needs_of_mem_entries (valid : graph.Valid)
    (inside : root.index < graph.size) (complete : history.Complete graph root)
    {entry : ScheduleEntry} (member : entry ∈ (placement graph root history).entries) :
    graph.Needs root entry.node := by
  rcases Placement.exists_application_of_mem member with
    ⟨later, application, earlier, rfl, rfl⟩
  rw [valid.needs_iff inside]
  have applied : 0 < (owners (later ++ application :: earlier)).count
      application.result.owner :=
    List.count_pos_iff.mpr (by simp)
  rw [complete.count_owners valid] at applied
  split at applied
  · next isUsed => exact isUsed
  · exact absurd applied (Nat.lt_irrefl 0)

/-- The evaluation point comes first, in the first register. -/
theorem Complete.head?_entries (valid : graph.Valid)
    (complete : history.Complete graph root) :
    (placement graph root history).entries.reverse.head? =
      some ⟨Graph.point, .point, 0, []⟩ := by
  rcases List.eq_nil_or_concat history with rfl | ⟨later, application, rfl⟩
  · exact absurd complete.computesRoot (by simp [results])
  · rw [List.concat_eq_append] at complete ⊢
    have isPoint : application.result = .node 0 := by
      have member := Complete.point_mem_results valid later complete (by simp)
      exact (List.mem_singleton.mp member).symm
    have unread := complete.inputs_eq_nil valid (by simp) isPoint
    rcases Placement.exists_reverse_entries graph (graph.uses root) later application []
      with ⟨rest, entries⟩
    have entry : (placement graph root []).entry graph application =
        ⟨Graph.point, .point, 0, []⟩ := by
      rw [Placement.entry, Placement.target_nil graph _ unread, Placement.inputs, unread,
        isPoint, Computed.owner, valid.opcodeAt_zero]
      rfl
    rw [placement, entries, entry]
    rfl

/-- The root comes last. -/
theorem Complete.getLast?_entries (valid : graph.Valid)
    (complete : history.Complete graph root) :
    (placement graph root history).entries.reverse.getLast?.map ScheduleEntry.node =
      some root := by
  match history with
  | [] => exact absurd complete.computesRoot (by simp [results])
  | application :: earlier =>
      rw [List.getLast?_reverse, placement, Placement.ofHistory, Placement.apply,
        List.head?_cons, Option.map_some, Placement.entry, complete.result_eq valid]
      rfl

/-- What an entry reads was written before. -/
theorem Complete.exists_producer (valid : graph.Valid)
    (complete : history.Complete graph root) (trial position : Nat) :
    ∀ source ∈ ((placement graph root history).schedule trial).sources position,
      ∃ producer < position, source = some producer := by
  intro source member
  have inside : position < history.length := by
    rw [← Placement.length_entries graph (graph.uses root), ← List.length_reverse]
    apply Nat.lt_of_not_le
    intro outside
    have missing : ((placement graph root history).schedule trial).entries[position]? =
        none := List.getElem?_eq_none outside
    rw [Schedule.sources, missing] at member
    cases member
  rcases complete.sound.exists_place inside with ⟨application, listed, rfl⟩
  rw [complete.sources_place valid listed, List.mem_map] at member
  rcases member with ⟨input, read, rfl⟩
  exact ⟨_, complete.sound.place_lt_place listed read, rfl⟩

/-- The program returns what the application of the root has computed. -/
theorem Complete.returned?_eq (valid : graph.Valid)
    (complete : history.Complete graph root) (trial : Nat) :
    ((placement graph root history).schedule trial).returned? =
      some (history.place (.node root.index)) := by
  rw [Schedule.returned?, Placement.schedule, List.reverse_reverse]
  exact Complete.lastWriter?_eq valid [] complete complete.computesRoot (by simp [pending])
    (complete.register?_root valid trial)

/-- What an entry computes is read later, or it is returned. -/
theorem Complete.exists_reader (valid : graph.Valid)
    (complete : history.Complete graph root) (trial : Nat) {position : Nat}
    (inside : position < history.length) :
    let schedule := (placement graph root history).schedule trial
    (∃ later, position < later ∧ some position ∈ schedule.sources later) ∨
      schedule.returned? = some position := by
  intro schedule
  rcases complete.sound.exists_place inside with ⟨application, listed, rfl⟩
  by_cases isRoot : application.result = .node root.index
  · exact Or.inr (isRoot ▸ complete.returned?_eq valid trial)
  · have member : application.result ∈ history.results := List.mem_map_of_mem listed
    have isUsed := complete.uses_pos member
    rw [complete.uses_eq valid member, if_neg isRoot, Nat.add_zero,
      List.count_pos_iff] at isUsed
    rcases List.mem_flatMap.mp isUsed with ⟨reader, readerListed, read⟩
    refine Or.inl ⟨_, complete.sound.place_lt_place readerListed read, ?_⟩
    rw [complete.sources_place valid readerListed]
    exact List.mem_map_of_mem read

/-- The schedule of a complete history is what the root needs, in order. -/
theorem Complete.liveOrder (valid : graph.Valid) (inside : root.index < graph.size)
    (complete : history.Complete graph root) (trial : Nat) :
    graph.LiveOrder root ((placement graph root history).schedule trial) where
  computes := by
    intro id node needs found
    have isUsed := (valid.needs_iff inside).mp needs
    exact complete.computes valid trial found
      (complete.mem_results_of_used valid (Graph.index_lt_of_node? found) isUsed)
  needed entry member :=
    complete.needs_of_mem_entries valid inside (List.mem_reverse.mp member)
  first := complete.head?_entries valid
  last := complete.getLast?_entries valid
  produced := complete.exists_producer valid trial
  read position before := complete.exists_reader valid trial <| by
    rw [← Placement.length_entries graph (graph.uses root), ← List.length_reverse]
    exact before

end Order

end History

namespace Graph

/--
For every graph that can be made, every trial ends, and its schedule is exactly what the
root needs: each node with up to two dependencies once, each other node once less than
it has dependencies, behind what they read and in front of what reads them.
-/
theorem schedule_liveOrder (requests : List (NodeRequest Single)) (root : NodeId)
    (inside : root.index < (initial.makeAll requests).size) (order : TrialOrder)
    (trial : Nat) :
    let graph := initial.makeAll requests
    (∀ bound, root.index < bound →
      Trial.visit graph (graph.uses root) bound root.index (.start graph.size order) =
        Trial.visit graph (graph.uses root) graph.size root.index
          (.start graph.size order)) ∧
      ∃ schedule, graph.schedule root order trial = .ok schedule ∧
        graph.LiveOrder root schedule := by
  intro graph
  have valid : graph.Valid := valid_makeAll requests
  constructor
  · intro bound enough
    rw [Trial.visit_eq_of_lt valid (graph.uses root) enough inside]
  · rcases valid.exists_schedule inside order trial with ⟨history, complete, scheduled⟩
    exact ⟨_, scheduled, complete.liveOrder valid inside trial⟩

/-- A union of a sphere, three times, and its shell, beside a sphere apart. -/
def wideUnion : List (NodeRequest Single) :=
  [ ⟨.sphere, [1], [point], none⟩,
    ⟨.shell, [1], [⟨1⟩], none⟩,
    ⟨.sphere, [0], [point], none⟩,
    ⟨.union, [0], [⟨1⟩, ⟨2⟩, ⟨1⟩, ⟨1⟩], none⟩ ]

theorem exists_schedule_wideUnion :
    ∃ schedule,
      (initial.makeAll wideUnion).schedule ⟨4⟩ (.shuffled 7) 2 = .ok schedule ∧
        (schedule.entries.length, schedule.positions ⟨3⟩, schedule.positions ⟨4⟩) =
          (6, [], [3, 4, 5]) :=
  exists_eq_ok_of_map (by decide +kernel)

/-- The wide union takes three entries, and the sphere apart has none. -/
theorem wideUnion_liveOrder :
    let graph := initial.makeAll wideUnion
    ∃ schedule, graph.schedule ⟨4⟩ (.shuffled 7) 2 = .ok schedule ∧
      schedule.positions ⟨3⟩ = [] ∧ schedule.positions ⟨4⟩ = [3, 4, 5] ∧
        graph.LiveOrder ⟨4⟩ schedule := by
  intro graph
  rcases schedule_liveOrder wideUnion ⟨4⟩ (by decide +kernel) (.shuffled 7) 2 with
    ⟨-, schedule, scheduled, liveOrder⟩
  rcases exists_schedule_wideUnion with ⟨same, found, seen⟩
  obtain rfl := Except.ok.inj (scheduled.symm.trans found)
  rw [Prod.mk.injEq, Prod.mk.injEq] at seen
  exact ⟨schedule, scheduled, seen.2.1, seen.2.2, liveOrder⟩

end Graph

end SolidField
