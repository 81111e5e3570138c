import SolidField.Proofs.Program.RoundTrip
import SolidField.Proofs.Schedule.Live

/-!
# Where nodes are complete

A node with more than two dependencies has several entries in a schedule, and all but
the last compute partial results.  Behind its last entry the value of the node is in
the register of that entry, whatever the registers held before; no later entry is one
of the node.
-/

namespace SolidField

/-! ## The entry that completes a node -/

namespace Schedule

/-- The steps of entries; the evaluation point needs none. -/
def stepsOf (graph : Graph Single) (entries : List ScheduleEntry) : List MachineStep :=
  (entries.filter fun entry => entry.opcode ≠ .point).map
    fun entry => .ofInstruction (entry.instruction graph)

/--
An entry completes a node: it is the last one of the node, and the run up to it leaves
the value of the node in its register.
-/
structure Completes (schedule : Schedule) (graph : Graph Single)
    (folding : NodeId → List NodeId) (id : NodeId) (earlier : List ScheduleEntry)
    (entry : ScheduleEntry) (later : List ScheduleEntry) : Prop where
  entries : schedule.entries = earlier ++ entry :: later
  node : entry.node = id
  last : ∀ other ∈ later, other.node ≠ id
  register : entry.register < schedule.registersNeeded
  /-- The evaluation point has the first register from the start. -/
  point : id = Graph.point → earlier = [] ∧ entry.register = 0
  /-- Every other node is completed by an instruction. -/
  instruction : id ≠ Graph.point →
    entry.instruction graph ∈ schedule.instructions graph
  value : ∀ point, ∃ value, graph.FoldedValuation folding point value ∧
    ∀ registers : RegisterFile, schedule.registersNeeded ≤ registers.size →
      ∃ left,
        MachineStep.runAll (stepsOf graph (earlier ++ [entry]))
            (registers.setIfInBounds 0 (Kernel.pointValue point)) = .ok left ∧
          left[entry.register]? = some (value id)

end Schedule

namespace History

variable {graph : Graph Single} {root : NodeId} {history later earlier : History}
  {application : Application} {index : Nat}

/-- Behind the application that computes a node, the node is not applied again. -/
theorem Complete.exists_last (valid : graph.Valid)
    (complete : history.Complete graph root)
    (computed : .node index ∈ history.results) :
    ∃ later application earlier, history = later ++ application :: earlier ∧
      application.result = .node index ∧ (owners later).count index = 0 := by
  rcases complete.exists_outermost valid computed with ⟨application, parts, outermost⟩
  rcases List.filter_eq_cons_iff.mp outermost.ofOwner with
    ⟨later, earlier, split, others, -, -⟩
  refine ⟨later, application, earlier, split, outermost.result, ?_⟩
  rw [List.count_eq_zero]
  intro member
  rcases List.mem_map.mp member with ⟨other, listed, owner⟩
  exact others other listed (decide_eq_true owner)

/-- The entries behind that of an application are those of the later ones. -/
theorem countP_rest {rest : List ScheduleEntry} (uses : Array Nat) (id : NodeId)
    (entries :
      (Placement.ofHistory graph uses (later ++ application :: earlier)).entries.reverse =
        (Placement.ofHistory graph uses earlier).entries.reverse ++
          (Placement.ofHistory graph uses earlier).entry graph application :: rest) :
    rest.countP (fun entry => entry.node = id) = (owners later).count id.index := by
  have whole := Placement.countP_entries graph uses (later ++ application :: earlier) id
  have front := Placement.countP_entries graph uses (application :: earlier) id
  rw [Placement.ofHistory, Placement.apply, List.countP_cons] at front
  rw [← List.countP_reverse, entries, List.countP_append, List.countP_reverse,
    List.countP_cons, owners_append, List.count_append] at whole
  omega

/-- What an application computes has a register behind it, with its value. -/
theorem Complete.exists_runAll (valid : graph.Valid)
    (complete : Complete graph root (later ++ application :: earlier))
    (small : (placement graph root (application :: earlier)).allocator.registersNeeded ≤
      maxRegisters)
    {order : NodeId → List NodeId} {point : Vec3 Single}
    {value : NodeId → Vec4 Single} (folding : graph.Folding order)
    (ordered : OrderedBy (later ++ application :: earlier) order)
    (folded : graph.FoldedValuation order point value) {registers : RegisterFile}
    (room : (placement graph root (application :: earlier)).allocator.registersNeeded ≤
      registers.size) :
    ∃ left,
      MachineStep.runAll ((placement graph root (application :: earlier)).steps graph)
          (registers.setIfInBounds 0 (Kernel.pointValue point)) = .ok left ∧
        left[(placement graph root earlier).target application]? =
          some (application.result.value graph value) := by
  rcases valid.point with ⟨node, found, opcode, -⟩
  have positive : 0 < registers.size := by
    have target := Placement.target_lt_registersNeeded graph (graph.uses root)
      (placement graph root earlier) application
    exact Nat.lt_of_le_of_lt (Nat.zero_le _) (Nat.lt_of_lt_of_le target room)
  obtain ⟨left, ran, -, holds⟩ := Complete.exists_runAllTampered valid later complete
    (fun other member _ => complete.produces_value folding ordered folded
      (List.mem_append_right _ member))
    (registers.setIfInBounds 0 (Kernel.pointValue point))
    (by simp [positive]) (folded.point _ node found opcode).symm
    (by simpa using room) small
  rw [MachineStep.runAllTampered_truncate] at ran
  -- What was computed last is still to be read.
  have live : 0 < pending root later application.result := by
    rw [← complete.uses_eq_pending valid]
    exact complete.uses_pos (by simp)
  rcases holds _ (by simp) live with ⟨register, content, placed, stored, rfl⟩
  rw [placement, Placement.register?_cons, if_pos rfl, Option.some.injEq] at placed
  subst register
  exact ⟨left, ran, stored⟩

/-- A node that is used has an entry that completes it. -/
theorem Complete.exists_completes (valid : graph.Valid)
    (complete : history.Complete graph root) (trial : Nat)
    (small : (placement graph root history).allocator.registersNeeded ≤ maxRegisters)
    {order : NodeId → List NodeId} (folding : graph.Folding order)
    (ordered : history.OrderedBy order) {id : NodeId}
    (computed : .node id.index ∈ history.results) :
    ∃ earlier entry later,
      ((placement graph root history).schedule trial).Completes graph order id
        earlier entry later := by
  rcases complete.exists_last valid computed with
    ⟨later, application, before, rfl, result, others⟩
  rcases Placement.exists_reverse_entries graph (graph.uses root) later application before
    with ⟨rest, entries⟩
  have more := Placement.registersNeeded_le_append graph (graph.uses root) later
    (application :: before)
  have target := Placement.target_lt_registersNeeded graph (graph.uses root)
    (placement graph root before) application
  refine ⟨(placement graph root before).entries.reverse,
    (placement graph root before).entry graph application, rest, ?_⟩
  constructor
  · exact entries
  · rw [Placement.entry, result]
    rfl
  · intro other member same
    rw [← countP_rest (graph.uses root) id entries, List.countP_eq_zero] at others
    exact others other member (decide_eq_true same)
  · exact Nat.lt_of_lt_of_le target more
  · rintro rfl
    obtain rfl := complete.earlier_eq_nil valid result
    have unread := complete.inputs_eq_nil valid (by simp) result
    exact ⟨rfl, Placement.target_nil graph (graph.uses root) unread⟩
  · intro notPoint
    have notZero : application.result ≠ .node 0 := by
      rw [result]
      exact fun same => notPoint (congrArg NodeId.mk (Computed.node.inj same))
    rcases complete.exists_admissible valid (by simp) notZero with
      ⟨node, found, admissible⟩
    refine List.mem_append_left _ (List.mem_map_of_mem (List.mem_filter.mpr ⟨?_, ?_⟩))
    · rw [Placement.schedule, entries]
      exact List.mem_append_right _ List.mem_cons_self
    · rw [decide_eq_true_eq, Placement.entry, Graph.opcodeAt_of_node? found]
      exact Opcode.ne_point_of_hasKernel admissible.kernel
  · intro point
    rcases Graph.exists_foldedValuation valid folding point with ⟨value, folded⟩
    refine ⟨value, folded, fun registers room => ?_⟩
    rcases complete.exists_runAll valid (Nat.le_trans more small) folding ordered folded
        (Nat.le_trans more room) with
      ⟨left, ran, stored⟩
    have steps : (placement graph root (application :: before)).steps graph =
        Schedule.stepsOf graph ((placement graph root before).entries.reverse ++
          [(placement graph root before).entry graph application]) :=
      congrArg (Schedule.stepsOf graph) List.reverse_cons
    refine ⟨left, steps ▸ ran, ?_⟩
    rw [Placement.entry, stored, result]
    rfl

end History

end SolidField
