import SolidField.Proofs.Schedule.Live

/-!
# The declared order

A trial in the declared order visits inputs from the left, and its history is a
function of the graph (`Graph.history_record`).  What a visit adds to a history
depends only on which of the nodes that it needs are computed already
(`Graph.Valid.alike_declare`).
-/

universe u

namespace SolidField

namespace History

/-! ## Visits in the declared order -/

/-- Visit a node unless it is computed. -/
def enter (visit : Nat → History → History) (index : Nat) (known : History) : History :=
  if .node index ∈ known.results then known else visit index known

/-- Visit an input, from the left. -/
def visitOperand (visit : Nat → History → History) (owner : Nat) :
    Operand → History → History
  | .node index, known => enter visit index known
  | .fold first second, known =>
      ⟨.part owner (.fold first second), [.ofOperand owner first, .ofOperand owner second]⟩ ::
        visitOperand visit owner second (visitOperand visit owner first known)

/-- Visit inputs, from the left. -/
def visitOperands (visit : Nat → History → History) (owner : Nat)
    (operands : List Operand) (known : History) : History :=
  operands.foldl (fun known operand => visitOperand visit owner operand known) known

end History

/-- Visit a node below a bound: its inputs from the left, then the node itself. -/
def Graph.declare {α : Type u} (graph : Graph α) : Nat → Nat → History → History
  | 0, _, known => known
  | bound + 1, index, known =>
      if index < graph.size then
        let operands := Operand.ofDependencies (graph.dependencies index)
        ⟨.node index, operands.map (.ofOperand index)⟩ ::
          known.visitOperands (graph.declare bound) index operands
      else
        known

/-! ## The history of a recording -/

namespace Recording

variable {α : Type u} {graph : Graph α} {recording : Recording} {known : History}
  {visitNode : Nat → Recording → Nat × Recording} {declareNode : Nat → History → History}

/-- A recording of a history in the declared order, with the nodes in it registered. -/
structure Declared (graph : Graph α) (recording : Recording) (known : History) : Prop where
  arrangement : recording.trial.arrangement = .identity
  size : recording.trial.registers.size = graph.size
  history : recording.history = known
  computed : ∀ index,
    recording.trial.register? index = none ↔ .node index ∉ known.results

theorem declared_start (graph : Graph α) :
    (start graph.size .identity).Declared graph [] where
  arrangement := rfl
  size := by simp [start, Trial.start]
  history := rfl
  computed := by
    intro index
    simp only [start, Trial.start, Trial.register?, Array.getElem?_replicate]
    split <;> simp [History.results]

theorem Declared.emit_part (declared : recording.Declared graph known) (owner : Nat)
    (operand : Operand) (inputs : List Computed) (opcode : Opcode) (uses : Nat)
    (registers : List Nat) :
    (recording.emit ⟨.part owner operand, inputs⟩ opcode uses registers).2.Declared graph
      (⟨.part owner operand, inputs⟩ :: known) where
  arrangement := declared.arrangement
  size := declared.size
  history := congrArg _ declared.history
  computed := by
    intro index
    refine (declared.computed index).trans (not_congr ?_)
    simp

theorem Declared.emit_node (declared : recording.Declared graph known) {index : Nat}
    (inside : index < graph.size) (inputs : List Computed) (opcode : Opcode) (uses : Nat)
    (registers : List Nat) :
    let emitted := recording.emit ⟨.node index, inputs⟩ opcode uses registers
    (emitted.2.assign index emitted.1).Declared graph (⟨.node index, inputs⟩ :: known) where
  arrangement := declared.arrangement
  size := by simpa [emit, assign, Trial.emit, Trial.assign] using declared.size
  history := congrArg _ declared.history
  computed := by
    intro other
    simp only [emit, assign]
    rw [Trial.register?_assign _ _ _ (by simpa [Trial.emit, declared.size] using inside)]
    by_cases same : other = index
    · simp [same]
    · rw [if_neg same]
      refine (declared.computed other).trans (not_congr ?_)
      simp [same]

/-- A recorded visit adds what a visit to the history adds. -/
def Declares {β : Type} (graph : Graph α) (recorded : Recording → β × Recording)
    (visit : History → History) : Prop :=
  ∀ recording known, recording.Declared graph known →
    (recorded recording).2.Declared graph (visit known)

theorem declares_enter {index : Nat}
    (declares : Declares graph (visitNode index) (declareNode index)) :
    Declares graph (enter visitNode index) (History.enter declareNode index) := by
  intro recording known declared
  rw [enter, History.enter]
  cases register : recording.trial.register? index with
  | some place =>
      have member : .node index ∈ known.results := by
        apply Decidable.not_not.mp
        intro missing
        rw [(declared.computed index).mpr missing] at register
        cases register
      rw [if_pos member]
      exact declared
  | none =>
      rw [if_neg ((declared.computed index).mp register)]
      exact declares recording known declared

/-- The first of two inputs comes first. -/
theorem declares_visitBoth {first second : Recording → Nat × Recording}
    {declareFirst declareSecond : History → History}
    (declaresFirst : Declares graph first declareFirst)
    (declaresSecond : Declares graph second declareSecond) :
    Declares graph (visitBoth first second) (declareSecond ∘ declareFirst) := by
  intro recording known declared
  have arranged : recording.arrange [true, false] = ([true, false], recording) := by
    rw [arrange, Trial.arrange, declared.arrangement, Arrangement.arrange,
      ← declared.arrangement]
  have visited : (visitBoth first second recording).2 =
      (second (first recording).2).2 := by
    rw [visitBoth, arranged]
    rfl
  rw [visited]
  exact declaresSecond _ _ (declaresFirst recording known declared)

theorem declares_visitOperand (owner : Nat) (opcode : Opcode) (operand : Operand)
    (declares : ∀ index, Declares graph (visitNode index) (declareNode index)) :
    Declares graph (visitOperand visitNode owner opcode operand)
      (History.visitOperand declareNode owner operand) := by
  induction operand with
  | node index => exact declares_enter (declares index)
  | fold first second firstInduction secondInduction =>
      intro recording known declared
      have inputs :=
        declares_visitBoth firstInduction secondInduction recording known declared
      exact inputs.emit_part owner (.fold first second) _ opcode 1 _

theorem declares_visitInputs (owner : Nat) (opcode : Opcode) (dependencies : List Nat)
    (declares : ∀ index, Declares graph (visitNode index) (declareNode index)) :
    Declares graph
      (visitInputs visitNode owner opcode (Operand.ofDependencies dependencies))
      (History.visitOperands declareNode owner (Operand.ofDependencies dependencies)) := by
  intro recording known declared
  rcases Operand.ofDependencies_cases dependencies with
    none | ⟨operand, single⟩ | ⟨first, second, pair, -⟩
  · rw [none]
    exact declared
  · rw [single]
    exact declares_visitOperand owner opcode operand declares recording known declared
  · rw [pair]
    exact declares_visitBoth (declares_visitOperand owner opcode first declares)
      (declares_visitOperand owner opcode second declares) recording known declared

theorem Declared.operands (declared : recording.Declared graph known)
    (dependencies : List Nat) :
    recording.operands dependencies = (Operand.ofDependencies dependencies, recording) := by
  have arranged : recording.trial.arrange dependencies = (dependencies, recording.trial) := by
    rw [Trial.arrange, declared.arrangement, Arrangement.arrange, ← declared.arrangement]
  rw [Recording.operands, Trial.operands, arranged, ite_self]

/-- A recorded visit of a node in the declared order. -/
theorem declares_visit (graph : Graph α) (uses : Array Nat) (bound index : Nat) :
    Declares graph (visit graph uses bound index) (graph.declare bound index) := by
  induction bound generalizing index with
  | zero => exact fun recording known declared => declared
  | succ bound induction =>
      intro recording known declared
      rw [Graph.declare]
      by_cases inside : index < graph.size
      · rw [if_pos inside]
        rcases Graph.exists_node?_of_lt inside with ⟨node, found⟩
        have inputs := declares_visitInputs index (graph.opcodeAt index)
          (graph.dependencies index) induction recording known declared
        rw [visit_of_node? found, declared.operands]
        exact inputs.emit_node inside _ _ _ _
      · rw [if_neg inside]
        have missing : graph.nodes[index]? = none :=
          Array.getElem?_eq_none (Nat.le_of_not_lt inside)
        simp only [visit, missing]
        exact declared

end Recording

/-- The history of the trial in the declared order. -/
theorem Graph.history_record {α : Type u} (graph : Graph α) (root : NodeId) :
    (graph.record root .identity).history = graph.declare graph.size root.index [] :=
  (Recording.declares_visit graph (graph.uses root) graph.size root.index _ _
    (Recording.declared_start graph)).history

/-! ## What a visit adds -/

namespace History

/-- Two histories have computed the same of some nodes. -/
def Agree (nodes : Nat → Prop) (known other : History) : Prop :=
  ∀ index, nodes index → (.node index ∈ known.results ↔ .node index ∈ other.results)

theorem Agree.refl (nodes : Nat → Prop) (known : History) : Agree nodes known known :=
  fun _ _ => Iff.rfl

theorem Agree.append {nodes : Nat → Prop} {known other : History}
    (agree : Agree nodes known other) (more : History) :
    Agree nodes (more ++ known) (more ++ other) := by
  intro index member
  rw [results_append, results_append, List.mem_append, List.mem_append, agree index member]

/-- Two visits add the same to histories that agree, and compute only some nodes. -/
def Alike (nodes : Nat → Prop) (visit another : History → History) : Prop :=
  ∀ known other, Agree nodes known other →
    ∃ more, visit known = more ++ known ∧ another other = more ++ other ∧
      ∀ index, .node index ∈ more.results → nodes index

variable {nodes : Nat → Prop} {first second otherFirst otherSecond : History → History}
  {declareNode otherNode : Nat → History → History}

theorem Alike.mono {fewer : Nat → Prop} (alike : Alike fewer first otherFirst)
    (within : ∀ index, fewer index → nodes index) : Alike nodes first otherFirst := by
  intro known other agree
  rcases alike known other fun index member => agree index (within index member) with
    ⟨more, added, otherAdded, computed⟩
  exact ⟨more, added, otherAdded, fun index member => within index (computed index member)⟩

theorem Alike.comp (alikeFirst : Alike nodes first otherFirst)
    (alikeSecond : Alike nodes second otherSecond) :
    Alike nodes (second ∘ first) (otherSecond ∘ otherFirst) := by
  intro known other agree
  rcases alikeFirst known other agree with ⟨more, added, otherAdded, computed⟩
  rcases alikeSecond _ _ (agree.append more) with ⟨most, further, otherFurther, computedThen⟩
  refine ⟨most ++ more, ?_, ?_, fun index member => ?_⟩
  · rw [Function.comp_apply, added, further, List.append_assoc]
  · rw [Function.comp_apply, otherAdded, otherFurther, List.append_assoc]
  · rw [results_append, List.mem_append] at member
    exact member.elim (computedThen index) (computed index)

theorem Alike.cons (alike : Alike nodes first otherFirst) (application : Application)
    (within : ∀ index, application.result = .node index → nodes index) :
    Alike nodes (fun known => application :: first known)
      fun known => application :: otherFirst known := by
  intro known other agree
  rcases alike known other agree with ⟨more, added, otherAdded, computed⟩
  refine ⟨application :: more, congrArg (List.cons application) added,
    congrArg (List.cons application) otherAdded, ?_⟩
  intro index member
  rw [results_cons, List.mem_cons] at member
  exact member.elim (fun same => within index same.symm) (computed index)

theorem Alike.enter {index : Nat} (alike : Alike nodes (declareNode index) (otherNode index))
    (own : nodes index) : Alike nodes (enter declareNode index) (enter otherNode index) := by
  intro known other agree
  rw [History.enter, History.enter]
  by_cases computed : .node index ∈ known.results
  · rw [if_pos computed, if_pos ((agree index own).mp computed)]
    exact ⟨[], rfl, rfl, by simp [results]⟩
  · rw [if_neg computed, if_neg (mt (agree index own).mpr computed)]
    exact alike known other agree

theorem alike_visitOperand (owner : Nat) {operand : Operand}
    (alike : ∀ leaf ∈ operand.leaves,
      Alike nodes (enter declareNode leaf) (enter otherNode leaf)) :
    Alike nodes (visitOperand declareNode owner operand)
      (visitOperand otherNode owner operand) := by
  induction operand with
  | node index => exact alike index (by simp [Operand.leaves])
  | fold first second firstInduction secondInduction =>
      simp only [Operand.leaves, List.mem_append] at alike
      have inputs := (firstInduction fun leaf member => alike leaf (Or.inl member)).comp
        (secondInduction fun leaf member => alike leaf (Or.inr member))
      refine inputs.cons _ fun index same => ?_
      cases same

theorem alike_visitOperands (owner : Nat) {operands : List Operand}
    (alike : ∀ leaf ∈ operands.flatMap Operand.leaves,
      Alike nodes (enter declareNode leaf) (enter otherNode leaf)) :
    Alike nodes (visitOperands declareNode owner operands)
      (visitOperands otherNode owner operands) := by
  induction operands with
  | nil => exact fun known other agree => ⟨[], rfl, rfl, by simp [results]⟩
  | cons operand operands induction =>
      simp only [List.flatMap_cons, List.mem_append] at alike
      exact (alike_visitOperand owner fun leaf member => alike leaf (Or.inl member)).comp
        (induction fun leaf member => alike leaf (Or.inr member))

end History

namespace Graph

variable {α : Type u} {graph : Graph α}

theorem needs_of_mem_dependencies {index dependency : Nat}
    (listed : dependency ∈ graph.dependencies index) :
    graph.Needs ⟨index⟩ ⟨dependency⟩ := by
  rcases exists_node?_of_lt (lt_size_of_mem_dependencies listed) with ⟨node, found⟩
  rw [dependencies_of_node? found, List.mem_map] at listed
  rcases listed with ⟨id, listed, rfl⟩
  exact .dependency .root found listed

/-- The dependencies of a node are nodes of the graph. -/
theorem Valid.inside_of_mem_dependencies (valid : graph.Valid) {index dependency : Nat}
    (listed : dependency ∈ graph.dependencies index) :
    (⟨dependency⟩ : NodeId).index < graph.size :=
  Nat.lt_trans (valid.lt_of_mem_dependencies dependency listed)
    (lt_size_of_mem_dependencies listed)

theorem Needs.trans {root id other : NodeId} (needs : graph.Needs root id)
    (further : graph.Needs id other) : graph.Needs root other := by
  induction further with
  | root => exact needs
  | dependency _ found listed induction => exact .dependency induction found listed

/-- What a visit of a node adds depends on what is computed of the nodes that it needs. -/
theorem Valid.alike_declare (valid : graph.Valid) {bound other index : Nat}
    (below : index < bound) (belowOther : index < other) :
    History.Alike (fun needed => graph.Needs ⟨index⟩ ⟨needed⟩) (graph.declare bound index)
      (graph.declare other index) := by
  induction bound generalizing other index with
  | zero => omega
  | succ bound induction =>
      obtain ⟨other, rfl⟩ := Nat.exists_eq_add_one_of_ne_zero (Nat.ne_zero_of_lt belowOther)
      by_cases inside : index < graph.size
      · simp only [declare, if_pos inside]
        refine (History.alike_visitOperands index fun leaf member => ?_).cons _ ?_
        · have listed := (Operand.perm_leaves_ofDependencies _).mem_iff.mp member
          have before := valid.lt_of_mem_dependencies leaf listed
          have needs := needs_of_mem_dependencies listed
          exact ((induction (by omega) (by omega)).enter .root).mono
            fun _ further => needs.trans further
        · intro needed same
          cases same
          exact .root
      · simp only [declare, if_neg inside]
        exact fun known other _ => ⟨[], rfl, rfl, by simp [History.results]⟩

end Graph

/-! ## The evaluation point -/

namespace History

/-- The history that has computed the evaluation point and nothing else. -/
def pointOnly : History :=
  [⟨.node 0, []⟩]

@[simp]
theorem results_pointOnly : pointOnly.results = [.node 0] := rfl

theorem visitOperand_pointOnly {visit : Nat → History → History} (owner : Nat)
    {operand : Operand}
    (same : ∀ leaf ∈ operand.leaves, enter visit leaf [] = enter visit leaf pointOnly) :
    visitOperand visit owner operand [] = visitOperand visit owner operand pointOnly := by
  induction operand with
  | node index => exact same index (by simp [Operand.leaves])
  | fold first second firstInduction _ =>
      simp only [Operand.leaves, List.mem_append] at same
      rw [visitOperand, visitOperand,
        firstInduction fun leaf member => same leaf (Or.inl member)]

end History

/-- Whatever is visited first, the evaluation point is computed before it. -/
theorem Graph.Valid.enter_pointOnly {α : Type u} {graph : Graph α} (valid : graph.Valid)
    {bound index : Nat} (below : index < bound) (inside : index < graph.size) :
    History.enter (graph.declare bound) index [] =
      History.enter (graph.declare bound) index History.pointOnly := by
  induction bound generalizing index with
  | zero => omega
  | succ bound induction =>
      by_cases isPoint : index = 0
      · subst isPoint
        rw [History.enter, if_neg (by simp [History.results]), declare, if_pos inside,
          valid.dependencies_zero]
        rfl
      · have missing : Computed.node index ∉ History.pointOnly.results := by
          simp [isPoint]
        rw [History.enter, if_neg (by simp [History.results]), History.enter, if_neg missing,
          declare, if_pos inside, declare, if_pos inside]
        have nonempty : graph.dependencies index ≠ [] := fun none =>
          isPoint (valid.eq_zero_of_dependencies inside none)
        have leaves := Operand.perm_leaves_ofDependencies (graph.dependencies index)
        cases operands : Operand.ofDependencies (graph.dependencies index) with
        | nil =>
            rw [operands] at leaves
            exact absurd leaves.nil_eq.symm nonempty
        | cons operand operands =>
            rw [operands, List.flatMap_cons] at leaves
            have same : ∀ leaf ∈ operand.leaves,
                History.enter (graph.declare bound) leaf [] =
                  History.enter (graph.declare bound) leaf History.pointOnly := by
              intro leaf member
              have listed := leaves.mem_iff.mp (List.mem_append_left _ member)
              have before := valid.lt_of_mem_dependencies leaf listed
              exact induction (by omega) (by omega)
            -- After the first input the two histories are the same.
            simp only [History.visitOperands, List.foldl_cons,
              History.visitOperand_pointOnly index same]

/-- A root is visited as if the evaluation point was computed before it. -/
theorem Graph.Valid.declare_nil {α : Type u} {graph : Graph α} (valid : graph.Valid)
    {index : Nat} (inside : index < graph.size) :
    graph.declare graph.size index [] =
      History.enter (graph.declare graph.size) index History.pointOnly := by
  rw [← valid.enter_pointOnly inside inside, History.enter,
    if_neg (by simp [History.results])]

/-- The declared order has a complete history. -/
theorem Graph.Valid.complete_declare {α : Type u} {graph : Graph α} (valid : graph.Valid)
    {root : NodeId} (inside : root.index < graph.size) :
    (graph.declare graph.size root.index []).Complete graph root :=
  graph.history_record root ▸ (History.complete_record valid inside .identity).1

end SolidField
