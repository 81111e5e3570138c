import SolidField.Proofs.Schedule.Progress
import SolidField.Proofs.Schedule.Recording

/-!
# Visits follow histories

Whatever a trial order arranges, the state of a trial is that of the allocator
along some history, and a visit of a node makes progress: it ends with the node
computed, in the register that it answers.
-/

universe u

namespace SolidField

/-! ## Arrangements -/

/-- Exchanging items keeps them all, whatever is drawn. -/
theorem RandomStream.perm_exchangeAll {β σ : Type}
    (draw : σ → Nat → Nat × σ) (position : Nat) (items : Array β) (state : σ) :
    (exchangeAll draw position items state).1.toList.Perm items.toList := by
  induction position generalizing items state with
  | zero => exact List.Perm.refl _
  | succ position induction =>
      rw [exchangeAll]
      refine (induction _ _).trans ?_
      rw [Array.swapIfInBounds_def]
      split
      · split
        · exact (Array.swap_perm _ _).toList
        · exact List.Perm.refl _
      · exact List.Perm.refl _

/-- Whatever is arranged is there afterwards. -/
theorem Arrangement.perm_arrange {β : Type} (arrangement : Arrangement)
    (items : List β) : (arrangement.arrange items).1.Perm items := by
  cases arrangement with
  | identity => exact List.Perm.refl _
  | reversed => exact List.reverse_perm _
  | shuffled stream => exact RandomStream.perm_exchangeAll _ _ _ _

namespace Trial

variable {α : Type u} {graph : Graph α} {uses : Array Nat} {trial : Trial}
  {history : History}

/-! ## States that follow a history -/

/-- The state of a trial is the placement of a history. -/
structure Follows (graph : Graph α) (uses : Array Nat) (trial : Trial)
    (history : History) : Prop where
  allocator :
    trial.allocator = (Placement.ofHistory graph uses history).allocator
  entries : trial.entries = (Placement.ofHistory graph uses history).entries
  register? : ∀ index, trial.register? index =
    (Placement.ofHistory graph uses history).register? (.node index)
  size : trial.registers.size = graph.size

theorem follows_start (graph : Graph α) (uses : Array Nat) (order : TrialOrder) :
    (start graph.size order).Follows graph uses [] where
  allocator := rfl
  entries := rfl
  register? := by
    intro index
    simp only [start, Trial.register?, Placement.ofHistory, Placement.empty]
    rw [Array.getElem?_replicate]
    split <;> rfl
  size := by simp [start]

theorem Follows.arrange (follows : trial.Follows graph uses history)
    {β : Type} (items : List β) :
    (trial.arrange items).2.Follows graph uses history :=
  ⟨follows.allocator, follows.entries, follows.register?, follows.size⟩

/-- The operands of a node are those of its dependencies in some order. -/
theorem Follows.exists_operands (follows : trial.Follows graph uses history)
    (dependencies : List Nat) :
    ∃ order : List Nat, order.Perm dependencies ∧
      (dependencies.length ≤ 2 → order = dependencies) ∧
      (trial.operands dependencies).1 = Operand.ofDependencies order ∧
      (trial.operands dependencies).2.Follows graph uses history := by
  rw [operands]
  split
  · next many =>
      exact ⟨_, Arrangement.perm_arrange _ _, fun few => by omega, rfl,
        follows.arrange dependencies⟩
  · exact ⟨dependencies, List.Perm.refl _, fun _ => rfl, rfl, follows⟩

/-- The register of an application is the one that its placement has for it. -/
theorem Follows.emit_fst (follows : trial.Follows graph uses history)
    (application : Application) (node : NodeId) (opcode : Opcode) :
    (Placement.ofHistory graph uses (application :: history)).register?
        application.result =
      some (trial.emit node opcode (application.result.uses uses)
        ((Placement.ofHistory graph uses history).inputs application)).1 := by
  have placed : (Placement.ofHistory graph uses
      (application :: history)).register? application.result =
        some ((Placement.ofHistory graph uses history).target application) :=
    if_pos rfl
  rw [placed, emit, follows.allocator]
  rfl

/-- Emitting a partial application continues the history. -/
theorem Follows.emit_part (follows : trial.Follows graph uses history)
    (owner : Nat) (operand : Operand) (inputs : List Computed) :
    (trial.emit ⟨owner⟩ (graph.opcodeAt owner) 1
        ((Placement.ofHistory graph uses history).inputs
          ⟨.part owner operand, inputs⟩)).2.Follows
      graph uses (⟨.part owner operand, inputs⟩ :: history) where
  allocator := by
    simp only [emit, follows.allocator]
    rfl
  entries := by
    simp only [emit, follows.allocator, follows.entries]
    rfl
  register? := by
    intro index
    have different : Computed.node index ≠ .part owner operand := nofun
    simp only [Placement.ofHistory, Placement.apply, if_neg different]
    exact follows.register? index
  size := follows.size

theorem register?_assign (trial : Trial) {index : Nat} (register other : Nat)
    (inside : index < trial.registers.size) :
    (trial.assign index register).register? other =
      if other = index then some register else trial.register? other := by
  simp only [Trial.register?, assign, Array.getElem?_setIfInBounds]
  by_cases same : index = other
  · simp [same, same ▸ inside]
  · simp [same, Ne.symm same]

/-- Emitting a node and noting its register continues the history. -/
theorem Follows.emit_node (follows : trial.Follows graph uses history)
    {index : Nat} (inputs : List Computed) (inside : index < graph.size) :
    let emitted := trial.emit ⟨index⟩ (graph.opcodeAt index)
      (uses.getD index 0)
      ((Placement.ofHistory graph uses history).inputs ⟨.node index, inputs⟩)
    (emitted.2.assign index emitted.1).Follows graph uses
      (⟨.node index, inputs⟩ :: history) where
  allocator := by
    simp only [emit, assign, follows.allocator]
    rfl
  entries := by
    simp only [emit, assign, follows.allocator, follows.entries]
    rfl
  register? := by
    intro other
    rw [register?_assign _ _ _ (by simpa [emit, follows.size] using inside)]
    by_cases same : other = index
    · subst other
      rw [if_pos rfl]
      exact (follows.emit_fst ⟨.node index, inputs⟩ _ _).symm
    · have different : Computed.node other ≠ .node index := by simpa using same
      simp only [Placement.ofHistory, Placement.apply, if_neg different,
        if_neg same]
      exact follows.register? other
  size := by simp [emit, assign, follows.size]

end Trial

/-- The calls on the allocator for each application of a history, the earliest first. -/
def History.calls {α : Type u} (graph : Graph α) (uses : Array Nat) :
    History → List (List AllocatorCall)
  | [] => []
  | application :: earlier =>
      calls graph uses earlier ++
        [((Placement.ofHistory graph uses earlier).inputs application).map .release ++
          [.allocate (application.result.uses uses)]]

namespace History

variable {α : Type u}

theorem length_calls (graph : Graph α) (uses : Array Nat) (history : History) :
    (history.calls graph uses).length = history.length := by
  induction history with
  | nil => rfl
  | cons application earlier induction =>
      rw [calls, List.length_append, induction]
      rfl

/-- The calls of the earlier part of a history come first. -/
theorem take_calls (graph : Graph α) (uses : Array Nat) (later earlier : History) :
    (calls graph uses (later ++ earlier)).take earlier.length =
      calls graph uses earlier := by
  induction later with
  | nil =>
      rw [List.nil_append, ← length_calls graph uses earlier, List.take_length]
  | cons application later induction =>
      rw [List.cons_append, calls, List.take_append_of_le_length, induction]
      rw [length_calls, List.length_append]
      omega

/-- The calls of a history make the allocator of its placement. -/
theorem replay_calls (graph : Graph α) (uses : Array Nat) (history : History) :
    Allocator.replay (history.calls graph uses).flatten =
      (Placement.ofHistory graph uses history).allocator := by
  induction history with
  | nil => rfl
  | cons application earlier induction =>
      rw [calls, List.flatten_append, List.flatten_singleton, Allocator.replay,
        List.foldl_append, ← Allocator.replay, induction, List.foldl_append,
        List.foldl_map]
      rfl

end History

namespace Recording

variable {α : Type u} {graph : Graph α} {uses : Array Nat} {recording : Recording}
  {history : History}

/-! ## Recordings that follow a history -/

/-- A recording of a history: its notes are right, and so is its trial. -/
structure Follows (graph : Graph α) (uses : Array Nat) (recording : Recording)
    (known : History) : Prop where
  trial : recording.trial.Follows graph uses known
  history : recording.history = known
  calls : recording.calls = known.calls graph uses

theorem follows_start (graph : Graph α) (uses : Array Nat) (order : TrialOrder) :
    (start graph.size order).Follows graph uses [] :=
  ⟨Trial.follows_start graph uses order, rfl, rfl⟩

theorem Follows.arrange (follows : recording.Follows graph uses history)
    {β : Type} (items : List β) :
    (recording.arrange items).2.Follows graph uses history :=
  ⟨follows.trial.arrange items, follows.history, follows.calls⟩

/-- The register of an application is the one that its placement has for it. -/
theorem Follows.emit_fst (follows : recording.Follows graph uses history)
    (application : Application) (opcode : Opcode) :
    (Placement.ofHistory graph uses (application :: history)).register?
        application.result =
      some (recording.emit application opcode (application.result.uses uses)
        ((Placement.ofHistory graph uses history).inputs application)).1 :=
  follows.trial.emit_fst application ⟨application.result.owner⟩ opcode

/-- An application is noted when it is emitted. -/
theorem Follows.emit_notes (follows : recording.Follows graph uses history)
    (application : Application) (opcode : Opcode) :
    let emitted := (recording.emit application opcode (application.result.uses uses)
      ((Placement.ofHistory graph uses history).inputs application)).2
    emitted.history = application :: history ∧
      emitted.calls = History.calls graph uses (application :: history) := by
  simp only [emit, follows.history, follows.calls, History.calls, true_and]

/-- Emitting a partial application continues the history. -/
theorem Follows.emit_part (follows : recording.Follows graph uses history)
    (owner : Nat) (operand : Operand) (inputs : List Computed) :
    (recording.emit ⟨.part owner operand, inputs⟩ (graph.opcodeAt owner) 1
        ((Placement.ofHistory graph uses history).inputs
          ⟨.part owner operand, inputs⟩)).2.Follows
      graph uses (⟨.part owner operand, inputs⟩ :: history) := by
  have notes := follows.emit_notes ⟨.part owner operand, inputs⟩ (graph.opcodeAt owner)
  exact ⟨follows.trial.emit_part owner operand inputs, notes.1, notes.2⟩

/-- Emitting a node and noting its register continues the history. -/
theorem Follows.emit_node (follows : recording.Follows graph uses history)
    {index : Nat} (inputs : List Computed) (inside : index < graph.size) :
    let emitted := recording.emit ⟨.node index, inputs⟩ (graph.opcodeAt index)
      (uses.getD index 0)
      ((Placement.ofHistory graph uses history).inputs ⟨.node index, inputs⟩)
    (emitted.2.assign index emitted.1).Follows graph uses
      (⟨.node index, inputs⟩ :: history) := by
  have notes := follows.emit_notes ⟨.node index, inputs⟩ (graph.opcodeAt index)
  exact ⟨follows.trial.emit_node inputs inside, notes.1, notes.2⟩

/-! ## Visits of inputs -/

/--
From any state in which only nodes that are not before the owner are left half
computed, a visit makes progress and answers the register of an input.
-/
def Computes (graph : Graph α) (uses : Array Nat) (needed : Nat → Prop)
    (owner : Nat) (visit : Recording → Nat × Recording) (input : Computed)
    (leaves : List Nat) (folds : Nat) : Prop :=
  ∀ known recording, recording.Follows graph uses known → known.Sound →
    known.Ready owner → (0 < folds → owner ∉ known.owners) →
      ∃ more, (visit recording).2.Follows graph uses (more ++ known) ∧
        (Placement.ofHistory graph uses (more ++ known)).register? input =
          some (visit recording).1 ∧
        History.Progress graph needed owner known more [input] leaves folds

variable {needed : Nat → Prop} {owner : Nat}

/-- A visit of two inputs, one after the other. -/
theorem Computes.both {firstVisit secondVisit : Recording → Nat × Recording}
    {first second : Computed} {firstLeaves secondLeaves : List Nat}
    {firstFolds secondFolds : Nat}
    (computesFirst : Computes graph uses needed owner firstVisit first
      firstLeaves firstFolds)
    (computesSecond : Computes graph uses needed owner secondVisit second
      secondLeaves secondFolds)
    (chain : firstFolds = 0 ∨ secondFolds = 0)
    {known : History} (follows : recording.Follows graph uses known)
    (sound : known.Sound) (ready : known.Ready owner)
    (untouched : 0 < firstFolds + secondFolds → owner ∉ known.owners) :
    ∃ more,
      (secondVisit (firstVisit recording).2).2.Follows graph uses (more ++ known) ∧
        (Placement.ofHistory graph uses (more ++ known)).register? first =
          some (firstVisit recording).1 ∧
        (Placement.ofHistory graph uses (more ++ known)).register? second =
          some (secondVisit (firstVisit recording).2).1 ∧
        History.Progress graph needed owner known more [first, second]
          (firstLeaves ++ secondLeaves) (firstFolds + secondFolds) := by
  obtain ⟨more, reached, firstRegister, progress⟩ :=
    computesFirst known recording follows sound ready
      fun positive => untouched (by omega)
  have stillUntouched : 0 < secondFolds → owner ∉ (more ++ known).owners := by
    intro positive
    rw [History.owners_append, List.mem_append]
    rintro (applied | applied)
    · have none : firstFolds = 0 := chain.resolve_right (by omega)
      have count := progress.opened
      rw [none, List.count_eq_zero] at count
      exact count applied
    · exact untouched (by omega) applied
  rcases
      computesSecond (more ++ known) _ reached progress.sound
        (progress.ready ready) stillUntouched with
    ⟨most, final, secondRegister, further⟩
  refine ⟨most ++ more, ?_, ?_, ?_, progress.append further⟩
  · rwa [List.append_assoc]
  · rw [List.append_assoc, Placement.register?_append further.sound
      (progress.computed first (by simp))]
    exact firstRegister
  · rwa [List.append_assoc]

/-- A visit of two inputs in the order that the recording arranges. -/
theorem Computes.visitBoth {firstVisit secondVisit : Recording → Nat × Recording}
    {first second : Computed} {firstLeaves secondLeaves : List Nat}
    {firstFolds secondFolds : Nat}
    (computesFirst : Computes graph uses needed owner firstVisit first
      firstLeaves firstFolds)
    (computesSecond : Computes graph uses needed owner secondVisit second
      secondLeaves secondFolds)
    (chain : firstFolds = 0 ∨ secondFolds = 0)
    {known : History} (follows : recording.Follows graph uses known)
    (sound : known.Sound) (ready : known.Ready owner)
    (untouched : 0 < firstFolds + secondFolds → owner ∉ known.owners) :
    ∃ more,
      (Recording.visitBoth firstVisit secondVisit recording).2.Follows graph uses
          (more ++ known) ∧
        (Placement.ofHistory graph uses (more ++ known)).register? first =
          some (Recording.visitBoth firstVisit secondVisit recording).1.1 ∧
        (Placement.ofHistory graph uses (more ++ known)).register? second =
          some (Recording.visitBoth firstVisit secondVisit recording).1.2 ∧
        History.Progress graph needed owner known more [first, second]
          (firstLeaves ++ secondLeaves) (firstFolds + secondFolds) := by
  have arranged := follows.arrange [true, false]
  simp only [Recording.visitBoth]
  split
  · exact computesFirst.both computesSecond chain arranged sound ready untouched
  · obtain ⟨more, reached, secondRegister, firstRegister, progress⟩ :=
      computesSecond.both computesFirst chain.symm arranged sound ready
        fun positive => untouched (by omega)
    exact ⟨more, reached, firstRegister, secondRegister,
      progress.perm (List.Perm.swap _ _ _) List.perm_append_comm
        (Nat.add_comm _ _)⟩

theorem inputs_pair {placement : Placement} (result : Computed)
    {first second : Computed}
    {firstRegister secondRegister : Nat}
    (firstPlaced : placement.register? first = some firstRegister)
    (secondPlaced : placement.register? second = some secondRegister) :
    placement.inputs ⟨result, [first, second]⟩ =
      [firstRegister, secondRegister] := by
  simp [Placement.inputs, firstPlaced, secondPlaced]

variable {visitNode : Nat → Recording → Nat × Recording}

/-- A visit of an operand of a node makes progress with the node. -/
theorem computes_visitOperand {operand : Operand} (isChain : operand.IsChain)
    (many : 0 < operand.folds → 2 < (graph.dependencies owner).length)
    (computes : ∀ index ∈ operand.leaves,
      Computes graph uses needed owner (enter visitNode index) (.node index)
        [index] 0) :
    Computes graph uses needed owner
      (visitOperand visitNode owner (graph.opcodeAt owner) operand)
      (.ofOperand owner operand) operand.leaves operand.folds := by
  induction operand with
  | node index => exact computes index (by simp [Operand.leaves])
  | fold first second firstInduction secondInduction =>
      intro known recording follows sound ready untouched
      simp only [Operand.leaves, List.mem_append] at computes
      obtain ⟨more, reached, firstRegister, secondRegister, progress⟩ :=
        (firstInduction isChain.1 (fun _ => many (by simp [Operand.folds]))
          fun index member => computes index (Or.inl member)).visitBoth
        (secondInduction
          (by cases second with
            | node => trivial
            | fold => exact absurd isChain.2 (by simp [Operand.folds]))
          (fun _ => many (by simp [Operand.folds]))
          fun index member => computes index (Or.inr member))
        (Or.inr isChain.2) follows sound ready
        fun _ => untouched (by simp [Operand.folds])
      have registers := inputs_pair (.part owner (.fold first second))
        firstRegister secondRegister
      refine ⟨⟨.part owner (.fold first second),
        [.ofOperand owner first, .ofOperand owner second]⟩ :: more, ?_, ?_,
        progress.fold (many (by simp [Operand.folds]))
          (untouched (by simp [Operand.folds]))⟩
      · have emitted := reached.emit_part owner (.fold first second)
          [.ofOperand owner first, .ofOperand owner second]
        rwa [registers] at emitted
      · have emitted := reached.emit_fst
          ⟨.part owner (.fold first second),
            [.ofOperand owner first, .ofOperand owner second]⟩
          (graph.opcodeAt owner)
        rwa [registers] at emitted

/-- A visit of the operands of a node makes progress and answers their registers. -/
theorem exists_progress_visitInputs {order : List Nat} {known : History}
    (perm : order.Perm (graph.dependencies owner))
    (computes : ∀ index ∈ order,
      Computes graph uses needed owner (enter visitNode index) (.node index)
        [index] 0)
    (follows : recording.Follows graph uses known) (sound : known.Sound)
    (ready : known.Ready owner) (untouched : owner ∉ known.owners)
    (result : Computed) :
    let operands := Operand.ofDependencies order
    let visited := visitInputs visitNode owner (graph.opcodeAt owner) operands recording
    ∃ more, visited.2.Follows graph uses (more ++ known) ∧
      visited.1 = (Placement.ofHistory graph uses (more ++ known)).inputs
        ⟨result, operands.map (.ofOperand owner)⟩ ∧
      History.Progress graph needed owner known more
        (operands.map (.ofOperand owner)) (operands.flatMap Operand.leaves)
        (Operand.totalFolds operands) := by
  have visits : ∀ operand ∈ Operand.ofDependencies order,
      Computes graph uses needed owner
        (visitOperand visitNode owner (graph.opcodeAt owner) operand)
        (.ofOperand owner operand) operand.leaves operand.folds := by
    intro operand member
    refine computes_visitOperand (Operand.isChain_of_mem_ofDependencies member)
      (fun positive => ?_) fun index leaf => computes index ?_
    · rw [← perm.length_eq]
      exact Operand.two_lt_of_folds_pos member positive
    · exact (Operand.perm_leaves_ofDependencies order).mem_iff.mp
        (List.mem_flatMap.mpr ⟨operand, member, leaf⟩)
  rcases Operand.ofDependencies_cases order with
    none | ⟨operand, single⟩ | ⟨first, second, pair, chain⟩
  · rw [none]
    refine ⟨[], follows, rfl, ?_⟩
    constructor <;> simp [sound, History.results, History.reads,
      History.demands, History.owners]
  · rw [single] at visits ⊢
    obtain ⟨more, reached, register, progress⟩ :=
      visits operand (by simp) known recording follows sound ready
        fun _ => untouched
    refine ⟨more, reached, ?_, ?_⟩
    · simp [visitInputs, Placement.inputs, register]
    · simpa using progress
  · rw [pair] at visits ⊢
    obtain ⟨more, reached, firstRegister, secondRegister, progress⟩ :=
      (visits first (by simp)).visitBoth (visits second (by simp)) chain follows
        sound ready fun _ => untouched
    refine ⟨more, reached, ?_, ?_⟩
    · exact (inputs_pair _ firstRegister secondRegister).symm
    · simpa using progress

/-! ## Visits of nodes -/

theorem Follows.exists_operands (follows : recording.Follows graph uses history)
    (dependencies : List Nat) :
    ∃ order : List Nat, order.Perm dependencies ∧
      (dependencies.length ≤ 2 → order = dependencies) ∧
      (recording.operands dependencies).1 = Operand.ofDependencies order ∧
      (recording.operands dependencies).2.Follows graph uses history := by
  rcases follows.trial.exists_operands dependencies with
    ⟨order, perm, declared, operands, arranged⟩
  exact ⟨order, perm, declared, operands, arranged, follows.history, follows.calls⟩

theorem visit_of_node? {index bound : Nat} {node : Node α}
    (found : graph.node? ⟨index⟩ = some node) (recording : Recording) :
    visit graph uses (bound + 1) index recording =
      let operands := recording.operands (graph.dependencies index)
      let inputs := visitInputs (visit graph uses bound) index
        (graph.opcodeAt index) operands.1 operands.2
      let emitted := inputs.2.emit ⟨.node index, operands.1.map (.ofOperand index)⟩
        (graph.opcodeAt index)
        (uses.getD index 0) inputs.1
      (emitted.1, emitted.2.assign index emitted.1) := by
  rw [Graph.opcodeAt_of_node? found]
  simp only [Graph.node?] at found
  simp only [visit, found]

/--
A visit of a node that is needed makes progress with any node behind it, provided
that what a needed node depends on is needed.
-/
theorem computes_enter (valid : graph.Valid)
    (closed : ∀ index, needed index →
      ∀ dependency ∈ graph.dependencies index, needed dependency)
    {bound index : Nat} (below : index < bound) (inside : index < graph.size)
    (isNeeded : needed index) (before : index < owner) :
    Computes graph uses needed owner (enter (visit graph uses bound) index)
      (.node index) [index] 0 := by
  -- A dependency is visited on behalf of the node, so the owner changes on the
  -- way down.
  induction bound generalizing index owner with
  | zero => omega
  | succ bound induction =>
      intro known recording follows sound ready _
      rw [enter]
      cases register : recording.trial.register? index with
      | some place =>
          rw [follows.trial.register?] at register
          refine ⟨[], follows, register, History.Progress.leaf sound ?_⟩
          apply Decidable.not_not.mp
          intro missing
          rw [← Placement.register?_eq_none_iff graph uses,
            register] at missing
          cases missing
      | none =>
          rw [follows.trial.register?, Placement.register?_eq_none_iff] at register
          rcases Graph.exists_node?_of_lt inside with ⟨node, found⟩
          rcases follows.exists_operands (graph.dependencies index) with
            ⟨order, perm, declared, operands, arranged⟩
          have untouched : index ∉ known.owners := fun applied =>
            register (ready index applied before)
          have readyBelow : known.Ready index := fun other applied less =>
            ready other applied (by omega)
          have computes : ∀ dependency ∈ order,
              Computes graph uses needed index
                (enter (visit graph uses bound) dependency) (.node dependency)
                [dependency] 0 := by
            intro dependency member
            have listed := perm.mem_iff.mp member
            have less := valid.lt_of_mem_dependencies dependency listed
            exact induction (by omega) (by omega)
              (closed index isNeeded dependency listed) less
          obtain ⟨more, reached, inputs, progress⟩ :=
            exists_progress_visitInputs perm computes arranged sound readyBelow
              untouched (.node index)
          simp only [visit_of_node? found, operands]
          refine ⟨⟨.node index,
            (Operand.ofDependencies order).map (.ofOperand index)⟩ :: more,
            ?_, ?_, progress.node perm declared register isNeeded before⟩
          · have emitted := reached.emit_node
              ((Operand.ofDependencies order).map (.ofOperand index)) inside
            rwa [← inputs] at emitted
          · have emitted := reached.emit_fst ⟨.node index,
              (Operand.ofDependencies order).map (.ofOperand index)⟩
              (graph.opcodeAt index)
            rwa [← inputs] at emitted

end Recording

end SolidField
