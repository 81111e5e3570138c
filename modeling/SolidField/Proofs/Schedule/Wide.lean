import SolidField.Proofs.Schedule.Apart
import SolidField.Proofs.Schedule.Pressure

/-!
# Wide operations

In the declared order a node of many operands holds the evaluation point, its last
operand and the fold of the operands so far, while it visits the next one.  If the
operands share the evaluation point only, these are the only registers that it takes
beyond those of a single operand, however many there are.
-/

universe u

namespace SolidField

/-! ## Moments between visits of operands -/

/--
A node whose operands share the evaluation point only, and alone have no more than a
number of values live at once.
-/
structure Graph.Wide {α : Type u} (graph : Graph α) (root : NodeId) (most : Nat) : Prop where
  valid : graph.Valid
  inside : root.index < graph.size
  apart : graph.Apart root
  alone : ∀ operand ∈ graph.dependencies root.index,
    ∀ moment : History, moment <:+ graph.declare graph.size operand [] →
      (moment.live (graph.uses ⟨operand⟩)).length ≤ most

namespace History

variable {α : Type u} {graph : Graph α} {root : NodeId} {most bound : Nat}
  {visited : List Nat} {held : List Computed} {moment : History}

theorem suffix_append_cases {earlier more known : History}
    (part : earlier <:+ more ++ known) :
    earlier <:+ known ∨ ∃ front, front <:+ more ∧ earlier = front ++ known := by
  rcases List.suffix_or_suffix_of_suffix part (List.suffix_append more known) with
    before | ⟨front, rfl⟩
  · exact Or.inl before
  · rcases part with ⟨later, split⟩
    rw [← List.append_assoc] at split
    exact Or.inr ⟨front, ⟨later, List.append_cancel_right split⟩, rfl⟩

/--
A moment of the declared order between visits of operands: the values that are live are
among those that are held, and what was computed is needed by the operands that were
visited.
-/
structure Between (graph : Graph α) (root : NodeId) (most : Nat) (visited : List Nat)
    (held : List Computed) (moment : History) : Prop where
  /-- No moment so far has too many values live. -/
  peak : ∀ earlier : History, earlier <:+ moment →
    (earlier.live (graph.uses root)).length ≤ most + 3
  live : ∀ value ∈ moment.live (graph.uses root), value ∈ held
  point : .node 0 ∈ moment.results
  within : ∀ operand ∈ visited, operand ∈ graph.dependencies root.index
  needed : ∀ index, .node index ∈ moment.results →
    index = 0 ∨ ∃ operand ∈ visited, graph.Needs ⟨operand⟩ ⟨index⟩

theorem Between.mono (between : Between graph root most visited held moment)
    {wider : List Nat} (more : visited ⊆ wider)
    (within : ∀ operand ∈ wider, operand ∈ graph.dependencies root.index) :
    Between graph root most wider held moment where
  peak := between.peak
  live := between.live
  point := between.point
  within := within
  needed := by
    intro index member
    refine (between.needed index member).imp_right ?_
    rintro ⟨operand, listed, needs⟩
    exact ⟨operand, more listed, needs⟩

theorem between_pointOnly (graph : Graph α) (root : NodeId) (most : Nat) :
    Between graph root most [] [.node 0] pointOnly where
  peak := by
    intro earlier part
    have length : earlier.length ≤ 1 := part.length_le
    have fewer := length_live_le_length (graph.uses root) earlier
    omega
  live value isLive := (mem_live.mp isLive).1
  point := by simp
  within := by simp
  needed := by
    intro index member
    left
    simpa using member

/-- What a visit of an operand adds when the evaluation point is all that it shares. -/
structure Adds (graph : Graph α) (operand : Nat) (more : History) : Prop where
  /-- Alone the operand adds the same. -/
  alone : graph.declare graph.size operand [] = more ++ pointOnly
  needed : ∀ index, .node index ∈ more.results → graph.Needs ⟨operand⟩ ⟨index⟩

section Adds

variable {operand : Nat} {more : History}

theorem reads_append_pointOnly (history : History) :
    reads (history ++ pointOnly) = history.reads := by
  simp [pointOnly, reads]

theorem Adds.complete (adds : Adds graph operand more) (wide : graph.Wide root most)
    (listed : operand ∈ graph.dependencies root.index) :
    Complete graph ⟨operand⟩ (more ++ pointOnly) :=
  adds.alone ▸ wide.valid.complete_declare (wide.valid.inside_of_mem_dependencies listed)

/-- What an operand adds has the uses that it has alone. -/
theorem Adds.uses_eq (adds : Adds graph operand more) (wide : graph.Wide root most)
    (listed : operand ∈ graph.dependencies root.index) {value : Computed}
    (member : value ∈ more.results) :
    value.uses (graph.uses root) = value.uses (graph.uses ⟨operand⟩) := by
  cases value with
  | part owner inner => rfl
  | node index =>
      refine wide.apart.getD_uses wide.valid wide.inside listed (adds.needed index member) ?_
      rintro rfl
      have nodup := (adds.complete wide listed).sound.nodup
      rw [results_append, List.nodup_append] at nodup
      exact nodup.2.2 _ member _ (by simp) rfl

/-- An operand has no more values live at once than it has alone. -/
theorem Adds.length_live_le (adds : Adds graph operand more) (wide : graph.Wide root most)
    (listed : operand ∈ graph.dependencies root.index) {front : History}
    (part : front <:+ more) : (front.live (graph.uses root)).length ≤ most := by
  have same : front.live (graph.uses root) = front.live (graph.uses ⟨operand⟩) := by
    refine live_congr fun value member => adds.uses_eq wide listed ?_
    exact (part.map Application.result).subset member
  have fewer : (front.live (graph.uses ⟨operand⟩)).length ≤
      (live (graph.uses ⟨operand⟩) (front ++ pointOnly)).length := by
    simp only [live, reads_append_pointOnly, results_append, List.filter_append,
      List.length_append]
    omega
  have alone : front ++ pointOnly <:+ graph.declare graph.size operand [] := by
    rcases part with ⟨later, rfl⟩
    rw [adds.alone, List.append_assoc]
    exact List.suffix_append later _
  rw [same]
  exact Nat.le_trans fewer (wide.alone operand listed _ alone)

/-- Of what an operand adds, the operand itself is to be read later. -/
theorem Adds.eq_operand (adds : Adds graph operand more) (wide : graph.Wide root most)
    (listed : operand ∈ graph.dependencies root.index) {value : Computed}
    (isLive : value ∈ more.live (graph.uses root)) : value = .node operand := by
  rcases mem_live.mp isLive with ⟨member, reads⟩
  refine (adds.complete wide listed).eq_root_of_mem_live wide.valid (mem_live.mpr ⟨?_, ?_⟩)
  · simp [member]
  · rwa [reads_append_pointOnly, ← adds.uses_eq wide listed member]

end Adds

/-- Of what an operand needs only the evaluation point was computed for others. -/
theorem Between.agree (between : Between graph root most visited held moment)
    (apart : graph.Apart root) {operand : Nat}
    (listed : operand ∈ graph.dependencies root.index) (fresh : operand ∉ visited) :
    Agree (fun index => graph.Needs ⟨operand⟩ ⟨index⟩) moment pointOnly := by
  intro index needs
  rw [results_pointOnly, List.mem_singleton, Computed.node.injEq]
  constructor
  · intro member
    rcases between.needed index member with isPoint | ⟨other, otherVisited, otherNeeds⟩
    · exact isPoint
    · rcases apart.shared operand listed other (between.within other otherVisited) ⟨index⟩
        needs otherNeeds with rfl | isPoint
      · exact absurd otherVisited fresh
      · exact isPoint
  · rintro rfl
    exact between.point

/-- What the visit of an operand adds is what it adds alone. -/
theorem Between.exists_more (between : Between graph root most visited held moment)
    (wide : graph.Wide root most) {operand : Nat}
    (listed : operand ∈ graph.dependencies root.index) (fresh : operand ∉ visited)
    (below : operand < bound) :
    ∃ more, enter (graph.declare bound) operand moment = more ++ moment ∧
      Adds graph operand more := by
  have inside := wide.valid.inside_of_mem_dependencies listed
  have alike := (wide.valid.alike_declare below inside).enter (.root : graph.Needs _ _)
  rcases alike moment pointOnly (between.agree wide.apart listed fresh) with
    ⟨more, added, alone, computed⟩
  exact ⟨more, added, (wide.valid.declare_nil inside).trans alone, computed⟩

/-- A visit of an operand leaves it to be held, and takes the registers that it takes
alone. -/
theorem Between.visit (between : Between graph root most visited held moment)
    (wide : graph.Wide root most) (few : held.length ≤ 3) {operand : Nat}
    (listed : operand ∈ graph.dependencies root.index) (fresh : operand ∉ visited)
    (below : operand < bound) (sound : (enter (graph.declare bound) operand moment).Sound) :
    Between graph root most (operand :: visited) (.node operand :: held)
      (enter (graph.declare bound) operand moment) := by
  rcases between.exists_more wide listed fresh below with ⟨more, added, adds⟩
  rw [added] at sound ⊢
  constructor
  · intro earlier part
    rcases suffix_append_cases part with known | ⟨front, own, rfl⟩
    · exact between.peak earlier known
    · have added := adds.length_live_le wide listed own
      have others := sound.of_append.length_live_le between.live
      have total := length_live_append_le (graph.uses root) front moment
      omega
  · intro value isLive
    rw [List.mem_cons]
    rcases mem_live.mp isLive with ⟨member, unread⟩
    rw [results_append, List.mem_append] at member
    rw [reads_append, List.count_append] at unread
    rcases member with member | member
    · exact Or.inl (adds.eq_operand wide listed (mem_live.mpr ⟨member, by omega⟩))
    · exact Or.inr (between.live value (mem_live_of_append more member isLive))
  · rw [results_append, List.mem_append]
    exact Or.inr between.point
  · rw [List.forall_mem_cons]
    exact ⟨listed, between.within⟩
  · intro index member
    rw [results_append, List.mem_append] at member
    rcases member with member | member
    · exact Or.inr ⟨operand, by simp, adds.needed index member⟩
    · refine (between.needed index member).imp_right ?_
      rintro ⟨other, otherVisited, needs⟩
      exact ⟨other, List.mem_cons_of_mem _ otherVisited, needs⟩

/-- Folding the operand that was visited last frees it, and what it is folded with. -/
theorem Between.fold {operand : Nat} {input result kept : Computed}
    (between : Between graph root most visited [.node operand, input, kept, .node 0] moment)
    (operandUses : Computed.uses (graph.uses root) (.node operand) = 1)
    (inputUses : input.uses (graph.uses root) = 1)
    (isPart : ∀ index, result ≠ .node index)
    (sound : Sound (⟨result, [input, .node operand]⟩ :: moment)) :
    Between graph root most visited [result, kept, .node 0]
      (⟨result, [input, .node operand]⟩ :: moment) := by
  have live : ∀ value ∈
      History.live (graph.uses root) (⟨result, [input, .node operand]⟩ :: moment),
        value ∈ [result, kept, .node 0] := by
    intro value isLive
    rcases mem_live.mp isLive with ⟨member, unread⟩
    rw [results_cons, List.mem_cons] at member
    rw [reads_cons, List.count_append] at unread
    dsimp only at unread
    rcases member with rfl | member
    · simp
    · have before := between.live value (mem_live_of_append [_] member isLive)
      simp only [List.mem_cons, List.not_mem_nil, or_false] at before ⊢
      rcases before with rfl | rfl | before | before
      · have read : Computed.node operand ∈ [input, .node operand] := by simp
        have := List.count_pos_iff.mpr read
        omega
      · have read : value ∈ [value, .node operand] := by simp
        have := List.count_pos_iff.mpr read
        omega
      · exact Or.inr (Or.inl before)
      · exact Or.inr (Or.inr before)
  constructor
  · intro earlier part
    rcases List.suffix_cons_iff.mp part with rfl | part
    · have few := sound.length_live_le live
      simp only [List.length_cons, List.length_nil] at few
      omega
    · exact between.peak earlier part
  · exact live
  · exact List.mem_cons_of_mem _ between.point
  · exact between.within
  · intro index member
    rw [results_cons, List.mem_cons] at member
    exact between.needed index (member.resolve_left fun same => isPart index same.symm)

/-- An operand is read once, by the fold of the operands. -/
theorem uses_operand (wide : graph.Wide root most) (operand : Operand)
    (listed : ∀ leaf ∈ operand.leaves, leaf ∈ graph.dependencies root.index) :
    (Computed.ofOperand root.index operand).uses (graph.uses root) = 1 := by
  cases operand with
  | fold first second => rfl
  | node index =>
      have member := listed index (by simp [Operand.leaves])
      rw [Computed.ofOperand, Computed.uses,
        wide.apart.getD_uses wide.valid wide.inside member .root (wide.apart.ne_zero member)]
      exact wide.valid.getD_uses_root (wide.valid.inside_of_mem_dependencies member)

/-- A visit of a node extends the history. -/
theorem suffix_enter (valid : graph.Valid) {index : Nat} (below : index < bound)
    (known : History) : known <:+ enter (graph.declare bound) index known := by
  have alike := (valid.alike_declare below below).enter (.root : graph.Needs _ _)
  rcases alike known known (.refl _ _) with ⟨more, added, -, -⟩
  rw [added]
  exact List.suffix_append more known

theorem suffix_visitOperand (valid : graph.Valid) (owner : Nat) {operand : Operand}
    (below : ∀ leaf ∈ operand.leaves, leaf < bound) (known : History) :
    known <:+ visitOperand (graph.declare bound) owner operand known := by
  induction operand generalizing known with
  | node index => exact suffix_enter valid (below index (by simp [Operand.leaves])) known
  | fold first second firstInduction secondInduction =>
      simp only [Operand.leaves, List.mem_append] at below
      have visited := firstInduction (fun leaf member => below leaf (Or.inl member)) known
      have further := secondInduction (fun leaf member => below leaf (Or.inr member))
        (visitOperand (graph.declare bound) owner first known)
      exact (visited.trans further).trans (List.suffix_cons _ _)

/-- A chain is visited from its first input on. -/
theorem suffix_visitOperand_chain (valid : graph.Valid) (owner : Nat) (rest : List Nat)
    (below : ∀ leaf ∈ rest, leaf < bound) (operand : Operand) (known : History) :
    visitOperand (graph.declare bound) owner operand known <:+
      visitOperand (graph.declare bound) owner (operand.chain rest) known := by
  induction rest generalizing operand with
  | nil => exact List.suffix_refl _
  | cons index rest induction =>
      rw [List.forall_mem_cons] at below
      have visited := suffix_enter valid below.1
        (visitOperand (graph.declare bound) owner operand known)
      exact (visited.trans (List.suffix_cons _ _)).trans
        (induction below.2 (.fold operand (.node index)))

theorem Sound.of_suffix {earlier history : History} (sound : history.Sound)
    (part : earlier <:+ history) : earlier.Sound := by
  rcases part with ⟨later, rfl⟩
  exact sound.of_append

/-- A visit of a chain of operands leaves its fold to be held. -/
theorem Between.visitOperand {kept : Computed} (wide : graph.Wide root most)
    {operand : Operand} (isChain : operand.IsChain) (nodup : operand.leaves.Nodup)
    (listed : ∀ leaf ∈ operand.leaves, leaf ∈ graph.dependencies root.index)
    (fresh : ∀ leaf ∈ operand.leaves, leaf ∉ visited) (behind : root.index ≤ bound)
    (between : Between graph root most visited [kept, .node 0] moment)
    (sound : (visitOperand (graph.declare bound) root.index operand moment).Sound) :
    Between graph root most (operand.leaves ++ visited)
      [.ofOperand root.index operand, kept, .node 0]
      (History.visitOperand (graph.declare bound) root.index operand moment) := by
  -- The second input of every application of the chain is an operand.
  induction operand with
  | node index =>
      have member : index ∈ (Operand.node index).leaves := by simp [Operand.leaves]
      have before := wide.valid.lt_of_mem_dependencies index (listed index member)
      exact between.visit wide (by simp) (listed index member) (fresh index member)
        (by omega) sound
  | fold first second firstInduction _ =>
      cases second with
      | fold => exact absurd isChain.2 (by simp [Operand.folds])
      | node index =>
          simp only [Operand.leaves, List.mem_append] at listed fresh
          rw [Operand.leaves, List.nodup_append] at nodup
          have member : index ∈ (Operand.node index).leaves := by simp [Operand.leaves]
          have before :=
            wide.valid.lt_of_mem_dependencies index (listed index (Or.inr member))
          have visitSound := sound.2.2
          have firstSound := visitSound.of_suffix (suffix_enter wide.valid (by omega) _)
          have folded := firstInduction isChain.1 nodup.1
            (fun leaf leafMember => listed leaf (Or.inl leafMember))
            (fun leaf leafMember => fresh leaf (Or.inl leafMember)) firstSound
          have notYet : index ∉ first.leaves ++ visited := by
            rw [List.mem_append]
            rintro (earlier | earlier)
            · exact nodup.2.2 index earlier index member rfl
            · exact fresh index (Or.inr member) earlier
          have visited := folded.visit wide (by simp) (listed index (Or.inr member)) notYet
            (by omega) visitSound
          have operandUses := uses_operand wide (.node index) fun leaf leafMember =>
            listed leaf (Or.inr leafMember)
          have inputUses := uses_operand wide first fun leaf leafMember =>
            listed leaf (Or.inl leafMember)
          refine (visited.fold operandUses inputUses ?_ sound).mono ?_ ?_
          · rintro other ⟨⟩
          · intro leaf leafMember
            simpa [Operand.leaves, or_left_comm] using leafMember
          · intro leaf leafMember
            simp only [Operand.leaves, List.mem_append] at leafMember
            rcases leafMember with leafMember | earlier
            · exact listed leaf leafMember
            · exact between.within leaf earlier

end History

/-- Two dependencies or more become the one to be held, and a chain of the others. -/
theorem Operand.ofDependencies_of_two_le {dependencies : List Nat}
    (many : 2 ≤ dependencies.length) :
    ∃ kept operand, ofDependencies dependencies = [node kept, operand] ∧
      operand.IsChain ∧ (kept :: operand.leaves).Perm dependencies := by
  obtain ⟨kept, operand, operands⟩ :
      ∃ kept operand, ofDependencies dependencies = [node kept, operand] := by
    rcases Nat.lt_or_eq_of_le many with more | two
    · rcases ofDependencies_of_two_lt more with ⟨first, others, last, -, operands, -⟩
      exact ⟨last, _, operands⟩
    · match dependencies with
      | [first, second] => exact ⟨first, node second, rfl⟩
  refine ⟨kept, operand, operands, ?_, ?_⟩
  · exact isChain_of_mem_ofDependencies (by rw [operands]; simp)
  · have leaves := perm_leaves_ofDependencies dependencies
    rw [operands] at leaves
    simpa [Operand.leaves] using leaves

namespace Graph

variable {α : Type u} {graph : Graph α} {root : NodeId} {most : Nat}

/-- A node of two operands or more is computed from a chain, after the one to be held. -/
theorem Valid.declare_eq (valid : graph.Valid) (inside : root.index < graph.size)
    {bound kept : Nat} {operand : Operand} (size : graph.size = bound + 1)
    (operands : Operand.ofDependencies (graph.dependencies root.index) =
      [.node kept, operand]) :
    graph.declare graph.size root.index [] =
      ⟨.node root.index, [.node kept, .ofOperand root.index operand]⟩ ::
        History.visitOperand (graph.declare bound) root.index operand
          (History.enter (graph.declare bound) kept History.pointOnly) := by
  have leaves := Operand.perm_leaves_ofDependencies (graph.dependencies root.index)
  have listed : kept ∈ graph.dependencies root.index := by
    rw [← leaves.mem_iff, operands]
    simp [Operand.leaves]
  have before := valid.lt_of_mem_dependencies kept listed
  rw [size, declare, if_pos inside, operands,
    ← valid.enter_pointOnly (show kept < bound by omega) (by omega)]
  rfl

/-- While a wide node is visited, three values are live beside those of an operand. -/
theorem Wide.length_live_le (wide : graph.Wide root most)
    (many : 2 ≤ (graph.dependencies root.index).length) {moment : History}
    (part : moment <:+ graph.declare graph.size root.index []) :
    (moment.live (graph.uses root)).length ≤ most + 3 := by
  have complete := wide.valid.complete_declare wide.inside
  obtain ⟨bound, size⟩ := Nat.exists_eq_add_one_of_ne_zero (Nat.ne_zero_of_lt wide.inside)
  rcases Operand.ofDependencies_of_two_le many with ⟨kept, operand, operands, isChain, perm⟩
  have nodup := perm.nodup_iff.mpr wide.apart.distinct
  rw [List.nodup_cons] at nodup
  have listed : ∀ leaf ∈ kept :: operand.leaves, leaf ∈ graph.dependencies root.index :=
    fun leaf => perm.mem_iff.mp
  have behind : root.index ≤ bound := by
    have := wide.inside
    omega
  have below : ∀ leaf ∈ kept :: operand.leaves, leaf < bound := fun leaf member =>
    Nat.lt_of_lt_of_le (wide.valid.lt_of_mem_dependencies leaf (listed leaf member)) behind
  rw [List.forall_mem_cons] at listed below
  rw [wide.valid.declare_eq wide.inside size operands] at part complete
  rcases List.suffix_cons_iff.mp part with rfl | part
  -- At the end only the root is live.
  · have single := complete.length_live_le_one wide.valid
    omega
  · have chainSound := complete.sound.2.2
    have keptSound := chainSound.of_suffix
      (History.suffix_visitOperand wide.valid root.index below.2 _)
    have visited := (History.between_pointOnly graph root most).visit wide (by simp)
      listed.1 (by simp) below.1 keptSound
    have fresh : ∀ leaf ∈ operand.leaves, leaf ∉ [kept] := by
      intro leaf member same
      exact nodup.1 (List.mem_singleton.mp same ▸ member)
    have folded := visited.visitOperand wide isChain nodup.2 listed.2 fresh behind chainSound
    exact folded.peak moment part

end Graph

end SolidField
