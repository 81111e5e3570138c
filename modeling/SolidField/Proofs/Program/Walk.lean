import SolidField.Program.Walk
import SolidField.Proofs.Program.Decoding

/-!
# The walk follows the decoder

The words of a program are the words of its instructions, one after another.  A round
of the loop at the header of an instruction hands over what the instruction says and
leads to the next header, as long as the positions can be stored.  A walk from the
first header therefore applies the decoded instructions, up to the result.
-/

namespace SolidField

/-! ## The words of instructions -/

/-- The words of words that are written as bytes. -/
@[simp]
theorem bytesWords_flatMap_wordBytes (words : List UInt32) :
    bytesWords (words.flatMap wordBytes) = words := by
  induction words with
  | nil => rfl
  | cons word words induction =>
      simp only [List.flatMap_cons, wordBytes, List.cons_append, List.nil_append,
        bytesWords, bytesWord_bytes, induction]

namespace Instruction

/-- The four fields in front of the parameters, as a word. -/
def headerWord (instruction : Instruction) : UInt32 :=
  bytesWord instruction.opcode.code instruction.output instruction.input1
    instruction.input2

/-- The word that counts the parameters of a variadic operation. -/
def countWords (instruction : Instruction) : List UInt32 :=
  match instruction.opcode.parameters with
  | .fixed _ => []
  | .variadic => [UInt32.ofNat instruction.parameters.length]

/-- The words of an instruction. -/
def words (instruction : Instruction) : List UInt32 :=
  instruction.headerWord ::
    (instruction.countWords ++ instruction.parameters.map Single.bits)

theorem encode_eq_flatMap_words (instruction : Instruction) :
    instruction.encode = instruction.words.flatMap wordBytes := by
  have count : instruction.countBytes = instruction.countWords.flatMap wordBytes := by
    rw [countBytes, countWords]
    cases instruction.opcode.parameters <;> simp
  rw [words, List.flatMap_cons, List.flatMap_append, headerWord, wordBytes_bytesWord,
    flatMap_wordBytes, ← count, encode, header, List.append_assoc]

/-- The instruction that returns a value is a header alone. -/
theorem words_of_halt {instruction : Instruction} {registerCount : Nat}
    (fits : instruction.Fits registerCount) (ending : instruction.opcode = .halt) :
    instruction.words = [instruction.headerWord] := by
  have accepted := fits.parameters
  rw [ending] at accepted
  have none : instruction.parameters = [] :=
    List.length_eq_zero_iff.mp (of_decide_eq_true accepted)
  simp [words, countWords, ending, Opcode.parameters, none]

/-- A fixed number of parameters follows the header. -/
theorem words_of_fixed {instruction : Instruction} {count : Nat}
    (layout : instruction.opcode.parameters = .fixed count) :
    instruction.words =
      instruction.headerWord :: instruction.parameters.map Single.bits := by
  rw [words, countWords, layout, List.nil_append]

/-- Parameters that are counted follow the word with their number. -/
theorem words_of_variadic {instruction : Instruction}
    (layout : instruction.opcode.parameters = .variadic) :
    instruction.words =
      [instruction.headerWord, UInt32.ofNat instruction.parameters.length] ++
        instruction.parameters.map Single.bits := by
  rw [words, countWords, layout]
  rfl

end Instruction

theorem words_of_encodeAll (registerCount : Nat) (instructions : List Instruction) :
    Program.words ⟨registerCount, encodeAll instructions⟩ =
      instructions.flatMap Instruction.words := by
  have bytes : encodeAll instructions =
      (instructions.flatMap Instruction.words).flatMap wordBytes := by
    rw [List.flatMap_assoc, encodeAll]
    exact List.flatMap_congr fun instruction _ => instruction.encode_eq_flatMap_words
  rw [Program.words, bytes, bytesWords_flatMap_wordBytes]

/-! ## Headers -/

namespace Shader

/-- A mask keeps the lowest byte of a word. -/
theorem and_mask (word : UInt32) : word &&& 0xff = word.toUInt8.toUInt32 := by
  apply UInt32.toNat_inj.mp
  rw [UInt32.toNat_and, UInt8.toNat_toUInt32, UInt32.toNat_toUInt8]
  exact Nat.and_two_pow_sub_one_eq_mod word.toNat 8

/-- The fields of a word are its bytes. -/
theorem map_value (word : UInt32) :
    HeaderField.all.map (HeaderField.value · word) =
      (wordBytes word).map UInt8.toUInt32 := by
  simp [HeaderField.all, HeaderField.value, HeaderField.shift, wordBytes, and_mask]

theorem value_headerWord (instruction : Instruction) :
    HeaderField.opcode.value instruction.headerWord =
        instruction.opcode.code.toUInt32 ∧
      HeaderField.output.value instruction.headerWord =
        instruction.output.toUInt32 ∧
      HeaderField.input1.value instruction.headerWord =
        instruction.input1.toUInt32 ∧
      HeaderField.input2.value instruction.headerWord =
        instruction.input2.toUInt32 := by
  have fields := map_value instruction.headerWord
  have bytes : wordBytes instruction.headerWord =
      [instruction.opcode.code, instruction.output, instruction.input1,
        instruction.input2] := wordBytes_bytesWord _ _ _ _
  rw [bytes] at fields
  simpa [HeaderField.all] using fields

/-- A code leads to the case of its operation, which all but the point have. -/
theorem caseOf?_code (opcode : Opcode) :
    caseOf? opcode.code.toUInt32 =
      (Action.ofOpcode? opcode).map fun action => (opcode, action) := by
  cases opcode <;> rfl

theorem ofOpcode?_eq {opcode : Opcode} (isInstruction : opcode ≠ .point)
    (going : opcode ≠ .halt) :
    Action.ofOpcode? opcode = some (match opcode.parameters with
      | .fixed count => .apply .counter false (.plus .counter (.constant count))
      | .variadic => .apply .following true (.plus .following .count)) := by
  cases opcode <;> first | rfl | contradiction

/-- After every operation the loop goes on at a sum of positions. -/
theorem next_of_caseOf? {code : UInt32} {opcode : Opcode}
    {parametersAt next : Address} {counted : Bool}
    (isCase : caseOf? code = some (opcode, .apply parametersAt counted next)) :
    ∃ first second, next = .plus first second := by
  rcases List.exists_of_findSome?_eq_some isCase with ⟨_, -, action⟩
  split at action
  · rcases Option.map_eq_some_iff.mp action with ⟨_, isAction, same⟩
    cases same
    cases opcode <;> cases isAction <;> exact ⟨_, _, rfl⟩
  · cases action

end Shader

/-! ## Rounds of the loop -/

namespace Program

open Shader

variable {store : Nat → Nat} {registerCount : Nat} {instruction : Instruction}
  {before after : List UInt32}

/-- The positions among the words are stored as they are. -/
def Stores (store : Nat → Nat) (words : List UInt32) : Prop :=
  ∀ position < words.length, store position = position

/-- At the header of the result the walk ends. -/
theorem walkStep_halt (fits : instruction.Fits registerCount)
    (ending : instruction.opcode = .halt) :
    walkStep store (before ++ instruction.words) before.length =
      .error (.result instruction.input1.toUInt32 before.length) := by
  rcases value_headerWord instruction with ⟨code, -, input1, -⟩
  rw [ending] at code
  simp [walkStep, instruction.words_of_halt fits ending, code, input1, caseOf?_code,
    Action.ofOpcode?]

/-- The round at a header depends on the layout of the parameters alone. -/
theorem walkStep_of_header {words : List UInt32} {position : Nat}
    (found : words[position]? = some instruction.headerWord)
    (isInstruction : instruction.opcode ≠ .point)
    (going : instruction.opcode ≠ .halt) :
    walkStep store words position =
      let pc := store (position + 1)
      let step := WalkStep.mk instruction.opcode instruction.output.toUInt32
        instruction.input1.toUInt32 instruction.input2.toUInt32
      match instruction.opcode.parameters with
      | .fixed count => .ok (step pc none, store (pc + count))
      | .variadic =>
          match words[pc]? with
          | none => .error (.outside pc)
          | some count =>
              .ok (step (store (pc + 1)) (some count),
                store (store (pc + 1) + count.toNat)) := by
  rcases value_headerWord instruction with ⟨code, output, input1, input2⟩
  simp only [walkStep, found, code, output, input1, input2, caseOf?_code,
    ofOpcode?_eq isInstruction going, Option.map_some]
  cases instruction.opcode.parameters with
  | fixed count => rfl
  | variadic => rfl

/-- What a round at the header of an instruction hands over, and where it leads. -/
def Leads (before after : List UInt32) (instruction : Instruction) (step : WalkStep) :
    Prop :=
  step.Applies (before ++ instruction.words ++ after) instruction ∧
    ∀ store, Stores store (before ++ instruction.words ++ after) →
      walkStep store (before ++ instruction.words ++ after) before.length =
        .ok (step, (before ++ instruction.words).length)

theorem getElem?_header :
    (before ++ instruction.words ++ after)[before.length]? =
      some instruction.headerWord := by
  simp [Instruction.words]

/-- Positions up to the next header are stored as they are. -/
theorem Stores.eq_of_le (stores : Stores store (before ++ instruction.words ++ after))
    (more : after ≠ []) {position : Nat}
    (inside : position ≤ before.length + instruction.words.length) :
    store position = position := by
  have room := List.length_pos_iff.mpr more
  apply stores
  rw [List.length_append, List.length_append]
  omega

/-- The parameters of a fixed layout stand behind the header. -/
theorem leads_of_fixed (fits : instruction.Fits registerCount)
    (going : instruction.opcode ≠ .halt) (more : after ≠ []) {count : Nat}
    (layout : instruction.opcode.parameters = .fixed count) :
    Leads before after instruction
      ⟨instruction.opcode, instruction.output.toUInt32, instruction.input1.toUInt32,
        instruction.input2.toUInt32, before.length + 1, none⟩ := by
  have split := instruction.words_of_fixed layout
  have accepted := fits.parameters
  rw [layout, ParameterLayout.accepts, decide_eq_true_eq] at accepted
  have length : instruction.words.length = 1 + count := by
    rw [split, List.length_cons, List.length_map, accepted, Nat.add_comm]
  refine ⟨⟨rfl, rfl, rfl, rfl, ?_, ?_⟩, fun store stores => ?_⟩
  · simp [split]
  · simp [layout]
  · rw [walkStep_of_header getElem?_header fits.isInstruction going, layout]
    simp only [stores.eq_of_le more (show before.length + 1 ≤ _ by omega),
      stores.eq_of_le more (show before.length + 1 + count ≤ _ by omega)]
    rw [List.length_append, length, Nat.add_assoc]

/-- The parameters of a variadic layout stand behind the word with their number. -/
theorem leads_of_variadic (fits : instruction.Fits registerCount)
    (going : instruction.opcode ≠ .halt) (more : after ≠ [])
    (layout : instruction.opcode.parameters = .variadic) :
    Leads before after instruction
      ⟨instruction.opcode, instruction.output.toUInt32, instruction.input1.toUInt32,
        instruction.input2.toUInt32, before.length + 1 + 1,
        some (UInt32.ofNat instruction.parameters.length)⟩ := by
  have split := instruction.words_of_variadic layout
  have counted : (UInt32.ofNat instruction.parameters.length).toNat =
      instruction.parameters.length := UInt32.toNat_ofNat_of_lt' fits.counted
  have length : instruction.words.length = 1 + (1 + instruction.parameters.length) := by
    rw [split, List.length_append, List.length_map, List.length_cons,
      List.length_singleton, Nat.add_assoc]
  have loaded : (before ++ instruction.words ++ after)[before.length + 1]? =
      some (UInt32.ofNat instruction.parameters.length) := by
    simp [split]
  refine ⟨⟨rfl, rfl, rfl, rfl, ?_, ?_⟩, fun store stores => ?_⟩
  · have behind : before ++ instruction.words ++ after =
        before ++ [instruction.headerWord,
            UInt32.ofNat instruction.parameters.length] ++
          (instruction.parameters.map Single.bits ++ after) := by
      simp [split]
    rw [behind, List.drop_left' (by simp), List.take_left' (by simp)]
  · simp [layout, counted]
  · rw [walkStep_of_header getElem?_header fits.isInstruction going, layout]
    simp only [stores.eq_of_le more (show before.length + 1 ≤ _ by omega), loaded, counted,
      stores.eq_of_le more (show before.length + 1 + 1 ≤ _ by omega),
      stores.eq_of_le more (show before.length + 1 + 1 +
        instruction.parameters.length ≤ _ by omega)]
    rw [List.length_append, length, ← Nat.add_assoc, ← Nat.add_assoc]

/--
At the header of any other instruction it is applied, and the walk goes on behind its
words.  What is handed over is the same for all ways of storing positions.
-/
theorem exists_leads (fits : instruction.Fits registerCount)
    (going : instruction.opcode ≠ .halt) (more : after ≠ []) :
    ∃ step, Leads before after instruction step := by
  cases layout : instruction.opcode.parameters with
  | fixed count => exact ⟨_, leads_of_fixed fits going more layout⟩
  | variadic => exact ⟨_, leads_of_variadic fits going more layout⟩

/-! ## Whole walks -/

/--
Walking the words of instructions that end with the result applies them one after
another; what is in front of the first header plays no part.
-/
theorem exists_walkFrom {body : List Instruction} {last : Instruction}
    (fits : ∀ instruction ∈ body ++ [last], instruction.Fits registerCount)
    (going : ∀ instruction ∈ body, instruction.opcode ≠ .halt)
    (ending : last.opcode = .halt) {words : List UInt32}
    (split : words = before ++ (body ++ [last]).flatMap Instruction.words)
    {bound : Nat} (enough : body.length < bound) :
    ∃ steps, List.Forall₂ (WalkStep.Applies words) steps body ∧
      ∀ store, Stores store words →
        walkFrom store words bound before.length =
          (steps, .result last.input1.toUInt32 (words.length - 1)) := by
  obtain ⟨bound, rfl⟩ := Nat.exists_eq_add_of_lt enough
  induction body generalizing before with
  | nil =>
      have fitsLast := fits last (by simp)
      simp only [List.nil_append, List.flatMap_singleton] at split
      refine ⟨[], .nil, fun store stores => ?_⟩
      simp only [walkFrom]
      rw [split, walkStep_halt fitsLast ending, last.words_of_halt fitsLast ending]
      simp
  | cons first body induction =>
      have atFirst : words = before ++ first.words ++
          (body ++ [last]).flatMap Instruction.words := by
        simp [split]
      have more : (body ++ [last]).flatMap Instruction.words ≠ [] := by
        simp [Instruction.words]
      have inBody : ∀ instruction ∈ body ++ [last],
          instruction ∈ first :: body ++ [last] := by
        simp only [List.cons_append, List.mem_cons]
        exact fun instruction member => .inr member
      rcases exists_leads (fits first (by simp)) (going first (by simp)) more with
        ⟨step, applies, next⟩
      rw [← atFirst] at applies next
      rcases induction (fun instruction member => fits instruction (inBody _ member))
        (fun instruction member => going instruction (.tail _ member))
        atFirst (by omega) with ⟨steps, appliesRest, rest⟩
      refine ⟨step :: steps, .cons applies appliesRest, fun store stores => ?_⟩
      rw [List.length_cons, Nat.add_right_comm body.length 1 bound, walkFrom,
        next store stores]
      simp only [rest store stores]

theorem length_le_length_words (instructions : List Instruction) :
    instructions.length ≤ (instructions.flatMap Instruction.words).length := by
  induction instructions with
  | nil => simp
  | cons first instructions induction =>
      simp only [List.flatMap_cons, List.length_append, Instruction.words,
        List.length_cons]
      omega

/-- A program has one walk for all ways of storing its positions. -/
theorem exists_walkWith {program : Program} {instructions : List Instruction}
    (decoded : program.decode = .ok instructions) :
    ∃ walk, program.Traversed instructions walk ∧
      ∀ store, Stores store program.words → program.walkWith store = walk := by
  rcases program with ⟨registerCount, bytecode⟩
  rcases wellformed_of_decode decoded with ⟨wellformed, rfl⟩
  rcases wellformed.endsWithResult with ⟨body, last, rfl, ending, going⟩
  have split := words_of_encodeAll registerCount (body ++ [last])
  have length := length_le_length_words (body ++ [last])
  rw [List.length_append, List.length_singleton, ← split] at length
  rcases exists_walkFrom wellformed.fits going ending
    (split.trans (List.nil_append _).symm) length with ⟨steps, applies, walked⟩
  refine ⟨_, ⟨by simpa using applies, last, _, by simp, ending, ?_, rfl⟩, walked⟩
  omega

/--
A round ends at its header or leads to another one, and every other position than its
own is a stored sum.
-/
theorem walkStep_lt {limit position : Nat} (limited : ∀ sum, store sum < limit)
    (inside : position < limit) (words : List UInt32) :
    match walkStep store words position with
    | .error finish => finish.position < limit
    | .ok (_, next) => next < limit := by
  simp only [walkStep]
  split
  · next finish ended =>
      split at ended
      · cases ended
        exact inside
      · split at ended
        · cases ended
          exact inside
        · cases ended
          exact inside
        · split at ended
          · split at ended
            · cases ended
              exact limited _
            · cases ended
          · cases ended
  · next step next found =>
      split at found
      · cases found
      · split at found
        · cases found
        · cases found
        · next opcode parametersAt counted after isCase =>
            rcases next_of_caseOf? isCase with ⟨first, second, rfl⟩
            split at found
            · split at found
              · cases found
              · cases found
                exact limited _
            · cases found
              exact limited _

/-- A walk does not leave the positions that can be stored. -/
theorem position_walkFrom_lt {limit position : Nat} (limited : ∀ sum, store sum < limit)
    (inside : position < limit) (words : List UInt32) (bound : Nat) :
    (walkFrom store words bound position).2.position < limit := by
  induction bound generalizing position with
  | zero => exact inside
  | succ bound induction =>
      have round := walkStep_lt limited inside words
      cases reached : walkStep store words position with
      | error finish =>
          rw [reached] at round
          rw [walkFrom, reached]
          exact round
      | ok next =>
          rw [reached] at round
          rw [walkFrom, reached]
          exact induction round

/--
Walking the words of a program the way the shader does visits what the decoder
returns: every step applies the next decoded instruction to the registers and the
parameter words of that instruction, no header is without a case, and the walk ends at
the last word with the register of the result.  A device counts the words of a program
that has no more of them than its counter has values, and loses its way in any other.
-/
theorem walk_traverses_decoded {program : Program} {instructions : List Instruction}
    (decoded : program.decode = .ok instructions) :
    program.Traversed instructions program.walk ∧
      (program.deviceWalk = program.walk ↔
        program.words.length ≤ UInt32.size) := by
  rcases exists_walkWith decoded with ⟨walk, traversed, walked⟩
  have unlimited : program.walk = walk := walked id fun _ _ => rfl
  refine ⟨unlimited ▸ traversed, ?_, ?_⟩
  · intro same
    rcases traversed.finish with ⟨last, position, -, -, atLast, finish⟩
    have stored : program.deviceWalk.2.position < UInt32.size :=
      position_walkFrom_lt (fun sum => Nat.mod_lt sum (by decide)) (by decide) _ _
    rw [same, unlimited, finish, WalkEnd.position] at stored
    omega
  · intro small
    rw [unlimited]
    exact walked _ fun position inside => Nat.mod_eq_of_lt (by omega)

/-- A prism over a triangle, less an enlarged ball. -/
def prismWithoutBall : List Instruction :=
  [⟨.sphere, 1, 0, 0, [1]⟩, ⟨.offset, 1, 1, 0, [1]⟩,
    ⟨.polygon, 2, 0, 0, [0, 0, 1, 0, 0, 1]⟩, ⟨.extrusion, 2, 0, 2, [1]⟩,
    ⟨.subtraction, 1, 2, 1, [0]⟩, .result 1]

theorem prismWithoutBall_walk_traverses :
    let program : Program := ⟨3, encodeAll prismWithoutBall⟩
    program.decode = .ok prismWithoutBall ∧
      program.Traversed prismWithoutBall program.walk ∧
        program.deviceWalk = program.walk := by
  have decoded := decode_encodeAll
    (show Wellformed 3 prismWithoutBall by decide)
  rcases walk_traverses_decoded decoded with ⟨traversed, device⟩
  refine ⟨decoded, traversed, device.mpr ?_⟩
  rw [words_of_encodeAll]
  decide

end Program

end SolidField
