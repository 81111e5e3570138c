import SolidField.Proofs.Program.Decoding

/-!
# Truncated and extended programs

The instructions of a program follow one another without a gap, and only the last
of them ends it.  Bytes that stop early are therefore found out where they stop: at
the header of the instruction that they cut, or for want of a result between two
instructions.  Bytes behind the result are found out where they start.
-/

namespace SolidField

/-- A position in the bytes of a sequence between two instructions, or at an end. -/
def IsBoundary (instructions : List Instruction) (position : Nat) : Prop :=
  ∃ before after, instructions = before ++ after ∧
    position = (encodeAll before).length

/-- A position is inside the bytes of an instruction whose header is at an offset. -/
def CutsAt (instructions : List Instruction) (position offset : Nat) : Prop :=
  ∃ before cut after, instructions = before ++ cut :: after ∧
    offset = (encodeAll before).length ∧
      offset < position ∧ position < offset + cut.encodedLength

@[simp]
theorem encodeAll_append (front back : List Instruction) :
    encodeAll (front ++ back) = encodeAll front ++ encodeAll back :=
  List.flatMap_append

@[simp]
theorem encodeAll_cons (instruction : Instruction) (rest : List Instruction) :
    encodeAll (instruction :: rest) = instruction.encode ++ encodeAll rest :=
  List.flatMap_cons

theorem IsBoundary.cons {instructions : List Instruction} {position : Nat}
    (boundary : IsBoundary instructions position) (instruction : Instruction) :
    IsBoundary (instruction :: instructions)
      (position + instruction.encodedLength) := by
  rcases boundary with ⟨before, after, rfl, rfl⟩
  refine ⟨instruction :: before, after, rfl, ?_⟩
  rw [encodeAll_cons, List.length_append, Instruction.length_encode, Nat.add_comm]

theorem CutsAt.cons {instructions : List Instruction} {position offset : Nat}
    (cuts : CutsAt instructions position offset) (instruction : Instruction) :
    CutsAt (instruction :: instructions) (position + instruction.encodedLength)
      (offset + instruction.encodedLength) := by
  rcases cuts with ⟨before, cut, after, rfl, rfl, start, stop⟩
  refine ⟨instruction :: before, cut, after, rfl, ?_, by omega, by omega⟩
  rw [encodeAll_cons, List.length_append, Instruction.length_encode, Nat.add_comm]

/-- Every position in the bytes of a sequence is a boundary or cuts an instruction. -/
theorem isBoundary_or_cutsAt {instructions : List Instruction} {position : Nat}
    (inside : position < (encodeAll instructions).length) :
    IsBoundary instructions position ∨ ∃ offset, CutsAt instructions position offset := by
  induction instructions generalizing position with
  | nil => exact absurd inside (Nat.not_lt_zero _)
  | cons instruction rest induction =>
      rw [encodeAll_cons, List.length_append, Instruction.length_encode] at inside
      by_cases start : position = 0
      · exact Or.inl ⟨[], instruction :: rest, rfl, start⟩
      · by_cases first : position < instruction.encodedLength
        · exact Or.inr ⟨0, [], instruction, rest, rfl, rfl, by omega, by omega⟩
        · -- The position is in the rest, whose bytes start behind the instruction.
          obtain ⟨earlier, rfl⟩ : ∃ earlier,
              position = earlier + instruction.encodedLength :=
            ⟨position - instruction.encodedLength, by omega⟩
          have insideRest : earlier < (encodeAll rest).length := by omega
          rcases induction insideRest with boundary | ⟨offset, cuts⟩
          · exact Or.inl (boundary.cons instruction)
          · exact Or.inr ⟨_, cuts.cons instruction⟩

/-! ## One instruction -/

namespace Instruction

variable {registerCount offset : Nat} {instruction : Instruction}

/-- Behind a header that fits only the parameters can be missing. -/
theorem read_header_append (fits : instruction.Fits registerCount)
    (rest : List UInt8) :
    read registerCount offset (instruction.header ++ rest) =
      match readParameters instruction.opcode.parameters rest with
      | some (words, remaining) =>
          .ok (⟨instruction.opcode, instruction.output, instruction.input1,
            instruction.input2, words.map Single.mk⟩, remaining)
      | none => .error (.truncated offset) := by
  have checked : checkRegisters registerCount offset instruction.opcode
      instruction.output instruction.input1 instruction.input2 = .ok () :=
    checkRegisters_eq_ok_iff.mpr ⟨fits.input1, fits.output, fits.input2⟩
  simp only [header, List.cons_append, List.nil_append, read,
    Opcode.ofCode?_code, if_neg fits.isInstruction, bind, Except.bind, checked]
  cases readParameters instruction.opcode.parameters rest <;> rfl

/--
An instruction that is cut behind its header is truncated: what could be read off
its front could be read off all of it, with bytes left over.
-/
theorem read_take (fits : instruction.Fits registerCount) {length : Nat}
    (behindHeader : 4 ≤ length) (cut : length < instruction.encodedLength) :
    read registerCount offset (instruction.encode.take length) =
      .error (.truncated offset) := by
  have front : instruction.encode.take length =
      instruction.header ++ (instruction.encode.take length).drop 4 := by
    have four : (instruction.encode.take length).take 4 = instruction.header := by
      rw [List.take_take, Nat.min_eq_left behindHeader]
      rfl
    rw [← four, List.take_append_drop]
  cases found : read registerCount offset (instruction.encode.take length) with
  | ok result =>
      rcases result with ⟨other, remaining⟩
      obtain ⟨otherFits, split⟩ := read_eq_ok_iff.mp found
      have whole : instruction.encode =
          other.encode ++ (remaining ++ instruction.encode.drop length) := by
        rw [← List.append_assoc, ← split, List.take_append_drop]
      have once : read registerCount offset instruction.encode =
          .ok (instruction, []) :=
        read_eq_ok_iff.mpr ⟨fits, (List.append_nil _).symm⟩
      have again : read registerCount offset instruction.encode =
          .ok (other, remaining ++ instruction.encode.drop length) :=
        read_eq_ok_iff.mpr ⟨otherFits, whole⟩
      rw [once, Except.ok.injEq, Prod.mk.injEq] at again
      have left := congrArg List.length again.2
      rw [List.length_append, List.length_drop, length_encode] at left
      simp only [List.length_nil] at left
      omega
  | error error =>
      rw [front, read_header_append fits] at found
      split at found
      · cases found
      · exact found.symm

/-- What fits some registers fits more of them. -/
theorem Fits.mono {larger : Nat} (fits : instruction.Fits registerCount)
    (more : registerCount ≤ larger) : instruction.Fits larger where
  isInstruction := fits.isInstruction
  input1 := Nat.lt_of_lt_of_le fits.input1 more
  output going := Nat.lt_of_lt_of_le (fits.output going) more
  input2 reads := Nat.lt_of_lt_of_le (fits.input2 reads) more
  parameters := fits.parameters
  counted := fits.counted

end Instruction

/-! ## The loop of the decoder -/

namespace Program

variable {registerCount offset : Nat} {instructions before : List Instruction}
  {bytecode extra : List UInt8}

theorem decodeFrom_of_error {bytes : List UInt8} {error : ProgramError}
    (failed : Instruction.read registerCount offset bytes = .error error) :
    decodeFrom registerCount offset bytes = .error error := by
  rw [decodeFrom]
  split
  · next again =>
      rw [failed] at again
      cases again
      rfl
  · next again =>
      rw [failed] at again
      cases again

/-- Behind instructions that do not end a program the decoder goes on. -/
theorem decodeFrom_encodeAll_append
    (fits : ∀ instruction ∈ before, instruction.Fits registerCount)
    (going : ∀ instruction ∈ before, instruction.opcode ≠ .halt)
    (rest : List UInt8) :
    decodeFrom registerCount offset (encodeAll before ++ rest) =
      (decodeFrom registerCount (offset + (encodeAll before).length) rest).map
        (before ++ ·) := by
  induction before generalizing offset with
  | nil =>
      show decodeFrom registerCount offset rest =
        (decodeFrom registerCount offset rest).map fun others => others
      cases decodeFrom registerCount offset rest <;> rfl
  | cons instruction before induction =>
      rw [List.forall_mem_cons] at fits going
      have found : Instruction.read registerCount offset
          (encodeAll (instruction :: before) ++ rest) =
            .ok (instruction, encodeAll before ++ rest) :=
        Instruction.read_eq_ok_iff.mpr ⟨fits.1, by simp⟩
      rw [decodeFrom_of_ok found, if_neg going.1, induction fits.2 going.2,
        encodeAll_cons, List.length_append, Instruction.length_encode,
        Nat.add_assoc]
      cases decodeFrom registerCount
        (offset + (instruction.encodedLength + (encodeAll before).length)) rest <;>
        rfl

/-- Behind its only result every other byte is one too many. -/
theorem decodeFrom_append {last : Instruction}
    (fits : ∀ instruction ∈ before ++ [last], instruction.Fits registerCount)
    (ending : last.opcode = .halt)
    (going : ∀ instruction ∈ before, instruction.opcode ≠ .halt)
    (more : extra ≠ []) :
    decodeFrom registerCount offset (encodeAll (before ++ [last]) ++ extra) =
      .error (.trailingBytes (offset + (encodeAll (before ++ [last])).length)) := by
  rw [List.forall_mem_append, List.forall_mem_singleton] at fits
  have found : Instruction.read registerCount
      (offset + (encodeAll before).length) (last.encode ++ extra) =
        .ok (last, extra) :=
    Instruction.read_eq_ok_iff.mpr ⟨fits.2, rfl⟩
  have notEmpty : ¬extra.isEmpty = true := by simpa using more
  have result : encodeAll [last] = last.encode := List.append_nil _
  rw [encodeAll_append, List.append_assoc, result,
    decodeFrom_encodeAll_append fits.1 going, decodeFrom_of_ok found,
    if_pos ending, if_neg notEmpty, List.length_append,
    Instruction.length_encode, Nat.add_assoc]
  rfl

/-! ## Programs -/

/-- A decoded program with enough registers decodes with more of them. -/
theorem decode_of_le {larger : Nat}
    (decoded : decode ⟨registerCount, bytecode⟩ = .ok instructions)
    (more : registerCount ≤ larger) (addressable : larger ≤ maxRegisters) :
    decode ⟨larger, bytecode⟩ = .ok instructions := by
  obtain ⟨wellformed, rfl⟩ := wellformed_of_decode decoded
  apply decode_encodeAll
  exact {
    positive := Nat.lt_of_lt_of_le wellformed.positive more
    addressable
    fits := fun instruction member => (wellformed.fits instruction member).mono more
    endsWithResult := wellformed.endsWithResult }

/-- A byte string of a length that is no multiple of four is misaligned. -/
theorem decode_of_misaligned
    (decoded : decode ⟨registerCount, bytecode⟩ = .ok instructions)
    {bytes : List UInt8} (odd : bytes.length % 4 ≠ 0) :
    decode ⟨registerCount, bytes⟩ = .error (.misaligned bytes.length) := by
  have wellformed := (wellformed_of_decode decoded).1
  have positive := wellformed.positive
  have addressable := wellformed.addressable
  simp only [decode]
  rw [if_neg (by omega), if_pos odd]

/-- A byte string of whole words is decoded by the loop. -/
theorem decode_of_aligned
    (decoded : decode ⟨registerCount, bytecode⟩ = .ok instructions)
    {bytes : List UInt8} (even : bytes.length % 4 = 0) :
    decode ⟨registerCount, bytes⟩ = decodeFrom registerCount 0 bytes := by
  have wellformed := (wellformed_of_decode decoded).1
  have positive := wellformed.positive
  have addressable := wellformed.addressable
  simp only [decode]
  rw [if_neg (by omega), if_neg (fun odd => odd even)]

/-- What comes before an instruction of a program does not end it. -/
theorem going_of_split (wellformed : Wellformed registerCount instructions)
    {after : List Instruction} (split : instructions = before ++ after)
    (more : after ≠ []) :
    ∀ instruction ∈ before, instruction.opcode ≠ .halt := by
  rcases wellformed.endsWithResult with ⟨body, last, rfl, -, going⟩
  rw [← List.dropLast_concat_getLast more, ← List.append_assoc] at split
  obtain ⟨rfl, -⟩ := List.append_inj' split rfl
  exact fun instruction member => going instruction (List.mem_append_left _ member)

/-- A program that stops between two instructions has no result. -/
theorem decode_take_of_isBoundary
    (decoded : decode ⟨registerCount, bytecode⟩ = .ok instructions) {length : Nat}
    (proper : length < bytecode.length) (boundary : IsBoundary instructions length) :
    decode ⟨registerCount, bytecode.take length⟩ = .error .missingResult := by
  obtain ⟨wellformed, rfl⟩ := wellformed_of_decode decoded
  rcases boundary with ⟨before, after, rfl, rfl⟩
  have more : after ≠ [] := by
    rintro rfl
    rw [List.append_nil] at proper
    exact Nat.lt_irrefl _ proper
  have going := going_of_split wellformed rfl more
  have fits : ∀ instruction ∈ before, instruction.Fits registerCount :=
    fun instruction member =>
      wellformed.fits instruction (List.mem_append_left _ member)
  rw [encodeAll_append, List.take_left, decode_of_aligned decoded
    (length_encodeAll_mod before), ← List.append_nil (encodeAll before),
    decodeFrom_encodeAll_append fits going, decodeFrom_of_error rfl]
  rfl

/-- A program that stops inside an instruction is truncated at its header. -/
theorem decode_take_of_cutsAt
    (decoded : decode ⟨registerCount, bytecode⟩ = .ok instructions) {length : Nat}
    (even : length % 4 = 0) (cuts : CutsAt instructions length offset) :
    decode ⟨registerCount, bytecode.take length⟩ = .error (.truncated offset) := by
  obtain ⟨wellformed, rfl⟩ := wellformed_of_decode decoded
  rcases cuts with ⟨before, cut, after, rfl, rfl, start, stop⟩
  have aligned := length_encodeAll_mod before
  have going := going_of_split wellformed rfl (List.cons_ne_nil cut after)
  have fits := wellformed.fits
  rw [List.forall_mem_append, List.forall_mem_cons] at fits
  have front : (encodeAll (before ++ cut :: after)).take length =
      encodeAll before ++ cut.encode.take (length - (encodeAll before).length) := by
    have within : length - (encodeAll before).length ≤ cut.encode.length := by
      rw [Instruction.length_encode]
      omega
    rw [encodeAll_append, encodeAll_cons, ← List.take_append_of_le_length within,
      ← List.take_length_add_append, Nat.add_sub_cancel' (Nat.le_of_lt start)]
  have short : ((encodeAll (before ++ cut :: after)).take length).length % 4 = 0 := by
    rw [front, List.length_append, List.length_take, Instruction.length_encode]
    omega
  rw [decode_of_aligned decoded short, front,
    decodeFrom_encodeAll_append fits.1 going,
    decodeFrom_of_error (Instruction.read_take fits.2.1 (by omega) (by omega)),
    Nat.zero_add]
  rfl

/-- Whole words behind a program are found where they start. -/
theorem decode_append
    (decoded : decode ⟨registerCount, bytecode⟩ = .ok instructions)
    (more : extra ≠ []) (even : (bytecode ++ extra).length % 4 = 0) :
    decode ⟨registerCount, bytecode ++ extra⟩ =
      .error (.trailingBytes bytecode.length) := by
  obtain ⟨wellformed, rfl⟩ := wellformed_of_decode decoded
  rcases wellformed.endsWithResult with ⟨body, last, rfl, ending, going⟩
  rw [decode_of_aligned decoded even,
    decodeFrom_append wellformed.fits ending going more, Nat.zero_add]

/-- No program goes on where another one ends, whatever registers they have. -/
theorem eq_of_isPrefix {others : Nat} {longer : List UInt8}
    {otherInstructions : List Instruction}
    (decoded : decode ⟨registerCount, bytecode⟩ = .ok instructions)
    (otherDecoded : decode ⟨others, longer⟩ = .ok otherInstructions)
    (front : bytecode <+: longer) : longer = bytecode := by
  rcases front with ⟨extra, rfl⟩
  by_cases more : extra = []
  · rw [more, List.append_nil]
  · -- Both programs decode with the larger number of registers.
    have addressable : max registerCount others ≤ maxRegisters :=
      Nat.max_le.mpr ⟨(wellformed_of_decode decoded).1.addressable,
        (wellformed_of_decode otherDecoded).1.addressable⟩
    have first := decode_of_le decoded (Nat.le_max_left _ others) addressable
    have second := decode_of_le otherDecoded (Nat.le_max_right registerCount _)
      addressable
    have even : (bytecode ++ extra).length % 4 = 0 := by
      rw [(wellformed_of_decode otherDecoded).2]
      exact length_encodeAll_mod otherInstructions
    rw [decode_append first more even] at second
    cases second

/--
A program that is cut short or goes on is no program, and the error says where: a
length that is no multiple of four is misaligned; a cut between two instructions
leaves no result, and any other one truncates the instruction that it is in; bytes
behind the result are trailing.  Hence no program is a proper prefix of another one.
-/
theorem decode_locates_ends
    (decoded : decode ⟨registerCount, bytecode⟩ = .ok instructions) :
    (∀ length < bytecode.length,
      (length % 4 ≠ 0 → decode ⟨registerCount, bytecode.take length⟩ =
        .error (.misaligned length)) ∧
      (IsBoundary instructions length →
        decode ⟨registerCount, bytecode.take length⟩ = .error .missingResult) ∧
      (length % 4 = 0 → ∀ offset, CutsAt instructions length offset →
        decode ⟨registerCount, bytecode.take length⟩ =
          .error (.truncated offset)) ∧
      (IsBoundary instructions length ∨
        ∃ offset, CutsAt instructions length offset)) ∧
    (∀ extra, extra ≠ [] →
      ((bytecode.length + extra.length) % 4 ≠ 0 →
        decode ⟨registerCount, bytecode ++ extra⟩ =
          .error (.misaligned (bytecode.length + extra.length))) ∧
      ((bytecode.length + extra.length) % 4 = 0 →
        decode ⟨registerCount, bytecode ++ extra⟩ =
          .error (.trailingBytes bytecode.length))) ∧
    ∀ others longer otherInstructions,
      decode ⟨others, longer⟩ = .ok otherInstructions → bytecode <+: longer →
        longer = bytecode := by
  refine ⟨fun length proper => ⟨?_, ?_, ?_, ?_⟩, fun extra more => ⟨?_, ?_⟩, ?_⟩
  · intro odd
    have counted : (bytecode.take length).length = length :=
      List.length_take_of_le (Nat.le_of_lt proper)
    rw [decode_of_misaligned decoded (by rwa [counted]), counted]
  · exact decode_take_of_isBoundary decoded proper
  · exact fun even offset => decode_take_of_cutsAt decoded even
  · rw [(wellformed_of_decode decoded).2] at proper
    exact isBoundary_or_cutsAt proper
  · rw [← List.length_append]
    exact decode_of_misaligned decoded
  · rw [← List.length_append]
    exact decode_append decoded more
  · exact fun others longer otherInstructions => eq_of_isPrefix decoded

/-- A triangle that is widened: the parameters of the first operation are counted. -/
def widenedTriangle : List Instruction :=
  [⟨.polygon, 1, 0, 0, [0, 0, 1, 0, 0, 1]⟩, ⟨.offset, 1, 1, 0, [1]⟩, .result 1]

theorem wellformed_widenedTriangle : Wellformed 2 widenedTriangle := by
  decide

/--
The widened triangle has 44 bytes.  It is truncated in the count and in a parameter of
its first operation and in the second one, it lacks its result between them, and
bytes behind it are trailing.
-/
theorem widenedTriangle_locates_ends :
    let bytes := encodeAll widenedTriangle
    decode ⟨2, bytes⟩ = .ok widenedTriangle ∧ bytes.length = 44 ∧
      decode ⟨2, bytes.take 4⟩ = .error (.truncated 0) ∧
      decode ⟨2, bytes.take 28⟩ = .error (.truncated 0) ∧
      decode ⟨2, bytes.take 30⟩ = .error (.misaligned 30) ∧
      decode ⟨2, bytes.take 32⟩ = .error .missingResult ∧
      decode ⟨2, bytes.take 36⟩ = .error (.truncated 32) ∧
      decode ⟨2, bytes ++ [0, 0, 0, 0]⟩ = .error (.trailingBytes 44) := by
  intro bytes
  have decoded := decode_encodeAll wellformed_widenedTriangle
  have length : bytes.length = 44 := by decide
  rcases decode_locates_ends decoded with ⟨cut, extended, -⟩
  have inFirst : ∀ position, 0 < position → position < 32 →
      CutsAt widenedTriangle position 0 :=
    fun position start stop => ⟨[], _, _, rfl, rfl, start, stop⟩
  refine ⟨decoded, length, ?_, ?_, ?_, ?_, ?_, ?_⟩
  · exact (cut 4 (by decide)).2.2.1 (by decide) 0 (inFirst 4 (by decide) (by decide))
  · exact (cut 28 (by decide)).2.2.1 (by decide) 0
      (inFirst 28 (by decide) (by decide))
  · exact (cut 30 (by decide)).1 (by decide)
  · exact (cut 32 (by decide)).2.1 ⟨[_], _, rfl, rfl⟩
  · exact (cut 36 (by decide)).2.2.1 (by decide) 32
      ⟨[_], _, _, rfl, rfl, by decide, by decide⟩
  · have trailing := (extended [0, 0, 0, 0] (by decide)).2 (by decide)
    rwa [show (encodeAll widenedTriangle).length = 44 from length] at trailing

end Program

end SolidField
