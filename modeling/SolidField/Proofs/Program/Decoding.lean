import SolidField.Program.Grammar

/-!
# The decoder accepts the grammar

Words and their four bytes determine each other, so a header with its parameter
words is read back bit for bit.  `Instruction.read` therefore splits a byte
string in one way only, and an induction along the loop of `Program.decodeFrom`
shows that decoding succeeds on the encodings of wellformed sequences and on
nothing else.
-/

namespace SolidField

/-! ## Words and bytes -/

/-- Taking a word apart and putting it together changes nothing. -/
@[simp]
theorem bytesWord_bytes (word : UInt32) :
    bytesWord word.toUInt8 (word >>> 8).toUInt8 (word >>> 16).toUInt8
      (word >>> 24).toUInt8 = word := by
  apply UInt32.toBitVec_inj.mp
  apply BitVec.eq_of_getLsbD_eq
  intro index inWord
  simp [bytesWord, BitVec.getLsbD_or, -UInt32.toUInt32_toUInt8]
  grind

/-- Four bytes are the bytes of the word that they form. -/
@[simp]
theorem wordBytes_bytesWord (a b c d : UInt8) :
    wordBytes (bytesWord a b c d) = [a, b, c, d] := by
  simp only [wordBytes, List.cons.injEq, and_true]
  refine ⟨?_, ?_, ?_, ?_⟩
  all_goals
    apply UInt8.toBitVec_inj.mp
    apply BitVec.eq_of_getLsbD_eq
    intro index inByte
    simp [bytesWord, BitVec.getLsbD_or]
  all_goals grind

@[simp]
theorem length_wordBytes (word : UInt32) : (wordBytes word).length = 4 := rfl

theorem takeWords_eq_some_iff {count : Nat} {bytes remaining : List UInt8}
    {words : List UInt32} :
    takeWords count bytes = some (words, remaining) ↔
      words.length = count ∧ bytes = words.flatMap wordBytes ++ remaining := by
  constructor
  · intro taken
    induction count, bytes using takeWords.induct
      generalizing words remaining with
    | case1 bytes =>
        simp only [takeWords, Option.some.injEq, Prod.mk.injEq] at taken
        rcases taken with ⟨rfl, rfl⟩
        simp
    | case2 count a b c d rest induction =>
        simp only [takeWords, Option.map_eq_some_iff, Prod.mk.injEq] at taken
        rcases taken with ⟨⟨tail, left⟩, found, rfl, rfl⟩
        rcases induction found with ⟨length, split⟩
        simp [length, split]
    | case3 => simp [takeWords] at taken
  · rintro ⟨rfl, rfl⟩
    induction words with
    | nil => simp [takeWords]
    | cons word words induction =>
        simp only [wordBytes, List.flatMap_cons, List.cons_append,
          List.nil_append, List.length_cons, takeWords, bytesWord_bytes]
        rw [induction]
        rfl

/-! ## One instruction -/

namespace Opcode

theorem length_lt_of_fixed {opcode : Opcode} {count : Nat}
    (layout : opcode.parameters = .fixed count) : count < UInt32.size := by
  cases opcode <;> simp only [parameters, ParameterLayout.fixed.injEq,
    reduceCtorEq] at layout <;> subst count <;> decide

end Opcode

namespace Instruction

/-- The registers pass the check that lie in the register file. -/
theorem checkRegisters_eq_ok_iff {registerCount offset : Nat} {opcode : Opcode}
    {output input1 input2 : UInt8} :
    checkRegisters registerCount offset opcode output input1 input2 = .ok () ↔
      input1.toNat < registerCount ∧
        (opcode ≠ .halt → output.toNat < registerCount) ∧
        (opcode.arity.readsSecond = true → input2.toNat < registerCount) := by
  simp only [checkRegisters, bind, Except.bind, pure, Except.pure]
  by_cases first : input1.toNat < registerCount
  · by_cases ending : opcode = .halt
    · subst ending
      simp [first, Opcode.arity, Arity.readsSecond]
    · by_cases target : output.toNat < registerCount
      · by_cases reads : opcode.arity.readsSecond = true <;>
          by_cases second : input2.toNat < registerCount <;>
            simp [first, ending, target, reads, second]
      · simp [first, ending, target]
  · simp [first]

/-- What a header and the bytes behind it must be for an instruction to be read. -/
theorem read_cons_eq_ok_iff {registerCount offset : Nat}
    {code output input1 input2 : UInt8} {rest remaining : List UInt8}
    {instruction : Instruction} :
    read registerCount offset (code :: output :: input1 :: input2 :: rest) =
        .ok (instruction, remaining) ↔
      ∃ opcode words,
        Opcode.ofCode? code = some opcode ∧ opcode ≠ .point ∧
          checkRegisters registerCount offset opcode output input1 input2 =
            .ok () ∧
          readParameters opcode.parameters rest = some (words, remaining) ∧
          instruction = ⟨opcode, output, input1, input2, words.map Single.mk⟩ := by
  simp only [read, bind, Except.bind]
  cases known : Opcode.ofCode? code with
  | none => simp
  | some opcode =>
      by_cases reserved : opcode = .point
      · simp [reserved]
      · cases checked :
          checkRegisters registerCount offset opcode output input1 input2 with
        | error error => simp [reserved, checked]
        | ok _ =>
            cases found : readParameters opcode.parameters rest with
            | none => simp [reserved, checked, found]
            | some result =>
                simp only [reserved, checked, found]
                grind

theorem flatMap_wordBytes (instruction : Instruction) :
    (instruction.parameters.map Single.bits).flatMap wordBytes =
      instruction.parameters.flatMap fun parameter =>
        wordBytes parameter.bits := by
  simp [List.flatMap_map]

/-- The parameters are read that the layout admits, behind their count. -/
theorem readParameters_eq_some_iff (instruction : Instruction)
    {bytes remaining : List UInt8} :
    readParameters instruction.opcode.parameters bytes =
        some (instruction.parameters.map Single.bits, remaining) ↔
      instruction.opcode.parameters.accepts instruction.parameters.length =
          true ∧
        instruction.parameters.length < UInt32.size ∧
        bytes = instruction.countBytes ++
          (instruction.parameters.flatMap fun parameter =>
            wordBytes parameter.bits) ++ remaining := by
  cases layout : instruction.opcode.parameters with
  | fixed count =>
      have small := Opcode.length_lt_of_fixed layout
      simp only [readParameters, takeWords_eq_some_iff, List.length_map,
        flatMap_wordBytes, ParameterLayout.accepts, decide_eq_true_eq,
        countBytes, layout, List.nil_append]
      constructor
      · rintro ⟨length, split⟩
        exact ⟨length, by omega, split⟩
      · rintro ⟨length, -, split⟩
        exact ⟨length, split⟩
  | variadic =>
      simp only [ParameterLayout.accepts, true_and, countBytes, layout]
      constructor
      · intro found
        simp only [readParameters] at found
        split at found
        · next count rest counted =>
            rcases takeWords_eq_some_iff.mp counted with ⟨-, front⟩
            rcases takeWords_eq_some_iff.mp found with ⟨length, behind⟩
            rw [List.length_map] at length
            refine ⟨length ▸ count.toNat_lt, ?_⟩
            rw [front, behind, flatMap_wordBytes, length]
            simp
        · cases found
      · rintro ⟨small, split⟩
        have counted :
            takeWords 1 bytes =
              some ([UInt32.ofNat instruction.parameters.length],
                (instruction.parameters.flatMap fun parameter =>
                  wordBytes parameter.bits) ++ remaining) := by
          rw [takeWords_eq_some_iff, split]
          simp
        simp only [readParameters, counted]
        rw [takeWords_eq_some_iff, flatMap_wordBytes,
          UInt32.toNat_ofNat_of_lt' small]
        simp

/-- An instruction is read exactly where its encoding comes first and it fits. -/
theorem read_eq_ok_iff {registerCount offset : Nat} {bytes remaining : List UInt8}
    {instruction : Instruction} :
    read registerCount offset bytes = .ok (instruction, remaining) ↔
      instruction.Fits registerCount ∧
        bytes = instruction.encode ++ remaining := by
  constructor
  · intro found
    match bytes with
    | code :: output :: input1 :: input2 :: rest =>
        rcases read_cons_eq_ok_iff.mp found with
          ⟨opcode, words, known, notPoint, checked, parameters, rfl⟩
        rcases checkRegisters_eq_ok_iff.mp checked with ⟨first, target, second⟩
        obtain ⟨accepted, small, split⟩ :=
          (readParameters_eq_some_iff
            ⟨opcode, output, input1, input2, words.map Single.mk⟩).mp
              (by simpa [Function.comp_def] using parameters)
        refine ⟨⟨notPoint, first, target, second, accepted, small⟩, ?_⟩
        rw [split]
        simp [encode, header, Opcode.code_of_ofCode? known]
    | [] | [_] | [_, _] | [_, _, _] => simp [read] at found
  · rintro ⟨fits, rfl⟩
    simp only [encode, header, List.append_assoc, List.cons_append,
      List.nil_append]
    rw [read_cons_eq_ok_iff]
    refine ⟨instruction.opcode, instruction.parameters.map Single.bits,
      Opcode.ofCode?_code _, fits.isInstruction,
      checkRegisters_eq_ok_iff.mpr ⟨fits.input1, fits.output, fits.input2⟩,
      (readParameters_eq_some_iff instruction).mpr
        ⟨fits.parameters, fits.counted, by simp⟩, ?_⟩
    simp [Function.comp_def]

@[simp]
theorem length_encode (instruction : Instruction) :
    instruction.encode.length = instruction.encodedLength := by
  have parameters :
      (instruction.parameters.flatMap fun parameter =>
        wordBytes parameter.bits).length = 4 * instruction.parameters.length := by
    induction instruction.parameters with
    | nil => rfl
    | cons parameter parameters induction =>
        simp only [List.flatMap_cons, List.length_append, length_wordBytes,
          induction, List.length_cons]
        omega
  cases layout : instruction.opcode.parameters <;>
    simp only [encode, header, countBytes, encodedLength, layout,
      List.length_append, parameters, List.length_cons, List.length_nil,
      length_wordBytes] <;>
    omega

end Instruction

/-! ## Sequences of instructions -/

theorem length_encodeAll_mod (instructions : List Instruction) :
    (encodeAll instructions).length % 4 = 0 := by
  induction instructions with
  | nil => rfl
  | cons instruction instructions induction =>
      simp only [encodeAll, List.flatMap_cons, List.length_append,
        Instruction.length_encode, Instruction.encodedLength] at induction ⊢
      omega

namespace Program

variable {registerCount : Nat}

/-- One round of the loop, behind an instruction that was read. -/
theorem decodeFrom_of_ok {offset : Nat} {bytes rest : List UInt8}
    {instruction : Instruction}
    (found : Instruction.read registerCount offset bytes =
      .ok (instruction, rest)) :
    decodeFrom registerCount offset bytes =
      if instruction.opcode = .halt then
        if rest.isEmpty then
          .ok [instruction]
        else
          .error (.trailingBytes (offset + instruction.encodedLength))
      else
        (decodeFrom registerCount (offset + instruction.encodedLength) rest).map
          (instruction :: ·) := by
  rw [decodeFrom]
  split
  · next again =>
      rw [found] at again
      cases again
  · next again =>
      rw [found] at again
      cases again
      rfl

/--
What the loop of the decoder returns fits, ends with its result and encodes
the bytes.
-/
theorem of_decodeFrom {offset : Nat} {bytes : List UInt8}
    {instructions : List Instruction}
    (decoded : decodeFrom registerCount offset bytes = .ok instructions) :
    (∀ instruction ∈ instructions, instruction.Fits registerCount) ∧
      (∃ body last, instructions = body ++ [last] ∧ last.opcode = .halt ∧
        ∀ instruction ∈ body, instruction.opcode ≠ .halt) ∧
      bytes = encodeAll instructions := by
  fun_induction decodeFrom registerCount offset bytes
    generalizing instructions with
  | case1 offset bytes error failed => cases decoded
  | case2 offset bytes instruction rest found ending atEnd =>
      rcases Instruction.read_eq_ok_iff.mp found with ⟨fits, split⟩
      cases decoded
      rw [List.isEmpty_iff] at atEnd
      subst rest
      refine ⟨by simpa using fits, ⟨[], instruction, rfl, ending, by simp⟩, ?_⟩
      simpa [encodeAll] using split
  | case3 offset bytes instruction rest found ending more => cases decoded
  | case4 offset bytes instruction rest found next going =>
      rename_i induction
      rcases Instruction.read_eq_ok_iff.mp found with ⟨fits, split⟩
      cases tail : decodeFrom registerCount next rest with
      | error error =>
          rw [tail] at decoded
          cases decoded
      | ok others =>
          rw [tail] at decoded
          cases decoded
          rcases induction tail with
            ⟨othersFit, ⟨body, last, rfl, ending, before⟩, encoded⟩
          refine ⟨?_, ⟨instruction :: body, last, rfl, ending, ?_⟩, ?_⟩
          · exact List.forall_mem_cons.mpr ⟨fits, othersFit⟩
          · exact List.forall_mem_cons.mpr ⟨going, before⟩
          · rw [split, encoded]
            simp [encodeAll]

/--
The loop of the decoder returns every fitting sequence that ends with its
only result from its encoding.
-/
theorem decodeFrom_encodeAll {offset : Nat} {body : List Instruction}
    {last : Instruction}
    (fits : ∀ instruction ∈ body ++ [last], instruction.Fits registerCount)
    (ending : last.opcode = .halt)
    (before : ∀ instruction ∈ body, instruction.opcode ≠ .halt) :
    decodeFrom registerCount offset (encodeAll (body ++ [last])) =
      .ok (body ++ [last]) := by
  induction body generalizing offset with
  | nil =>
      have found :
          Instruction.read registerCount offset (encodeAll [last]) =
            .ok (last, []) :=
        Instruction.read_eq_ok_iff.mpr
          ⟨fits last (by simp), by simp [encodeAll]⟩
      rw [List.nil_append, decodeFrom_of_ok found, if_pos ending]
      rfl
  | cons instruction body induction =>
      rw [List.cons_append, List.forall_mem_cons] at fits
      rw [List.forall_mem_cons] at before
      have found :
          Instruction.read registerCount offset
              (encodeAll (instruction :: body ++ [last])) =
            .ok (instruction, encodeAll (body ++ [last])) :=
        Instruction.read_eq_ok_iff.mpr ⟨fits.1, by simp [encodeAll]⟩
      rw [decodeFrom_of_ok found, if_neg before.1,
        induction fits.2 before.2]
      rfl

/-- A byte string that decodes is the encoding of a wellformed sequence. -/
theorem wellformed_of_decode {bytecode : List UInt8}
    {instructions : List Instruction}
    (decoded : decode ⟨registerCount, bytecode⟩ = .ok instructions) :
    Wellformed registerCount instructions ∧
      bytecode = encodeAll instructions := by
  simp only [decode] at decoded
  split at decoded
  · cases decoded
  · next counted =>
      split at decoded
      · cases decoded
      · rcases of_decodeFrom decoded with ⟨fits, ends, encoded⟩
        exact ⟨⟨by omega, by omega, fits, ends⟩, encoded⟩

/-- The encoding of a wellformed sequence decodes to the sequence. -/
theorem decode_encodeAll {instructions : List Instruction}
    (wellformed : Wellformed registerCount instructions) :
    decode ⟨registerCount, encodeAll instructions⟩ = .ok instructions := by
  rcases wellformed with
    ⟨positive, addressable, fits, body, last, rfl, ending, before⟩
  simp only [decode]
  rw [if_neg (by omega), if_neg (by simp [length_encodeAll_mod])]
  exact decodeFrom_encodeAll fits ending before

/--
The decoder accepts exactly the encodings of wellformed sequences, and what it
returns is the one sequence that has this encoding.
-/
theorem decode_eq_ok_iff_encodeAll (registerCount : Nat)
    (bytecode : List UInt8) (instructions : List Instruction) :
    decode ⟨registerCount, bytecode⟩ = .ok instructions ↔
      Wellformed registerCount instructions ∧
        bytecode = encodeAll instructions := by
  constructor
  · exact wellformed_of_decode
  · rintro ⟨wellformed, rfl⟩
    exact decode_encodeAll wellformed

end Program

end SolidField
