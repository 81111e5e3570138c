import SolidField.Program.Instruction

/-!
# Programs

A program is a number of registers with the bytes of its instructions.
`Program.decode` reads the bytes back.  It accepts exactly the encodings of
instruction sequences that stay within the registers and end with their only
result instruction; every other byte string has a located error.
-/

namespace SolidField

/-- Why a byte string is no program. -/
inductive ProgramError where
  /-- The length is no multiple of four. -/
  | misaligned (length : Nat)
  | truncated (offset : Nat)
  | unknownOpcode (code : UInt8) (offset : Nat)
  | reservedOpcode (opcode : Opcode) (offset : Nat)
  | registerOutOfRange (register : UInt8) (registerCount offset : Nat)
  | missingResult
  | trailingBytes (offset : Nat)
  | invalidRegisterCount (count : Nat)
deriving DecidableEq, Repr

namespace ProgramError

def message : ProgramError → String
  | misaligned length =>
      "bytecode length " ++ toString length ++ " is not a multiple of 4"
  | truncated offset =>
      "truncated instruction at byte " ++ toString offset
  | unknownOpcode code offset =>
      "unknown opcode " ++ toString code.toNat ++ " at byte " ++ toString offset
  | reservedOpcode opcode offset =>
      "reserved opcode " ++ opcode.name ++ " at byte " ++ toString offset
  | registerOutOfRange register registerCount offset =>
      "register " ++ toString register.toNat ++ " out of range for " ++
        toString registerCount ++ " registers at byte " ++ toString offset
  | missingResult => "program does not end with RETURN"
  | trailingBytes offset =>
      "unexpected bytes after RETURN at byte " ++ toString offset
  | invalidRegisterCount count =>
      "register count " ++ toString count ++ " is outside 1..=256"

end ProgramError

/-- The largest number of registers that a byte can address. -/
def maxRegisters : Nat := 256

/-- A number of registers with the bytes of the instructions. -/
structure Program where
  registerCount : Nat
  bytecode : List UInt8
deriving DecidableEq

/-- Take a number of words off the front of a byte string, if it is long enough. -/
def takeWords : Nat → List UInt8 → Option (List UInt32 × List UInt8)
  | 0, bytes => some ([], bytes)
  | count + 1, a :: b :: c :: d :: rest =>
      (takeWords count rest).map fun (words, remaining) =>
        (bytesWord a b c d :: words, remaining)
  | _ + 1, _ => none

/-- Taking words never lengthens the rest. -/
theorem length_le_of_takeWords {count : Nat} {bytes remaining : List UInt8}
    {words : List UInt32}
    (taken : takeWords count bytes = some (words, remaining)) :
    remaining.length ≤ bytes.length := by
  induction count, bytes using takeWords.induct generalizing words remaining with
  | case1 bytes =>
      simp only [takeWords, Option.some.injEq, Prod.mk.injEq] at taken
      simp [taken.2]
  | case2 count a b c d rest ih =>
      simp only [takeWords, Option.map_eq_some_iff, Prod.mk.injEq] at taken
      obtain ⟨⟨tail, left⟩, found, -, rfl⟩ := taken
      have shorter := ih found
      simp only [List.length_cons]
      omega
  | case3 => simp [takeWords] at taken

namespace Instruction

/-- The register fields that an operation uses lie within the register file. -/
def checkRegisters (registerCount offset : Nat) (opcode : Opcode)
    (output input1 input2 : UInt8) : Except ProgramError Unit :=
  let check (register : UInt8) : Except ProgramError Unit :=
    if register.toNat < registerCount then
      .ok ()
    else
      .error (.registerOutOfRange register registerCount offset)
  do
    check input1
    if opcode ≠ .halt then check output
    if opcode.arity.readsSecond then check input2

/-- The parameter words behind a header, with the rest of the bytes. -/
def readParameters (layout : ParameterLayout) (bytes : List UInt8) :
    Option (List UInt32 × List UInt8) :=
  match layout with
  | .fixed count => takeWords count bytes
  | .variadic =>
      match takeWords 1 bytes with
      | some ([count], rest) => takeWords count.toNat rest
      | _ => none

/-- Reading parameters never lengthens the rest. -/
theorem length_le_of_readParameters {layout : ParameterLayout}
    {bytes remaining : List UInt8} {words : List UInt32}
    (found : readParameters layout bytes = some (words, remaining)) :
    remaining.length ≤ bytes.length := by
  unfold readParameters at found
  split at found
  · exact length_le_of_takeWords found
  · split at found
    · next count rest counted =>
        exact Nat.le_trans (length_le_of_takeWords found)
          (length_le_of_takeWords counted)
    · cases found

/-- The instruction at the front of a byte string, with the rest of the bytes. -/
def read (registerCount offset : Nat) :
    List UInt8 → Except ProgramError (Instruction × List UInt8)
  | code :: output :: input1 :: input2 :: rest => do
      let some opcode := Opcode.ofCode? code
        | .error (.unknownOpcode code offset)
      if opcode = .point then
        .error (.reservedOpcode opcode offset)
      checkRegisters registerCount offset opcode output input1 input2
      let some (words, remaining) := readParameters opcode.parameters rest
        | .error (.truncated offset)
      .ok (⟨opcode, output, input1, input2, words.map Single.mk⟩, remaining)
  | _ => .error .missingResult

/-- Reading an instruction consumes bytes. -/
theorem length_lt_of_read {registerCount offset : Nat}
    {bytes remaining : List UInt8} {instruction : Instruction}
    (found : read registerCount offset bytes = .ok (instruction, remaining)) :
    remaining.length < bytes.length := by
  unfold read at found
  split at found
  · split at found
    · simp only [bind, Except.bind] at found
      split at found
      · cases found
      · split at found
        · cases found
        · split at found
          · next words counted =>
              cases found
              have shorter := length_le_of_readParameters counted
              simp only [List.length_cons]
              omega
          · cases found
    · cases found
  · cases found

end Instruction

namespace Program

/-- The instructions of the bytes from an offset on, up to the result. -/
def decodeFrom (registerCount offset : Nat) (bytes : List UInt8) :
    Except ProgramError (List Instruction) :=
  match _found : Instruction.read registerCount offset bytes with
  | .error error => .error error
  | .ok (instruction, rest) =>
      let next := offset + instruction.encodedLength
      if instruction.opcode = .halt then
        if rest.isEmpty then
          .ok [instruction]
        else
          .error (.trailingBytes next)
      else
        (decodeFrom registerCount next rest).map (instruction :: ·)
termination_by bytes.length
decreasing_by exact Instruction.length_lt_of_read _found

/-- The instructions of a program, the last of which names the result. -/
def decode (program : Program) : Except ProgramError (List Instruction) :=
  if program.registerCount = 0 ∨ maxRegisters < program.registerCount then
    .error (.invalidRegisterCount program.registerCount)
  else if program.bytecode.length % 4 ≠ 0 then
    .error (.misaligned program.bytecode.length)
  else
    decodeFrom program.registerCount 0 program.bytecode

/-- The program of a byte string, if it decodes. -/
def ofBytes (registerCount : Nat) (bytecode : List UInt8) :
    Except ProgramError Program := do
  let program : Program := ⟨registerCount, bytecode⟩
  let _ ← program.decode
  pure program

/-- The bytes as words, the layout of a device buffer. -/
def words (program : Program) : List UInt32 :=
  bytesWords program.bytecode

end Program

end SolidField
