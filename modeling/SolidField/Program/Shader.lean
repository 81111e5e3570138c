import SolidField.Opcode

/-!
# The shader

The device half of the machine as WGSL source: the constants of the opcodes,
the loop that walks the words of a program, and the dispatch to one function per
operation.  All of it is generated from the registry of operations.
-/

namespace SolidField

namespace Shader

def constantName (opcode : Opcode) : String :=
  "OP_" ++ opcode.name.map Char.toUpper

/-- One constant per operation. -/
def opcodeConstants : String :=
  String.join <| Opcode.all.map fun opcode =>
    "const " ++ constantName opcode ++ ": u32 = " ++
      toString opcode.code.toNat ++ "u;\n"

/-! ## The parts of the loop -/

/-- A field of the header word of an instruction. -/
inductive HeaderField where
  | opcode
  | output
  | input1
  | input2

namespace HeaderField

def all : List HeaderField :=
  [opcode, output, input1, input2]

def name : HeaderField → String
  | opcode => "opcode"
  | output => "output"
  | input1 => "input1"
  | input2 => "input2"

/-- The position of the lowest bit of the field. -/
def shift : HeaderField → Nat
  | opcode => 0
  | output => 8
  | input1 => 16
  | input2 => 24

def text (field : HeaderField) : String :=
  if field.shift = 0 then
    "word & 0xffu"
  else
    "(word >> " ++ toString field.shift ++ "u) & 0xffu"

end HeaderField

/-- A position among the words of a program, as the loop computes it. -/
inductive Address where
  /-- The program counter, which stands behind the header. -/
  | counter
  /-- The number of parameters of a variadic operation. -/
  | count
  | constant (words : Nat)
  | plus (first second : Address)

namespace Address

def text : Address → String
  | counter => "pc"
  | count => "count"
  | constant words => toString words ++ "u"
  | plus first second => first.text ++ " + " ++ second.text

/-- The position of the word behind that of the program counter. -/
def following : Address :=
  plus counter (constant 1)

end Address

/-- What the loop does with an operation. -/
inductive Action where
  /-- Return the register of the first input. -/
  | finish
  /-- Apply the operation to its parameters, and go on at another position. -/
  | apply (parametersAt : Address) (counted : Bool) (next : Address)

namespace Action

/-- What the loop does with an operation that has a case in the dispatch. -/
def ofOpcode? (opcode : Opcode) : Option Action :=
  match opcode with
  | .halt => some finish
  | .point => none
  | _ =>
      some <| match opcode.parameters with
        | .fixed count => apply .counter false (.plus .counter (.constant count))
        | .variadic => apply .following true (.plus .following .count)

def text (name : String) : Action → String
  | finish => "                return registers[input1];\n"
  | apply parametersAt counted next =>
      let (load, count) :=
        if counted then
          ("                let count = program[pc];\n", ", count")
        else
          ("", "")
      load ++
        "                registers[output] = " ++ name ++ "_op(" ++
          parametersAt.text ++ count ++
          ", registers[input1], registers[input2], point);\n" ++
        "                pc = " ++ next.text ++ ";\n"

end Action

/-- The case of an operation inside the dispatch. -/
def dispatchCase (opcode : Opcode) : String :=
  match Action.ofOpcode? opcode with
  | none => ""
  | some action =>
      "            case " ++ constantName opcode ++ ": \x7b\n" ++
        action.text opcode.name ++ "            \x7d\n"

/-- The declaration of a variable that holds a field of the header. -/
def fieldDeclaration (field : HeaderField) : String :=
  "        let " ++ field.name ++ " = " ++ field.text ++ ";\n"

end Shader

/-- The dispatch source for a register file of a fixed size. -/
structure Shader where
  registerCount : Nat
  source : String

namespace Shader

/-- Generate the dispatch; the register file has at least one register. -/
def generate (registers : Nat) : Shader :=
  let registerCount := max registers 1
  let size := toString registerCount
  { registerCount
    source :=
      "// ALICE-CSG register VM dispatch, generated from the opcode registry\n\n" ++
      opcodeConstants ++
      "\nconst REGISTER_COUNT: u32 = " ++ size ++ "u;\n\n" ++
      "@group(0) @binding(3) var<storage, read> program: array<u32>;\n\n" ++
      "fn vm_param(index: u32) -> f32 \x7b\n" ++
      "    return bitcast<f32>(program[index]);\n" ++
      "\x7d\n\n" ++
      "fn vm_eval(point: vec3<f32>) -> vec4<f32> \x7b\n" ++
      "    var registers: array<vec4<f32>, " ++ size ++ ">;\n" ++
      "    registers[0] = vec4<f32>(point, 0.0);\n" ++
      "    var pc: u32 = 0u;\n" ++
      "    loop \x7b\n" ++
      "        let word = program[pc];\n" ++
      String.join (HeaderField.all.map fieldDeclaration) ++
      "        pc = " ++ Address.following.text ++ ";\n" ++
      "        switch opcode \x7b\n" ++
      String.join (Opcode.all.map dispatchCase) ++
      "            default: \x7b\n" ++
      "                return vec4<f32>(0.0, 0.0, 0.0, 3.4e38);\n" ++
      "            \x7d\n" ++
      "        \x7d\n" ++
      "    \x7d\n" ++
      "\x7d\n" }

/-- A compute shader that evaluates one point per invocation. -/
def computeShader (shader : Shader) : String :=
  "// ALICE-CSG Generated Compute Shader\n" ++
  "// Runs the register VM once per input point\n\n" ++
  "struct InputPoint \x7b\n" ++
  "    x: f32,\n" ++
  "    y: f32,\n" ++
  "    z: f32,\n" ++
  "    _pad: f32,\n" ++
  "\x7d\n\n" ++
  "@group(0) @binding(0) var<storage, read> input_points: array<InputPoint>;\n" ++
  "@group(0) @binding(1) var<storage, read_write> output_values: array<vec4<f32>>;\n" ++
  "@group(0) @binding(2) var<uniform> point_count: u32;\n\n" ++
  shader.source ++
  "\n@compute @workgroup_size(256)\n" ++
  "fn main(@builtin(global_invocation_id) global_id: vec3<u32>) \x7b\n" ++
  "    let idx = global_id.x;\n" ++
  "    if (idx >= point_count) \x7b\n" ++
  "        return;\n" ++
  "    \x7d\n\n" ++
  "    let point = input_points[idx];\n" ++
  "    output_values[idx] = vm_eval(vec3<f32>(point.x, point.y, point.z));\n" ++
  "\x7d\n"

end Shader

end SolidField
