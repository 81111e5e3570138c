/-!
# Opcodes

The registry of operations: their codes, names, arities and parameter layouts.
The encoder, the decoder, the machine and the generated shader all read it, so
they cannot disagree about an operation.  Programs are encoded by the registry of one
version of the library.
-/

namespace SolidField

/-- The version of the library. -/
def version : String := "0.1.0"

/-- How many dependencies an operation consumes. -/
inductive Arity where
  /-- None: the evaluation point alone. -/
  | nullary
  | unary
  | binary
  /-- Two or more, which may be folded in any order. -/
  | associative
deriving DecidableEq, Repr

namespace Arity

/-- A number of dependencies fits the arity. -/
def accepts : Arity → Nat → Bool
  | nullary, count => count = 0
  | unary, count => count = 1
  | binary, count => count = 2
  | associative, count => 2 ≤ count

/-- An instruction of this arity reads its second input register. -/
def readsSecond : Arity → Bool
  | nullary | unary => false
  | binary | associative => true

def text : Arity → String
  | nullary => "no dependencies"
  | unary => "1 dependency"
  | binary => "2 dependencies"
  | associative => "2 or more dependencies"

end Arity

/-- How many parameter words an operation carries. -/
inductive ParameterLayout where
  | fixed (count : Nat)
  /-- Any number, written as a word in front of the parameters. -/
  | variadic
deriving DecidableEq, Repr

namespace ParameterLayout

def accepts : ParameterLayout → Nat → Bool
  | fixed expected, count => count = expected
  | variadic, _ => true

def text : ParameterLayout → String
  | fixed count => toString count ++ " parameters"
  | variadic => "a variable number of parameters"

end ParameterLayout

/-- An operation of the register machine. -/
inductive Opcode where
  /-- End the program with the register named by the first input. -/
  | halt
  /-- The evaluation point, which a program finds in register zero. -/
  | point
  /-- A rectangle: half width, half height. -/
  | rectangle
  /-- A circle: radius. -/
  | circle
  /-- A closed polygon: the coordinates of its vertices. -/
  | polygon
  /-- A sphere: radius. -/
  | sphere
  /-- A box: half extents. -/
  | box
  /-- A cylinder around the third axis: radius, height. -/
  | cylinder
  /-- A planar value extruded along the third axis: height. -/
  | extrusion
  /-- Fold a point into the half plane of a revolution. -/
  | revolutionTo
  /-- Unfold a planar value from the half plane of a revolution. -/
  | revolutionFrom
  /-- Union: fillet radius. -/
  | union
  /-- Intersection: fillet radius. -/
  | intersection
  /-- The first input without the second: fillet radius. -/
  | subtraction
  /-- Move the surface outward: distance. -/
  | offset
  /-- A wall around the surface: half its thickness. -/
  | shell
  /-- Move a point into a child frame: rotation, scale, translation. -/
  | transformTo
  /-- Move a value back into the parent frame: rotation, scale. -/
  | transformFrom
deriving DecidableEq, Repr, Inhabited

namespace Opcode

/-- Every operation, in the order of the codes. -/
def all : List Opcode :=
  [ halt, point, rectangle, circle, polygon, sphere, box, cylinder, extrusion,
    revolutionTo, revolutionFrom, union, intersection, subtraction, offset,
    shell, transformTo, transformFrom ]

def code : Opcode → UInt8
  | halt => 0
  | point => 1
  | rectangle => 2
  | circle => 3
  | polygon => 4
  | sphere => 5
  | box => 6
  | cylinder => 7
  | extrusion => 8
  | revolutionTo => 9
  | revolutionFrom => 10
  | union => 11
  | intersection => 12
  | subtraction => 13
  | offset => 14
  | shell => 15
  | transformTo => 16
  | transformFrom => 17

def name : Opcode → String
  | halt => "return"
  | point => "point"
  | rectangle => "rectangle"
  | circle => "circle"
  | polygon => "polygon2d"
  | sphere => "sphere"
  | box => "box"
  | cylinder => "cylinder"
  | extrusion => "extrusion"
  | revolutionTo => "revolution_to"
  | revolutionFrom => "revolution_from"
  | union => "union"
  | intersection => "intersection"
  | subtraction => "subtraction"
  | offset => "offset"
  | shell => "shell"
  | transformTo => "transformation_to"
  | transformFrom => "transformation_from"

def arity : Opcode → Arity
  | point => .nullary
  | extrusion | revolutionFrom | subtraction => .binary
  | union | intersection => .associative
  | halt | rectangle | circle | polygon | sphere | box | cylinder
  | revolutionTo | offset | shell | transformTo | transformFrom => .unary

def parameters : Opcode → ParameterLayout
  | halt | point | revolutionTo | revolutionFrom => .fixed 0
  | circle | sphere | extrusion | union | intersection | subtraction
  | offset | shell => .fixed 1
  | rectangle | cylinder => .fixed 2
  | box => .fixed 3
  | transformFrom => .fixed 5
  | transformTo => .fixed 8
  | polygon => .variadic

/-- The operation with a code byte. -/
def ofCode? (code : UInt8) : Option Opcode :=
  all.find? fun opcode => opcode.code = code

/-- The operation with a registered name. -/
def ofName? (name : String) : Option Opcode :=
  all.find? fun opcode => opcode.name = name

/-- The operation has a place in a program only, never in a graph. -/
def isReserved : Opcode → Bool
  | halt | point => true
  | _ => false

/-- The operation computes a value from registers. -/
def hasKernel (opcode : Opcode) : Bool :=
  !opcode.isReserved

/-- The operation is the distance field of a primitive. -/
def isPrimitive : Opcode → Bool
  | rectangle | circle | polygon | sphere | box | cylinder => true
  | _ => false

/-- The operation moves the evaluation point rather than a value. -/
def isPointMapping : Opcode → Bool
  | transformTo | revolutionTo => true
  | _ => false

/-- A code byte names the operation that carries it. -/
@[simp]
theorem ofCode?_code (opcode : Opcode) :
    ofCode? opcode.code = some opcode := by
  cases opcode <;> decide

/-- Only the operation that carries a code is found under it. -/
theorem code_of_ofCode? {code : UInt8} {opcode : Opcode}
    (found : ofCode? code = some opcode) : opcode.code = code := by
  simpa using List.find?_some found

end Opcode

end SolidField
