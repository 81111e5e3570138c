import SolidField.Json.Parser

/-!
# Reading records from JSON

A record is an object with its fields in any order, or an array of them in the
order of declaration.  A known field may occur once, an unknown one is ignored.
Every container that is read counts against a limit of nesting; what is ignored
does not.
-/

namespace SolidField

namespace Json

/-- The limit of nesting of a text that is read. -/
def nestingLimit : Nat := 128

/-- One container deeper, if the limit admits it. -/
def enter? : Nat → Option Nat
  | depth + 2 => some (depth + 1)
  | _ => none

/-- The values of a key in an object. -/
def valuesOf (name : String) (members : List (JsonText × Json)) : List Json :=
  (members.filter fun entry => entry.1 = some name).map Prod.snd

/-- The value of a field that may be missing but not repeated. -/
def field? (members : List (JsonText × Json)) (name : String) :
    Option (Option Json) :=
  match valuesOf name members with
  | [] => some none
  | [value] => some (some value)
  | _ => none

/--
The fields of a record, each with its value unless it is missing.  Every key of
an object has to be made of characters, and an array has no surplus items.
-/
def fields? (names : List String) : Json → Option (List (Option Json))
  | .object members =>
      if members.all fun entry => entry.1.isSome then
        names.mapM (field? members)
      else
        none
  | .array items =>
      if items.length ≤ names.length then
        some (items.map some ++ List.replicate (names.length - items.length) none)
      else
        none
  | _ => none

/-- The fields of a record, none of which is missing. -/
def record? (names : List String) (value : Json) : Option (List Json) := do
  let fields ← fields? names value
  fields.mapM id

def bool? : Json → Option Bool
  | .bool value => some value
  | _ => none

def single? : Json → Option Single
  | .number value => value.toSingle?
  | _ => none

/-- A natural number below a limit. -/
def natural? (limit : Nat) : Json → Option Nat
  | .number value => value.toNat? limit
  | _ => none

def word? (value : Json) : Option UInt32 :=
  (value.natural? UInt32.size).map UInt32.ofNat

def items? : Json → Option (List Json)
  | .array items => some items
  | _ => none

/-- A field, or the given value if it is missing. -/
def orElse {β : Type} (default : β) (read : Json → Option β) :
    Option Json → Option β
  | none => some default
  | some value => read value

/-- A single-precision number; what is not finite is null. -/
def ofSingle (x : Single) : Json :=
  if x.isFinite then .number (.ofSingle x) else .null

def ofNat (n : Nat) : Json :=
  .number (.ofNat n)

def ofFields (fields : List (String × Json)) : Json :=
  .object (fields.map fun field => (some field.1, field.2))

/-- Read a text with a reader of values. -/
def read? {β : Type} (reader : Nat → Json → Option β) (text : String) :
    Option β :=
  (parse? text).bind (reader nestingLimit)

end Json

end SolidField
