import SolidField.Numeric.Decimal

/-!
# JSON values

A JSON document as data.  A number keeps the decimal it was written as, so that
reading it as a floating-point number rounds once; only the integers strictly
between `-2 ^ 64` and `-2 ^ 63` pass through double precision.  Of the digits, 113
are read, which are enough to tell on which side of a tie a number lies.  A string
keeps whether its escapes name characters: half a surrogate pair is legal in a
string that nobody reads, and in no other.
-/

namespace SolidField

/-- A JSON number, as the decimal it was written as. -/
structure JsonNumber where
  negative : Bool
  /-- The digits, without sign, point and zeros at the end of the fraction. -/
  decimal : Decimal
  /-- It was written without a fraction and without an exponent. -/
  integral : Bool
deriving DecidableEq, Repr

namespace JsonNumber

def ofNat (n : Nat) : JsonNumber :=
  ⟨false, ⟨n, 0⟩, true⟩

/-- A finite single-precision number, written exactly. -/
def ofSingle (x : Single) : JsonNumber :=
  ⟨x.isNegative, Decimal.ofWord .single x.magnitude, false⟩

/--
The number of digits that are read.  It is the digit count of the longest number
halfway between two single-precision numbers.
-/
def digitLimit : Nat := 113

/--
An integer whose digits fit into 64 bits while the number, with its minus sign,
is below every signed integer of that width.
-/
def isBelowSigned (number : JsonNumber) : Bool :=
  number.integral && number.negative &&
    UInt64.size / 2 < number.decimal.significand &&
    number.decimal.significand < UInt64.size

/--
The decimal that a conversion to single precision starts from: a number below the
signed integers, whose digits fit into 64 bits, in double precision, and every
other number as it was written, up to the limit of the digits.
-/
def kept (number : JsonNumber) : Decimal :=
  if number.isBelowSigned then
    ⟨BinaryFormat.double.roundNatural number.decimal.significand, 0⟩
  else
    number.decimal.clip digitLimit

/-- The single-precision number nearest to what is kept, if it is finite. -/
def toSingle? (number : JsonNumber) : Option Single :=
  let word := number.kept.round BinaryFormat.single
  if word < BinaryFormat.single.infinity then
    some (Single.ofMagnitude number.negative word)
  else
    none

/-- The natural number below a limit that is written as an integer. -/
def toNat? (number : JsonNumber) (limit : Nat) : Option Nat :=
  if number.integral && !number.negative &&
      number.decimal.significand < limit then
    some number.decimal.significand
  else
    none

end JsonNumber

/-- The content of a JSON string; none if an escape names no character. -/
abbrev JsonText := Option String

/-- A JSON value; the members of an object are in the order of the text. -/
inductive Json where
  | null
  | bool (value : Bool)
  | number (value : JsonNumber)
  | string (value : JsonText)
  | array (items : List Json)
  /-- An object, whose keys may repeat. -/
  | object (members : List (JsonText × Json))

end SolidField
