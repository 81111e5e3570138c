import SolidField.Json.Value

/-!
# JSON text

A reader of strict JSON text.  Every function takes characters off the front of
the text and returns the rest; the containers recurse with a bound on their
nesting, for which the length of the text is always enough.
-/

namespace SolidField

namespace JsonParser

/-- The blanks that may stand between tokens. -/
def isBlank (c : Char) : Bool :=
  c = ' ' || c = '\t' || c = '\n' || c = '\r'

/-- The text without its leading blanks. -/
def skipBlanks (text : List Char) : List Char :=
  text.dropWhile isBlank

/-- The text behind an expected word. -/
def expect : List Char → List Char → Option (List Char)
  | [], text => some text
  | c :: word, d :: text => if c = d then expect word text else none
  | _ :: _, [] => none

/-- The leading decimal digits and the rest. -/
def digits (text : List Char) : List Char × List Char :=
  (text.takeWhile Char.isDigit, text.dropWhile Char.isDigit)

/-- The number that decimal digits spell. -/
def digitsValue (cs : List Char) : Nat :=
  cs.foldl (fun value c => 10 * value + (c.toNat - '0'.toNat)) 0

/-- The digits of an integer, which has no superfluous leading zero. -/
def integerDigits : List Char → Option (List Char × List Char)
  | '0' :: rest => some (['0'], rest)
  | text =>
      let (whole, rest) := digits text
      if whole.isEmpty then none else some (whole, rest)

/-- The digits behind a decimal point, if there is one. -/
def fractionDigits : List Char → Option (List Char × List Char)
  | '.' :: text =>
      let (fraction, rest) := digits text
      if fraction.isEmpty then none else some (fraction, rest)
  | text => some ([], text)

/-- The signed digits of an exponent. -/
def exponentDigits (text : List Char) : Option (Int × List Char) :=
  let (negative, text) :=
    match text with
    | '-' :: rest => (true, rest)
    | '+' :: rest => (false, rest)
    | _ => (false, text)
  let (power, rest) := digits text
  if power.isEmpty then
    none
  else
    let value : Int := digitsValue power
    some (if negative then -value else value, rest)

/-- The power of ten behind an exponent mark, if there is one. -/
def exponent : List Char → Option (Option Int × List Char)
  | 'e' :: text | 'E' :: text =>
      (exponentDigits text).map fun (value, rest) => (some value, rest)
  | text => some (none, text)

/-- The digits up to the last one that is not zero. -/
def withoutTrailingZeros (cs : List Char) : List Char :=
  cs.foldr (fun c rest => if rest.isEmpty && c = '0' then [] else c :: rest) []

/-- A number without its sign. -/
def unsignedNumber (negative : Bool) (text : List Char) :
    Option (JsonNumber × List Char) := do
  let (whole, text) ← integerDigits text
  let (fraction, text) ← fractionDigits text
  let (power, text) ← exponent text
  let places := withoutTrailingZeros fraction
  let decimal : Decimal :=
    ⟨digitsValue (whole ++ places), power.getD 0 - places.length⟩
  pure (⟨negative, decimal, fraction.isEmpty && power.isNone⟩, text)

def number : List Char → Option (JsonNumber × List Char)
  | '-' :: text => unsignedNumber true text
  | text => unsignedNumber false text

def hexValue (c : Char) : Option Nat :=
  if c.isDigit then some (c.toNat - '0'.toNat)
  else if 'a' ≤ c ∧ c ≤ 'f' then some (c.toNat - 'a'.toNat + 10)
  else if 'A' ≤ c ∧ c ≤ 'F' then some (c.toNat - 'A'.toNat + 10)
  else none

/-- The code unit that four hexadecimal digits spell. -/
def codeUnit? (a b c d : Char) : Option Nat := do
  let a ← hexValue a
  let b ← hexValue b
  let c ← hexValue c
  let d ← hexValue d
  pure (((a * 16 + b) * 16 + c) * 16 + d)

/-- A piece of a string: a character, or a code unit that needs a partner. -/
inductive Piece where
  | character (value : Char)
  /-- Half of a surrogate pair. -/
  | half (unit : Nat)

/-- The piece that a code unit stands for. -/
def Piece.ofUnit (unit : Nat) : Piece :=
  if 0xd800 ≤ unit ∧ unit < 0xe000 then .half unit else .character (Char.ofNat unit)

/-- The pieces as characters, unless a half is without its partner. -/
def joinPieces : List Piece → Option (List Char)
  | [] => some []
  | .character c :: rest => (joinPieces rest).map (c :: ·)
  | .half high :: .half low :: rest =>
      if high < 0xdc00 ∧ 0xdc00 ≤ low then
        let c := Char.ofNat (0x10000 + (high - 0xd800) * 0x400 + (low - 0xdc00))
        (joinPieces rest).map (c :: ·)
      else
        none
  | .half _ :: _ => none

/-- The character that a one-letter escape stands for. -/
def escape : Char → Option Char
  | '"' => some '"'
  | '\\' => some '\\'
  | '/' => some '/'
  | 'b' => some '\x08'
  | 'f' => some '\x0c'
  | 'n' => some '\n'
  | 'r' => some '\r'
  | 't' => some '\t'
  | _ => none

/-- The pieces of a string up to its closing quote. -/
def pieces : List Char → Option (List Piece × List Char)
  | [] => none
  | '"' :: rest => some ([], rest)
  | '\\' :: 'u' :: a :: b :: c :: d :: text => do
      let unit ← codeUnit? a b c d
      let (tail, rest) ← pieces text
      pure (Piece.ofUnit unit :: tail, rest)
  | '\\' :: c :: text => do
      let c ← escape c
      let (tail, rest) ← pieces text
      pure (.character c :: tail, rest)
  | c :: text =>
      if c.toNat < 0x20 then
        none
      else do
        let (tail, rest) ← pieces text
        pure (.character c :: tail, rest)

/-- The content of a string behind its opening quote. -/
def stringBody (text : List Char) : Option (JsonText × List Char) :=
  (pieces text).map fun (content, rest) =>
    ((joinPieces content).map String.ofList, rest)

mutual

/-- A value behind leading blanks. -/
def value : Nat → List Char → Option (Json × List Char)
  | 0, _ => none
  | bound + 1, text =>
      match skipBlanks text with
      | '"' :: rest =>
          (stringBody rest).map fun (content, rest) => (.string content, rest)
      | '[' :: rest =>
          match skipBlanks rest with
          | ']' :: rest => some (.array [], rest)
          | _ => (items bound rest).map fun (values, rest) => (.array values, rest)
      | '\x7b' :: rest =>
          match skipBlanks rest with
          | '\x7d' :: rest => some (.object [], rest)
          | _ => (members bound rest).map fun (values, rest) => (.object values, rest)
      | 't' :: rest =>
          (expect ['r', 'u', 'e'] rest).map fun rest => (.bool true, rest)
      | 'f' :: rest =>
          (expect ['a', 'l', 's', 'e'] rest).map fun rest => (.bool false, rest)
      | 'n' :: rest =>
          (expect ['u', 'l', 'l'] rest).map fun rest => (.null, rest)
      | rest => (number rest).map fun (number, rest) => (.number number, rest)

/-- The items of an array up to its closing bracket; there is at least one. -/
def items : Nat → List Char → Option (List Json × List Char)
  | 0, _ => none
  | bound + 1, text => do
      let (first, text) ← value bound text
      match skipBlanks text with
      | ']' :: rest => pure ([first], rest)
      | ',' :: rest =>
          let (others, rest) ← items bound rest
          pure (first :: others, rest)
      | _ => none

/-- The members of an object up to its closing brace; there is at least one. -/
def members : Nat → List Char → Option (List (JsonText × Json) × List Char)
  | 0, _ => none
  | bound + 1, text =>
      match skipBlanks text with
      | '"' :: text => do
          let (key, text) ← stringBody text
          match skipBlanks text with
          | ':' :: text =>
              let (first, text) ← value bound text
              match skipBlanks text with
              | '\x7d' :: rest => pure ([(key, first)], rest)
              | ',' :: rest =>
                  let (others, rest) ← members bound rest
                  pure ((key, first) :: others, rest)
              | _ => none
          | _ => none
      | _ => none

end

end JsonParser

/-- The value of a JSON text, which holds nothing else but blanks. -/
def Json.parse? (text : String) : Option Json := do
  let characters := text.toList
  let (value, rest) ← JsonParser.value (2 * characters.length + 2) characters
  if (JsonParser.skipBlanks rest).isEmpty then some value else none

end SolidField
