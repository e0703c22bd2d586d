import FilterQuery.Json.Double

/-!
Reading a JSON number from its characters.
-/

set_option autoImplicit false

namespace FilterQuery.Json.Numeral

def isDigit (char : Char) : Bool := '0' ≤ char && char ≤ '9'

def isPart (char : Char) : Bool := isDigit char || char ∈ ['-', '+', '.', 'e', 'E']

def digitValue (digit : Char) : Nat := digit.toNat - '0'.toNat

def value (digits : Text) : Nat :=
  digits.foldl (fun number digit => 10 * number + digitValue digit) 0

/-- A number without its sign, taken apart: the digits in front of the point, those behind it and
the exponent. -/
structure Magnitude where
  whole : Text
  fraction : Option Text
  exponent : Option Int

def someDigits (text : Text) : Option (Text × Text) :=
  match text.takeWhile isDigit with
  | [] => none
  | digits => some (digits, text.dropWhile isDigit)

/-- A zero in front of further digits is refused. -/
def readWhole (text : Text) : Option (Text × Text) := do
  let (digits, rest) ← someDigits text
  if digits.length > 1 ∧ digits.head? = some '0' then none else some (digits, rest)

def readFraction : Text → Option (Option Text × Text)
  | '.' :: text => do
      let (digits, rest) ← someDigits text
      some (some digits, rest)
  | text => some (none, text)

def readExponent : Text → Option (Option Int)
  | [] => some none
  | mark :: text => do
      if mark ≠ 'e' ∧ mark ≠ 'E' then none
      let (negative, text) := match text with
        | '-' :: text => (true, text)
        | '+' :: text => (false, text)
        | text => (false, text)
      let (digits, rest) ← someDigits text
      if rest ≠ [] then none
      let size : Int := value digits
      some (some (if negative then -size else size))

def readMagnitude (text : Text) : Option Magnitude := do
  let (whole, text) ← readWhole text
  let (fraction, text) ← readFraction text
  let exponent ← readExponent text
  some ⟨whole, fraction, exponent⟩

/-- Writes digits behind a number as long as it stays a 64-bit integer. The second component is
how many digits were left out. -/
def extend (number : Nat) : Text → Nat × Nat
  | [] => (number, 0)
  | digit :: rest =>
      let longer := 10 * number + digitValue digit
      if longer < unsignedLimit then extend longer rest else (number, rest.length + 1)

namespace Magnitude

/-- The leading digits that make a 64-bit integer, and the power of ten they are multiplied by.
Digits that are left out in front of the point raise the power, digits that are kept behind it
lower it. -/
def leading (magnitude : Magnitude) : Nat × Int :=
  let fraction := magnitude.fraction.getD []
  let (number, leftOut) := extend 0 magnitude.whole
  let (number, leftOutBehind) := extend number fraction
  (number, magnitude.exponent.getD 0 + leftOut - (fraction.length - leftOutBehind : Nat))

/-- Dividing by a power of ten always has a value. -/
def toReal (magnitude : Magnitude) : Json :=
  let (digits, exponent) := magnitude.leading
  if exponent < 0 || Double.isFinite digits exponent.toNat then .real else .unreadable

/-- A 64-bit integer if the magnitude has neither fraction nor exponent and is small enough. The
negative zero is no integer. -/
def toJson (magnitude : Magnitude) (negative : Bool) : Json :=
  if magnitude.fraction.isSome || magnitude.exponent.isSome then magnitude.toReal
  else
    let number := value magnitude.whole
    if negative then
      if 0 < number ∧ number ≤ signedLimit then .integer (-number) else magnitude.toReal
    else if number < unsignedLimit then .integer number else magnitude.toReal

end Magnitude

def read : Text → Option Json
  | '-' :: text => (readMagnitude text).map (·.toJson true)
  | text => (readMagnitude text).map (·.toJson false)

end FilterQuery.Json.Numeral
