import FilterQuery.Json.Numeral

/-!
Reading JSON one character at a time. The text is one value with blanks around it; everything
else is refused.
-/

set_option autoImplicit false

namespace FilterQuery.Json

def isBlank (char : Char) : Bool := char ∈ [' ', '\t', '\n', '\r']

def hexDigit (char : Char) : Option Nat :=
  if '0' ≤ char ∧ char ≤ '9' then some (char.toNat - '0'.toNat)
  else if 'a' ≤ char ∧ char ≤ 'f' then some (char.toNat - 'a'.toNat + 10)
  else if 'A' ≤ char ∧ char ≤ 'F' then some (char.toNat - 'A'.toNat + 10)
  else none

def isHighSurrogate (unit : Nat) : Bool := 0xD800 ≤ unit && unit < 0xDC00

def isLowSurrogate (unit : Nat) : Bool := 0xDC00 ≤ unit && unit < 0xE000

/-- Joins surrogate pairs. Half of a pair that stands alone has no meaning. -/
def joinSurrogates : List Nat → Option Text
  | [] => some []
  | [unit] =>
      if isHighSurrogate unit || isLowSurrogate unit then none else some [Char.ofNat unit]
  | unit :: next :: rest =>
      if isHighSurrogate unit then
        if isLowSurrogate next then
          let code := 0x10000 + (unit - 0xD800) * 0x400 + (next - 0xDC00)
          (joinSurrogates rest).map (Char.ofNat code :: ·)
        else none
      else if isLowSurrogate unit then none
      else (joinSurrogates (next :: rest)).map (Char.ofNat unit :: ·)

inductive Escape where
  | outside
  | begun
  /-- `\u` and some of its four digits. -/
  | code (digits : Nat) (value : Nat)

/-- An array or an object of which the end was not read yet. -/
inductive Opened where
  | array (items : List Json)
  /-- The members, whether all keys have a meaning, and the key of the member being read. -/
  | object (members : List (Text × Json)) (readable : Bool) (key : Text)

inductive Expected where
  | value
  | firstItem
  | firstKey
  | key
  | colon
  /-- Inside a text; its units are kept with the last one first. -/
  | text (isKey : Bool) (units : List Nat) (escape : Escape)
  /-- Inside a number; its characters are kept with the last one first. -/
  | numeral (characters : Text)
  /-- Inside a word such as `true`. -/
  | literal (remaining : Text) (value : Json)
  /-- Behind an item of an array or a member of an object. -/
  | separator
  | nothing (value : Json)

structure Reader where
  /-- The innermost first. -/
  opened : List Opened
  expected : Expected

namespace Reader

def start : Reader := ⟨[], .value⟩

/-- Hands a complete value to what encloses it. -/
def complete (opened : List Opened) (value : Json) : Reader :=
  match opened with
  | [] => ⟨[], .nothing value⟩
  | .array items :: outer => ⟨.array (items ++ [value]) :: outer, .separator⟩
  | .object members readable key :: outer =>
      ⟨.object (members ++ [(key, value)]) readable [] :: outer, .separator⟩

def close : Opened → Json
  | .array items => .array items
  | .object members readable _ => if readable then .object members else .unreadable

def completeText (opened : List Opened) (isKey : Bool) (units : List Nat) : Option Reader :=
  let text := joinSurrogates units.reverse
  if isKey then
    match opened with
    | .object members readable _ :: outer =>
        some ⟨.object members (readable && text.isSome) (text.getD []) :: outer, .colon⟩
    | _ => none
  else some (complete opened (match text with
    | some text => .string text
    | none => .unreadable))

def readValue (opened : List Opened) (char : Char) : Option Reader :=
  if char = '"' then some ⟨opened, .text false [] .outside⟩
  else if char = '[' then some ⟨.array [] :: opened, .firstItem⟩
  else if char = '\x7b' then some ⟨.object [] true [] :: opened, .firstKey⟩
  else if char = 't' then some ⟨opened, .literal "rue".toList (.bool true)⟩
  else if char = 'f' then some ⟨opened, .literal "alse".toList (.bool false)⟩
  else if char = 'n' then some ⟨opened, .literal "ull".toList .null⟩
  else if char = '-' || Numeral.isDigit char then some ⟨opened, .numeral [char]⟩
  else none

def readSeparator (opened : List Opened) (char : Char) : Option Reader :=
  match opened with
  | [] => none
  | .array items :: outer =>
      if char = ',' then some ⟨.array items :: outer, .value⟩
      else if char = ']' then some (complete outer (close (.array items)))
      else none
  | .object members readable key :: outer =>
      if char = ',' then some ⟨.object members readable key :: outer, .key⟩
      else if char = '\x7d' then some (complete outer (close (.object members readable key)))
      else none

def readBehind (reader : Reader) (char : Char) : Option Reader :=
  if isBlank char then some reader
  else match reader.expected with
    | .separator => readSeparator reader.opened char
    | _ => none

/-- A character between quotes. Control characters have to be escaped. -/
def readText (opened : List Opened) (isKey : Bool) (units : List Nat) (char : Char) :
    Escape → Option Reader
  | .outside =>
      if char = '"' then completeText opened isKey units
      else if char = '\\' then some ⟨opened, .text isKey units .begun⟩
      else if char.toNat < 0x20 then none
      else some ⟨opened, .text isKey (char.toNat :: units) .outside⟩
  | .begun =>
      let unit (code : Nat) : Option Reader := some ⟨opened, .text isKey (code :: units) .outside⟩
      if char = '"' ∨ char = '\\' ∨ char = '/' then unit char.toNat
      else if char = 'b' then unit 0x08
      else if char = 'f' then unit 0x0C
      else if char = 'n' then unit 0x0A
      else if char = 'r' then unit 0x0D
      else if char = 't' then unit 0x09
      else if char = 'u' then some ⟨opened, .text isKey units (.code 0 0)⟩
      else none
  | .code digits value => do
      let value := 16 * value + (← hexDigit char)
      if digits = 3 then some ⟨opened, .text isKey (value :: units) .outside⟩
      else some ⟨opened, .text isKey units (.code (digits + 1) value)⟩

def read (reader : Reader) (char : Char) : Option Reader :=
  match reader.expected with
  | .value => if isBlank char then some reader else readValue reader.opened char
  | .firstItem =>
      if isBlank char then some reader
      else if char = ']' then readSeparator reader.opened char
      else readValue reader.opened char
  | .firstKey =>
      if isBlank char then some reader
      else if char = '\x7d' then readSeparator reader.opened char
      else if char = '"' then some ⟨reader.opened, .text true [] .outside⟩
      else none
  | .key =>
      if isBlank char then some reader
      else if char = '"' then some ⟨reader.opened, .text true [] .outside⟩
      else none
  | .colon =>
      if isBlank char then some reader
      else if char = ':' then some ⟨reader.opened, .value⟩
      else none
  | .text isKey units escape => readText reader.opened isKey units char escape
  | .numeral characters =>
      if Numeral.isPart char then some ⟨reader.opened, .numeral (char :: characters)⟩
      else do
        let value ← Numeral.read characters.reverse
        (complete reader.opened value).readBehind char
  | .literal remaining value =>
      match remaining with
      | [] => none
      | [last] => if char = last then some (complete reader.opened value) else none
      | next :: remaining =>
          if char = next then some ⟨reader.opened, .literal remaining value⟩ else none
  | .separator | .nothing _ => reader.readBehind char

def finish (reader : Reader) : Option Json :=
  match reader.opened, reader.expected with
  | [], .nothing value => some value
  | [], .numeral characters => Numeral.read characters.reverse
  | _, _ => none

end Reader

def parse (text : Text) : Option Json := do
  (← text.foldlM Reader.read Reader.start).finish

end FilterQuery.Json
