import FilterQuery.Json

/-!
Writing JSON, without blanks or spread over lines.
-/

set_option autoImplicit false

namespace FilterQuery.Json

/-- Only quotes, backslashes and control characters are escaped. -/
def escapeChar (char : Char) : Text :=
  if char = '"' then ['\\', '"']
  else if char = '\\' then ['\\', '\\']
  else if char = '\x08' then ['\\', 'b']
  else if char = '\x0c' then ['\\', 'f']
  else if char = '\n' then ['\\', 'n']
  else if char = '\r' then ['\\', 'r']
  else if char = '\t' then ['\\', 't']
  else if char.toNat < 0x20 then
    ['\\', 'u', '0', '0', Nat.digitChar (char.toNat / 16), Nat.digitChar (char.toNat % 16)]
  else [char]

def writeText (text : Text) : Text := '"' :: text.flatMap escapeChar ++ ['"']

def writeInteger (number : Int) : Text :=
  if number < 0 then '-' :: Text.ofNat number.natAbs else Text.ofNat number.natAbs

/-- A value that is neither an array nor an object. Values of which the spelling is not kept are
written as null. -/
def writeScalar : Json → Text
  | .bool true => "true".toList
  | .bool false => "false".toList
  | .integer number => writeInteger number
  | .string text => writeText text
  | _ => "null".toList

mutual

def write : Json → Text
  | .array items => '[' :: Text.join [','] (writeAll items) ++ [']']
  | .object members => '\x7b' :: Text.join [','] (writeMembers members) ++ ['\x7d']
  | value => writeScalar value

def writeAll : List Json → List Text
  | [] => []
  | item :: rest => write item :: writeAll rest

def writeMembers : List (Text × Json) → List Text
  | [] => []
  | (key, value) :: rest => (writeText key ++ ':' :: write value) :: writeMembers rest

end

def newLine (level : Nat) : Text := '\n' :: List.replicate (2 * level) ' '

/-- Parts on lines of their own between two brackets; without parts there is no line break. -/
def writeLines (level : Nat) (first last : Char) : List Text → Text
  | [] => [first, last]
  | parts =>
      first :: newLine (level + 1) ++ Text.join (',' :: newLine (level + 1)) parts ++
        newLine level ++ [last]

mutual

def writeIndented (level : Nat) : Json → Text
  | .array items => writeLines level '[' ']' (writeIndentedAll (level + 1) items)
  | .object members => writeLines level '\x7b' '\x7d' (writeIndentedMembers (level + 1) members)
  | value => writeScalar value

def writeIndentedAll (level : Nat) : List Json → List Text
  | [] => []
  | item :: rest => writeIndented level item :: writeIndentedAll level rest

def writeIndentedMembers (level : Nat) : List (Text × Json) → List Text
  | [] => []
  | (key, value) :: rest =>
      (writeText key ++ ": ".toList ++ writeIndented level value) ::
        writeIndentedMembers level rest

end

end FilterQuery.Json
