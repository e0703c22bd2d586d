import FilterQuery.Json.Reader
import FilterQuery.Json.Record
import FilterQuery.Json.Writer
import FilterQuery.Tree

/-!
Trees as JSON, the form in which a query is handed to the service that answers it. A condition and
a group are told apart by their fields; what reads as a condition is one.
-/

set_option autoImplicit false

namespace FilterQuery

/-- Texts with more arrays and objects inside each other than this are not read as trees. -/
def maxJsonDepth : Nat := 127

namespace Word

/-- An offset is written as an unsigned integer of 64 bits, an absent cursor as -1. -/
def toJson (word : Word) : Json :=
  .object [("word".toList, .string word.text),
    ("beingTyped".toList, .integer (match word.cursor with
      | some offset => (offset % Json.unsignedLimit : Nat)
      | none => -1)),
    ("escapedByQuote".toList, .bool word.quoted)]

/-- Any negative number stands for an absent cursor. -/
def cursorOfJson (json : Json) : Option (Option Nat) := do
  let offset ← json.integer?
  if offset < Json.signedLimit then some (if 0 ≤ offset then some offset.toNat else none) else none

def ofJson (json : Json) : Option Word := do
  match ← json.fields ["word".toList, "beingTyped".toList, "escapedByQuote".toList] 1 with
  | [some text, cursor, quoted] =>
      some ⟨← text.text?, ← Json.optional none cursorOfJson cursor,
        ← Json.optional false Json.bool? quoted⟩
  | _ => none

def listOfJson : Json → Option (List Word)
  | .array items => items.mapM ofJson
  | _ => none

end Word

namespace Condition

def toJson (condition : Condition) : Json :=
  .object [("lValue".toList, condition.field.toJson),
    ("comparator".toList, match condition.comparator with
      | some comparator => .string comparator
      | none => .null),
    ("rValues".toList, .array (condition.values.map Word.toJson))]

def comparatorOfJson : Json → Option (Option Text)
  | .null => some none
  | .string text => some (some text)
  | _ => none

def ofJson (json : Json) : Option Condition := do
  match ← json.fields ["lValue".toList, "comparator".toList, "rValues".toList] 2 with
  | [some field, comparator, values] =>
      some ⟨← Word.ofJson field, ← Json.optional none comparatorOfJson comparator,
        ← Json.optional [] Word.listOfJson values⟩
  | _ => none

end Condition

namespace Operation

def toJson (operation : Operation) : Json := .string operation.text

def ofText? (text : Text) : Option Operation :=
  if text = "and".toList then some .and
  else if text = "or".toList then some .or
  else if text = "not".toList then some .not
  else none

/-- The name of an operation, alone or as the only key of an object with nothing under it. -/
def ofJson : Json → Option Operation
  | .string text => ofText? text
  | .object [(text, .null)] => ofText? text
  | _ => none

end Operation

namespace Tree

def operationKey : Text := "operation".toList

def childrenKey : Text := "conditions".toList

mutual

def toJson : Tree → Json
  | .condition leaf => leaf.toJson
  | .group operation children =>
      .object [(operationKey, operation.toJson), (childrenKey, .array (toJsonAll children))]

def toJsonAll : List Tree → List Json
  | [] => []
  | child :: rest => toJson child :: toJsonAll rest

end

def operationOfMembers (members : List (Text × Json)) : Option Operation :=
  if Json.isRepeated members operationKey || Json.isRepeated members childrenKey then none
  else (Json.member operationKey members).bind Operation.ofJson

mutual

def ofJson : Json → Option Tree
  | .object members =>
      match Condition.ofJson (.object members) with
      | some leaf => some (.condition leaf)
      | none => do some (.group (← operationOfMembers members) (← ofMembers members))
  | .array [operation, children] =>
      match Condition.ofJson (.array [operation, children]) with
      | some leaf => some (.condition leaf)
      | none => do some (.group (← Operation.ofJson operation) (← ofChildren children))
  | json => (Condition.ofJson json).map .condition

def ofMembers : List (Text × Json) → Option (List Tree)
  | [] => none
  | (key, value) :: rest => if key = childrenKey then ofChildren value else ofMembers rest

def ofChildren : Json → Option (List Tree)
  | .array items => ofAll items
  | _ => none

def ofAll : List Json → Option (List Tree)
  | [] => some []
  | item :: rest => do some ((← ofJson item) :: (← ofAll rest))

end

def write (tree : Tree) : Text := tree.toJson.write

/-- The tree that a text writes. All of the text has to be readable, also what does not belong to
the tree. -/
def read (text : Text) : Option Tree := do
  let json ← Json.parse text
  if json.readable && json.depth ≤ maxJsonDepth then ofJson json else none

end Tree

end FilterQuery
