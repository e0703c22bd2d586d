import FilterQuery.Comparator
import FilterQuery.Text.Blank
import FilterQuery.Tree

/-!
Writing a tree as a query that reads back as the same tree. Values are always written in quotes;
fields and comparators only where they would not be read back as they stand. The first word that
carries the cursor determines where the cursor stands in the whole text.
-/

set_option autoImplicit false

namespace FilterQuery

@[ext] structure Printed where
  text : Text
  cursor : Option Nat
deriving DecidableEq

namespace Printed

def plain (text : Text) : Printed := ⟨text, none⟩

/-- One text behind another. The earlier cursor wins. -/
def append (left right : Printed) : Printed :=
  ⟨left.text ++ right.text, left.cursor.or (right.cursor.map (left.text.length + ·))⟩

instance : Append Printed := ⟨append⟩

def join (separator : Text) : List Printed → Printed
  | [] => plain []
  | [part] => part
  | part :: rest => part ++ plain separator ++ join separator rest

def bracketed (inner : Printed) : Printed := plain ['('] ++ inner ++ plain [')']

@[simp] theorem text_plain (text : Text) : (plain text).text = text := rfl

@[simp] theorem cursor_plain (text : Text) : (plain text).cursor = none := rfl

@[simp]
theorem text_append (left right : Printed) : (left ++ right).text = left.text ++ right.text := rfl

@[simp] theorem cursor_append (left right : Printed) :
    (left ++ right).cursor = left.cursor.or (right.cursor.map (left.text.length + ·)) := rfl

@[simp] theorem append_assoc (first second third : Printed) :
    first ++ second ++ third = first ++ (second ++ third) := by
  apply Printed.ext
  · simp only [text_append, List.append_assoc]
  · simp only [cursor_append, text_append, List.length_append]
    cases first.cursor <;> cases second.cursor <;> cases third.cursor <;> simp [Nat.add_assoc]

end Printed

/-- A text that would not be read back as one word without quotes, or would be read as a keyword. -/
def Text.needsQuotes (text : Text) : Bool :=
  text.isEmpty || ["and".toList, "or".toList, "not".toList].contains text ||
    text.any (fun char => Text.isBlank char || char ∈ ['"', '\\', ',', '(', ')']) ||
    Comparator.containsSign text

/-- The characters between quotes: a quote and a backslash are written behind a backslash. -/
def Text.escape (text : Text) : Text :=
  text.flatMap fun char => if char = '"' ∨ char = '\\' then ['\\', char] else [char]

namespace Word

def printPlain (word : Word) : Printed := ⟨word.text, word.cursor⟩

/-- The word in quotes. A cursor behind its end stands in front of the last quote. -/
def printQuoted (word : Word) : Printed :=
  ⟨'"' :: word.text.escape ++ ['"'],
    word.cursor.map fun offset => 1 + (Text.escape (word.text.take offset)).length⟩

end Word

/-- Comparators that are put together again when they are read need no quotes. -/
def Comparator.print (comparator : Text) : Printed :=
  if signs.contains comparator || phrases.contains comparator || !comparator.needsQuotes then
    .plain comparator
  else (Word.quote comparator).printQuoted

def Word.printValues : List Word → Printed
  | [] => .plain []
  | [value] => .plain [' '] ++ value.printQuoted
  | values => .plain [' '] ++ (Printed.join [','] (values.map printQuoted)).bracketed

/-- Without a comparator the values are not written. -/
def Condition.print (condition : Condition) : Printed :=
  let field :=
    if condition.field.text.needsQuotes then condition.field.printQuoted
    else condition.field.printPlain
  match condition.comparator with
  | none => field
  | some comparator =>
      field ++ .plain [' '] ++ Comparator.print comparator ++ Word.printValues condition.values

namespace Tree

mutual

def print : Tree → Printed
  | .condition leaf => leaf.print
  | .group .not children => .plain "not ".toList ++ Printed.join [] (printNegated children)
  | .group operation children =>
      Printed.join (' ' :: operation.text ++ [' ']) (printJoined children)

/-- The operands of a conjunction or a disjunction: a conjunction or disjunction among them stands
in brackets, a negation does not. -/
def printJoined : List Tree → List Printed
  | [] => []
  | child :: rest =>
      (match child with
        | .condition _ | .group .not _ => print child
        | .group _ _ => (print child).bracketed) :: printJoined rest

/-- The operand of a negation: every group stands in brackets. -/
def printNegated : List Tree → List Printed
  | [] => []
  | child :: rest =>
      (match child with
        | .condition _ => print child
        | .group _ _ => (print child).bracketed) :: printNegated rest

end

end Tree

end FilterQuery
