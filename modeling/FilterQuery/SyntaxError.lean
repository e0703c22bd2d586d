import FilterQuery.Connective
import FilterQuery.Tree

/-!
Why words are not a query. An error keeps the tree of what was understood before it, so that
suggestions go on working while a query is incomplete.
-/

set_option autoImplicit false

namespace FilterQuery

/-- Brackets may be nested this deep and no deeper. -/
def maxBracketDepth : Nat := 128

namespace SyntaxError

inductive Cause where
  | emptyQuery
  | emptyBrackets
  | unexpectedClose
  | unclosedBracket
  | bracketsTooDeep
  /-- Where a connective has to stand, another word stands. -/
  | notAConnective (word : Text)
  /-- The query ends behind a connective. -/
  | operandExpected (connective : Connective)
  /-- The query ends behind the field of a condition. -/
  | comparatorExpected (field : Text)
  /-- A bracket stands where a comparator has to stand. -/
  | bracketAsComparator (bracket : Text)
  /-- The query ends behind the first word of a comparator. -/
  | continuationExpected (field comparator : Text)
  | valueExpected (condition : Condition)
  | unexpectedCloseAfter (condition : Condition)
  /-- The query ends inside a list of values. -/
  | unclosedList (condition : Condition)
  /-- The query ends inside the brackets of a call. -/
  | unclosedCall (value : Text)
  | countMismatch (operands connectives : Nat)
deriving DecidableEq

/-- The condition as far as it was read. -/
def describe (condition : Condition) : Text :=
  let comparator := match condition.comparator with
    | some comparator => ' ' :: comparator
    | none => []
  let values := match condition.values with
    | [] => []
    | values => ' ' :: Text.join [','] (values.map Word.text)
  condition.field.text ++ comparator ++ values

def Cause.message : Cause → Text
  | .emptyQuery => "empty search condition".toList
  | .emptyBrackets => "empty brackets are not acceptable".toList
  | .unexpectedClose => "unexpected closing bracket".toList
  | .unclosedBracket => "Reached the end of line and not matched the opening bracket".toList
  | .bracketsTooDeep =>
      "brackets are nested deeper than ".toList ++ Text.ofNat maxBracketDepth ++ " levels".toList
  | .notAConnective word => "Expecting logical and or logical or instead of ".toList ++ word
  | .operandExpected connective =>
      "Expecting second part of logical operator after ".toList ++ connective.text
  | .comparatorExpected field => "expecting an operand after ".toList ++ field
  | .bracketAsComparator bracket => '"' :: bracket ++ "\" can not be an operand".toList
  | .continuationExpected field comparator =>
      "expecting second part of an operand or a condition after ".toList ++ field ++
        ' ' :: comparator
  | .valueExpected condition => "expecting right value after ".toList ++ describe condition
  | .unexpectedCloseAfter condition =>
      "unexpected closing bracket after ".toList ++ describe condition
  | .unclosedList condition => "missing closing bracket after ".toList ++ describe condition
  | .unclosedCall value => "missing closing bracket in ".toList ++ value
  | .countMismatch operands connectives =>
      "Number of search conditions ".toList ++ Text.ofNat operands ++
        " does not match number of logical operators ".toList ++ Text.ofNat connectives

end SyntaxError

structure SyntaxError where
  cause : SyntaxError.Cause
  /-- The tree of everything understood before the error, if anything was. -/
  understood : Option Tree
deriving DecidableEq

def SyntaxError.message (error : SyntaxError) : Text := error.cause.message

end FilterQuery
