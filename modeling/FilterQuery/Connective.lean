import FilterQuery.Text

/-!
A connective joins two neighbouring operands of a query. It may negate the operand behind it.
-/

set_option autoImplicit false

namespace FilterQuery

inductive Junction where
  | and
  | or
deriving DecidableEq

structure Connective where
  junction : Junction
  negated : Bool
deriving DecidableEq

namespace Connective

def text (connective : Connective) : Text :=
  let junction := match connective.junction with
    | .and => "and".toList
    | .or => "or".toList
  if connective.negated then junction ++ " not".toList else junction

end Connective

end FilterQuery
