import FilterQuery.SyntaxError

/-!
A chain of operands and the connectives between them becomes one tree: a disjunction of
conjunctions, since `and` binds tighter than `or`.
-/

set_option autoImplicit false

namespace FilterQuery.Tree

def negateIf (negated : Bool) (tree : Tree) : Tree := if negated then tree.negate else tree

/-- Divides a chain of operands at every `or`. The first part begins with `first`, and each
operand is negated as the connective in front of it says. -/
def splitAtOr (first : Tree) : List (Connective × Tree) → List (List Tree)
  | [] => [[first]]
  | (connective, operand) :: rest =>
      let later := splitAtOr (negateIf connective.negated operand) rest
      match connective.junction, later with
      | .and, conjunction :: further => (first :: conjunction) :: further
      | _, _ => [first] :: later

/-- The disjunction of the conjunctions of a chain. -/
def ofChain (first : Tree) (chain : List (Connective × Tree)) : Tree :=
  disjoin ((splitAtOr first chain).map conjoin)

/-- The tree of `n` operands and the `n - 1` connectives between them. -/
def assemble (operands : List Tree) (connectives : List Connective) : Except SyntaxError Tree :=
  match operands with
  | [] => .error ⟨.emptyBrackets, none⟩
  | first :: rest =>
      if rest.length = connectives.length then .ok (ofChain first (connectives.zip rest))
      else .error ⟨.countMismatch operands.length connectives.length, some first⟩

/-- The best tree of operands read before an error; a connective with no operand behind it is
dropped. -/
def recover (operands : List Tree) (connectives : List Connective) : Option Tree :=
  (assemble operands (connectives.take (operands.length - 1))).toOption

end FilterQuery.Tree
