import FilterQuery.Failure
import FilterQuery.Tree.Print

/-!
The word of a tree that is being typed, and putting a suggestion in its place.
-/

set_option autoImplicit false

namespace FilterQuery

inductive Slot where
  | field
  | value (index : Nat)
deriving DecidableEq

/-- The word being typed: the indexes of the children that lead to its condition, its place there,
the field of the condition, and the text before the cursor. -/
structure Target where
  path : List Nat
  slot : Slot
  field : Text
  typed : Text
deriving DecidableEq

namespace Condition

def typedValue (index : Nat) : List Word → Option (Slot × Word)
  | [] => none
  | value :: rest =>
      if value.isTyped then some (.value index, value) else typedValue (index + 1) rest

def typedWord (condition : Condition) : Option (Slot × Word) :=
  if condition.field.isTyped then some (.field, condition.field)
  else typedValue 0 condition.values

def target (condition : Condition) : Option Target :=
  condition.typedWord.map fun (slot, word) => ⟨[], slot, condition.field.text, word.typed⟩

/-- Writes `suggestion` over the word and sets the cursor behind it. -/
def suggest (suggestion : Text) (word : Word) : Word :=
  { word with text := suggestion, cursor := some suggestion.length }

/-- Replaces one word of a condition; no other word of it keeps a cursor. -/
def replace (condition : Condition) (slot : Slot) (suggestion : Text) : Option Condition :=
  let condition := condition.mapWords Word.unmarked
  match slot with
  | .field => some { condition with field := suggest suggestion condition.field }
  | .value index =>
      condition.values[index]?.map fun value =>
        { condition with values := condition.values.set index (suggest suggestion value) }

end Condition

namespace Tree

mutual

/-- The first word being typed, a field before its values. -/
def target : Tree → Option Target
  | .condition leaf => leaf.target
  | .group _ children => targetAmong 0 children

def targetAmong (index : Nat) : List Tree → Option Target
  | [] => none
  | child :: rest =>
      match target child with
      | some found => some { found with path := index :: found.path }
      | none => targetAmong (index + 1) rest

end

def replace (tree : Tree) (slot : Slot) (suggestion : Text) : (path : List Nat) → Option Tree
  | [] =>
      match tree with
      | .condition leaf => (leaf.replace slot suggestion).map .condition
      | .group _ _ => none
  | index :: path =>
      match tree with
      | .condition _ => none
      | .group operation children => do
          let child ← children[index]?
          some (.group operation (children.set index (← replace child slot suggestion path)))

def applySuggestion (tree : Tree) (target : Target) (suggestion : Text) :
    Except Failure Printed :=
  match tree.replace target.slot suggestion target.path with
  | some tree => .ok tree.print
  | none => .error .targetMissing

end Tree

end FilterQuery
