import FilterQuery.Registry

/-!
Whether the conditions of a tree can be answered: their fields are registered and their comparators
are accepted.
-/

set_option autoImplicit false

namespace FilterQuery

inductive ValidationError where
  | unknownField (field : Text)
  | unknownComparator (comparator : Text)
deriving DecidableEq

def ValidationError.message : ValidationError → Text
  | .unknownField field => "Unknown search condition: ".toList ++ field
  | .unknownComparator comparator => "Unknown compare condition: ".toList ++ comparator

structure Vocabulary where
  registry : Registry
  comparators : List Text

/-- The field is looked at first. An absent comparator is accepted. -/
def Condition.validate (vocabulary : Vocabulary) (condition : Condition) :
    Except ValidationError Unit :=
  if !vocabulary.registry.contains condition.field.text then
    .error (.unknownField condition.field.text)
  else
    match condition.comparator with
    | none => .ok ()
    | some comparator =>
        if vocabulary.comparators.contains comparator then .ok ()
        else .error (.unknownComparator comparator)

namespace Tree

mutual

/-- The first error from left to right. -/
def validate (vocabulary : Vocabulary) : Tree → Except ValidationError Unit
  | .condition leaf => leaf.validate vocabulary
  | .group _ children => validateAll vocabulary children

def validateAll (vocabulary : Vocabulary) : List Tree → Except ValidationError Unit
  | [] => .ok ()
  | child :: rest =>
      match validate vocabulary child with
      | .ok () => validateAll vocabulary rest
      | .error error => .error error

end

end Tree

end FilterQuery
