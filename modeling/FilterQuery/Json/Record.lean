import FilterQuery.Json

/-!
Reading a record of named fields. A record is an object, or an array of the fields in their order.
-/

set_option autoImplicit false

namespace FilterQuery.Json

def member (key : Text) (members : List (Text × Json)) : Option Json :=
  (members.find? fun (name, _) => name == key).map Prod.snd

def isRepeated (members : List (Text × Json)) (key : Text) : Bool :=
  1 < (members.countP fun (name, _) => name == key)

/-- The values of the named fields as far as they are there. An object may hold the fields in any
order and others beside them, but none of them twice; an array holds the first ones, `least` or
more, and nothing else. -/
def fields (names : List Text) (least : Nat) : Json → Option (List (Option Json))
  | .object members =>
      if names.any (isRepeated members) then none else some (names.map (member · members))
  | .array items =>
      if least ≤ items.length ∧ items.length ≤ names.length then
        some (items.map some ++ List.replicate (names.length - items.length) none)
      else none
  | _ => none

/-- What an absent field stands for, or its value read by `read`. -/
def optional {Value : Type} (absent : Value) (read : Json → Option Value) :
    Option Json → Option Value
  | none => some absent
  | some value => read value

def bool? : Json → Option Bool
  | .bool value => some value
  | _ => none

def text? : Json → Option Text
  | .string text => some text
  | _ => none

def integer? : Json → Option Int
  | .integer number => some number
  | _ => none

def texts? : Json → Option (List Text)
  | .array items => items.mapM text?
  | _ => none

end FilterQuery.Json
