import FilterQuery.Text

/-!
JSON values. Whole numbers keep their value; of other numbers only the fact that they are numbers
is kept, since nothing here is measured in fractions.
-/

set_option autoImplicit false

namespace FilterQuery

inductive Json where
  | null
  | bool (value : Bool)
  | integer (value : Int)
  /-- A number that is written with a fraction or an exponent, or is no 64-bit integer. -/
  | real
  | string (text : Text)
  | array (items : List Json)
  | object (members : List (Text × Json))
  /-- A value that follows the grammar and still has no meaning: half of a surrogate pair stands
  alone in one of its own texts, or its magnitude is beyond every double. -/
  | unreadable

namespace Json

/-- Unsigned integers of 64 bits are smaller than this power of two. -/
def unsignedLimit : Nat := 18446744073709551616

/-- Signed integers of 64 bits are smaller than this power of two, and not smaller than its
negative. -/
def signedLimit : Nat := 9223372036854775808

mutual

def depth : Json → Nat
  | .array items => depthAll items + 1
  | .object members => depthMembers members + 1
  | _ => 0

def depthAll : List Json → Nat
  | [] => 0
  | item :: rest => max (depth item) (depthAll rest)

def depthMembers : List (Text × Json) → Nat
  | [] => 0
  | (_, value) :: rest => max (depth value) (depthMembers rest)

end

mutual

/-- Whether every part of the value has a meaning. -/
def readable : Json → Bool
  | .array items => readableAll items
  | .object members => readableMembers members
  | .unreadable => false
  | _ => true

def readableAll : List Json → Bool
  | [] => true
  | item :: rest => readable item && readableAll rest

def readableMembers : List (Text × Json) → Bool
  | [] => true
  | (_, value) :: rest => readable value && readableMembers rest

end

end Json

end FilterQuery
