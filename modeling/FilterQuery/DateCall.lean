import FilterQuery.Text

/-!
Completing calls of date functions such as `now(-5d)`.
-/

set_option autoImplicit false

namespace FilterQuery.DateCall

def functions : List Text :=
  ["now".toList, "endOfDay".toList, "endOfMonth".toList, "endOfWeek".toList, "endOfYear".toList,
    "startOfDay".toList, "startOfMonth".toList, "startOfWeek".toList, "startOfYear".toList]

/-- Years, months, weeks, days, hours and minutes. -/
def units : List Char := ['y', 'M', 'w', 'd', 'H', 'm']

/-- Digits, at least one, behind at most one minus. -/
def isOffset (text : Text) : Bool :=
  let digits := match text with
    | '-' :: digits => digits
    | digits => digits
  !digits.isEmpty && digits.all fun digit => '0' ≤ digit && digit ≤ '9'

def dropUnit (text : Text) : Text :=
  match text.getLast? with
  | some last => if last ∈ units then text.dropLast else text
  | none => text

/-- The function and the offset of a call of which the end was not typed yet. -/
def split (typed : Text) : Option (Text × Text) :=
  let function := typed.takeWhile (· != '(')
  match typed.dropWhile (· != '(') with
  | [] => none
  | _ :: argument =>
      let offset := dropUnit argument
      if functions.contains function && isOffset offset then some (function, offset) else none

/-- Behind an offset every unit is proposed, otherwise every function that begins with what was
typed. -/
def candidates (typed : Text) : List Text :=
  match split typed with
  | some (function, offset) => units.map fun unit => function ++ '(' :: offset ++ [unit, ')']
  | none =>
      (functions.filter fun function => typed.isPrefixOf function).map fun function =>
        function ++ ['(']

end FilterQuery.DateCall
