import FilterQuery.SyntaxError

/-!
Errors told apart by their messages. The first letter of a message is the same whatever words the
message names, and it is enough to tell apart the errors that a message has to be told from.
-/

set_option autoImplicit false

namespace FilterQuery.SyntaxError.Cause

def initial : Cause → Char
  | emptyQuery | emptyBrackets | comparatorExpected _ | continuationExpected _ _
  | valueExpected _ => 'e'
  | unexpectedClose | unexpectedCloseAfter _ => 'u'
  | unclosedList _ | unclosedCall _ => 'm'
  | notAConnective _ | operandExpected _ => 'E'
  | bracketsTooDeep => 'b'
  | bracketAsComparator _ => '"'
  | unclosedBracket => 'R'
  | countMismatch _ _ => 'N'

theorem head_of_message (cause : Cause) : cause.message.head? = some cause.initial := by
  cases cause <;> rfl

/-- No other error has the message of a bracket that is not closed. -/
theorem unclosed_of_message (cause : Cause) (same : cause.message = unclosedBracket.message) :
    cause = unclosedBracket := by
  have first : cause.initial = 'R' := by
    apply Option.some.inj
    rw [← head_of_message, same, head_of_message]
    rfl
  cases cause with
  | unclosedBracket => rfl
  | _ => simp [initial] at first

def isMismatch : Cause → Bool
  | countMismatch _ _ => true
  | _ => false

theorem matched_of_message (cause : Cause) (matched : cause.isMismatch = false) :
    ¬ "Number of search conditions ".toList <+: cause.message := by
  rintro ⟨rest, same⟩
  have first : cause.initial = 'N' := by
    apply Option.some.inj
    rw [← head_of_message, ← same]
    rfl
  cases cause with
  | countMismatch => cases matched
  | _ => simp [initial] at first

end FilterQuery.SyntaxError.Cause
