import FilterQuery.Proofs.Draft.Outcome

/-!
Errors that stay. An error that names a word which fits nowhere is found when that word is read, and
whatever is typed behind it, the error remains the same, with the same tree of what was understood.
The end of the words never causes such an error; the errors it causes ask for further words.
-/

set_option autoImplicit false

namespace FilterQuery

namespace SyntaxError

def finalMessages : List Text :=
  ["\"(\" can not be an operand", "\")\" can not be an operand", "unexpected closing bracket",
    "empty brackets are not acceptable"].map String.toList

/-- What a message begins with when the rest of it names what was read. -/
def finalOpenings : List Text :=
  ["unexpected closing bracket after ", "Expecting logical and or logical or instead of ",
    "brackets are nested deeper than "].map String.toList

/-- The message of an error that no further word takes back. -/
def IsFinal (message : Text) : Prop :=
  message ∈ finalMessages ∨ ∃ opening ∈ finalOpenings, opening <+: message

def Cause.isUnfinished : Cause → Bool
  | .emptyQuery | .unclosedBracket | .operandExpected _ | .comparatorExpected _
  | .continuationExpected _ _ | .valueExpected _ | .unclosedList _ | .unclosedCall _ => true
  | _ => false

/-- Eleven characters are enough to tell the messages apart. -/
theorem start_of_final (message : Text) (final : IsFinal message) :
    message.take 11 ∈ (finalMessages ++ finalOpenings).map (List.take 11) := by
  rcases final with whole | ⟨opening, listed, rest, rfl⟩
  · exact List.mem_map_of_mem (List.mem_append_left _ whole)
  · have long : 11 ≤ opening.length := by
      revert opening
      decide
    rw [List.take_append_of_le_length long]
    exact List.mem_map_of_mem (List.mem_append_right _ listed)

theorem unfinished_is_not_final (cause : Cause) (unfinished : cause.isUnfinished = true) :
    ¬ IsFinal cause.message := by
  intro final
  have start := start_of_final cause.message final
  cases cause with
  | emptyQuery => exact absurd (show "empty searc".toList ∈ _ from start) (by decide)
  | unclosedBracket => exact absurd (show "Reached the".toList ∈ _ from start) (by decide)
  | operandExpected => exact absurd (show "Expecting s".toList ∈ _ from start) (by decide)
  | comparatorExpected => exact absurd (show "expecting a".toList ∈ _ from start) (by decide)
  | continuationExpected => exact absurd (show "expecting s".toList ∈ _ from start) (by decide)
  | valueExpected => exact absurd (show "expecting r".toList ∈ _ from start) (by decide)
  | unclosedList | unclosedCall =>
      exact absurd (show "missing clo".toList ∈ _ from start) (by decide)
  | emptyBrackets | unexpectedClose | bracketsTooDeep | notAConnective | bracketAsComparator
  | unexpectedCloseAfter | countMismatch => cases unfinished

end SyntaxError

namespace Draft

theorem finish_level_unfinished (draft : Draft) (balanced : draft.Balanced 1)
    (error : SyntaxError) (finishes : draft.finishLevel = .error error) :
    error.cause.isUnfinished = true := by
  rw [finishLevel] at finishes
  split at finishes
  · -- Operands and connectives alternate, so one level alone always makes a tree.
    obtain ⟨tree, assembled, _⟩ := draft.level.assemble_regular balanced.level
    rw [assembled] at finishes
    cases finishes
  · cases finishes
    rfl

theorem finish_unfinished (draft : Draft) (regular : draft.Regular) (error : SyntaxError)
    (finishes : draft.finish = .error error) : error.cause.isUnfinished = true := by
  obtain ⟨outer, level, phase⟩ := draft
  obtain ⟨balanced, consistent⟩ := regular
  have pushed : ∀ condition : Condition, phase.ahead = 0 →
      Balanced (push ⟨outer, level, phase⟩ (.condition condition)) 1 := by
    intro condition none
    rw [none] at balanced
    exact balanced_push _ balanced _ (Tree.Normal.condition condition)
  cases phase with
  | operand =>
      cases outer <;>
      · cases finishes
        rfl
  | leadingNot | comparator | continuation | extended | call | afterConnective =>
      cases finishes
      rfl
  | value condition depth =>
      cases depth <;>
      · cases finishes
        rfl
  | afterValue condition value depth =>
      cases depth with
      | zero => exact finish_level_unfinished _ (pushed _ rfl) error finishes
      | succ depth =>
          cases finishes
          rfl
  | afterList condition =>
      change (if condition.values.isEmpty then _ else _) = _ at finishes
      split at finishes
      · cases finishes
        rfl
      · exact finish_level_unfinished _ (pushed condition rfl) error finishes
  | connective => exact finish_level_unfinished _ balanced error finishes

end Draft

namespace Tree

/-- Once a word fits nowhere, the error and what was understood before it are the same whatever is
typed behind the words. -/
theorem final_error_stays (words later : List Word) (error : SyntaxError)
    (refused : ofWords words = .error error) (final : SyntaxError.IsFinal error.message) :
    ofWords (words ++ later) = .error error := by
  have runs := Draft.start.run_runs Draft.start_regular words
  change Draft.start.run (words ++ later) = _
  rw [Draft.run_append]
  rw [ofWords] at refused
  cases reads : words.foldlM Draft.read Draft.start with
  | error cause =>
      -- The error is found among the words, so none of the later words is read.
      rw [reads] at refused
      exact refused
  | ok last =>
      rw [reads] at refused runs
      have unfinished := last.finish_unfinished runs.1 error refused
      exact absurd final (SyntaxError.unfinished_is_not_final error.cause unfinished)

def strandedWords : List Word :=
  ["a", "=", "b", "and", "not", "(", "(", "c", ">", "now", "(", "(", "1", ")", ")", "xor"].map
    fun text => .plain text.toList

def strandedTree : Tree :=
  .group .and [.condition ⟨.plain "a".toList, some "=".toList, [.plain "b".toList]⟩,
    .negate (.condition ⟨.plain "c".toList, some ">".toList, [.plain "now((1))".toList]⟩)]

theorem final_error_stays_stranded :
    ofWords strandedWords = .error ⟨.notAConnective "xor".toList, some strandedTree⟩ ∧
      SyntaxError.IsFinal "Expecting logical and or logical or instead of xor".toList ∧
      ofWords (strandedWords ++ [.plain ['('], .plain [')'], .plain [')'], .plain [')']]) =
        .error ⟨.notAConnective "xor".toList, some strandedTree⟩ := by
  have refused : ofWords strandedWords =
      .error ⟨.notAConnective "xor".toList, some strandedTree⟩ := rfl
  have final : SyntaxError.IsFinal
      "Expecting logical and or logical or instead of xor".toList :=
    .inr ⟨"Expecting logical and or logical or instead of ".toList, by decide, "xor".toList, rfl⟩
  exact ⟨refused, final, final_error_stays strandedWords _ _ refused final⟩

end Tree

end FilterQuery
