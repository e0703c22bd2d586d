import FilterQuery.Proofs.Draft.Run
import FilterQuery.Proofs.Word.Unmarked
import Mathlib

/-!
The cursor has no part in how words are read as a query. Reading words without their cursors gives
the same outcome without cursors: the same tree, or the same error with the same message and the
same tree of what was understood.
-/

set_option autoImplicit false

namespace FilterQuery

namespace Tree

@[simp] theorem map_words_negate_if (change : Word → Word) (negated : Bool) (tree : Tree) :
    (negateIf negated tree).mapWords change = negateIf negated (tree.mapWords change) := by
  cases negated with
  | false => rfl
  | true => exact map_words_group change .not [tree]

@[simp] theorem conjuncts_map_words (change : Word → Word) (tree : Tree) :
    (tree.mapWords change).conjuncts = tree.conjuncts.map (mapWords change) := by
  cases tree with
  | condition leaf => rfl
  | group operation children =>
      cases operation <;> simp [conjuncts]

@[simp] theorem disjuncts_map_words (change : Word → Word) (tree : Tree) :
    (tree.mapWords change).disjuncts = tree.disjuncts.map (mapWords change) := by
  cases tree with
  | condition leaf => rfl
  | group operation children =>
      cases operation <;> simp [disjuncts]

@[simp]
theorem map_words_collapse (change : Word → Word) (operation : Operation) (trees : List Tree) :
    (collapse operation trees).mapWords change =
      collapse operation (trees.map (mapWords change)) := by
  match trees with
  | [] => simp [collapse]
  | [tree] => rfl
  | first :: second :: rest => simp [collapse]

@[simp] theorem map_words_conjoin (change : Word → Word) (trees : List Tree) :
    (conjoin trees).mapWords change = conjoin (trees.map (mapWords change)) := by
  simp [conjoin, List.map_flatMap, List.flatMap_map]

@[simp] theorem map_words_disjoin (change : Word → Word) (trees : List Tree) :
    (disjoin trees).mapWords change = disjoin (trees.map (mapWords change)) := by
  simp [disjoin, List.map_flatMap, List.flatMap_map]

theorem split_at_or_map_words (change : Word → Word) (first : Tree)
    (chain : List (Connective × Tree)) :
    splitAtOr (first.mapWords change) (chain.map (Prod.map id (mapWords change))) =
      (splitAtOr first chain).map (List.map (mapWords change)) := by
  induction chain generalizing first with
  | nil => rfl
  | cons link chain induction =>
      obtain ⟨⟨junction, negated⟩, operand⟩ := link
      simp only [List.map_cons, Prod.map, id, splitAtOr, ← map_words_negate_if, induction]
      generalize splitAtOr (negateIf negated operand) chain = parts
      cases junction with
      | or => rfl
      | and => cases parts <;> rfl

theorem of_chain_map_words (change : Word → Word) (first : Tree)
    (chain : List (Connective × Tree)) :
    ofChain (first.mapWords change) (chain.map (Prod.map id (mapWords change))) =
      (ofChain first chain).mapWords change := by
  rw [ofChain, ofChain, split_at_or_map_words, map_words_disjoin, List.map_map, List.map_map]
  simp only [Function.comp_def, map_words_conjoin]

end Tree

namespace SyntaxError

def Cause.unmarked : Cause → Cause
  | .valueExpected condition => .valueExpected (condition.mapWords Word.unmarked)
  | .unexpectedCloseAfter condition => .unexpectedCloseAfter (condition.mapWords Word.unmarked)
  | .unclosedList condition => .unclosedList (condition.mapWords Word.unmarked)
  | cause => cause

def unmarked (error : SyntaxError) : SyntaxError :=
  ⟨error.cause.unmarked, error.understood.map Tree.unmarked⟩

@[simp] theorem describe_unmarked (condition : Condition) :
    describe (condition.mapWords Word.unmarked) = describe condition := by
  obtain ⟨field, comparator, values⟩ := condition
  have texts : (values.map Word.unmarked).map Word.text = values.map Word.text := by
    rw [List.map_map]
    rfl
  cases values with
  | nil => rfl
  | cons value rest =>
      change _ ++ ' ' :: Text.join [','] (((value :: rest).map Word.unmarked).map Word.text) = _
      rw [texts]
      rfl

@[simp]
theorem Cause.message_unmarked (cause : Cause) : cause.unmarked.message = cause.message := by
  cases cause with
  | valueExpected condition | unexpectedCloseAfter condition | unclosedList condition =>
      change _ ++ describe (condition.mapWords Word.unmarked) = _
      rw [describe_unmarked]
      rfl
  | _ => exact congrArg Cause.message rfl

@[simp] theorem message_unmarked (error : SyntaxError) : error.unmarked.message = error.message :=
  error.cause.message_unmarked

end SyntaxError

/-- What reading leads to, without any cursor. -/
def unmarkedOutcome {Result : Type} (unmark : Result → Result) :
    Except SyntaxError Result → Except SyntaxError Result
  | .ok result => .ok (unmark result)
  | .error error => .error error.unmarked

namespace Tree

theorem negate_if_unmarked (negated : Bool) (tree : Tree) :
    (negateIf negated tree).unmarked = negateIf negated tree.unmarked :=
  map_words_negate_if Word.unmarked negated tree

theorem assemble_unmarked (operands : List Tree) (connectives : List Connective) :
    assemble (operands.map unmarked) connectives =
      unmarkedOutcome unmarked (assemble operands connectives) := by
  cases operands with
  | nil => rfl
  | cons first rest =>
      rw [List.map_cons, assemble, assemble, List.length_map, List.length_cons, List.length_cons,
        List.length_map]
      split
      · rw [List.zip_map_right]
        exact congrArg Except.ok (of_chain_map_words Word.unmarked first _)
      · rfl

theorem recover_unmarked (operands : List Tree) (connectives : List Connective) :
    recover (operands.map unmarked) connectives =
      (recover operands connectives).map unmarked := by
  rw [recover, recover, assemble_unmarked, List.length_map]
  cases assemble operands (connectives.take (operands.length - 1)) <;> rfl

end Tree

namespace Level

def unmarked (level : Level) : Level :=
  { level with operands := level.operands.map Tree.unmarked }

theorem push_unmarked (level : Level) (operand : Tree) :
    (level.push operand).unmarked = level.unmarked.push operand.unmarked := by
  rw [push, push, unmarked, unmarked, List.map_append, List.map_singleton,
    Tree.negate_if_unmarked]

theorem assemble_unmarked (level : Level) :
    level.unmarked.assemble = unmarkedOutcome Tree.unmarked level.assemble :=
  Tree.assemble_unmarked level.operands level.connectives

theorem recover_unmarked (level : Level) (unfinished : Option Tree) :
    level.unmarked.recover (unfinished.map Tree.unmarked) =
      (level.recover unfinished).map Tree.unmarked := by
  rw [recover, recover, ← Tree.recover_unmarked, List.map_append]
  cases unfinished with
  | none => rfl
  | some tree =>
      rw [Option.map_some, Option.map_some, Option.map_some, Option.toList_some,
        Option.toList_some, List.map_singleton, Tree.negate_if_unmarked]
      rfl

end Level

def Phase.unmarked : Phase → Phase
  | .operand => .operand
  | .leadingNot word => .leadingNot word.unmarked
  | .comparator field => .comparator field.unmarked
  | .continuation field text quoted => .continuation field.unmarked text quoted
  | .extended field text => .extended field.unmarked text
  | .value condition depth => .value (condition.mapWords Word.unmarked) depth
  | .afterValue condition word depth =>
      .afterValue (condition.mapWords Word.unmarked) word.unmarked depth
  | .call condition word opened depth =>
      .call (condition.mapWords Word.unmarked) word.unmarked opened depth
  | .afterList condition => .afterList (condition.mapWords Word.unmarked)
  | .connective => .connective
  | .afterConnective joint => .afterConnective joint

@[simp] theorem Word.is_token_unmarked (word : Word) : word.unmarked.isToken = word.isToken := rfl

theorem Word.glue_unmarked (value next : Word) :
    (value.glue next).unmarked = value.unmarked.glue next.unmarked := rfl

theorem Condition.add_value_unmarked (condition : Condition) (value : Word) :
    (condition.addValue value).mapWords Word.unmarked =
      (condition.mapWords Word.unmarked).addValue value.unmarked := by
  rw [addValue, addValue, mapWords, mapWords, List.map_append, List.map_singleton]

namespace Draft

def unmarked (draft : Draft) : Draft :=
  ⟨draft.outer.map Level.unmarked, draft.level.unmarked, draft.phase.unmarked⟩

variable {Result : Type} (unmark : Result → Result) (draft : Draft)

theorem recover_unmarked (unfinished : Option Tree) :
    draft.unmarked.recover (unfinished.map Tree.unmarked) =
      (draft.recover unfinished).map Tree.unmarked := by
  -- Each level around takes what the levels inside it leave, so this is shown for any such tree.
  have levels : ∀ (outer : List Level) (inner : Option Tree),
      (outer.map Level.unmarked).foldl (fun inner level => level.recover inner)
          (inner.map Tree.unmarked) =
        (outer.foldl (fun inner level => level.recover inner) inner).map Tree.unmarked := by
    intro outer
    induction outer with
    | nil => exact fun _ => rfl
    | cons level outer induction =>
        intro inner
        rw [List.map_cons, List.foldl_cons, List.foldl_cons, level.recover_unmarked, induction]
  rw [recover, recover, ← levels, ← Level.recover_unmarked]
  rfl

theorem fail_unmarked (cause : SyntaxError.Cause) (unfinished : Option Tree) :
    draft.unmarked.fail cause.unmarked (unfinished.map Tree.unmarked) =
      unmarkedOutcome unmark (draft.fail cause unfinished) := by
  rw [fail, fail, recover_unmarked]
  rfl

theorem fail_in_unmarked (cause : SyntaxError.Cause) (condition : Condition) :
    draft.unmarked.failIn cause.unmarked (condition.mapWords Word.unmarked) =
      unmarkedOutcome unmark (draft.failIn cause condition) :=
  draft.fail_unmarked unmark cause (some (.condition condition))

theorem push_unmarked (operand : Tree) :
    (draft.push operand).unmarked = draft.unmarked.push operand.unmarked := by
  rw [push, push, unmarked, Level.push_unmarked]
  rfl

variable (word : Word)

theorem read_operand_unmarked :
    draft.unmarked.readOperand word.unmarked =
      unmarkedOutcome unmarked (draft.readOperand word) := by
  have deep : draft.unmarked.outer.length = draft.outer.length := List.length_map Level.unmarked
  have alone : draft.unmarked.outer.isEmpty = draft.outer.isEmpty := List.isEmpty_map
  have bare : draft.unmarked.level.operands.isEmpty = draft.level.operands.isEmpty :=
    List.isEmpty_map
  rw [readOperand, readOperand, Word.is_token_unmarked, deep, alone, bare]
  split
  · split
    · exact draft.fail_unmarked unmarked .bracketsTooDeep none
    · rfl
  · split
    · split
      · exact draft.fail_unmarked unmarked .emptyBrackets none
      · exact draft.fail_unmarked unmarked .unexpectedClose none
    · rfl

theorem read_comparator_unmarked (field : Word) :
    draft.unmarked.readComparator field.unmarked word.unmarked =
      unmarkedOutcome unmarked (draft.readComparator field word) := by
  rw [readComparator, readComparator, Word.is_token_unmarked]
  split
  · exact draft.fail_in_unmarked unmarked (.bracketAsComparator word.text) ⟨field, none, []⟩
  · rfl

theorem read_value_unmarked (condition : Condition) (depth : Nat) :
    draft.unmarked.readValue (condition.mapWords Word.unmarked) depth word.unmarked =
      unmarkedOutcome unmarked (draft.readValue condition depth word) := by
  unfold readValue
  rw [Word.is_token_unmarked]
  split
  · rfl
  · split
    · match depth with
      | 0 => exact draft.fail_in_unmarked unmarked (.unexpectedCloseAfter condition) condition
      | 1 => rfl
      | depth + 2 => rfl
    · split <;> rfl

theorem read_continuation_unmarked (field : Word) (comparator : Text) (quoted : Bool) :
    draft.unmarked.readContinuation field.unmarked comparator quoted word.unmarked =
      unmarkedOutcome unmarked (draft.readContinuation field comparator quoted word) := by
  have same : Comparator.extend comparator word.unmarked = Comparator.extend comparator word := rfl
  rw [readContinuation, readContinuation, same]
  split
  · rfl
  · exact draft.read_value_unmarked word ⟨field, some comparator, []⟩ 0

theorem read_connective_unmarked :
    draft.unmarked.readConnective word.unmarked =
      unmarkedOutcome unmarked (draft.readConnective word) := by
  rw [readConnective, readConnective, Word.is_token_unmarked]
  split
  · obtain ⟨outer, level, phase⟩ := draft
    cases outer with
    | nil => exact fail_unmarked unmarked ⟨[], level, phase⟩ .unexpectedClose none
    | cons parent outer =>
        simp only [unmarked, List.map_cons, Level.assemble_unmarked]
        cases level.assemble with
        | ok tree =>
            exact congrArg Except.ok (push_unmarked ⟨outer, parent, .operand⟩ tree).symm
        | error error =>
            exact fail_unmarked unmarked ⟨outer, parent, .operand⟩ error.cause error.understood
  · split
    · rfl
    · split
      · rfl
      · exact draft.fail_unmarked unmarked (.notAConnective word.text) none

theorem read_completion_unmarked (condition : Condition) :
    (draft.unmarked.push (.condition (condition.mapWords Word.unmarked))).readConnective
        word.unmarked =
      unmarkedOutcome unmarked ((draft.push (.condition condition)).readConnective word) := by
  rw [← read_connective_unmarked, push_unmarked]
  rfl

theorem read_after_value_unmarked (condition : Condition) (value : Word) (depth : Nat) :
    draft.unmarked.readAfterValue (condition.mapWords Word.unmarked) value.unmarked depth
        word.unmarked =
      unmarkedOutcome unmarked (draft.readAfterValue condition value depth word) := by
  rw [readAfterValue, readAfterValue, Word.is_token_unmarked, ← Condition.add_value_unmarked]
  split
  · rfl
  · cases depth with
    | zero =>
        simp only
        split
        · rfl
        · exact draft.read_completion_unmarked word (condition.addValue value)
    | succ depth => exact draft.read_value_unmarked word (condition.addValue value) (depth + 1)

theorem read_call_unmarked (condition : Condition) (value : Word) (opened depth : Nat) :
    draft.unmarked.readCall (condition.mapWords Word.unmarked) value.unmarked opened depth
        word.unmarked =
      unmarkedOutcome unmarked (draft.readCall condition value opened depth word) := by
  unfold readCall
  rw [Word.is_token_unmarked, ← Word.glue_unmarked]
  dsimp only
  rw [← Condition.add_value_unmarked]
  split
  · rfl
  · split
    · split
      · cases depth <;> rfl
      · rfl
    · rfl

theorem read_after_list_unmarked (condition : Condition) :
    draft.unmarked.readAfterList (condition.mapWords Word.unmarked) word.unmarked =
      unmarkedOutcome unmarked (draft.readAfterList condition word) := by
  have bare : (condition.mapWords Word.unmarked).values.isEmpty = condition.values.isEmpty :=
    List.isEmpty_map
  rw [readAfterList, readAfterList, Word.is_token_unmarked, bare]
  split
  · rfl
  · split
    · exact draft.fail_in_unmarked unmarked (.valueExpected condition) condition
    · exact draft.read_completion_unmarked word condition

theorem read_after_connective_unmarked (connective : Connective) :
    draft.unmarked.readAfterConnective connective word.unmarked =
      unmarkedOutcome unmarked (draft.readAfterConnective connective word) := by
  rw [readAfterConnective, readAfterConnective, Word.is_token_unmarked]
  split
  · rfl
  · rw [← read_operand_unmarked]
    rfl

/-- Reading a word does not look at cursors. -/
theorem read_unmarked :
    draft.unmarked.read word.unmarked = unmarkedOutcome unmarked (draft.read word) := by
  obtain ⟨outer, level, phase⟩ := draft
  cases phase with
  | operand =>
      have bare : level.unmarked.operands.isEmpty = level.operands.isEmpty := List.isEmpty_map
      simp only [read, unmarked, Phase.unmarked, Word.is_token_unmarked, bare]
      split
      · rfl
      · exact read_operand_unmarked ⟨outer, level, .operand⟩ word
  | leadingNot leading =>
      exact read_operand_unmarked ⟨outer, { level with negated := true }, .leadingNot leading⟩ word
  | comparator field => exact read_comparator_unmarked _ word field
  | continuation field comparator quoted =>
      exact read_continuation_unmarked _ word field comparator quoted
  | extended field comparator => exact read_continuation_unmarked _ word field comparator false
  | value condition depth => exact read_value_unmarked _ word condition depth
  | afterValue condition value depth =>
      exact read_after_value_unmarked _ word condition value depth
  | call condition value opened depth =>
      exact read_call_unmarked _ word condition value opened depth
  | afterList condition => exact read_after_list_unmarked _ word condition
  | connective => exact read_connective_unmarked _ word
  | afterConnective connective => exact read_after_connective_unmarked _ word connective

theorem finish_level_unmarked :
    draft.unmarked.finishLevel = unmarkedOutcome Tree.unmarked draft.finishLevel := by
  obtain ⟨outer, level, phase⟩ := draft
  cases outer with
  | nil => exact level.assemble_unmarked
  | cons parent outer =>
      exact fail_unmarked Tree.unmarked ⟨parent :: outer, level, phase⟩ .unclosedBracket none

theorem finish_completion_unmarked (condition : Condition) :
    (draft.unmarked.push (.condition (condition.mapWords Word.unmarked))).finishLevel =
      unmarkedOutcome Tree.unmarked (draft.push (.condition condition)).finishLevel := by
  rw [← finish_level_unmarked, push_unmarked]
  rfl

theorem finish_unmarked :
    draft.unmarked.finish = unmarkedOutcome Tree.unmarked draft.finish := by
  have fails := fun cause condition => draft.fail_in_unmarked Tree.unmarked cause condition
  have completes := fun condition => draft.finish_completion_unmarked condition
  have ends := draft.finish_level_unmarked
  have stops := fun cause => draft.fail_unmarked Tree.unmarked cause none
  obtain ⟨outer, level, phase⟩ := draft
  cases phase with
  | operand =>
      cases outer with
      | nil => exact stops .emptyQuery
      | cons parent outer => exact stops .unclosedBracket
  | leadingNot word => exact fails (.comparatorExpected word.text) ⟨word, none, []⟩
  | comparator field => exact fails (.comparatorExpected field.text) ⟨field, none, []⟩
  | continuation field comparator quoted =>
      exact fails (.continuationExpected field.text comparator) ⟨field, some comparator, []⟩
  | extended field comparator =>
      exact fails (.valueExpected ⟨field, some comparator, []⟩) ⟨field, some comparator, []⟩
  | value condition depth =>
      cases depth with
      | zero => exact fails (.valueExpected condition) condition
      | succ depth => exact fails (.unclosedList condition) condition
  | afterValue condition value depth =>
      simp only [finish, unmarked, Phase.unmarked, ← Condition.add_value_unmarked]
      cases depth with
      | zero => exact completes (condition.addValue value)
      | succ depth => exact fails (.unclosedList _) (condition.addValue value)
  | call condition value opened depth =>
      simp only [finish, unmarked, Phase.unmarked, ← Condition.add_value_unmarked]
      exact fails (.unclosedCall value.text) (condition.addValue value)
  | afterList condition =>
      have bare : (condition.mapWords Word.unmarked).values.isEmpty = condition.values.isEmpty :=
        List.isEmpty_map
      simp only [finish, unmarked, Phase.unmarked, bare]
      split
      · exact fails (.valueExpected condition) condition
      · exact completes condition
  | connective => exact ends
  | afterConnective connective => exact stops (.operandExpected connective)

theorem run_unmarked (words : List Word) :
    draft.unmarked.run (words.map Word.unmarked) =
      unmarkedOutcome Tree.unmarked (draft.run words) := by
  induction words generalizing draft with
  | nil => exact draft.finish_unmarked
  | cons word rest induction =>
      rw [List.map_cons, run_cons, run_cons, read_unmarked]
      cases draft.read word with
      | error error => rfl
      | ok next => exact induction next

end Draft

/-- The cursor changes nothing but cursors in what a text is read as. -/
theorem Tree.of_text_without_cursor (input : Text) (cursor : Option Nat) :
    ofText input none = unmarkedOutcome unmarked (ofText input cursor) := by
  rw [ofText, ← Word.scan_unmarked input cursor]
  exact Draft.start.run_unmarked (Word.scan input cursor)

end FilterQuery
