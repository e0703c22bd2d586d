import FilterQuery.Proofs.Draft.Context
import FilterQuery.Proofs.Draft.Outcome
import FilterQuery.Proofs.Draft.Reading
import FilterQuery.Proofs.Message

/-!
What was typed survives what is typed behind it. Where words may end, or only lack closing brackets,
all their conditions are complete, and no word behind them changes a complete condition or loses it,
however the reading ends.
-/

set_option autoImplicit false

namespace FilterQuery

namespace Progress

theorem finished_prefix_of_step (progress next : Progress) (word : Word)
    (step : progress.Step word next) : progress.finished <+: next.finished := by
  induction step with
  | structural | field | condition => exact List.prefix_rfl
  | negation _ _ _ _ _ _ induction => exact induction
  | completion finished condition _ _ _ _ induction =>
      exact (List.prefix_append finished [condition]).trans induction

theorem finished_prefix_of_steps (progress last : Progress) (words : List Word)
    (steps : progress.Steps words last) : progress.finished <+: last.finished := by
  induction steps with
  | nil => exact List.prefix_rfl
  | cons progress next last word _ step _ induction =>
      exact (finished_prefix_of_step progress next word step).trans induction

end Progress

theorem tree_of_keeps (understood : Option Tree) (first conditions : List Condition)
    (nonempty : first ≠ []) (within : first <+: conditions) (keeps : Keeps understood conditions) :
    ∃ tree, understood = some tree ∧ first <+: tree.conditions := by
  cases keeps with
  | none => exact absurd (List.prefix_nil.mp within) nonempty
  | some tree _ => exact ⟨tree, rfl, within⟩

theorem Progress.tree_of_leaves (progress : Progress) (understood : Option Tree)
    (first : List Condition) (nonempty : first ≠ []) (within : first <+: progress.finished)
    (leaves : progress.Leaves understood) :
    ∃ tree, understood = some tree ∧ first <+: tree.conditions := by
  cases leaves with
  | all _ _ keeps =>
      exact tree_of_keeps _ _ _ nonempty (within.trans (List.prefix_append _ _)) keeps
  | negation finished _ _ _ keeps => exact tree_of_keeps _ _ _ nonempty within keeps

namespace Draft

/-- Whatever words follow, the finished conditions of a draft are the first ones of what is
understood in the end. -/
theorem finished_survive (draft : Draft) (regular : draft.Regular) (nonempty : draft.finished ≠ [])
    (words : List Word) :
    ∃ tree, Tree.understood (draft.run words) = some tree ∧
      draft.finished <+: tree.conditions := by
  have runs := draft.run_runs regular words
  rw [run]
  cases reads : words.foldlM read draft with
  | error error =>
      rw [reads] at runs
      obtain ⟨before, _, last, _, steps, leaves⟩ := runs
      exact last.tree_of_leaves _ _ nonempty
        (Progress.finished_prefix_of_steps _ last before steps) leaves
  | ok last =>
      rw [reads] at runs
      have within : draft.finished <+: last.progress.conditions :=
        (Progress.finished_prefix_of_steps _ _ words runs.2).trans (List.prefix_append _ _)
      have finishes := last.finish_finishes runs.1
      change ∃ tree, Tree.understood last.finish = some tree ∧ _
      revert finishes
      generalize last.finish = result
      cases result with
      | ok tree => exact fun finishes => tree_of_keeps _ _ _ nonempty within finishes.1
      | error error => exact fun finishes => tree_of_keeps _ _ _ nonempty within finishes

theorem regular_of_completed (draft : Draft) (level : Level) (regular : draft.Regular)
    (completes : draft.Completes level) : Regular ⟨draft.outer, level, .connective⟩ :=
  ⟨⟨regular.balanced.outer, regular_of_completes draft level regular completes⟩, trivial⟩

/-- Reading on behind a draft, at whose end the tree is understood, is reading on behind one that
has all conditions of the tree finished. -/
structure Settles (draft settled : Draft) (tree : Tree) : Prop where
  regular : settled.Regular
  keeps : Keeps (some tree) settled.finished
  runs : ∀ rest, EndsOperand rest → draft.run rest = settled.run rest

theorem settles_of_query (draft : Draft) (regular : draft.Regular) (tree : Tree)
    (finishes : draft.finish = .ok tree) : ∃ settled, draft.Settles settled tree := by
  obtain ⟨alone, level, completes, assembled⟩ := completes_of_finish draft tree finishes
  have kept := regular_of_completed draft level regular completes
  obtain ⟨query, same, normal, conditions⟩ := level.assemble_regular kept.balanced.level
  obtain rfl : query = tree := Except.ok.inj (same.symm.trans assembled)
  refine ⟨_, kept, ?_, run_completed draft level completes⟩
  rw [finished, alone, List.reverse_nil, List.flatMap_nil, List.nil_append, ← conditions]
  exact Keeps.some query normal

theorem unclosed_of_finish_level (draft : Draft) (error : SyntaxError)
    (finishes : draft.finishLevel = .error error) (unclosed : error.cause = .unclosedBracket) :
    error.understood = draft.recover none := by
  rw [finishLevel] at finishes
  split at finishes
  · rw [Level.assemble, Tree.assemble.eq_def] at finishes
    split at finishes
    · cases finishes
      cases unclosed
    · split at finishes
      · cases finishes
      · cases finishes
        cases unclosed
  · cases finishes
    rfl

theorem unclosed_of_finish (draft : Draft) (error : SyntaxError)
    (finishes : draft.finish = .error error) (unclosed : error.cause = .unclosedBracket) :
    (draft.phase = .operand ∧ error.understood = draft.recover none) ∨
      ∃ level, draft.Completes level ∧
        error.understood = recover ⟨draft.outer, level, .connective⟩ none := by
  obtain ⟨outer, level, phase⟩ := draft
  cases phase with
  | operand =>
      left
      cases outer with
      | nil =>
          cases finishes
          cases unclosed
      | cons parent outer =>
          cases finishes
          exact ⟨rfl, rfl⟩
  | leadingNot | comparator | continuation | extended | call | afterConnective =>
      cases finishes
      cases unclosed
  | value condition depth =>
      cases depth <;>
      · cases finishes
        cases unclosed
  | afterValue condition value depth =>
      cases depth with
      | zero =>
          right
          exact ⟨_, .condition _ (condition.addValue value)
            (.inl ⟨value, condition.values, rfl, rfl⟩),
            unclosed_of_finish_level _ error finishes unclosed⟩
      | succ depth =>
          cases finishes
          cases unclosed
  | afterList condition =>
      change (if condition.values.isEmpty then _ else _) = _ at finishes
      split at finishes
      · cases finishes
        cases unclosed
      · next some =>
          have written : condition.values ≠ [] := fun empty => some (List.isEmpty_iff.mpr empty)
          right
          exact ⟨_, .condition _ condition (.inr ⟨rfl, written⟩),
            unclosed_of_finish_level _ error finishes unclosed⟩
  | connective =>
      right
      exact ⟨level, .operand outer level, unclosed_of_finish_level _ error finishes unclosed⟩

theorem settles_of_unclosed (draft : Draft) (regular : draft.Regular) (error : SyntaxError)
    (finishes : draft.finish = .error error) (unclosed : error.cause = .unclosedBracket)
    (tree : Tree) (partly : error.understood = some tree) :
    ∃ settled, draft.Settles settled tree := by
  have keeps : ∀ settled : Draft, settled.Regular → settled.phase.ahead ≤ 1 →
      error.understood = settled.recover none → Keeps (some tree) settled.finished := by
    intro settled kept single recovered
    rw [← partly, recovered]
    exact settled.keeps_recover_none _ kept.balanced single
  rcases unclosed_of_finish draft error finishes unclosed with
    ⟨waits, recovered⟩ | ⟨level, completes, recovered⟩
  · refine ⟨draft, regular, keeps draft regular ?_ recovered, fun _ _ => rfl⟩
    rw [waits]
    exact Nat.zero_le 1
  · have kept := regular_of_completed draft level regular completes
    exact ⟨_, kept, keeps _ kept (Nat.le_refl 1) recovered, run_completed draft level completes⟩

end Draft

namespace Tree

/-- Behind a query, or behind words that only lack closing brackets, any words may follow that do
not continue the last value: a tree is understood in the end, and it begins with the same
conditions. -/
theorem typed_conditions_survive (words later : List Word) (tree : Tree)
    (typed : ofWords words = .ok tree ∨ ∃ error, ofWords words = .error error ∧
      error.message = SyntaxError.Cause.unclosedBracket.message ∧ error.understood = some tree)
    (ends : Draft.EndsOperand later) :
    ∃ whole, understood (ofWords (words ++ later)) = some whole ∧
      tree.conditions <+: whole.conditions := by
  have runs := Draft.start.run_runs Draft.start_regular words
  change ∃ whole, understood (Draft.start.run (words ++ later)) = some whole ∧ _
  rw [Draft.run_append]
  rw [ofWords] at typed
  cases reads : words.foldlM Draft.read Draft.start with
  | error error =>
      -- An error among the words ends the reading before the later words.
      rw [reads] at typed
      rcases typed with accepted | ⟨cause, refused, _, partly⟩
      · cases accepted
      · obtain rfl : error = cause := Except.error.inj refused
        exact ⟨tree, partly, List.prefix_rfl⟩
  | ok last =>
      rw [reads] at typed runs
      obtain ⟨settled, settles⟩ : ∃ settled, last.Settles settled tree := by
        rcases typed with accepted | ⟨error, refused, message, partly⟩
        · exact last.settles_of_query runs.1 tree accepted
        · exact last.settles_of_unclosed runs.1 error refused
            (SyntaxError.Cause.unclosed_of_message error.cause message) tree partly
      obtain ⟨normal, conditions⟩ := parts_of_keeps tree _ settles.keeps
      have survive := settled.finished_survive settles.regular (by
        rw [← conditions]
        exact tree.conditions_nonempty normal) later
      rw [← settles.runs later ends, ← conditions] at survive
      exact survive

def openWords : List Word :=
  ["(", "a", "=", "b", "or", "not", "(", "c", "in", "(", "d", ",", "now", "(", "1", ")", ")"].map
    (fun text => .plain text.toList) ++ [.plain "and".toList, Word.quote "not".toList,
      .plain ">".toList, (Word.plain "x".toList).withCursor 1]

def openTree : Tree :=
  .group .or [.condition ⟨.plain "a".toList, some "=".toList, [.plain "b".toList]⟩,
    .negate (.group .and [
      .condition ⟨.plain "c".toList, some "in".toList,
        [.plain "d".toList, .plain "now(1)".toList]⟩,
      .condition ⟨.quote "not".toList, some ">".toList,
        [(Word.plain "x".toList).withCursor 1]⟩])]

def brokenWords : List Word :=
  [")", ")", "or", "e", "=", "f", ")", "xor", "("].map fun text => .plain text.toList

theorem typed_conditions_survive_broken :
    ofWords openWords = .error ⟨.unclosedBracket, some openTree⟩ ∧
      ofWords (openWords ++ brokenWords) = .error ⟨.unexpectedClose,
        some (.group .or (openTree.disjuncts ++ [.condition ⟨.plain "e".toList, some "=".toList,
          [.plain "f".toList]⟩]))⟩ ∧
      ∃ whole, understood (ofWords (openWords ++ brokenWords)) = some whole ∧
        openTree.conditions <+: whole.conditions := by
  have typed : ofWords openWords = .error ⟨.unclosedBracket, some openTree⟩ := rfl
  refine ⟨typed, ?_, typed_conditions_survive openWords brokenWords openTree
    (.inr ⟨_, typed, rfl, rfl⟩) ?_⟩
  · rfl
  · intro next first
    obtain rfl := Option.some.inj first
    exact ⟨rfl, rfl⟩

end Tree

end FilterQuery
