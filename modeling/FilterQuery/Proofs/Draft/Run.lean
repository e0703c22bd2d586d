import FilterQuery.Draft
import FilterQuery.Proofs.Tree.Scan

/-!
Reading the tokens of a condition. A complete condition is pushed as an operand when the word
behind it is read; one that is still being written ends the reading, and what is understood then
holds everything the condition has.
-/

set_option autoImplicit false

namespace FilterQuery

namespace Word

/-- The word as it is read back where a field is written. -/
def asField (word : Word) : Word := { word with quoted := word.text.needsQuotes }

def asValue (word : Word) : Word := { word with quoted := true }

@[simp] theorem words_field_piece (field : Word) : field.fieldPiece.words = [field.asField] := by
  rw [fieldPiece, asField]
  cases field.text.needsQuotes <;> rfl

theorem as_field_is_no_token (field : Word) (token : Text) (special : token.needsQuotes = true) :
    field.asField.isToken token = false := by
  rw [Bool.eq_false_iff, ne_eq, is_token_iff]
  rintro ⟨plain, same⟩
  have different : field.text.needsQuotes = false := plain
  rw [show field.text = token from same, special] at different
  cases different

end Word

def Condition.written (condition : Condition) : Condition :=
  ⟨condition.field.asField, condition.comparator, condition.values.map Word.asValue⟩

def TooDeep {Result : Type} (result : Except SyntaxError Result) : Prop :=
  ∃ understood, result = .error ⟨.bracketsTooDeep, understood⟩

namespace Draft

/-- What a draft becomes when further words and then the end are read. -/
def run (draft : Draft) (words : List Word) : Except SyntaxError Tree :=
  words.foldlM read draft >>= finish

/-- The same where an operand begins, so that a leading `not` is a field. -/
def runOperand (draft : Draft) : List Word → Except SyntaxError Tree
  | [] => draft.finish
  | word :: rest => draft.readOperand word >>= fun next => next.run rest

theorem run_cons (draft : Draft) (word : Word) (rest : List Word) :
    draft.run (word :: rest) = draft.read word >>= fun next => next.run rest := by
  rw [run, List.foldlM_cons]
  cases draft.read word <;> rfl

theorem run_of_read (draft next : Draft) (word : Word) (rest : List Word)
    (reads : draft.read word = .ok next) : draft.run (word :: rest) = next.run rest := by
  rw [run_cons, reads]
  rfl

theorem run_of_error (draft : Draft) (error : SyntaxError) (word : Word) (rest : List Word)
    (fails : draft.read word = .error error) : draft.run (word :: rest) = .error error := by
  rw [run_cons, fails]
  rfl

theorem run_append (draft : Draft) (words later : List Word) :
    draft.run (words ++ later) = words.foldlM read draft >>= fun next => next.run later := by
  rw [run, List.foldlM_append, bind_assoc]
  rfl

/-- Behind an operand neither a bracket nor a comma may stand, which would continue it. -/
def EndsOperand (rest : List Word) : Prop :=
  ∀ next ∈ rest.head?, next.isToken "(".toList = false ∧ next.isToken ",".toList = false

theorem ends_nil : EndsOperand [] := by
  intro next absent
  cases absent

theorem read_closing (parent level : Level) (outer : List Level) (tree : Tree)
    (assembled : level.assemble = .ok tree) :
    read ⟨parent :: outer, level, .connective⟩ (.plain [')']) =
      .ok (push ⟨outer, parent, .operand⟩ tree) := by
  have closing : (Word.plain [')']).isToken ")".toList = true := rfl
  rw [read, readConnective, if_pos closing]
  dsimp only
  rw [assembled]

def Closes (rest : List Word) : Prop := rest = [] ∨ ∃ later, rest = .plain [')'] :: later

def Behind (field : Word) (comparator : Text) (phase : Phase) : Prop :=
  (∃ quoted, phase = .continuation field comparator quoted) ∨ phase = .extended field comparator

/-- A word that extends no comparator is read where a value may stand. -/
theorem read_behind (draft : Draft) (field : Word) (comparator : Text) (phase : Phase)
    (behind : Behind field comparator phase) (word : Word)
    (value : word.isToken "not".toList = false ∧ word.isToken "in".toList = false ∧
      word.isToken "like".toList = false) :
    (draft.toPhase phase).read word =
      draft.readValue ⟨field, some comparator, []⟩ 0 word := by
  have alone : Comparator.extend comparator word = none := by
    rw [Comparator.extend, value.1, value.2.1, value.2.2, if_neg, if_neg]
    · rintro ⟨_, continued | continued⟩ <;> cases continued
    · rintro ⟨_, continued⟩
      cases continued
  rcases behind with ⟨quoted, rfl⟩ | rfl
  · change (draft.toPhase _).readContinuation field comparator quoted word = _
    rw [readContinuation, alone, ite_self]
    rfl
  · change (draft.toPhase _).readContinuation field comparator false word = _
    rw [readContinuation, alone, ite_self]
    rfl

theorem finish_behind (draft : Draft) (field : Word) (comparator : Text) (phase : Phase)
    (behind : Behind field comparator phase) :
    ∃ cause, (draft.toPhase phase).finish = .error
      ⟨cause, draft.recover (some (.condition ⟨field, some comparator, []⟩))⟩ := by
  rcases behind with ⟨quoted, rfl⟩ | rfl
  · exact ⟨_, rfl⟩
  · exact ⟨_, rfl⟩

theorem run_comparator (draft : Draft) (field : Word) (comparator : Text) :
    ∃ phase, Behind field comparator phase ∧ ∀ rest,
      (draft.toPhase (.comparator field)).run
        ((Comparator.pieces comparator).flatMap Piece.words ++ rest) =
          (draft.toPhase phase).run rest := by
  by_cases phrase : Comparator.phrases.contains comparator = true
  · refine ⟨.extended field comparator, Or.inr rfl, ?_⟩
    intro rest
    have known := List.contains_iff_mem.mp phrase
    simp only [Comparator.phrases, List.mem_cons, List.not_mem_nil, or_false] at known
    rcases known with rfl | rfl | rfl | rfl | rfl | rfl | rfl <;> rfl
  · rw [Comparator.pieces, if_neg phrase]
    split
    · next raw =>
        refine ⟨.continuation field comparator false, Or.inl ⟨false, rfl⟩, ?_⟩
        intro rest
        have different : ∀ bracket ∈ ["(".toList, ")".toList],
            (Word.plain comparator).isToken bracket = false := by
          intro bracket member
          rw [Bool.eq_false_iff, ne_eq, Word.is_token_iff]
          rintro ⟨_, same⟩
          rw [show comparator = bracket from same] at raw
          simp only [List.mem_cons, List.not_mem_nil, or_false] at member
          rcases member with rfl | rfl <;> exact absurd raw (by decide)
        apply run_of_read
        change (draft.toPhase _).readComparator field (.plain comparator) = _
        rw [readComparator, different _ (by simp), different _ (by simp)]
        rfl
    · exact ⟨.continuation field comparator true, Or.inl ⟨true, rfl⟩, fun rest => rfl⟩

theorem run_values_behind_first (draft : Draft) (condition : Condition) (values : List Word)
    (rest : List Word) (last : Word) :
    (draft.toPhase (.afterValue condition last 1)).run
        (values.flatMap (fun value => [.plain [','], value.asValue]) ++ .plain [')'] :: rest) =
      (draft.toPhase (.afterList
        ⟨condition.field, condition.comparator,
          condition.values ++ last :: values.map Word.asValue⟩)).run rest := by
  induction values generalizing condition last with
  | nil => rfl
  | cons value values induction =>
      have step : (draft.toPhase (.afterValue condition last 1)).run
          ((value :: values).flatMap (fun value => [.plain [','], value.asValue]) ++
            .plain [')'] :: rest) =
          (draft.toPhase (.afterValue (condition.addValue last) value.asValue 1)).run
            (values.flatMap (fun value => [.plain [','], value.asValue]) ++
              .plain [')'] :: rest) := rfl
      rw [step, induction]
      simp only [Condition.addValue, List.append_assoc, List.singleton_append, List.map_cons]

/-- Behind the last word of a condition. -/
def Ends (condition : Condition) (phase : Phase) : Prop :=
  (∃ value values, phase = .afterValue ⟨condition.field, condition.comparator, values⟩ value 0 ∧
    condition.values = values ++ [value]) ∨
  phase = .afterList condition ∧ condition.values ≠ []

theorem run_values (draft : Draft) (field : Word) (comparator : Text) (phase : Phase)
    (behind : Behind field comparator phase) (values : List Word) (written : values ≠ []) :
    ∃ next, Ends ⟨field, some comparator, values.map Word.asValue⟩ next ∧ ∀ rest,
      (draft.toPhase phase).run ((Word.valuePieces values).flatMap Piece.words ++ rest) =
        (draft.toPhase next).run rest := by
  match values with
  | [] => contradiction
  | [value] =>
      refine ⟨.afterValue ⟨field, some comparator, []⟩ value.asValue 0,
        Or.inl ⟨value.asValue, [], rfl, rfl⟩, ?_⟩
      intro rest
      have reads : (draft.toPhase phase).read value.asValue = .ok (draft.toPhase
          (.afterValue ⟨field, some comparator, []⟩ value.asValue 0)) := by
        rw [read_behind draft field comparator phase behind value.asValue ⟨rfl, rfl, rfl⟩]
        rfl
      exact run_of_read _ _ _ rest reads
  | first :: second :: others =>
      refine ⟨.afterList ⟨field, some comparator, (first :: second :: others).map Word.asValue⟩,
        Or.inr ⟨rfl, by simp⟩, ?_⟩
      intro rest
      have tokens : (Word.valuePieces (first :: second :: others)).flatMap Piece.words ++ rest =
          .plain ['('] :: first.asValue :: ((second :: others).flatMap
            (fun value => [.plain [','], value.asValue]) ++ .plain [')'] :: rest) := by
        rw [Word.valuePieces, Piece.bracketed, List.map_cons, Piece.join_cons]
        · simp only [List.flatMap_cons, List.flatMap_append, List.flatMap_nil, List.flatMap_map,
            List.flatMap_assoc, Piece.words, List.nil_append, List.cons_append,
            List.append_assoc, List.append_nil]
          rfl
        all_goals simp
      have opens : (draft.toPhase phase).read (.plain ['(']) =
          .ok (draft.toPhase (.value ⟨field, some comparator, []⟩ 1)) := by
        rw [read_behind draft field comparator phase behind (.plain ['(']) ⟨rfl, rfl, rfl⟩]
        rfl
      rw [tokens, run_of_read _ _ _ _ opens]
      exact run_values_behind_first draft ⟨field, some comparator, []⟩ (second :: others) rest
        first.asValue

theorem read_behind_operand (draft : Draft) (condition : Condition) (phase : Phase)
    (behind : Ends condition phase) (next : Word) (bracket : next.isToken "(".toList = false)
    (comma : next.isToken ",".toList = false) :
    (draft.toPhase phase).read next = (draft.push (.condition condition)).read next := by
  rcases behind with ⟨value, values, rfl, all⟩ | ⟨rfl, written⟩
  · have whole : Condition.addValue ⟨condition.field, condition.comparator, values⟩ value =
        condition := by
      rw [Condition.addValue, ← all]
    change (draft.toPhase _).readAfterValue _ value 0 next = _
    rw [readAfterValue, bracket, if_neg Bool.false_ne_true]
    dsimp only
    rw [comma, if_neg Bool.false_ne_true, whole]
    rfl
  · have some : condition.values.isEmpty = false := List.isEmpty_eq_false_iff.mpr written
    change (draft.toPhase _).readAfterList condition next = _
    rw [readAfterList, comma, if_neg Bool.false_ne_true, some, if_neg Bool.false_ne_true]
    rfl

theorem finish_behind_operand (draft : Draft) (condition : Condition) (phase : Phase)
    (behind : Ends condition phase) :
    (draft.toPhase phase).finish = (draft.push (.condition condition)).finish := by
  rcases behind with ⟨value, values, rfl, all⟩ | ⟨rfl, written⟩
  · change ((draft.toPhase _).push (.condition (Condition.addValue _ value))).finishLevel = _
    rw [Condition.addValue, ← all]
    rfl
  · change (if condition.values.isEmpty then _ else _) = _
    rw [List.isEmpty_eq_false_iff.mpr written]
    rfl

theorem run_behind_operand (draft : Draft) (condition : Condition) (phase : Phase)
    (behind : Ends condition phase)
    (rest : List Word) (ends : EndsOperand rest) :
    (draft.toPhase phase).run rest = (draft.push (.condition condition)).run rest := by
  cases rest with
  | nil => exact finish_behind_operand draft condition phase behind
  | cons next later =>
      obtain ⟨bracket, comma⟩ := ends next rfl
      rw [run_cons, run_cons, read_behind_operand draft condition phase behind next bracket comma]

/-- What reading the words of an operand does, whatever stands behind them. -/
structure ReadsOperand (draft : Draft) (words : List Word) (operand : Tree) : Prop where
  complete : (∀ condition ∈ operand.conditions, condition.Complete) → ∀ rest, EndsOperand rest →
    draft.runOperand (words ++ rest) = (draft.push operand).run rest
  unfinished : (¬ ∀ condition ∈ operand.conditions, condition.Complete) → ∀ rest, Closes rest →
    ∃ cause, draft.runOperand (words ++ rest) =
      .error ⟨cause, draft.recover (some operand)⟩

theorem run_field (draft : Draft) (field : Word) (rest : List Word) :
    draft.runOperand (field.asField :: rest) =
      (draft.toPhase (.comparator field.asField)).run rest := by
  rw [runOperand, readOperand, field.as_field_is_no_token "(".toList (by decide),
    field.as_field_is_no_token ")".toList (by decide)]
  rfl

theorem reads_field_alone (draft : Draft) (field : Word) :
    draft.ReadsOperand [field.asField] (.condition ⟨field.asField, none, []⟩) := by
  constructor
  · intro complete
    exact absurd (complete _ (List.mem_singleton_self _)).1 Bool.false_ne_true
  · intro _ rest closes
    rw [List.singleton_append, run_field]
    rcases closes with rfl | ⟨later, rfl⟩
    · exact ⟨_, rfl⟩
    · exact ⟨_, run_of_error _ _ _ _ rfl⟩

/-- A condition without values is unfinished, and a bracket that closes behind it is an error. -/
theorem fails_without_values (draft : Draft) (field : Word) (comparator : Text) (phase : Phase)
    (behind : Behind field comparator phase) (rest : List Word) (closes : Closes rest) :
    ∃ cause, (draft.toPhase phase).run rest = .error
      ⟨cause, draft.recover (some (.condition ⟨field, some comparator, []⟩))⟩ := by
  rcases closes with rfl | ⟨later, rfl⟩
  · exact finish_behind draft field comparator phase behind
  · refine ⟨.unexpectedCloseAfter ⟨field, some comparator, []⟩, ?_⟩
    apply run_of_error
    rw [read_behind draft field comparator phase behind (.plain [')']) ⟨rfl, rfl, rfl⟩]
    rfl

theorem reads_condition (draft : Draft) (condition : Condition) (legible : condition.Legible) :
    draft.ReadsOperand (condition.pieces.flatMap Piece.words) (.condition condition.written) := by
  obtain ⟨field, comparator, values⟩ := condition
  cases comparator with
  | none =>
      obtain rfl : values = [] := legible.values rfl
      rw [Condition.pieces, List.flatMap_singleton, Word.words_field_piece]
      exact reads_field_alone draft field
  | some comparator =>
      have tokens : ∀ rest,
          (Condition.pieces ⟨field, some comparator, values⟩).flatMap Piece.words ++ rest =
            field.asField :: ((Comparator.pieces comparator).flatMap Piece.words ++
              ((Word.valuePieces values).flatMap Piece.words ++ rest)) := by
        intro rest
        simp only [Condition.pieces, List.flatMap_append, List.flatMap_cons, List.append_assoc,
          List.cons_append, Word.words_field_piece]
        rfl
      obtain ⟨phase, behind, compared⟩ := run_comparator draft field.asField comparator
      constructor
      · intro complete rest ends
        have written : values ≠ [] := by
          have all := (complete _ (List.mem_singleton_self _)).2
          rintro rfl
          exact all rfl
        obtain ⟨next, last, valued⟩ := run_values draft field.asField comparator phase behind
          values written
        rw [tokens, run_field, compared, valued]
        exact run_behind_operand draft _ next last rest ends
      · intro unfinished rest closes
        have absent : values = [] := by
          by_contra written
          apply unfinished
          intro condition member
          obtain rfl := List.mem_singleton.mp member
          exact ⟨rfl, by simpa [Condition.written] using written⟩
        subst absent
        rw [tokens, run_field, compared]
        exact fails_without_values draft field.asField comparator phase behind rest closes

end Draft

end FilterQuery
