import FilterQuery.Proofs.Draft.Bracket

/-!
Reading a condition at one stretch. The words behind a field are read by one call for each part of
the condition: its comparator, its list of values, and each call among the values. What this makes
of the words is what they make of a draft one after another.
-/

set_option autoImplicit false

namespace FilterQuery

def Word.nextIs (token : Text) (words : List Word) : Bool :=
  words.head?.any fun word => word.isToken token

namespace Descent

/-- A condition, or why there is none and how far it was read; and the words that are left. -/
abbrev Reading : Type := Except (SyntaxError.Cause × Condition) Condition × List Word

/-- Glues words to a value until none of the brackets of its call is open. The words may end before
that. -/
def call (value : Word) (opened : Nat) : List Word → Bool × Word × List Word
  | [] => (false, value, [])
  | word :: rest =>
      if word.openBehind opened = 0 then (true, value.glue word, rest)
      else call (value.glue word) (word.openBehind opened) rest

/-- A value, with its call if a bracket follows. -/
def value (word : Word) (rest : List Word) : Bool × Word × List Word :=
  if Word.nextIs "(".toList rest then call word 0 rest else (true, word, rest)

/-- Behind a value or a closing bracket. Inside brackets the list goes on, outside only behind a
comma. -/
def behindValue (values : Condition → Nat → List Word → Reading) (condition : Condition) :
    Nat → List Word → Reading
  | depth + 1, words => values condition (depth + 1) words
  | 0, words =>
      if Word.nextIs ",".toList words then values condition 0 words.tail
      else if condition.values.isEmpty then (.error (.valueExpected condition, condition), words)
      else (.ok condition, words)

def endOfValues (condition : Condition) : Nat → SyntaxError.Cause
  | 0 => .valueExpected condition
  | _ + 1 => .unclosedList condition

def closeValues (values : Condition → Nat → List Word → Reading) (condition : Condition) :
    Nat → List Word → Reading
  | 0, words => (.error (.unexpectedCloseAfter condition, condition), words)
  | depth + 1, words => behindValue values condition depth words

/-- Reads values inside `depth` brackets. There is at most one step for each word. -/
def values : Nat → Condition → Nat → List Word → Reading
  | 0, condition, depth, words => (.error (endOfValues condition depth, condition), words)
  | _ + 1, condition, depth, [] => (.error (endOfValues condition depth, condition), [])
  | fuel + 1, condition, depth, word :: rest =>
      if word.isToken "(".toList then values fuel condition (depth + 1) rest
      else if word.isToken ")".toList then closeValues (values fuel) condition depth rest
      else if word.isToken ",".toList then values fuel condition depth rest
      else
        match value word rest with
        | (true, value, later) => behindValue (values fuel) (condition.addValue value) depth later
        | (false, value, later) =>
            (.error (.unclosedCall value.text, condition.addValue value), later)

def comparator (text : Text) : List Word → Text × List Word
  | [] => (text, [])
  | word :: rest =>
      match Comparator.extend text word with
      | some longer => comparator longer rest
      | none => (text, word :: rest)

/-- Reads the condition of a field. A quoted comparator is not continued. -/
def condition (field : Word) : List Word → Reading
  | [] => (.error (.comparatorExpected field.text, ⟨field, none, []⟩), [])
  | word :: rest =>
      if word.isToken "(".toList || word.isToken ")".toList then
        (.error (.bracketAsComparator word.text, ⟨field, none, []⟩), word :: rest)
      else if rest.isEmpty then
        (.error (.continuationExpected field.text word.text, ⟨field, some word.text, []⟩), [])
      else
        let compared := if word.quoted then (word.text, rest) else comparator word.text rest
        values (compared.2.length + 1) ⟨field, some compared.1, []⟩ 0 compared.2

section Remainder

theorem call_suffix (value : Word) (opened : Nat) (words : List Word) :
    (call value opened words).2.2 <:+ words := by
  induction words generalizing value opened with
  | nil => exact List.suffix_rfl
  | cons word rest induction =>
      rw [call]
      split
      · exact List.suffix_cons word rest
      · exact (induction _ _).trans (List.suffix_cons word rest)

theorem value_suffix (word : Word) (rest : List Word) : (value word rest).2.2 <:+ rest := by
  rw [value]
  split
  · exact call_suffix word 0 rest
  · exact List.suffix_rfl

theorem comparator_suffix (text : Text) (words : List Word) :
    (comparator text words).2 <:+ words := by
  induction words generalizing text with
  | nil => exact List.suffix_rfl
  | cons word rest induction =>
      rw [comparator]
      split
      · exact (induction _).trans (List.suffix_cons word rest)
      · exact List.suffix_rfl

theorem behind_value_suffix (values : Condition → Nat → List Word → Reading)
    (suffix : ∀ condition depth words, (values condition depth words).2 <:+ words)
    (condition : Condition) (depth : Nat) (words : List Word) :
    (behindValue values condition depth words).2 <:+ words := by
  cases depth with
  | succ depth => exact suffix condition (depth + 1) words
  | zero =>
      rw [behindValue]
      split
      · exact (suffix _ _ _).trans (List.tail_suffix words)
      · split <;> exact List.suffix_rfl

theorem values_suffix (fuel : Nat) (condition : Condition) (depth : Nat) (words : List Word) :
    (values fuel condition depth words).2 <:+ words := by
  induction fuel generalizing condition depth words with
  | zero => exact List.suffix_rfl
  | succ fuel induction =>
      have behind := behind_value_suffix (values fuel) induction
      cases words with
      | nil => exact List.suffix_rfl
      | cons word rest =>
          refine List.IsSuffix.trans ?_ (List.suffix_cons word rest)
          rw [values]
          split
          · exact induction _ _ _
          · split
            · cases depth with
              | zero => exact List.suffix_rfl
              | succ depth => exact behind _ _ _
            · split
              · exact induction _ _ _
              · have glued := value_suffix word rest
                split
                · next value later same =>
                    rw [same] at glued
                    exact (behind _ _ _).trans glued
                · next value later same =>
                    rw [same] at glued
                    exact glued

theorem condition_suffix (field : Word) (words : List Word) :
    (condition field words).2 <:+ words := by
  cases words with
  | nil => exact List.suffix_rfl
  | cons word rest =>
      rw [condition]
      split
      · exact List.suffix_rfl
      · split
        · exact List.nil_suffix
        · refine ((values_suffix _ _ _ _).trans ?_).trans (List.suffix_cons word rest)
          split
          · exact List.suffix_rfl
          · exact comparator_suffix _ _

end Remainder

end Descent

def Phase.behindValue (condition : Condition) : Nat → Phase
  | 0 => .afterList condition
  | depth + 1 => .value condition (depth + 1)

namespace Draft

def settle (draft : Draft) : Descent.Reading → Except SyntaxError Tree
  | (.ok condition, rest) => (draft.push (.condition condition)).run rest
  | (.error (cause, condition), _) => draft.failIn cause condition

theorem run_step (draft : Draft) (phase next : Phase) (word : Word) (rest : List Word)
    (step : phase.Step word next) :
    (draft.toPhase phase).run (word :: rest) = (draft.toPhase next).run rest :=
  run_of_read _ _ word rest (read_step (draft.toPhase phase) word next step)

theorem read_call (draft : Draft) (condition : Condition) (value : Word) (opened depth : Nat)
    (inside : 0 < opened) (word : Word) :
    (draft.toPhase (.call condition value opened depth)).read word =
      .ok (draft.toPhase
        (if word.openBehind opened = 0 then
          .behindValue (condition.addValue (value.glue word)) depth
        else .call condition (value.glue word) (word.openBehind opened) depth)) := by
  by_cases opening : word.isToken "(".toList = true
  · rw [word.open_behind_opening _ opening, if_neg (Nat.succ_ne_zero opened)]
    exact read_step _ word _ (.innerCallOpens condition value opened depth _ opening)
  by_cases closing : word.isToken ")".toList = true
  · rw [word.open_behind_closing _ closing]
    by_cases last : opened ≤ 1
    · rw [if_pos (Nat.sub_eq_zero_of_le last)]
      cases depth with
      | zero => exact read_step _ word _ (.callCloses condition value opened _ closing last)
      | succ depth =>
          exact read_step _ word _ (.listedCallCloses condition value opened depth _ closing last)
    · have more := Nat.lt_of_not_le last
      rw [if_neg (Nat.sub_ne_zero_of_lt more)]
      exact read_step _ word _ (.innerCallCloses condition value opened depth _ closing more)
  · have plain := Bool.eq_false_iff.mpr opening
    have unclosed := Bool.eq_false_iff.mpr closing
    rw [word.open_behind_other _ plain unclosed, if_neg inside.ne']
    exact read_step _ word _ (.argument condition value opened depth _ plain unclosed)

theorem run_call (draft : Draft) (condition : Condition) (value : Word) (opened depth : Nat)
    (inside : 0 < opened) (words : List Word) :
    (draft.toPhase (.call condition value opened depth)).run words =
      match Descent.call value opened words with
      | (true, value, rest) =>
          (draft.toPhase (.behindValue (condition.addValue value) depth)).run rest
      | (false, value, _) =>
          draft.failIn (.unclosedCall value.text) (condition.addValue value) := by
  induction words generalizing value opened with
  | nil => rfl
  | cons word rest induction =>
      rw [Descent.call, run_of_read _ _ word rest (read_call draft condition value opened depth
        inside word)]
      by_cases last : word.openBehind opened = 0
      · rw [if_pos last, if_pos last]
      · rw [if_neg last, if_neg last]
        exact induction _ _ (Nat.pos_of_ne_zero last)

theorem run_after_value (draft : Draft) (condition : Condition) (value : Word) (depth : Nat)
    (rest : List Word) (alone : Word.nextIs "(".toList rest = false) :
    (draft.toPhase (.afterValue condition value depth)).run rest =
      (draft.toPhase (.behindValue (condition.addValue value) depth)).run rest := by
  have written : (condition.addValue value).values.isEmpty = false := by
    rw [List.isEmpty_eq_false_iff]
    exact List.append_ne_nil_of_right_ne_nil _ (List.cons_ne_nil value [])
  cases rest with
  | nil =>
      cases depth with
      | zero =>
          change _ = if (condition.addValue value).values.isEmpty then _ else _
          rw [written]
          rfl
      | succ depth => rfl
  | cons word rest =>
      have plain : word.isToken "(".toList = false := alone
      rw [run_cons, run_cons]
      change readAfterValue _ condition value depth word >>= _ = _
      rw [readAfterValue, plain, if_neg Bool.false_ne_true]
      cases depth with
      | zero =>
          change _ = readAfterList _ (condition.addValue value) word >>= _
          rw [readAfterList, written]
          rfl
      | succ depth => rfl

theorem run_value (draft : Draft) (condition : Condition) (word : Word) (depth : Nat)
    (rest : List Word) :
    (draft.toPhase (.afterValue condition word depth)).run rest =
      match Descent.value word rest with
      | (true, value, later) =>
          (draft.toPhase (.behindValue (condition.addValue value) depth)).run later
      | (false, value, _) =>
          draft.failIn (.unclosedCall value.text) (condition.addValue value) := by
  rw [Descent.value]
  by_cases bracket : Word.nextIs "(".toList rest = true
  · rw [if_pos bracket]
    cases rest with
    | nil => cases bracket
    | cons next rest =>
        have opening : next.isToken "(".toList = true := bracket
        have begins :
            Descent.call word 0 (next :: rest) = Descent.call (word.glue next) 1 rest := by
          rw [Descent.call, next.open_behind_opening _ opening, if_neg Nat.one_ne_zero]
        rw [begins, run_step draft _ _ next rest (.callOpens condition word depth next opening)]
        exact run_call draft condition _ 1 depth Nat.one_pos rest
  · rw [if_neg bracket]
    exact run_after_value draft condition word depth rest (Bool.eq_false_iff.mpr bracket)

theorem run_behind_value (draft : Draft) (values : Condition → Nat → List Word → Descent.Reading)
    (condition : Condition) (depth : Nat) (words : List Word)
    (goes : ∀ depth later, later <:+ words →
      (draft.toPhase (.value condition depth)).run later =
        draft.settle (values condition depth later)) :
    (draft.toPhase (.behindValue condition depth)).run words =
      draft.settle (Descent.behindValue values condition depth words) := by
  cases depth with
  | succ depth => exact goes (depth + 1) words List.suffix_rfl
  | zero =>
      rw [Descent.behindValue]
      cases words with
      | nil =>
          change (if condition.values.isEmpty then _ else _) =
            draft.settle (if condition.values.isEmpty then _ else _)
          cases condition.values.isEmpty <;> rfl
      | cons word rest =>
          rw [run_cons]
          change readAfterList _ condition word >>= _ =
            draft.settle (if word.isToken ",".toList then _ else _)
          rw [readAfterList]
          split
          · exact goes 0 rest (List.suffix_cons word rest)
          · cases condition.values.isEmpty with
            | true => rfl
            | false => exact (run_cons (draft.push (.condition condition)) word rest).symm

theorem run_values_at_once (draft : Draft) (fuel : Nat) (condition : Condition) (depth : Nat)
    (words : List Word) (enough : words.length < fuel) :
    (draft.toPhase (.value condition depth)).run words =
      draft.settle (Descent.values fuel condition depth words) := by
  induction fuel generalizing condition depth words with
  | zero => exact absurd enough (Nat.not_lt_zero _)
  | succ fuel induction =>
      cases words with
      | nil => cases depth <;> rfl
      | cons word rest =>
          have within : ∀ later : List Word, later <:+ rest → later.length < fuel := by
            intro later suffix
            have shorter := suffix.length_le
            rw [List.length_cons] at enough
            omega
          have behind : ∀ condition depth later, later <:+ rest →
              (draft.toPhase (.behindValue condition depth)).run later =
                draft.settle (Descent.behindValue (Descent.values fuel) condition depth later) := by
            intro condition depth later suffix
            apply run_behind_value
            intro depth last shorter
            exact induction condition depth last (within last (shorter.trans suffix))
          have awaits := Phase.Awaits.value condition depth word
          rw [Descent.values]
          split
          · next opening =>
              rw [run_step draft _ _ word rest (.listOpens _ condition depth word awaits opening)]
              exact induction _ _ _ (within rest List.suffix_rfl)
          · next opening =>
              split
              · next closing =>
                  match depth with
                  | 0 =>
                      apply run_of_error
                      change readValue _ condition 0 word = _
                      rw [readValue.eq_def, if_neg opening, if_pos closing]
                      rfl
                  | 1 =>
                      rw [run_step draft _ _ word rest
                        (.listCloses _ condition word awaits closing)]
                      exact behind condition 0 rest List.suffix_rfl
                  | depth + 2 =>
                      rw [run_step draft _ _ word rest
                        (.innerListCloses _ condition depth word awaits closing)]
                      exact behind condition (depth + 1) rest List.suffix_rfl
              · next closing =>
                  split
                  · next comma =>
                      rw [run_step draft _ _ word rest (.comma _ condition depth word awaits comma)]
                      exact induction _ _ _ (within rest List.suffix_rfl)
                  · next comma =>
                      rw [run_step draft _ _ word rest (.value _ condition depth word awaits
                        (Bool.eq_false_iff.mpr opening) (Bool.eq_false_iff.mpr closing)
                        (Bool.eq_false_iff.mpr comma)), run_value]
                      have suffix := Descent.value_suffix word rest
                      generalize Descent.value word rest = valued at suffix ⊢
                      obtain ⟨_ | _, value, later⟩ := valued
                      · rfl
                      · exact behind _ _ _ suffix

theorem run_extended (draft : Draft) (field : Word) (text : Text) (words : List Word) :
    (draft.toPhase (.extended field text)).run words =
      (draft.toPhase (.value ⟨field, some (Descent.comparator text words).1, []⟩ 0)).run
        (Descent.comparator text words).2 := by
  induction words generalizing text with
  | nil => rfl
  | cons word rest induction =>
      rw [Descent.comparator]
      cases extended : Comparator.extend text word with
      | some longer =>
          rw [run_step draft _ _ word rest (.extended field text longer word extended)]
          exact induction longer
      | none =>
          rw [run_cons, run_cons]
          change readContinuation _ field text false word >>= _ = _
          rw [readContinuation, if_neg Bool.false_ne_true, extended]
          rfl

theorem run_condition (draft : Draft) (field : Word) (words : List Word) :
    (draft.toPhase (.comparator field)).run words =
      draft.settle (Descent.condition field words) := by
  have valued : ∀ compared : Text × List Word,
      (draft.toPhase (.value ⟨field, some compared.1, []⟩ 0)).run compared.2 =
        draft.settle (Descent.values (compared.2.length + 1) ⟨field, some compared.1, []⟩ 0
          compared.2) :=
    fun compared => run_values_at_once draft _ _ 0 _ (Nat.lt_succ_self _)
  cases words with
  | nil => rfl
  | cons word rest =>
      rw [Descent.condition]
      split
      · next bracket =>
          apply run_of_error
          change readComparator _ field word = _
          rw [readComparator, if_pos bracket]
          rfl
      · next plain =>
          obtain ⟨opening, closing⟩ := Bool.or_eq_false_iff.mp (Bool.eq_false_iff.mpr plain)
          rw [run_step draft _ _ word rest (.comparator field word opening closing)]
          cases rest with
          | nil => rfl
          | cons next rest =>
              dsimp only [List.isEmpty_cons]
              rw [if_neg Bool.false_ne_true, ← valued]
              cases word.quoted with
              | true => rfl
              | false => exact run_extended draft field word.text (next :: rest)

end Draft

end FilterQuery
