import FilterQuery.Draft
import FilterQuery.Proofs.Tree.Scan

/-!
What has been read, as conditions: those that are complete and the one that is still being read.
A word either changes the condition being read, begins one, or is structural. From this follows
what holds of the conditions after any words: they can be written, all but the last one are
complete, and they carry no more cursors than the words.
-/

set_option autoImplicit false

namespace FilterQuery

def Word.isStructural (word : Word) : Bool :=
  ["(".toList, ")".toList, ",".toList, "and".toList, "or".toList, "not".toList].any word.isToken

/-- What a word may add to the condition that is being read. -/
inductive Condition.Takes : Condition → Word → Condition → Prop
  | comparator (field word : Word) : Takes ⟨field, none, []⟩ word ⟨field, some word.text, []⟩
  | continuation (field : Word) (comparator longer : Text) (word : Word) :
      Comparator.extend comparator word = some longer →
        Takes ⟨field, some comparator, []⟩ word ⟨field, some longer, []⟩
  | value (condition : Condition) (word : Word) : condition.comparator.isSome = true →
      Takes condition word (condition.addValue word)
  | call (condition : Condition) (value word : Word) :
      Takes (condition.addValue value) word (condition.addValue (value.glue word))

structure Progress where
  finished : List Condition
  unfinished : Option Condition

namespace Progress

/-- All conditions from left to right, the one being read included. -/
def conditions (progress : Progress) : List Condition :=
  progress.finished ++ progress.unfinished.toList

/-- What one word does. A `not` in front of the first operand counts as a field until the word
behind it is read. -/
inductive Step : Progress → Word → Progress → Prop
  | structural (progress : Progress) (word : Word) : word.isStructural = true →
      Step progress word progress
  | field (finished : List Condition) (word : Word) :
      Step ⟨finished, none⟩ word ⟨finished, some ⟨word, none, []⟩⟩
  | negation (finished : List Condition) (leading word : Word) (next : Progress) :
      leading.isToken "not".toList = true → Step ⟨finished, none⟩ word next →
        Step ⟨finished, some ⟨leading, none, []⟩⟩ word next
  | condition (finished : List Condition) (before : Condition) (word : Word) (after : Condition) :
      before.Takes word after → Step ⟨finished, some before⟩ word ⟨finished, some after⟩
  | completion (finished : List Condition) (condition : Condition) (word : Word)
      (next : Progress) : condition.Complete → Step ⟨finished ++ [condition], none⟩ word next →
        Step ⟨finished, some condition⟩ word next

inductive Steps : Progress → List Word → Progress → Prop
  | nil (progress : Progress) : Steps progress [] progress
  | cons (progress next last : Progress) (word : Word) (rest : List Word) :
      Step progress word next → Steps next rest last → Steps progress (word :: rest) last

def start : Progress := ⟨[], none⟩

end Progress

namespace Word

theorem structural_of_token (word : Word) (token : Text) (is : word.isToken token = true)
    (listed : token ∈ ["(".toList, ")".toList, ",".toList, "and".toList, "or".toList,
      "not".toList]) : word.isStructural = true :=
  List.any_eq_true.mpr ⟨token, listed, is⟩

theorem sound_glue (value next : Word) (sound : value.Sound) (behind : next.Sound) :
    (value.glue next).Sound := by
  constructor
  · intro empty
    exact sound.nonempty (List.append_eq_nil_iff.mp empty).1
  · intro offset here
    have whole : (value.glue next).length = value.length + next.length := List.length_append
    rw [whole]
    cases later : next.cursor with
    | none =>
        have inside := sound.cursor offset (by simpa [glue, later] using here)
        omega
    | some inner =>
        have inside := behind.cursor inner later
        obtain rfl : value.length + inner = offset := by simpa [glue, later] using here
        omega

@[simp] theorem is_marked_glue (value next : Word) :
    (value.glue next).isMarked = (value.isMarked || next.isMarked) := by
  rw [isMarked, isMarked, isMarked, glue]
  cases next.cursor <;> simp

end Word

theorem Comparator.extend_nonempty (comparator longer : Text) (word : Word)
    (extended : extend comparator word = some longer) : longer ≠ [] := by
  rw [extend] at extended
  split at extended
  · obtain rfl := Option.some.inj extended
    decide
  · split at extended
    · obtain rfl := Option.some.inj extended
      simp
    · cases extended

namespace Condition

@[simp] theorem words_add_value (condition : Condition) (value : Word) :
    (condition.addValue value).words = condition.words ++ [value] := rfl

theorem legible_add_value (condition : Condition) (value : Word) :
    (condition.addValue value).Legible ↔
      condition.Legible ∧ condition.comparator.isSome = true ∧ value.Sound := by
  constructor
  · rintro ⟨words, comparator, values⟩
    rw [words_add_value] at words
    have given : condition.comparator.isSome = true := by
      rw [Option.isSome_iff_ne_none]
      intro absent
      exact List.append_ne_nil_of_right_ne_nil _ (List.cons_ne_nil value []) (values absent)
    refine ⟨⟨fun word member => words word (List.mem_append_left _ member), comparator, ?_⟩,
      given, words value (List.mem_append_right _ (List.mem_singleton_self value))⟩
    intro absent
    rw [absent] at given
    contradiction
  · rintro ⟨legible, given, sound⟩
    refine ⟨?_, legible.comparator, ?_⟩
    · intro word member
      rw [words_add_value, List.mem_append, List.mem_singleton] at member
      rcases member with earlier | rfl
      · exact legible.words word earlier
      · exact sound
    · intro absent
      rw [show condition.comparator = none from absent] at given
      contradiction

theorem legible_of_takes (before after : Condition) (word : Word) (sound : word.Sound)
    (takes : before.Takes word after) (legible : before.Legible) : after.Legible := by
  cases takes with
  | comparator field =>
      refine ⟨legible.words, ?_, ?_⟩
      · intro text same
        obtain rfl := Option.some.inj same
        exact sound.nonempty
      · intro absent
        cases absent
  | continuation field comparator longer _ extended =>
      refine ⟨legible.words, ?_, ?_⟩
      · intro text same
        obtain rfl := Option.some.inj same
        exact Comparator.extend_nonempty comparator longer word extended
      · intro absent
        cases absent
  | value _ _ given => exact (legible_add_value before word).mpr ⟨legible, given, sound⟩
  | call condition value =>
      obtain ⟨earlier, given, inside⟩ := (legible_add_value condition value).mp legible
      exact (legible_add_value condition _).mpr
        ⟨earlier, given, Word.sound_glue value word inside sound⟩

theorem count_of_takes (before after : Condition) (word : Word)
    (takes : before.Takes word after) :
    after.words.countP Word.isMarked ≤
      before.words.countP Word.isMarked + word.isMarked.toNat := by
  have single : ∀ value : Word, [value].countP Word.isMarked = value.isMarked.toNat := by
    intro value
    rw [List.countP_singleton]
    cases value.isMarked <;> rfl
  cases takes with
  | comparator field => exact Nat.le_add_right _ _
  | continuation field comparator longer => exact Nat.le_add_right _ _
  | value => rw [words_add_value, List.countP_append, single]
  | call condition value =>
      have glued : (value.glue word).isMarked.toNat ≤
          value.isMarked.toNat + word.isMarked.toNat := by
        rw [Word.is_marked_glue]
        cases value.isMarked <;> cases word.isMarked <;> decide
      rw [words_add_value, words_add_value, List.countP_append, List.countP_append, single, single]
      omega

end Condition

namespace Progress

def marks (progress : Progress) : Nat :=
  (progress.conditions.flatMap Condition.words).countP Word.isMarked

theorem marks_start : start.marks = 0 := rfl

theorem marks_eq (progress : Progress) :
    progress.marks = (progress.finished.flatMap Condition.words).countP Word.isMarked +
      (progress.unfinished.toList.flatMap Condition.words).countP Word.isMarked := by
  rw [marks, conditions, List.flatMap_append, List.countP_append]

theorem conditions_completion (finished : List Condition) (condition : Condition) :
    conditions ⟨finished ++ [condition], none⟩ = conditions ⟨finished, some condition⟩ :=
  List.append_nil _

theorem conditions_negation (finished : List Condition) (condition : Condition) :
    conditions ⟨finished, some condition⟩ = conditions ⟨finished, none⟩ ++ [condition] := by
  rw [conditions, conditions, Option.toList_none, List.append_nil]
  rfl

/-- Whatever the words are, only the condition being read may be incomplete. -/
theorem complete_of_step (progress next : Progress) (word : Word)
    (step : progress.Step word next)
    (complete : ∀ condition ∈ progress.finished, condition.Complete) :
    ∀ condition ∈ next.finished, condition.Complete := by
  induction step with
  | structural | field | condition => exact complete
  | negation _ _ _ _ _ _ induction => exact induction complete
  | completion finished condition word next whole _ induction =>
      apply induction
      intro other member
      rcases List.mem_append.mp member with earlier | here
      · exact complete other earlier
      · rwa [List.mem_singleton.mp here]

theorem complete_of_steps (progress last : Progress) (words : List Word)
    (steps : progress.Steps words last)
    (complete : ∀ condition ∈ progress.finished, condition.Complete) :
    ∀ condition ∈ last.finished, condition.Complete := by
  induction steps with
  | nil => exact complete
  | cons progress next _ word rest step _ induction =>
      exact induction (complete_of_step progress next word step complete)

/-- What holds of the conditions when the words they were read from are sound. -/
structure Legible (progress : Progress) : Prop where
  finished : ∀ condition ∈ progress.finished, condition.Complete
  conditions : ∀ condition ∈ progress.conditions, condition.Legible

theorem legible_of_step (progress next : Progress) (word : Word) (sound : word.Sound)
    (step : progress.Step word next) (legible : progress.Legible) : next.Legible := by
  refine ⟨complete_of_step progress next word step legible.finished, ?_⟩
  replace legible := legible.conditions
  induction step with
  | structural => exact legible
  | field finished word =>
      intro condition member
      rw [conditions_negation, List.mem_append, List.mem_singleton] at member
      rcases member with earlier | rfl
      · exact legible condition earlier
      · refine ⟨?_, ?_, fun _ => rfl⟩
        · intro other here
          obtain rfl := List.mem_singleton.mp here
          exact sound
        · intro text absent
          cases absent
  | negation finished leading word next _ _ induction =>
      -- The leading `not` turns out to be no field, and the step goes on without it.
      apply induction sound
      intro condition member
      apply legible
      rw [conditions_negation]
      exact List.mem_append_left _ member
  | condition finished before word after takes =>
      intro condition member
      rw [conditions_negation] at legible member
      rcases List.mem_append.mp member with earlier | here
      · exact legible condition (List.mem_append_left _ earlier)
      · obtain rfl := List.mem_singleton.mp here
        exact before.legible_of_takes condition word sound takes (legible before (by simp))
  | completion finished condition word next complete _ induction =>
      apply induction sound
      rwa [conditions_completion]

theorem marks_of_step (progress next : Progress) (word : Word)
    (step : progress.Step word next) : next.marks ≤ progress.marks + word.isMarked.toNat := by
  induction step with
  | structural => exact Nat.le_add_right _ _
  | field finished word =>
      rw [marks_eq, marks_eq, Option.toList_some, List.flatMap_singleton, Condition.words,
        List.countP_singleton]
      cases word.isMarked <;> simp
  | negation finished leading word next _ _ induction =>
      refine Nat.le_trans induction (Nat.add_le_add_right ?_ _)
      rw [marks_eq, marks_eq]
      exact Nat.le_add_right _ _
  | condition finished before word after takes =>
      have count := before.count_of_takes after word takes
      rw [marks_eq, marks_eq, Option.toList_some, Option.toList_some, List.flatMap_singleton,
        List.flatMap_singleton, Nat.add_assoc]
      exact Nat.add_le_add_left count _
  | completion finished condition word next complete _ induction =>
      rwa [marks, marks, conditions_completion] at induction

theorem legible_of_steps (progress last : Progress) (words : List Word)
    (sound : ∀ word ∈ words, word.Sound) (steps : progress.Steps words last)
    (legible : progress.Legible) : last.Legible := by
  induction steps with
  | nil => exact legible
  | cons progress next last word rest step _ induction =>
      apply induction fun other member => sound other (List.mem_cons_of_mem word member)
      exact legible_of_step progress next word (sound word (by simp)) step legible

theorem marks_of_steps (progress last : Progress) (words : List Word)
    (steps : progress.Steps words last) :
    last.marks ≤ progress.marks + words.countP Word.isMarked := by
  induction steps with
  | nil => exact Nat.le_add_right _ _
  | cons progress next last word rest step _ induction =>
      have first := marks_of_step progress next word step
      have count : (word :: rest).countP Word.isMarked =
          rest.countP Word.isMarked + word.isMarked.toNat := by
        rw [List.countP_cons]
        cases word.isMarked <;> rfl
      rw [count]
      omega

end Progress

end FilterQuery
