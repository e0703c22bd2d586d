import FilterQuery.Proofs.Draft.Context
import FilterQuery.Proofs.Draft.Outcome
import Mathlib

/-!
An accepted query loses, invents and reorders nothing. Without some of its punctuation, connectives
and negations, its words spell the conditions of its tree from left to right.
-/

set_option autoImplicit false

namespace FilterQuery

/-- Words without some structural ones. -/
inductive Word.Unmarked : List Word → List Word → Prop
  | nil : Unmarked [] []
  | structural (word : Word) (words kept : List Word) : word.isStructural = true →
      Unmarked words kept → Unmarked (word :: words) kept
  | kept (word : Word) (words kept : List Word) : Unmarked words kept →
      Unmarked (word :: words) (word :: kept)

/-- One or more words whose texts put together are the text of a value. -/
def Word.SpelledBy (value : Word) (words : List Word) : Prop :=
  words ≠ [] ∧ words.flatMap Word.text = value.text

/-- One word with the text of a comparator, or two or three unquoted words whose texts are the
comparator with single blanks between them. -/
inductive Comparator.Spelled : Text → List Word → Prop
  | word (word : Word) : Spelled word.text [word]
  | phrase (words : List Word) : words.length = 2 ∨ words.length = 3 →
      (∀ word ∈ words, word.quoted = false) → Spelled (Text.join [' '] (words.map Word.text)) words

/-- The field, then the words of the comparator, then those of each value. -/
inductive Condition.Spelled : Condition → List Word → Prop
  | written (field : Word) (comparator : Text) (values : List Word) (signs : List Word)
      (parts : List (List Word)) : Comparator.Spelled comparator signs →
      List.Forall₂ Word.SpelledBy values parts →
        Spelled ⟨field, some comparator, values⟩ (field :: (signs ++ parts.flatten))

namespace Comparator

/-- Unquoted words that were put together to a comparator one after another. -/
inductive Phrase : Text → List Word → Prop
  | two (first second : Word) (longer : Text) : first.quoted = false →
      extend first.text second = some longer → Phrase longer [first, second]
  | three (first second third : Word) (longer longest : Text) : first.quoted = false →
      extend first.text second = some longer → extend longer third = some longest →
        Phrase longest [first, second, third]

theorem extend_eq (comparator longer : Text) (word : Word)
    (extended : extend comparator word = some longer) :
    word.quoted = false ∧ longer = comparator ++ ' ' :: word.text ∧ longer ∈ phrases := by
  rw [extend] at extended
  split at extended
  · next continues =>
      obtain ⟨rfl, is⟩ := continues
      obtain ⟨plain, text⟩ := (word.is_token_iff _).mp is
      obtain rfl := Option.some.inj extended
      rw [text]
      exact ⟨plain, rfl, by decide⟩
  · split at extended
    · next continues =>
        obtain ⟨known, is⟩ := continues
        obtain rfl := Option.some.inj extended
        have listed := List.contains_iff_mem.mp known
        simp only [List.mem_cons, List.not_mem_nil, or_false] at listed
        rcases is with is | is <;> obtain ⟨plain, text⟩ := (word.is_token_iff _).mp is <;>
          rw [text] <;> refine ⟨plain, rfl, ?_⟩ <;>
            rcases listed with rfl | rfl | rfl <;> decide
    · cases extended

theorem eq_of_phrase_extended (comparator longer : Text) (word : Word)
    (several : comparator ∈ phrases) (extended : extend comparator word = some longer) :
    comparator = "is not".toList := by
  rw [extend] at extended
  split at extended
  · next continues =>
      obtain ⟨rfl, _⟩ := continues
      exact absurd several (by decide)
  · split at extended
    · next continues =>
        have listed := List.contains_iff_mem.mp continues.1
        simp only [List.mem_cons, List.not_mem_nil, or_false] at listed
        rcases listed with rfl | rfl | same
        · exact absurd several (by decide)
        · exact absurd several (by decide)
        · exact same
    · cases extended

theorem phrase_extended (comparator longer : Text) (words : List Word) (word : Word)
    (phrase : Phrase comparator words) (extended : extend comparator word = some longer) :
    Phrase longer (words ++ [word]) := by
  cases phrase with
  | two first second _ plain begins =>
      exact .three first second word comparator longer plain begins extended
  | three first second third shorter _ _ begins continues =>
      -- A third word behind `is not` makes a comparator that nothing extends.
      obtain ⟨_, _, several⟩ := extend_eq first.text shorter second begins
      obtain ⟨_, longest, whole⟩ := extend_eq shorter comparator third continues
      rw [eq_of_phrase_extended comparator longer word whole extended,
        eq_of_phrase_extended shorter comparator third several continues] at longest
      have lengths := congrArg List.length longest
      rw [List.length_append, List.length_cons] at lengths
      omega

theorem spelled_of_phrase (comparator : Text) (words : List Word)
    (phrase : Phrase comparator words) : Spelled comparator words := by
  cases phrase with
  | two first second _ plain begins =>
      obtain ⟨behind, rfl, _⟩ := extend_eq first.text comparator second begins
      have joined : Text.join [' '] ([first, second].map Word.text) =
          first.text ++ ' ' :: second.text := List.append_assoc _ _ _
      rw [← joined]
      exact .phrase [first, second] (.inl rfl) (by simp [plain, behind])
  | three first second third longer _ plain begins continues =>
      obtain ⟨behind, rfl, _⟩ := extend_eq first.text longer second begins
      obtain ⟨last, rfl, _⟩ := extend_eq _ comparator third continues
      have joined : Text.join [' '] ([first, second, third].map Word.text) =
          first.text ++ ' ' :: second.text ++ ' ' :: third.text := by
        simp [Text.join]
      rw [← joined]
      exact .phrase [first, second, third] (.inr rfl) (by simp [plain, behind, last])

end Comparator

theorem Word.spelled_by_self (word : Word) : word.SpelledBy [word] :=
  ⟨List.cons_ne_nil word [], List.append_nil _⟩

theorem Word.spelled_by_glue (value next : Word) (words : List Word)
    (spelled : value.SpelledBy words) : (value.glue next).SpelledBy (words ++ [next]) := by
  refine ⟨List.append_ne_nil_of_left_ne_nil spelled.1 [next], ?_⟩
  rw [List.flatMap_append, spelled.2, List.flatMap_singleton]
  rfl

theorem Condition.spelled_add_value (condition : Condition) (value : Word)
    (before words : List Word) (spelled : condition.Spelled before)
    (behind : value.SpelledBy words) : (condition.addValue value).Spelled (before ++ words) := by
  cases spelled with
  | written field comparator values signs parts compared valued =>
      have whole : field :: (signs ++ parts.flatten) ++ words =
          field :: (signs ++ (parts ++ [words]).flatten) := by
        simp only [List.flatten_append, List.flatten_singleton, List.cons_append,
          List.append_assoc]
      rw [whole]
      exact .written field comparator (values ++ [value]) signs (parts ++ [words]) compared
        (List.rel_append valued (.cons behind .nil))

namespace Phase

inductive Spelled : Phase → List Word → Prop
  | operand : Spelled .operand []
  | leadingNot (word : Word) : Spelled (.leadingNot word) []
  | comparator (field : Word) : Spelled (.comparator field) [field]
  | continuation (field word : Word) (comparator : Text) (quoted : Bool) :
      word.text = comparator → word.quoted = quoted →
        Spelled (.continuation field comparator quoted) [field, word]
  | extended (field : Word) (comparator : Text) (words : List Word) :
      Comparator.Phrase comparator words → Spelled (.extended field comparator) (field :: words)
  | value (condition : Condition) (depth : Nat) (words : List Word) :
      condition.Spelled words → Spelled (.value condition depth) words
  | afterValue (condition : Condition) (value : Word) (depth : Nat) (before words : List Word) :
      condition.Spelled before → value.SpelledBy words →
        Spelled (.afterValue condition value depth) (before ++ words)
  | call (condition : Condition) (value : Word) (opened depth : Nat) (before words : List Word) :
      condition.Spelled before → value.SpelledBy words →
        Spelled (.call condition value opened depth) (before ++ words)
  | afterList (condition : Condition) (words : List Word) :
      condition.Spelled words → Spelled (.afterList condition) words
  | connective : Spelled .connective []
  | afterConnective (connective : Connective) : Spelled (.afterConnective connective) []

theorem spelled_of_awaits (phase : Phase) (word : Word) (condition : Condition) (depth : Nat)
    (words : List Word) (awaits : phase.Awaits word condition depth)
    (spelled : phase.Spelled words) : condition.Spelled words := by
  cases awaits with
  | continuation field =>
      cases spelled with
      | continuation _ sign _ _ text =>
          subst text
          exact .written field sign.text [] [sign] [] (.word sign) .nil
  | extended field comparator =>
      cases spelled with
      | extended _ _ signs phrase =>
          have whole : field :: signs = field :: (signs ++ [].flatten) := by
            rw [List.flatten_nil, List.append_nil]
          rw [whole]
          exact .written field comparator [] signs []
            (Comparator.spelled_of_phrase comparator signs phrase) .nil
  | value =>
      cases spelled with
      | value _ _ _ written => exact written
  | afterValue condition value =>
      cases spelled with
      | afterValue _ _ _ before words written behind =>
          exact condition.spelled_add_value value before words written behind

theorem spelled_of_ends (phase : Phase) (condition : Condition) (words : List Word)
    (ends : Draft.Ends condition phase) (spelled : phase.Spelled words) :
    condition.Spelled words := by
  rcases ends with ⟨value, values, rfl, all⟩ | ⟨rfl, _⟩
  · cases spelled with
    | afterValue _ _ _ before words written behind =>
        have whole := Condition.spelled_add_value _ value before words written behind
        rwa [Condition.addValue, ← all] at whole
  · cases spelled with
    | afterList _ _ written => exact written

theorem spelled_of_begins (phase : Phase) (level next : Level) (word : Word) (words : List Word)
    (begins : phase.Begins level word next) (spelled : phase.Spelled words) : words = [] := by
  cases begins <;> cases spelled <;> rfl

theorem spelled_between (phase : Phase) (words : List Word) (between : phase.condition = none)
    (spelled : phase.Spelled words) : words = [] := by
  cases spelled with
  | operand | connective | afterConnective => rfl
  | _ => cases between

theorem spelled_of_step (phase next : Phase) (word : Word) (words : List Word)
    (step : phase.Step word next) (spelled : phase.Spelled words) :
    word.isStructural = true ∧ next.Spelled words ∨ next.Spelled (words ++ [word]) := by
  have structural := word.structural_of_token
  have glued : ∀ (condition : Condition) (value : Word) (before last : List Word),
      condition.Spelled before → value.SpelledBy last →
        (condition.addValue (value.glue word)).Spelled (before ++ last ++ [word]) := by
    intro condition value before last written behind
    rw [List.append_assoc]
    exact condition.spelled_add_value _ before _ written (value.spelled_by_glue word last behind)
  cases step with
  | comparator field =>
      cases spelled with
      | comparator => exact .inr (.continuation field word _ _ rfl rfl)
  | continuation field comparator longer _ extended =>
      cases spelled with
      | continuation _ sign _ _ text plain =>
          subst text
          exact .inr (.extended field longer _ (.two sign word longer plain extended))
  | extended field comparator longer _ extended =>
      cases spelled with
      | extended _ _ signs phrase =>
          exact .inr (.extended field longer _
            (Comparator.phrase_extended comparator longer signs word phrase extended))
  | listOpens _ condition depth _ awaits opening =>
      exact .inl ⟨structural _ opening (by simp),
        .value _ _ _ (phase.spelled_of_awaits word condition depth words awaits spelled)⟩
  | listCloses _ condition _ awaits closing =>
      exact .inl ⟨structural _ closing (by simp),
        .afterList _ _ (phase.spelled_of_awaits word condition 1 words awaits spelled)⟩
  | innerListCloses _ condition depth _ awaits closing =>
      exact .inl ⟨structural _ closing (by simp),
        .value _ _ _ (phase.spelled_of_awaits word condition _ words awaits spelled)⟩
  | comma _ condition depth _ awaits comma =>
      exact .inl ⟨structural _ comma (by simp),
        .value _ _ _ (phase.spelled_of_awaits word condition depth words awaits spelled)⟩
  | value _ condition depth _ awaits =>
      exact .inr (.afterValue condition word depth words [word]
        (phase.spelled_of_awaits word condition depth words awaits spelled) word.spelled_by_self)
  | callOpens condition value depth =>
      cases spelled with
      | afterValue _ _ _ before last written behind =>
          right
          rw [List.append_assoc]
          exact .call _ _ _ _ _ _ written (value.spelled_by_glue word last behind)
  | innerCallOpens condition value | innerCallCloses condition value | argument condition value =>
      cases spelled with
      | call _ _ _ _ before last written behind =>
          right
          rw [List.append_assoc]
          exact .call _ _ _ _ _ _ written (value.spelled_by_glue word last behind)
  | callCloses condition value =>
      cases spelled with
      | call _ _ _ _ before last written behind =>
          exact .inr (.afterList _ _ (glued condition value before last written behind))
  | listedCallCloses condition value =>
      cases spelled with
      | call _ _ _ _ before last written behind =>
          exact .inr (.value _ _ _ (glued condition value before last written behind))
  | furtherValue condition value _ comma =>
      cases spelled with
      | afterValue _ _ _ before last written behind =>
          exact .inl ⟨structural _ comma (by simp),
            .value _ _ _ (condition.spelled_add_value value before last written behind)⟩
  | furtherList condition _ comma =>
      cases spelled with
      | afterList _ _ written => exact .inl ⟨structural _ comma (by simp), .value _ _ _ written⟩

end Phase

namespace Draft

/-- The words spell the finished conditions and then the one that is being read. -/
inductive Spelled (draft : Draft) : List Word → Prop
  | written (parts : List (List Word)) (current : List Word) :
      List.Forall₂ Condition.Spelled draft.finished parts → draft.phase.Spelled current →
        Spelled draft (parts.flatten ++ current)

theorem finished_begins (draft : Draft) (level : Level) (word : Word)
    (begins : draft.phase.Begins draft.level word level) (phase : Phase) :
    finished ⟨draft.outer, level, phase⟩ = draft.finished := by
  obtain ⟨outer, before, current⟩ := draft
  cases begins <;> rfl

theorem spelled_of_between (draft next : Draft) (kept : List Word)
    (before : ∀ current, draft.phase.Spelled current → current = [])
    (finished : next.finished = draft.finished) (after : next.phase.Spelled [])
    (spelled : draft.Spelled kept) : next.Spelled kept := by
  obtain ⟨parts, current, written, here⟩ := spelled
  obtain rfl := before current here
  exact .written parts [] (finished ▸ written) after

theorem spelled_to_phase (draft : Draft) (phase : Phase) (kept : List Word)
    (between : draft.phase.condition = none) (after : phase.Spelled [])
    (spelled : draft.Spelled kept) : (draft.toPhase phase).Spelled kept :=
  spelled_of_between draft _ kept (fun current => draft.phase.spelled_between current between) rfl
    after spelled

theorem spelled_completion (draft : Draft) (condition : Condition) (kept : List Word)
    (ends : Ends condition draft.phase) (spelled : draft.Spelled kept) :
    (draft.push (.condition condition)).Spelled kept := by
  obtain ⟨parts, current, written, here⟩ := spelled
  have last := draft.phase.spelled_of_ends condition current ends here
  have whole : parts.flatten ++ current = (parts ++ [current]).flatten ++ [] := by simp
  rw [whole]
  refine .written (parts ++ [current]) [] ?_ .connective
  rw [finished_push]
  exact List.rel_append written (.cons last .nil)

theorem spelled_of_completes (draft : Draft) (level : Level) (kept : List Word)
    (alone : draft.outer = []) (completes : draft.Completes level) (spelled : draft.Spelled kept) :
    ∃ parts, kept = parts.flatten ∧ List.Forall₂ Condition.Spelled level.conditions parts := by
  have last : Spelled ⟨draft.outer, level, .connective⟩ kept := by
    cases completes with
    | operand => exact spelled
    | condition _ condition ends => exact spelled_completion draft condition kept ends spelled
  rw [alone] at last
  obtain ⟨parts, current, written, here⟩ := last
  obtain rfl := Phase.spelled_between .connective current rfl here
  exact ⟨parts, List.append_nil _, written⟩

theorem spelled_of_move (draft next : Draft) (word : Word) (move : draft.Move word next)
    (regular : draft.Regular) (kept : List Word) (spelled : draft.Spelled kept) :
    word.isStructural = true ∧ next.Spelled kept ∨ next.Spelled (kept ++ [word]) := by
  have structural := fun word : Word => word.structural_of_token
  induction move with
  | phase draft word next step =>
      obtain ⟨parts, current, written, here⟩ := spelled
      rcases draft.phase.spelled_of_step next word current step here with ⟨is, same⟩ | longer
      · exact .inl ⟨is, .written parts current written same⟩
      · right
        rw [List.append_assoc]
        exact .written parts (current ++ [word]) written longer
  | leadingNot outer level word _ not =>
      exact .inl ⟨structural word _ not (by simp),
        spelled_to_phase ⟨outer, level, .operand⟩ _ kept rfl (.leadingNot word) spelled⟩
  | opening draft word level begins opening =>
      have same := finished_begins draft level word begins .operand
      rw [← finished_opening] at same
      exact .inl ⟨structural word _ opening (by simp), spelled_of_between draft _ kept
        (fun current => draft.phase.spelled_of_begins _ _ word current begins) same .operand
          spelled⟩
  | field draft word level begins =>
      obtain ⟨parts, current, written, here⟩ := spelled
      obtain rfl := draft.phase.spelled_of_begins _ _ word current begins here
      right
      rw [List.append_nil]
      refine .written parts [word] ?_ (.comparator word)
      rwa [finished_begins draft level word begins]
  | connective outer level junction word joins =>
      have is := structural word _ joins (by cases junction <;> decide)
      exact .inl ⟨is,
        spelled_to_phase ⟨outer, level, .connective⟩ _ kept rfl (.afterConnective _) spelled⟩
  | negation outer level junction word not =>
      exact .inl ⟨structural word _ not (by simp),
        spelled_to_phase ⟨outer, level, .afterConnective ⟨junction, false⟩⟩ _ kept rfl
          (.afterConnective _) spelled⟩
  | closing outer parent level tree word assembled closing =>
      obtain ⟨same, reads, _, conditions⟩ := level.assemble_regular regular.balanced.level
      obtain rfl := Except.ok.inj (reads.symm.trans assembled)
      exact .inl ⟨structural word _ closing (by simp), spelled_of_between _ _ kept
        (fun current => Phase.spelled_between _ current rfl)
          (finished_closing outer parent level same conditions) .connective spelled⟩
  | completion draft condition word next ends _ _ induction =>
      apply induction (regular_completion draft condition ends regular)
      exact spelled_completion draft condition kept ends spelled

theorem spelled_of_moves (draft last : Draft) (words : List Word) (moves : draft.Moves words last)
    (regular : draft.Regular) (kept : List Word) (spelled : draft.Spelled kept) :
    ∃ later, Word.Unmarked words later ∧ last.Spelled (kept ++ later) := by
  induction moves generalizing kept with
  | nil draft => exact ⟨[], .nil, by rwa [List.append_nil]⟩
  | cons draft next last word rest move _ induction =>
      have reads := draft.read_reads regular word
      rw [read_of_move draft word next move] at reads
      rcases spelled_of_move draft next word move regular kept spelled with ⟨is, same⟩ | longer
      · obtain ⟨later, unmarked, spelled⟩ := induction reads.1 kept same
        exact ⟨later, .structural word rest later is unmarked, spelled⟩
      · obtain ⟨later, unmarked, spelled⟩ := induction reads.1 (kept ++ [word]) longer
        rw [List.append_assoc] at spelled
        exact ⟨word :: later, .kept word rest later unmarked, spelled⟩

end Draft

namespace Tree

/-- The words of an accepted query, without some structural ones, are the fields, comparators and
values of its conditions from left to right. -/
theorem spelled_of_words (words : List Word) (tree : Tree) (accepted : ofWords words = .ok tree) :
    ∃ parts, Word.Unmarked words parts.flatten ∧
      List.Forall₂ Condition.Spelled tree.conditions parts := by
  obtain ⟨last, moves, finishes⟩ := Draft.moves_of_run .start words tree accepted
  obtain ⟨kept, unmarked, spelled⟩ := Draft.spelled_of_moves .start last words moves
    Draft.start_regular [] (.written [] [] .nil .operand)
  have regular := Draft.regular_of_moves .start last words moves Draft.start_regular
  obtain ⟨alone, level, completes, assembled⟩ := Draft.completes_of_finish last tree finishes
  obtain ⟨same, reads, _, conditions⟩ :=
    level.assemble_regular (Draft.regular_of_completes last level regular completes)
  obtain rfl := Except.ok.inj (reads.symm.trans assembled)
  obtain ⟨parts, rfl, written⟩ := Draft.spelled_of_completes last level kept alone completes spelled
  rw [conditions]
  exact ⟨parts, unmarked, written⟩

def keywordWords : List Word :=
  (["not", "(", "n", "is", "not", "in", "(", "u", ",", "now", "(", "-5", "d", ")", ")", ")",
    "and"].map fun text => .plain text.toList) ++
      [.quote "not".toList, .plain "=".toList, .plain "and".toList]

def keywordTree : Tree :=
  .group .and [
    .negate (.condition ⟨.plain "n".toList, some "is not in".toList,
      [.plain "u".toList, .plain "now(-5d)".toList]⟩),
    .condition ⟨.quote "not".toList, some "=".toList, [.plain "and".toList]⟩]

theorem spelled_of_words_keyword :
    ofWords keywordWords = .ok keywordTree ∧ ∃ parts, Word.Unmarked keywordWords parts.flatten ∧
      List.Forall₂ Condition.Spelled keywordTree.conditions parts := by
  have accepted : ofWords keywordWords = .ok keywordTree := rfl
  exact ⟨accepted, spelled_of_words keywordWords keywordTree accepted⟩

end Tree

end FilterQuery
