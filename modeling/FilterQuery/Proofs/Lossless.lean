import FilterQuery.Proofs.Separation
import FilterQuery.Proofs.Word.Scan
import Mathlib

/-!
Scanning loses no character. The words of any input hold exactly its kept characters, in order;
each word comes from one stretch of the input, quotes make one word of what they enclose and
nothing else makes a quoted one, punctuation stands alone, and signs are cut out.
-/

set_option autoImplicit false

namespace FilterQuery.Word

/-- The texts of words together. -/
def textOf (words : List Word) : Text := (words.map text).flatten

@[simp] theorem text_of_append (left right : List Word) :
    textOf (left ++ right) = textOf left ++ textOf right := by
  rw [textOf, List.map_append, List.flatten_append]
  rfl

@[simp] theorem text_of_cons (word : Word) (rest : List Word) :
    textOf (word :: rest) = word.text ++ textOf rest := rfl

/-- Quotes in an input, with `left` in front of them, `inner` between them and `right` behind
them. The last quote of an input need not be closed. -/
inductive Quotes (input left inner : Text) : Text → Prop
  | closed (right : Text) : input = left ++ '"' :: (inner ++ '"' :: right) →
      Mode.start.behind left = .start → Unbroken .inQuotes inner →
        Mode.inQuotes.behind inner = .inQuotes → Quotes input left inner right
  | unclosed : input = left ++ '"' :: inner → Mode.start.behind left = .start →
      Unbroken .inQuotes inner → Quotes input left inner []

/-- The word stands among the words behind all of `front` and in front of all of `back`. -/
def StandsBetween (words : List Word) (front : Text) (word : Word) (back : Text) : Prop :=
  ∃ before after, words = before ++ word :: after ∧ textOf before = front ∧ textOf after = back

/-- The words render the input without loss. -/
structure Faithful (input : Text) (words : List Word) : Prop where
  texts : textOf words = kept .start input
  nonempty : ∀ word ∈ words, word.text ≠ []
  stretches : ∀ before word after, words = before ++ word :: after →
    ∃ left stretch right, input = left ++ (stretch ++ right) ∧
      textOf before = kept .start left ∧
      word.text = kept (Mode.start.behind left) stretch ∧
      textOf after = kept (Mode.start.behind (left ++ stretch)) right ∧
      Unbroken (Mode.start.behind left) stretch
  /-- What quotes enclose is one word, unless nothing is kept of it. -/
  enclosed : ∀ left inner right, Quotes input left inner right → kept .inQuotes inner ≠ [] →
    StandsBetween words (kept .start left) ⟨kept .inQuotes inner, none, true⟩ (kept .start right)
  /-- Every quoted word is what some quotes enclose. -/
  quoted : ∀ before word after, words = before ++ word :: after → word.quoted = true →
    ∃ left inner right, Quotes input left inner right ∧ textOf before = kept .start left ∧
      word.text = kept .inQuotes inner ∧ textOf after = kept .start right
  punctuation : ∀ left char right, input = left ++ char :: right →
    Mode.start.behind left = .start → isPunctuation char = true →
      StandsBetween words (kept .start left) (plain [char]) (kept .start right)
  signs : ∀ word ∈ words, word.quoted = false →
    word.text ∈ Comparator.signs ∨ ∀ sign ∈ Comparator.signs, ¬ sign <:+: word.text

theorem text_of_spans (spans : List Span) :
    textOf (spans.flatMap Span.words) = spansText spans := by
  induction spans with
  | nil => rfl
  | cons span rest induction =>
      rw [List.flatMap_cons, text_of_append, induction, spans_text_cons]
      exact congrArg (· ++ spansText rest) span.flatten_words

theorem text_of_plain_spans (mode : Mode) (text : Text) :
    textOf ((plainSpans mode text).flatMap Span.words) = kept mode text := by
  rw [text_of_spans, spans_text_plain]

theorem scan_eq (input : Text) : scan input none = (plainSpans .start input).flatMap Span.words :=
  rfl

theorem unquoted_place_cursor (cursor : Option Nat) (pieces : List Text) :
    ∀ word ∈ placeCursor cursor pieces, word.quoted = false := by
  induction pieces generalizing cursor with
  | nil => exact List.forall_mem_nil _
  | cons piece rest induction =>
      cases cursor with
      | none => exact List.forall_mem_cons.mpr ⟨rfl, induction none⟩
      | some offset =>
          rw [placeCursor]
          split
          · exact List.forall_mem_cons.mpr ⟨rfl, induction none⟩
          · exact List.forall_mem_cons.mpr ⟨rfl, induction _⟩

theorem Span.word_cases (span : Span) (word : Word) (member : word ∈ span.words) :
    (span.quoted = true ∧ span.words = [word] ∧ word.quoted = true) ∨
      (word.quoted = false ∧ word.text ∈ Comparator.cutSigns span.text) := by
  rw [words] at member ⊢
  split at member
  · exact absurd member (by simp)
  · next written =>
      rw [if_neg written]
      split at member
      · next quoted =>
          obtain rfl := List.mem_singleton.mp member
          exact .inl ⟨quoted, if_pos quoted, rfl⟩
      · refine .inr ⟨unquoted_place_cursor _ _ word member, ?_⟩
        rw [← text_place_cursor span.cursor (Comparator.cutSigns span.text)]
        exact List.mem_map_of_mem member

theorem scan_stretches (input : Text) (before : List Word) (word : Word) (after : List Word)
    (split : scan input none = before ++ word :: after) :
    ∃ left stretch right, input = left ++ (stretch ++ right) ∧
      textOf before = kept .start left ∧
      word.text = kept (Mode.start.behind left) stretch ∧
      textOf after = kept (Mode.start.behind (left ++ stretch)) right ∧
      Unbroken (Mode.start.behind left) stretch := by
  obtain ⟨earlier, span, later, inner, outer, spans, words, rfl, rfl⟩ :=
    flat_map_split Span.words _ before after word split
  obtain ⟨left, middle, right, stretch⟩ := exists_stretch .start input earlier span later spans
  have whole : kept (Mode.start.behind left) middle =
      textOf inner ++ (word.text ++ textOf outer) := by
    rw [← stretch.kept, ← text_of_cons, ← text_of_append, ← words]
    exact span.flatten_words.symm
  -- The stretch of the span is divided as its text is divided into words.
  obtain ⟨front, others, rfl, front_kept, others_kept⟩ := exists_kept_split _ _ _ _ whole
  obtain ⟨here, back, rfl, here_kept, back_kept⟩ := exists_kept_split _ _ _ _ others_kept
  refine ⟨left ++ front, here, back ++ right, ?_, ?_, ?_, ?_, ?_⟩
  · rw [stretch.whole]
    simp only [List.append_assoc]
  · rw [text_of_append, text_of_spans, stretch.earlier, kept_append, front_kept]
  · rw [behind_append, here_kept]
  · have later := stretch.later
    simp only [behind_append] at later ⊢
    rw [text_of_append, text_of_spans, later, kept_append, back_kept]
  · rw [behind_append]
    exact unbroken_part _ front here back stretch.unbroken

theorem quotes_of_span (input : Text) (earlier : List Span) (span : Span) (later : List Span)
    (split : plainSpans .start input = earlier ++ span :: later) (quoted : span.quoted = true) :
    ∃ left inner right, Quotes input left inner right ∧ spansText earlier = kept .start left ∧
      span.text = kept .inQuotes inner ∧ spansText later = kept .start right := by
  obtain ⟨front, inner, back, stretch⟩ := exists_stretch .start input earlier span later split
  obtain ⟨_, inside⟩ | ⟨left, rfl, outside⟩ := stretch.opens quoted
  · cases inside
  · have opened : Mode.start.behind (left ++ ['"']) = .inQuotes := by
      rw [behind_append, outside]
      rfl
    have dropped : kept .start (left ++ ['"']) = kept .start left := by
      rw [kept_append, outside]
      exact List.append_nil _
    have whole := stretch.whole
    have text := stretch.kept
    have later := stretch.later
    have unbroken := stretch.unbroken
    rw [List.append_assoc, List.singleton_append] at whole
    rw [behind_append] at later
    rw [opened] at text later unbroken
    rw [stretch.earlier, dropped]
    obtain rfl | ⟨right, rfl, closed⟩ := stretch.closes quoted
    · rw [List.append_nil] at whole
      exact ⟨left, inner, [], .unclosed whole outside unbroken, rfl, text, later⟩
    · rw [behind_append, opened] at closed
      rw [closed] at later
      exact ⟨left, inner, right, .closed right whole outside unbroken closed, rfl, text, later⟩

theorem scan_quoted (input : Text) (before : List Word) (word : Word) (after : List Word)
    (split : scan input none = before ++ word :: after) (quoted : word.quoted = true) :
    ∃ left inner right, Quotes input left inner right ∧ textOf before = kept .start left ∧
      word.text = kept .inQuotes inner ∧ textOf after = kept .start right := by
  obtain ⟨earlier, span, later, inner, outer, spans, words, rfl, rfl⟩ :=
    flat_map_split Span.words _ before after word split
  have member : word ∈ span.words := by rw [words]; simp
  rcases span.word_cases word member with ⟨enclosed, alone, _⟩ | ⟨unquoted, _⟩
  · have text := span.flatten_words
    rw [alone, List.map_singleton, List.flatten_singleton] at text
    rw [alone] at words
    obtain ⟨rfl, rfl⟩ : inner = [] ∧ outer = [] := by
      cases inner with
      | nil => exact ⟨rfl, (List.cons.inj words).2.symm⟩
      | cons first inner => exact absurd (List.cons.inj words).2 (by simp)
    rw [List.append_nil, List.nil_append, text_of_spans, text_of_spans, text]
    exact quotes_of_span input earlier span later spans enclosed
  · rw [quoted] at unquoted
    cases unquoted

theorem words_enclosed (inner : Text) (written : kept .inQuotes inner ≠ [])
    (unbroken : Unbroken .inQuotes inner) :
    (plainSpans .inQuotes inner).flatMap Span.words = [⟨kept .inQuotes inner, none, true⟩] := by
  rw [plain_spans_quoted .inQuotes inner rfl unbroken, List.flatMap_singleton]
  exact Span.words_quoted ⟨kept .inQuotes inner, none, true⟩ (sound_of_unmarked _ written rfl)

theorem scan_enclosed (input left inner right : Text) (quotes : Quotes input left inner right)
    (written : kept .inQuotes inner ≠ []) :
    StandsBetween (scan input none) (kept .start left) ⟨kept .inQuotes inner, none, true⟩
      (kept .start right) := by
  have front := text_of_plain_spans .start left
  have enclosed := words_enclosed inner written
  cases quotes with
  | closed right whole outside unbroken inside =>
      have opens : plainSpans .start input =
          plainSpans .start left ++ plainSpans .inQuotes (inner ++ '"' :: right) := by
        rw [whole]
        exact plain_spans_at_quote .start left _ false outside
      have closes : plainSpans .inQuotes (inner ++ '"' :: right) =
          plainSpans .inQuotes inner ++ plainSpans .start right :=
        plain_spans_at_quote .inQuotes inner right true inside
      refine ⟨_, _, ?_, front, text_of_plain_spans .start right⟩
      rw [scan_eq, opens, closes, List.flatMap_append, List.flatMap_append, enclosed unbroken]
      rfl
  | unclosed whole outside unbroken =>
      have opens : plainSpans .start input =
          plainSpans .start left ++ plainSpans .inQuotes inner := by
        rw [whole]
        exact plain_spans_at_quote .start left inner false outside
      refine ⟨_, [], ?_, front, rfl⟩
      rw [scan_eq, opens, List.flatMap_append, enclosed unbroken]

theorem scan_punctuation (left right : Text) (char : Char)
    (outside : Mode.start.behind left = .start) (punctuation : isPunctuation char = true) :
    StandsBetween (scan (left ++ char :: right) none) (kept .start left) (plain [char])
      (kept .start right) := by
  have divided :=
    scan_divided none left right char [plain [char]] (.punctuation punctuation) outside
  exact ⟨_, _, divided, text_of_plain_spans .start left, text_of_plain_spans .start right⟩

theorem scan_signs (input : Text) :
    ∀ word ∈ scan input none, word.quoted = false →
      word.text ∈ Comparator.signs ∨ ∀ sign ∈ Comparator.signs, ¬ sign <:+: word.text := by
  intro word member unquoted
  obtain ⟨span, _, inside⟩ := List.mem_flatMap.mp member
  rcases span.word_cases word inside with ⟨_, _, quoted⟩ | ⟨_, piece⟩
  · rw [quoted] at unquoted
    cases unquoted
  · exact Comparator.cut_signs_clears span.text word.text piece

/-- Scanning loses no character of any input. -/
theorem scan_faithful (input : Text) : Faithful input (scan input none) where
  texts := text_of_plain_spans .start input
  nonempty := fun word member => (sound_scan input none word member).nonempty
  stretches := scan_stretches input
  enclosed := scan_enclosed input
  quoted := scan_quoted input
  punctuation := by
    rintro left char right rfl outside punctuation
    exact scan_punctuation left right char outside punctuation
  signs := scan_signs input

example : scan "n>=\\\"1,\"a b\"\"\"(\"c\\".toList none =
    [plain "n".toList, plain ">=".toList, plain "\"1".toList, plain [','], quote "a b".toList,
      plain ['('], quote "c".toList] := by decide

end FilterQuery.Word
