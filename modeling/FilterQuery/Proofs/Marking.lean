import FilterQuery.Proofs.Word.Kept
import FilterQuery.Proofs.Word.Scan

/-!
The cursor in the words of an input. It is found again in exactly one word, behind as many kept
characters as stand in front of it in the input, provided that the character right before it is
kept; otherwise no word carries it.
-/

set_option autoImplicit false

namespace FilterQuery.Word

/-- How many characters the words have together. -/
def totalLength (words : List Word) : Nat := (words.map length).sum

@[simp] theorem total_length_append (left right : List Word) :
    totalLength (left ++ right) = totalLength left + totalLength right := by
  rw [totalLength, List.map_append, List.sum_append]
  rfl

theorem total_length_eq (words : List Word) :
    totalLength words = ((words.map text).flatten).length := by
  rw [totalLength, List.length_flatten, List.map_map]
  rfl

/-- Exactly one word carries a cursor. It stands behind at least one character of this word, and
behind `count` characters of all words. -/
def MarkedBehind (words : List Word) (count : Nat) : Prop :=
  ∃ before word after offset, words = before ++ word :: after ∧ word.cursor = some offset ∧
    1 ≤ offset ∧ offset ≤ word.length ∧ (∀ other ∈ before ++ after, other.cursor = none) ∧
    totalLength before + offset = count

theorem marked_between (front back words : List Word) (count : Nat)
    (marked : MarkedBehind words count) (unmarked : ∀ word ∈ front ++ back, word.cursor = none) :
    MarkedBehind (front ++ (words ++ back)) (totalLength front + count) := by
  obtain ⟨before, word, after, offset, rfl, here, positive, inside, others, rfl⟩ := marked
  refine ⟨front ++ before, word, after ++ back, offset, by simp, here, positive, inside, ?_, ?_⟩
  · intro other member
    simp only [List.mem_append] at member others unmarked
    rcases member with (first | second) | third | fourth
    · exact unmarked other (.inl first)
    · exact others other (.inl second)
    · exact others other (.inr third)
    · exact unmarked other (.inr fourth)
  · rw [total_length_append, Nat.add_assoc]

/-- The pieces of a text with the cursor behind `offset` of its characters. -/
theorem marked_place_cursor (offset : Nat) (pieces : List Text) (positive : 1 ≤ offset)
    (inside : offset ≤ pieces.flatten.length) :
    MarkedBehind (placeCursor (some offset) pieces) offset := by
  induction pieces generalizing offset with
  | nil => exact absurd (positive.trans inside) (by decide)
  | cons piece rest induction =>
      rw [placeCursor]
      split
      · next here =>
          have others : ∀ other ∈ [] ++ placeCursor none rest, other.cursor = none := by
            simp [plain]
          exact ⟨[], (plain piece).withCursor offset, placeCursor none rest, offset, rfl, rfl,
            positive, here, others, Nat.zero_add offset⟩
      · next beyond =>
          rw [List.flatten_cons, List.length_append] at inside
          have later := induction (offset - piece.length) (by omega) (by omega)
          have whole := marked_between [plain piece] [] _ _ later (by simp [plain])
          rw [List.append_nil] at whole
          have count : totalLength [plain piece] + (offset - piece.length) = offset := by
            change piece.length + 0 + (offset - piece.length) = offset
            omega
          rwa [count] at whole

namespace Span

theorem unmarked_words (span : Span) (unmarked : ∀ marked ∈ span.characters, marked.2 = false) :
    ∀ word ∈ span.words, word.cursor = none := by
  have absent : span.cursor = none := by
    rw [cursor, List.findIdx?_eq_none_iff.mpr unmarked]
    rfl
  rw [words, absent]
  split
  · exact List.forall_mem_nil _
  · split
    · simp
    · simp [plain]

theorem marked_words (span : Span) (front back : List (Char × Bool)) (char : Char)
    (split : span.characters = front ++ (char, true) :: back)
    (unmarked : ∀ marked ∈ front, marked.2 = false) :
    MarkedBehind span.words (front.length + 1) := by
  have here : span.cursor = some (front.length + 1) := by
    rw [cursor, split, List.findIdx?_append, List.findIdx?_eq_none_iff.mpr unmarked]
    exact congrArg (fun index => some (index + 1)) (Nat.zero_add front.length)
  have inside : front.length + 1 ≤ span.text.length := by
    rw [text, split]
    simp
  have some : span.characters.isEmpty = false := by
    rw [split, List.isEmpty_eq_false_iff]
    simp
  rw [words, some, if_neg Bool.false_ne_true, here]
  split
  · exact ⟨[], ⟨span.text, _, true⟩, [], front.length + 1, rfl, rfl, Nat.le_add_left 1 _, inside,
      List.forall_mem_nil _, Nat.zero_add _⟩
  · apply marked_place_cursor _ _ (Nat.le_add_left 1 _)
    rwa [Comparator.flatten_cut_signs]

end Span

theorem total_length_spans (spans : List Span) :
    totalLength (spans.flatMap Span.words) = (spans.flatMap Span.characters).length := by
  induction spans with
  | nil => rfl
  | cons span rest induction =>
      rw [List.flatMap_cons, List.flatMap_cons, total_length_append, induction, List.length_append,
        total_length_eq, span.flatten_words, Span.text, List.length_map]

theorem unmarked_spans (spans : List Span)
    (unmarked : ∀ marked ∈ spans.flatMap Span.characters, marked.2 = false) :
    ∀ word ∈ spans.flatMap Span.words, word.cursor = none := by
  intro word member
  obtain ⟨span, listed, inside⟩ := List.mem_flatMap.mp member
  apply span.unmarked_words _ word inside
  intro marked contained
  exact unmarked marked (List.mem_flatMap.mpr ⟨span, listed, contained⟩)

theorem marked_spans (spans : List Span) (front back : List (Char × Bool)) (char : Char)
    (split : spans.flatMap Span.characters = front ++ (char, true) :: back)
    (unmarked : ∀ marked ∈ front ++ back, marked.2 = false) :
    MarkedBehind (spans.flatMap Span.words) (front.length + 1) := by
  obtain ⟨earlier, span, later, inner, outer, rfl, here, rfl, rfl⟩ :=
    flat_map_split Span.characters spans front back _ split
  have marked := span.marked_words inner outer char here fun marked member =>
    unmarked marked (by simp [member])
  have others : ∀ word ∈ earlier.flatMap Span.words ++ later.flatMap Span.words,
      word.cursor = none := by
    rw [← List.flatMap_append]
    apply unmarked_spans
    intro marked member
    rw [List.flatMap_append, List.mem_append] at member
    apply unmarked marked
    rcases member with first | last
    · exact List.mem_append_left _ (List.mem_append_left _ first)
    · exact List.mem_append_right _ (List.mem_append_right _ last)
  have whole := marked_between _ _ _ _ marked others
  rw [total_length_spans, ← Nat.add_assoc, ← List.length_append] at whole
  rwa [List.flatMap_append, List.flatMap_cons]

theorem mark_cursor_behind (front rest : Text) (char : Char) :
    markCursor (some (front.length + 1)) (front ++ char :: rest) =
      markCursor none front ++ (char, true) :: markCursor none rest := by
  rw [mark_cursor_append_cons, mark_cursor_beyond front 1 Nat.one_pos, Option.map_some,
    Nat.sub_self, mark_cursor_zero, beq_self_eq_true]

theorem mark_cursor_none (input : Text) : ∀ marked ∈ markCursor none input, marked.2 = false := by
  induction input with
  | nil => exact List.forall_mem_nil _
  | cons char rest induction =>
      rw [mark_cursor_cons]
      exact List.forall_mem_cons.mpr ⟨rfl, induction⟩

/-- Whether the character at an index of an input exists and is kept. -/
def keptAt (input : Text) (index : Nat) : Bool :=
  input[index]?.any (Mode.start.behind (input.take index)).keeps

theorem split_at_cursor (input : Text) (offset : Nat) (positive : 1 ≤ offset)
    (inside : offset ≤ input.length) :
    ∃ front char rest, input = front ++ char :: rest ∧ offset = front.length + 1 := by
  have before : offset - 1 < input.length := by omega
  refine ⟨input.take (offset - 1), input[offset - 1], input.drop (offset - 1 + 1), ?_, ?_⟩
  · rw [← List.drop_eq_getElem_cons before, List.take_append_drop]
  · rw [List.length_take, Nat.min_eq_left before.le]
    omega

theorem kept_at_eq (front rest : Text) (char : Char) :
    keptAt (front ++ char :: rest) front.length = (Mode.start.behind front).keeps char := by
  rw [keptAt, List.getElem?_append_right (Nat.le_refl _), Nat.sub_self, List.take_left]
  rfl

theorem kept_inside (input : Text) (index : Nat) (kept : keptAt input index = true) :
    index < input.length := by
  by_contra outside
  rw [keptAt, List.getElem?_eq_none (Nat.le_of_not_lt outside)] at kept
  cases kept

theorem marked_scan (front rest : Text) (char : Char)
    (keeps : (Mode.start.behind front).keeps char = true) :
    MarkedBehind (scan (front ++ char :: rest) (some (front.length + 1)))
      (kept .start (front ++ [char])).length := by
  have unmarked : ∀ (mode : Mode) (text : Text), ∀ marked ∈ keptMarked mode (markCursor none text),
      marked.2 = false := fun mode text marked member =>
    mark_cursor_none text marked ((kept_marked_sublist mode _).subset member)
  have split : (spans (readings .start
      (markCursor (some (front.length + 1)) (front ++ char :: rest)))).flatMap Span.characters =
        keptMarked .start (markCursor none front) ++ (char, true) ::
          keptMarked ((Mode.start.behind front).after char) (markCursor none rest) := by
    rw [characters_spans, mark_cursor_behind, kept_marked_append, text_mark_cursor, keptMarked,
      if_pos keeps]
  have marked := marked_spans _ _ _ char split fun marked member => by
    rcases List.mem_append.mp member with first | last
    · exact unmarked _ _ marked first
    · exact unmarked _ _ marked last
  have count : (keptMarked .start (markCursor none front)).length = (kept .start front).length := by
    rw [← List.length_map Prod.fst, text_kept_marked, text_mark_cursor]
  rw [count] at marked
  rwa [kept_append, kept_singleton _ char keeps, List.length_append, List.length_singleton]

theorem unmarked_scan (input : Text) (offset : Nat)
    (unmarked : ∀ marked ∈ keptMarked .start (markCursor (some offset) input), marked.2 = false) :
    ∀ word ∈ scan input (some offset), word.cursor = none := by
  apply unmarked_spans
  rwa [characters_spans]

theorem unmarked_scan_dropped (front rest : Text) (char : Char)
    (drops : (Mode.start.behind front).keeps char = false) :
    ∀ word ∈ scan (front ++ char :: rest) (some (front.length + 1)), word.cursor = none := by
  apply unmarked_scan
  rw [mark_cursor_behind, kept_marked_append, text_mark_cursor, keptMarked, drops,
    if_neg Bool.false_ne_true]
  intro marked member
  rcases List.mem_append.mp member with first | last
  · exact mark_cursor_none front marked ((kept_marked_sublist _ _).subset first)
  · exact mark_cursor_none rest marked ((kept_marked_sublist _ _).subset last)

/-- Gives the cursor to a piece of a span, with the offset counted from the first character of the
span and the piece behind `start` characters. There is no result if the cursor stands in front of a
piece that it is looked for in, where the offset in the piece would be negative. -/
def placeFrom : Option Nat → Nat → List Text → Option (List Word)
  | _, _, [] => some []
  | none, start, piece :: rest =>
      (placeFrom none (start + piece.length) rest).map (plain piece :: ·)
  | some offset, start, piece :: rest =>
      if offset < start then none
      else if offset - start ≤ piece.length then
        (placeFrom none (start + piece.length) rest).map
          ((plain piece).withCursor (offset - start) :: ·)
      else (placeFrom (some offset) (start + piece.length) rest).map (plain piece :: ·)

theorem place_from_eq (cursor : Option Nat) (start : Nat) (pieces : List Text) :
    placeFrom (cursor.map (start + ·)) start pieces = some (placeCursor cursor pieces) := by
  induction pieces generalizing cursor start with
  | nil => cases cursor <;> rfl
  | cons piece rest induction =>
      cases cursor with
      | none =>
          rw [Option.map_none, placeFrom, ← Option.map_none, induction]
          rfl
      | some offset =>
          have behind : ¬ start + offset < start := Nat.not_lt.mpr (Nat.le_add_right _ _)
          rw [Option.map_some, placeFrom, if_neg behind, Nat.add_sub_cancel_left, placeCursor]
          split
          · rw [show none = Option.map (start + piece.length + ·) none from rfl, induction]
            rfl
          · next beyond =>
              have rebased : start + offset = start + piece.length + (offset - piece.length) := by
                omega
              have later := induction (some (offset - piece.length)) (start + piece.length)
              rw [Option.map_some, ← rebased] at later
              rw [later]
              rfl

/-- A cursor right behind a kept character stands in exactly one word, at the offset that the kept
characters in front of it leave; any other cursor stands in no word. On the way no offset is ever
counted from behind the cursor. -/
theorem cursor_marks_its_word (input : Text) (offset : Nat) :
    (1 ≤ offset ∧ keptAt input (offset - 1) = true →
      MarkedBehind (scan input (some offset)) (kept .start (input.take offset)).length) ∧
    (¬ (1 ≤ offset ∧ keptAt input (offset - 1) = true) →
      ∀ word ∈ scan input (some offset), word.cursor = none) ∧
    ∀ span ∈ spans (readings .start (markCursor (some offset) input)),
      placeFrom span.cursor 0 (Comparator.cutSigns span.text) =
        some (placeCursor span.cursor (Comparator.cutSigns span.text)) := by
  refine ⟨?_, ?_, ?_⟩
  · rintro ⟨positive, keeps⟩
    have before := kept_inside input _ keeps
    obtain ⟨front, char, rest, rfl, rfl⟩ := split_at_cursor input offset positive (by omega)
    rw [Nat.add_sub_cancel, kept_at_eq] at keeps
    have taken : (front ++ char :: rest).take (front.length + 1) = front ++ [char] := by
      rw [List.take_append, List.take_of_length_le (Nat.le_succ _), Nat.add_sub_cancel_left]
      rfl
    rw [taken]
    exact marked_scan front rest char keeps
  · intro otherwise
    by_cases inside : 1 ≤ offset ∧ offset ≤ input.length
    · obtain ⟨front, char, rest, rfl, rfl⟩ := split_at_cursor input offset inside.1 inside.2
      rw [Nat.add_sub_cancel, kept_at_eq] at otherwise
      apply unmarked_scan_dropped
      rw [Bool.eq_false_iff]
      exact fun keeps => otherwise ⟨inside.1, keeps⟩
    · apply unmarked_scan
      rw [mark_cursor_outside input offset (by omega)]
      intro marked member
      exact mark_cursor_none input marked ((kept_marked_sublist _ _).subset member)
  · intro span _
    have placed := place_from_eq span.cursor 0 (Comparator.cutSigns span.text)
    have same : span.cursor.map (0 + ·) = span.cursor := by
      cases span.cursor with
      | none => rfl
      | some offset => exact congrArg some (Nat.zero_add offset)
    rw [same] at placed
    exact placed

/-- An escaped blank and a sign in one span: `pod\ na=<x`. -/
def escapedInput : Text := ['p', 'o', 'd', '\\', ' ', 'n', 'a', '=', '<', 'x']

theorem cursor_marks_its_word_escaped :
    scan escapedInput (some 8) =
        [.plain "pod na".toList, (Word.plain ['=']).withCursor 1, .plain ['<'], .plain ['x']] ∧
      MarkedBehind (scan escapedInput (some 8)) 7 ∧ keptAt escapedInput 3 = false ∧
      ∀ word ∈ scan escapedInput (some 4), word.cursor = none := by
  have behind := (cursor_marks_its_word escapedInput 8).1 (by decide)
  have dropped := (cursor_marks_its_word escapedInput 4).2.1 (by decide)
  exact ⟨rfl, behind, rfl, dropped⟩

end FilterQuery.Word
