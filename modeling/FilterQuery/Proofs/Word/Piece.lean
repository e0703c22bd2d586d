import FilterQuery.Proofs.Comparator
import FilterQuery.Proofs.Word.Cursor
import Mathlib

/-!
Written text as pieces: blanks, punctuation, plain words and words in quotes. Scanning a text that
is written piece by piece gives back the words of the pieces, each with its cursor, provided that
no plain word stands directly behind another one.
-/

set_option autoImplicit false

namespace FilterQuery

namespace Printed

@[simp] theorem plain_nil_append (printed : Printed) : plain [] ++ printed = printed := by
  apply Printed.ext
  · rfl
  · simp

@[simp] theorem append_plain_nil (printed : Printed) : printed ++ plain [] = printed := by
  apply Printed.ext
  · simp
  · simp

end Printed

namespace Word

def wordsOf (readings : List Reading) : List Word := (spans readings).flatMap Span.words

@[simp] theorem words_of_boundary (quoted : Bool) (rest : List Reading) :
    wordsOf (.boundary quoted :: rest) = wordsOf rest := rfl

def keep (text : List (Char × Bool)) : List Reading :=
  text.map fun (char, typed) => .kept char typed

theorem spans_keep (text : List (Char × Bool)) (quoted : Bool) (rest : List Reading) :
    spans (keep text ++ .boundary quoted :: rest) = ⟨text, quoted⟩ :: spans rest := by
  induction text with
  | nil => rfl
  | cons marked text induction =>
      obtain ⟨char, typed⟩ := marked
      rw [keep, List.map_cons, List.cons_append, spans]
      rw [keep] at induction
      rw [induction]

theorem words_of_keep (text : List (Char × Bool)) (quoted : Bool) (rest : List Reading) :
    wordsOf (keep text ++ .boundary quoted :: rest) =
      Span.words ⟨text, quoted⟩ ++ wordsOf rest := by
  rw [wordsOf, spans_keep, List.flatMap_cons]
  rfl

/-- Outside quotes such a character is a part of a word and nothing else. -/
def isOrdinary (char : Char) : Bool :=
  char != '\\' && char != '"' && !isBlank char && !isPunctuation char

theorem readings_ordinary (text rest : List (Char × Bool))
    (ordinary : ∀ marked ∈ text, isOrdinary marked.1 = true) :
    readings .start (text ++ rest) = keep text ++ readings .start rest := by
  induction text with
  | nil => rfl
  | cons marked text induction =>
      obtain ⟨char, typed⟩ := marked
      have first := ordinary (char, typed) (by simp)
      simp only [isOrdinary, Bool.and_eq_true, bne_iff_ne, ne_eq, Bool.not_eq_true'] at first
      obtain ⟨⟨⟨backslash, quote⟩, blank⟩, punctuation⟩ := first
      have stays : Mode.start.after char = .start := by
        simp [Mode.after, Mode.start, backslash, quote]
      have kept : Mode.start.read char typed = [.kept char typed] := by
        simp [Mode.read, Mode.start, backslash, quote, blank, punctuation]
      rw [List.cons_append, readings, stays, kept,
        induction fun other member => ordinary other (List.mem_cons_of_mem _ member)]
      rfl

theorem readings_escaped (text rest : List (Char × Bool)) :
    readings ⟨false, true⟩ (escapeMarked text ++ ('"', false) :: rest) =
      keep text ++ .boundary true :: readings .start rest := by
  induction text with
  | nil => rfl
  | cons marked text induction =>
      obtain ⟨char, typed⟩ := marked
      have step : readings ⟨false, true⟩
          (escapeMarked ((char, typed) :: text) ++ ('"', false) :: rest) =
            .kept char typed ::
              readings ⟨false, true⟩ (escapeMarked text ++ ('"', false) :: rest) := by
        rw [escape_marked_cons]
        by_cases special : char = '"' ∨ char = '\\'
        · rw [if_pos special]
          rcases special with rfl | rfl <;> rfl
        · rw [if_neg special]
          rw [not_or] at special
          simp [readings, Mode.read, Mode.after, special.1, special.2]
      rw [step, induction]
      rfl

theorem Span.words_quoted (word : Word) (sound : word.Sound) :
    Span.words ⟨markCursor word.cursor word.text, true⟩ = [{ word with quoted := true }] := by
  have written : (markCursor word.cursor word.text).isEmpty = false := by
    rw [List.isEmpty_eq_false_iff]
    intro empty
    apply sound.nonempty
    rw [← text_mark_cursor word.cursor word.text, empty]
    rfl
  simp only [words, written, text, cursor, text_mark_cursor,
    find_mark_cursor word.cursor word.text sound.cursor]
  rfl

theorem Span.words_plain (word : Word) (sound : word.Sound)
    (whole : Comparator.cutSigns word.text = [word.text]) :
    Span.words ⟨markCursor word.cursor word.text, false⟩ = [{ word with quoted := false }] := by
  have written : (markCursor word.cursor word.text).isEmpty = false := by
    rw [List.isEmpty_eq_false_iff]
    intro empty
    apply sound.nonempty
    rw [← text_mark_cursor word.cursor word.text, empty]
    rfl
  simp only [words, written, text, cursor, text_mark_cursor, whole,
    find_mark_cursor word.cursor word.text sound.cursor]
  obtain ⟨text, cursor, quoted⟩ := word
  cases cursor with
  | none => rfl
  | some offset =>
      have bound := (sound.cursor offset rfl).2
      simp only [length] at bound
      simp [placeCursor, bound, plain, withCursor]

end Word

inductive Piece where
  | blank
  | punctuation (char : Char)
  | plain (word : Word)
  | quoted (word : Word)

namespace Piece

def printed : Piece → Printed
  | .blank => .plain [' ']
  | .punctuation char => .plain [char]
  | .plain word => word.printPlain
  | .quoted word => word.printQuoted

/-- What is read where the piece is written. -/
def words : Piece → List Word
  | .blank => []
  | .punctuation char => [.plain [char]]
  | .plain word => [{ word with quoted := false }]
  | .quoted word => [{ word with quoted := true }]

def Legible : Piece → Prop
  | .blank => True
  | .punctuation char => Word.isPunctuation char = true
  | .plain word => word.Sound ∧ Comparator.cutSigns word.text = [word.text] ∧
      ∀ char ∈ word.text, Word.isOrdinary char = true
  | .quoted word => word.Sound

def isPlain : Piece → Bool
  | .plain _ => true
  | _ => false

/-- Two plain words side by side would be read as one. -/
def Apart (left right : Piece) : Prop := left.isPlain = true → right.isPlain = false

def isMarked (piece : Piece) : Bool := piece.printed.cursor.isSome

def print (pieces : List Piece) : Printed :=
  pieces.foldr (fun piece rest => piece.printed ++ rest) (.plain [])

def marked (piece : Piece) : List (Char × Bool) :=
  Word.markCursor piece.printed.cursor piece.printed.text

@[simp] theorem print_cons (piece : Piece) (rest : List Piece) :
    print (piece :: rest) = piece.printed ++ print rest := rfl

@[simp] theorem print_append (left right : List Piece) :
    print (left ++ right) = print left ++ print right := by
  induction left with
  | nil => exact (Printed.plain_nil_append (print right)).symm
  | cons piece left induction =>
      rw [List.cons_append, print_cons, print_cons, induction, Printed.append_assoc]

theorem printed_cursor_bounds (piece : Piece) (legible : piece.Legible) (offset : Nat)
    (here : piece.printed.cursor = some offset) :
    0 < offset ∧ offset ≤ piece.printed.text.length := by
  cases piece with
  | blank => cases here
  | punctuation char => cases here
  | plain word => exact legible.1.cursor offset here
  | quoted word =>
      obtain ⟨inner, _, rfl⟩ := Option.map_eq_some_iff.mp here
      have bound := Word.length_escape_take_le word.text inner
      simp only [printed, Word.printQuoted, List.length_append, List.length_cons, List.length_nil]
      omega

theorem print_cursor_bounds (lowest : Nat) (pieces : List Piece)
    (bounds : ∀ piece ∈ pieces, ∀ offset, piece.printed.cursor = some offset →
      lowest ≤ offset ∧ offset ≤ piece.printed.text.length)
    (offset : Nat) (here : (print pieces).cursor = some offset) :
    lowest ≤ offset ∧ offset ≤ (print pieces).text.length := by
  induction pieces generalizing offset with
  | nil => cases here
  | cons piece rest induction =>
      rw [print_cons, Printed.cursor_append, Option.or_eq_some_iff] at here
      rw [print_cons, Printed.text_append, List.length_append]
      rcases here with first | ⟨_, later⟩
      · have bounded := bounds piece (by simp) offset first
        omega
      · obtain ⟨inner, found, rfl⟩ := Option.map_eq_some_iff.mp later
        have bounded := induction
          (fun other member => bounds other (List.mem_cons_of_mem _ member)) inner found
        omega

@[simp] theorem print_cursor_is_some (pieces : List Piece) :
    (print pieces).cursor.isSome = pieces.any isMarked := by
  induction pieces with
  | nil => rfl
  | cons piece rest induction =>
      rw [print_cons, Printed.cursor_append, Option.isSome_or, Option.isSome_map, induction,
        List.any_cons]
      rfl

theorem mark_cursor_print (pieces : List Piece) (legible : ∀ piece ∈ pieces, piece.Legible)
    (single : pieces.countP isMarked ≤ 1) :
    Word.markCursor (print pieces).cursor (print pieces).text = pieces.flatMap marked := by
  induction pieces with
  | nil => rfl
  | cons piece rest induction =>
      have legibleRest : ∀ other ∈ rest, other.Legible := fun other member =>
        legible other (List.mem_cons_of_mem _ member)
      rw [List.countP_cons] at single
      have later := induction legibleRest (by omega)
      -- Appending drops the later one of two cursors, so there must not be a second one.
      have unmarked : ∀ offset, piece.printed.cursor = some offset →
          (print rest).cursor = none := by
        intro offset here
        have first : piece.isMarked = true := by rw [isMarked, here]; rfl
        have none : rest.countP isMarked = 0 := by rw [if_pos first] at single; omega
        have absent := print_cursor_is_some rest
        rw [List.any_eq_false.mpr (List.countP_eq_zero.mp none)] at absent
        exact Option.not_isSome_iff_eq_none.mp (by rw [absent]; decide)
      rw [print_cons, Printed.cursor_append, Printed.text_append, List.flatMap_cons, ← later,
        Word.mark_cursor_append, marked]
      cases here : piece.printed.cursor with
      | none =>
          rw [Option.none_or]
          cases found : (print rest).cursor with
          | none => rfl
          | some offset =>
              have bounds := print_cursor_bounds 1 rest
                (fun other member => printed_cursor_bounds other (legibleRest other member))
                offset found
              rw [Option.map_some, Option.map_some, Nat.add_sub_cancel_left,
                Word.mark_cursor_beyond _ _ bounds.1]
      | some offset =>
          have bounds := printed_cursor_bounds piece (legible piece (by simp)) offset here
          rw [unmarked offset here, Option.map_none, Option.or_none, Option.map_some,
            Nat.sub_eq_zero_of_le bounds.2, Word.mark_cursor_zero]

theorem marked_quoted (word : Word) (sound : word.Sound) :
    marked (.quoted word) =
      ('"', false) :: Word.escapeMarked (Word.markCursor word.cursor word.text) ++
        [('"', false)] := by
  obtain ⟨text, cursor, quoted⟩ := word
  change Word.markCursor (cursor.map fun offset => 1 + (Text.escape (text.take offset)).length)
    ('"' :: (Text.escape text ++ ['"'])) = _
  rw [Word.mark_cursor_cons, Word.mark_cursor_append]
  cases cursor with
  | none =>
      rw [Option.map_none, Option.map_none, Word.mark_cursor_escape_none]
      rfl
  | some offset =>
      have bounds := sound.cursor offset rfl
      have inner := Word.mark_cursor_escape text offset bounds.2
      have lower := Word.length_escape_ge (text.take offset)
      have upper := Word.length_escape_take_le text offset
      rw [List.length_take] at lower
      simp only [Word.length] at bounds
      simp only [Option.map_some, Nat.add_sub_cancel_left, inner, Nat.sub_eq_zero_of_le upper,
        Word.mark_cursor_zero]
      have elsewhere : (some (1 + (Text.escape (text.take offset)).length) == some 1) = false := by
        rw [beq_eq_false_iff_ne, ne_eq, Option.some.injEq]
        omega
      rw [elsewhere]
      rfl

theorem marked_plain (word : Word) :
    marked (.plain word) = Word.markCursor word.cursor word.text := rfl

theorem readings_begin_with_boundary (pieces : List Piece)
    (legible : ∀ piece ∈ pieces, piece.Legible)
    (stops : ∀ next ∈ pieces.head?, next.isPlain = false) :
    ∃ later, Word.readings .start (pieces.flatMap marked) = .boundary false :: later := by
  cases pieces with
  | nil => exact ⟨[], rfl⟩
  | cons piece rest =>
      cases piece with
      | blank => exact ⟨_, rfl⟩
      | punctuation char =>
          have known : char = ',' ∨ char = '(' ∨ char = ')' := by
            simpa [Legible, Word.isPunctuation] using legible (.punctuation char) (by simp)
          rcases known with rfl | rfl | rfl <;> exact ⟨_, rfl⟩
      | plain word => exact absurd (stops (.plain word) rfl) (by simp [isPlain])
      | quoted word =>
          rw [List.flatMap_cons, marked_quoted word (legible (.quoted word) (by simp))]
          exact ⟨_, rfl⟩

/-- Every piece is read as its words, whatever stands around it. -/
theorem words_of_pieces (pieces : List Piece) (legible : ∀ piece ∈ pieces, piece.Legible)
    (apart : pieces.IsChain Apart) :
    Word.wordsOf (Word.readings .start (pieces.flatMap marked)) = pieces.flatMap words := by
  induction pieces with
  | nil => rfl
  | cons piece rest induction =>
      have legibleRest : ∀ other ∈ rest, other.Legible := fun other member =>
        legible other (List.mem_cons_of_mem _ member)
      rw [List.isChain_cons] at apart
      have later := induction legibleRest apart.2
      have here := legible piece (by simp)
      rw [List.flatMap_cons, List.flatMap_cons, ← later]
      cases piece with
      | blank => rfl
      | punctuation char =>
          have known : char = ',' ∨ char = '(' ∨ char = ')' := by
            simpa [Legible, Word.isPunctuation] using here
          rcases known with rfl | rfl | rfl <;> rfl
      | plain word =>
          obtain ⟨sound, whole, ordinary⟩ := here
          have kept := Word.readings_ordinary (Word.markCursor word.cursor word.text)
            (rest.flatMap marked) (by
              intro marked member
              apply ordinary
              rw [← Word.text_mark_cursor word.cursor word.text]
              exact List.mem_map_of_mem member)
          -- The word ends only because what is written behind it begins with a boundary.
          obtain ⟨behind, begins⟩ := readings_begin_with_boundary rest legibleRest
            fun next first => apart.1 next first rfl
          rw [marked_plain, kept, begins, Word.words_of_keep, Word.words_of_boundary,
            Word.Span.words_plain word sound whole]
          rfl
      | quoted word =>
          rw [marked_quoted word here, List.cons_append, List.cons_append, List.append_assoc,
            List.singleton_append]
          change Word.wordsOf (.boundary false :: Word.readings ⟨false, true⟩ _) = _
          rw [Word.words_of_boundary, Word.readings_escaped, Word.words_of_keep,
            Word.Span.words_quoted word here]
          rfl

/-- Scanning what is written piece by piece. -/
theorem scan_print (pieces : List Piece) (legible : ∀ piece ∈ pieces, piece.Legible)
    (apart : pieces.IsChain Apart) (single : pieces.countP isMarked ≤ 1) :
    Word.scan (print pieces).text (print pieces).cursor = pieces.flatMap words := by
  rw [← words_of_pieces pieces legible apart, ← mark_cursor_print pieces legible single]
  rfl

end Piece

end FilterQuery
