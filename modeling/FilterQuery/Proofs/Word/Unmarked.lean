import FilterQuery.Proofs.Word.Cursor
import Mathlib

/-!
The cursor has no part in how an input is divided into words. Without their cursors the words of an
input are those that are read when the cursor is absent.
-/

set_option autoImplicit false

namespace FilterQuery.Word

def unmark (text : List (Char × Bool)) : List (Char × Bool) :=
  text.map fun marked => (marked.1, false)

def Reading.unmarked : Reading → Reading
  | .kept char _ => .kept char false
  | .boundary quoted => .boundary quoted

def Span.unmarked (span : Span) : Span := { span with characters := unmark span.characters }

@[simp] theorem unmark_mark_cursor (cursor : Option Nat) (text : Text) :
    unmark (markCursor cursor text) = markCursor none text := by
  induction text generalizing cursor with
  | nil => rfl
  | cons char rest induction =>
      rw [mark_cursor_cons, mark_cursor_cons, unmark, List.map_cons, Option.map_none,
        ← induction (cursor.map (· - 1))]
      rfl

theorem read_unmarked (mode : Mode) (char : Char) (typed : Bool) :
    mode.read char false = (mode.read char typed).map Reading.unmarked := by
  rw [Mode.read, Mode.read]
  repeat' split
  all_goals rfl

theorem readings_unmark (mode : Mode) (text : List (Char × Bool)) :
    readings mode (unmark text) = (readings mode text).map Reading.unmarked := by
  induction text generalizing mode with
  | nil => rfl
  | cons marked rest induction =>
      obtain ⟨char, typed⟩ := marked
      rw [readings, List.map_append, ← read_unmarked, ← induction]
      rfl

theorem spans_unmarked (readings : List Reading) :
    spans (readings.map Reading.unmarked) = (spans readings).map Span.unmarked := by
  induction readings with
  | nil => rfl
  | cons reading rest induction =>
      cases reading with
      | boundary quoted => exact congrArg (List.cons ⟨[], quoted⟩) induction
      | kept char typed =>
          rw [List.map_cons, Reading.unmarked, spans, spans, induction]
          cases spans rest with
          | nil => rfl
          | cons span later => rfl

theorem place_cursor_unmarked (cursor : Option Nat) (pieces : List Text) :
    placeCursor none pieces = (placeCursor cursor pieces).map unmarked := by
  induction pieces generalizing cursor with
  | nil => rfl
  | cons piece rest induction =>
      cases cursor with
      | none => exact congrArg (List.cons (plain piece)) (induction none)
      | some offset =>
          rw [placeCursor, placeCursor]
          split
          · exact congrArg (List.cons (plain piece)) (induction none)
          · exact congrArg (List.cons (plain piece)) (induction _)

namespace Span

@[simp] theorem text_unmarked (span : Span) : span.unmarked.text = span.text := by
  rw [text, unmarked, unmark, List.map_map]
  rfl

@[simp] theorem cursor_unmarked (span : Span) : span.unmarked.cursor = none := by
  rw [cursor, unmarked, unmark, List.findIdx?_map]
  simp [Function.comp_def]

@[simp]
theorem words_unmarked (span : Span) : span.unmarked.words = span.words.map Word.unmarked := by
  have written : span.unmarked.characters.isEmpty = span.characters.isEmpty := List.isEmpty_map
  rw [words, words, written, text_unmarked, cursor_unmarked]
  split
  · rfl
  · change (if span.quoted = true then _ else _) = _
    split
    · rfl
    · exact place_cursor_unmarked span.cursor _

end Span

/-- The cursor changes nothing but cursors in what is scanned. -/
theorem scan_unmarked (input : Text) (cursor : Option Nat) :
    (scan input cursor).map Word.unmarked = scan input none := by
  rw [scan, scan, List.map_flatMap, ← unmark_mark_cursor cursor, readings_unmark, spans_unmarked,
    List.flatMap_map]
  exact List.flatMap_congr fun span _ => span.words_unmarked.symm

end FilterQuery.Word
