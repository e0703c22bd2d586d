import FilterQuery.Proofs.Comparator
import FilterQuery.Proofs.Tree.Conditions
import FilterQuery.Proofs.Word.Cursor
import Mathlib

/-!
What scanning makes of any input: no word is empty, a cursor stands behind a character of its own
word, and at most one word carries a cursor.
-/

set_option autoImplicit false

namespace FilterQuery.Word

def Reading.isTyped : Reading → Bool
  | .kept _ typed => typed
  | .boundary _ => false

theorem count_read (mode : Mode) (char : Char) (typed : Bool) :
    (mode.read char typed).countP Reading.isTyped ≤ typed.toNat := by
  rw [Mode.read]
  repeat' split
  all_goals cases typed <;> simp [List.countP_cons, Reading.isTyped]

theorem count_readings (mode : Mode) (text : List (Char × Bool)) :
    (readings mode text).countP Reading.isTyped ≤ text.countP Prod.snd := by
  induction text generalizing mode with
  | nil => exact Nat.le_refl 0
  | cons marked text induction =>
      obtain ⟨char, typed⟩ := marked
      have here := count_read mode char typed
      have later := induction (mode.after char)
      have count : ((char, typed) :: text).countP Prod.snd =
          text.countP Prod.snd + typed.toNat := by
        cases typed <;> simp
      rw [readings, List.countP_append, count]
      omega

theorem count_spans (readings : List Reading) :
    ((spans readings).flatMap Span.characters).countP Prod.snd ≤
      readings.countP Reading.isTyped := by
  induction readings with
  | nil => exact Nat.le_refl 0
  | cons reading rest induction =>
      cases reading with
      | boundary quoted => exact induction
      | kept char typed =>
          rw [spans]
          cases rest : spans rest with
          | nil => exact Nat.zero_le _
          | cons span later =>
              rw [rest, List.flatMap_cons] at induction
              rw [List.flatMap_cons, List.cons_append, List.countP_cons, List.countP_cons]
              exact Nat.add_le_add_right induction _

theorem sound_place_cursor (cursor : Option Nat) (pieces : List Text)
    (nonempty : ∀ piece ∈ pieces, piece ≠ [])
    (positive : ∀ offset, cursor = some offset → 0 < offset) :
    ∀ word ∈ placeCursor cursor pieces, word.Sound := by
  induction pieces generalizing cursor with
  | nil => simp [placeCursor]
  | cons piece rest induction =>
      have written := nonempty piece (by simp)
      have later := fun cursor => induction cursor fun other member =>
        nonempty other (List.mem_cons_of_mem piece member)
      have plain : (plain piece).Sound := sound_of_unmarked _ written rfl
      intro word member
      cases cursor with
      | none =>
          rcases List.mem_cons.mp member with rfl | behind
          · exact plain
          · exact later none (by simp) word behind
      | some offset =>
          rw [placeCursor] at member
          split at member
          · next inside =>
              rcases List.mem_cons.mp member with rfl | behind
              · refine ⟨written, ?_⟩
                rintro other same
                obtain rfl := Option.some.inj same
                exact ⟨positive offset rfl, inside⟩
              · exact later none (by simp) word behind
          · next beyond =>
              rcases List.mem_cons.mp member with rfl | behind
              · exact plain
              · refine later _ ?_ word behind
                rintro other same
                obtain rfl := Option.some.inj same
                omega

theorem count_place_cursor (cursor : Option Nat) (pieces : List Text) :
    (placeCursor cursor pieces).countP isMarked ≤ cursor.isSome.toNat := by
  induction pieces generalizing cursor with
  | nil => exact Nat.zero_le _
  | cons piece rest induction =>
      have unmarked : ¬ (plain piece).isMarked = true := Bool.false_ne_true
      cases cursor with
      | none =>
          rw [placeCursor, List.countP_cons_of_neg unmarked]
          exact induction none
      | some offset =>
          rw [placeCursor]
          split
          · rw [List.countP_cons_of_pos rfl]
            exact Nat.succ_le_succ (induction none)
          · rw [List.countP_cons_of_neg unmarked]
            exact induction (some _)

namespace Span

theorem cursor_positive (span : Span) (offset : Nat) (here : span.cursor = some offset) :
    0 < offset ∧ offset ≤ span.text.length ∧ 0 < span.characters.countP Prod.snd := by
  obtain ⟨index, found, rfl⟩ := Option.map_eq_some_iff.mp here
  obtain ⟨inside, typed, _⟩ := List.findIdx?_eq_some_iff_getElem.mp found
  refine ⟨Nat.succ_pos index, ?_, ?_⟩
  · rw [text, List.length_map]
    exact inside
  · exact List.countP_pos_iff.mpr ⟨_, List.getElem_mem inside, typed⟩

theorem sound_words (span : Span) : ∀ word ∈ span.words, word.Sound := by
  rw [words]
  split
  · simp
  · next written =>
      have nonempty : span.text ≠ [] := by
        intro empty
        exact written (List.isEmpty_iff.mpr (List.map_eq_nil_iff.mp empty))
      split
      · intro word member
        obtain rfl := List.mem_singleton.mp member
        refine ⟨nonempty, ?_⟩
        intro offset here
        have bounds := cursor_positive span offset here
        exact ⟨bounds.1, bounds.2.1⟩
      · apply sound_place_cursor _ _ (Comparator.cut_signs_nonempty _ nonempty)
        intro offset here
        exact (cursor_positive span offset here).1

theorem count_words (span : Span) :
    span.words.countP isMarked ≤ span.characters.countP Prod.snd := by
  have cursor : span.cursor.isSome.toNat ≤ span.characters.countP Prod.snd := by
    cases here : span.cursor with
    | none => exact Nat.zero_le _
    | some offset => exact (cursor_positive span offset here).2.2
  refine Nat.le_trans ?_ cursor
  rw [words]
  split
  · exact Nat.zero_le _
  · split
    · rw [List.countP_singleton, isMarked]
      cases span.cursor.isSome <;> decide
    · exact count_place_cursor _ _

end Span

theorem sound_scan (input : Text) (cursor : Option Nat) :
    ∀ word ∈ scan input cursor, word.Sound := by
  intro word member
  obtain ⟨span, _, inside⟩ := List.mem_flatMap.mp member
  exact span.sound_words word inside

theorem count_scan (input : Text) (cursor : Option Nat) :
    (scan input cursor).countP isMarked ≤ 1 := by
  have eachSpan : ∀ spans : List Span, (spans.flatMap Span.words).countP isMarked ≤
      (spans.flatMap Span.characters).countP Prod.snd := by
    intro spans
    induction spans with
    | nil => exact Nat.le_refl 0
    | cons span rest induction =>
        rw [List.flatMap_cons, List.flatMap_cons, List.countP_append, List.countP_append]
        exact Nat.add_le_add span.count_words induction
  calc
    (scan input cursor).countP isMarked ≤ _ := eachSpan _
    _ ≤ _ := count_spans _
    _ ≤ _ := count_readings .start _
    _ ≤ 1 := count_mark_cursor cursor input

end FilterQuery.Word
