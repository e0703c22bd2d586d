import FilterQuery.Proofs.Tree.Around

/-!
What is written for a word at its place. A value stands in quotes, and a field where it needs them.
A cursor behind the end of the word is written in front of the last quote, and without quotes as if
the word went on.
-/

set_option autoImplicit false

namespace FilterQuery

namespace Slot

/-- A value is written in quotes, and a field where it needs them. -/
def quotes (slot : Slot) (text : Text) : Text :=
  match slot with
  | .field => if text.needsQuotes then ['"'] else []
  | .value _ => ['"']

def ink (slot : Slot) (text : Text) : Text :=
  match slot with
  | .field => if text.needsQuotes then text.escape else text
  | .value _ => text.escape

theorem quotes_ink_nonempty (slot : Slot) (text : Text) :
    0 < (slot.quotes text ++ slot.ink text).length := by
  rw [List.length_append]
  cases slot with
  | value index => exact Nat.add_pos_left Nat.one_pos _
  | field =>
      rw [quotes, ink]
      cases quoted : text.needsQuotes with
      | true => exact Nat.add_pos_left Nat.one_pos _
      | false => exact Nat.add_pos_right _ (List.length_pos_iff.mpr (text.needs_no_quotes quoted).1)

/-- What is written for a part of the text if the text as a whole decides about the quotes. -/
def inkPart (slot : Slot) (text part : Text) : Text :=
  if slot.quotes text = [] then part else part.escape

@[simp]
theorem ink_part_self (slot : Slot) (text : Text) : slot.inkPart text text = slot.ink text := by
  cases slot with
  | value index => rfl
  | field =>
      rw [inkPart, ink, quotes]
      cases text.needsQuotes <;> rfl

theorem length_ink_part_le (slot : Slot) (text : Text) (offset : Nat) :
    (slot.inkPart text (text.take offset)).length ≤ (slot.ink text).length := by
  rw [← ink_part_self, inkPart, inkPart]
  split
  · exact List.length_take_le' offset text
  · exact Word.length_escape_take_le text offset

/-- Where the cursor stands in what is written for a text. In front of the last quote it stands for
every cursor behind the end, and without quotes it stays as it is. -/
def mark (slot : Slot) (text : Text) (offset : Nat) : Nat :=
  if slot.quotes text = [] then offset
  else (slot.quotes text ++ slot.inkPart text (text.take offset)).length

theorem mark_eq_iff (slot : Slot) (text : Text) (offset : Nat) :
    slot.mark text offset = (slot.quotes text ++ slot.inkPart text (text.take offset)).length ↔
      slot.quotes text ≠ [] ∨ offset ≤ text.length := by
  by_cases plain : slot.quotes text = []
  · rw [mark, inkPart, if_pos plain, if_pos plain, plain, List.nil_append, List.length_take]
    simp only [ne_eq, not_true_eq_false, false_or]
    omega
  · rw [mark, if_neg plain]
    exact iff_of_true rfl (Or.inl plain)

theorem mark_le (slot : Slot) (text : Text) (offset : Nat)
    (inside : slot.quotes text ≠ [] ∨ offset ≤ text.length) :
    slot.mark text offset ≤ (slot.quotes text ++ slot.ink text).length := by
  rw [(slot.mark_eq_iff text offset).mpr inside, List.length_append, List.length_append]
  exact Nat.add_le_add_left (slot.length_ink_part_le text offset) _

theorem printed_piece (slot : Slot) (word : Word) :
    (slot.piece word).printed =
      ⟨slot.quotes word.text ++ slot.ink word.text ++ slot.quotes word.text,
        word.cursor.map (slot.mark word.text)⟩ := by
  have quoted : word.printQuoted = ⟨['"'] ++ word.text.escape ++ ['"'],
      word.cursor.map fun offset => (['"'] ++ Text.escape (word.text.take offset)).length⟩ := by
    rw [Word.printQuoted]
    simp [Nat.add_comm]
  cases slot with
  | value index => exact quoted
  | field =>
      by_cases needed : word.text.needsQuotes = true
      · have marks : Slot.field.mark word.text =
            fun offset => (['"'] ++ Text.escape (word.text.take offset)).length := by
          funext offset
          simp [mark, inkPart, quotes, needed]
        simp only [marks, piece, Word.fieldPiece, ink, quotes, if_pos needed]
        exact quoted
      · have marks : Slot.field.mark word.text = id := by
          funext offset
          simp [mark, quotes, needed]
        simp [marks, piece, Word.fieldPiece, ink, quotes, needed, Piece.printed, Word.printPlain]

theorem printed_suggestion (slot : Slot) (suggestion : Text) (word : Word) :
    (slot.piece (Condition.suggest suggestion word)).printed =
      ⟨slot.quotes suggestion ++ slot.ink suggestion ++ slot.quotes suggestion,
        some (slot.quotes suggestion ++ slot.ink suggestion).length⟩ := by
  have behind := (slot.mark_eq_iff suggestion suggestion.length).mpr (Or.inr (Nat.le_refl _))
  rw [List.take_length, ink_part_self] at behind
  rw [printed_piece, ← behind]
  rfl

end Slot

end FilterQuery
