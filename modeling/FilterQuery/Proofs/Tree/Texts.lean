import FilterQuery.Proofs.Tree.Scan

/-!
The text in which a tree is written depends on the texts of its words only. Trees of the same shape
are written in the same text, wherever their cursors stand and however their words were quoted.
-/

set_option autoImplicit false

namespace FilterQuery

namespace Piece

def text (pieces : List Piece) : Text := (print pieces).text

@[simp]
theorem text_append (left right : List Piece) : text (left ++ right) = text left ++ text right := by
  rw [text, print_append, Printed.text_append]
  rfl

@[simp] theorem text_join (separator : List Piece) (parts : List (List Piece)) :
    text (join separator parts) = Text.join (text separator) (parts.map text) := by
  match parts with
  | [] => rfl
  | [part] => rfl
  | first :: second :: rest =>
      have later := text_join separator (second :: rest)
      rw [join, text_append, text_append, later]
      · rfl
      · simp

end Piece

namespace Condition

@[simp] theorem complete_map_words (change : Word → Word) (condition : Condition) :
    (condition.mapWords change).Complete ↔ condition.Complete := by
  simp [Complete, mapWords]

section Change

variable (change : Word → Word) (keeps : ∀ word, (change word).text = word.text)

include keeps

theorem text_field_piece_change (field : Word) :
    Piece.text [(change field).fieldPiece] = Piece.text [field.fieldPiece] := by
  rw [Word.fieldPiece, Word.fieldPiece, keeps]
  cases field.text.needsQuotes <;>
    simp [Piece.text, Piece.print, Piece.printed, Word.printPlain, Word.printQuoted, keeps]

theorem text_quoted_change (value : Word) :
    Piece.text [.quoted (change value)] = Piece.text [.quoted value] := by
  rw [Piece.text, Piece.text, Piece.print_quoted, Piece.print_quoted, Word.printQuoted,
    Word.printQuoted, keeps]

theorem text_value_pieces_change (values : List Word) :
    Piece.text (Word.valuePieces (values.map change)) = Piece.text (Word.valuePieces values) := by
  match values with
  | [] => rfl
  | [value] => exact congrArg (' ' :: ·) (text_quoted_change change keeps value)
  | first :: second :: rest =>
      have each : ((first :: second :: rest).map change).map
            (fun value => Piece.text [.quoted value]) =
          (first :: second :: rest).map fun value => Piece.text [.quoted value] := by
        rw [List.map_map]
        apply List.map_congr_left
        intro value _
        exact text_quoted_change change keeps value
      have lists : ∀ words : List Word,
          Piece.text (Piece.bracketed
            (Piece.join [.punctuation ','] (words.map fun value => [.quoted value]))) =
            '(' :: (Text.join [','] (words.map fun value => Piece.text [.quoted value]) ++
              [')']) := by
        intro words
        rw [Piece.bracketed, Piece.text_append, Piece.text_append, Piece.text_join, List.map_map]
        rfl
      have listed := lists ((first :: second :: rest).map change)
      rw [each, ← lists] at listed
      exact congrArg (' ' :: ·) listed

theorem text_pieces_change (condition : Condition) :
    Piece.text (condition.mapWords change).pieces = Piece.text condition.pieces := by
  obtain ⟨field, comparator, values⟩ := condition
  cases comparator with
  | none => exact text_field_piece_change change keeps field
  | some comparator =>
      have parts : ∀ (word : Word) (words : List Word),
          Piece.text (Condition.pieces ⟨word, some comparator, words⟩) =
            Piece.text [word.fieldPiece] ++ ' ' :: (Piece.text (Comparator.pieces comparator) ++
              Piece.text (Word.valuePieces words)) := by
        intro word words
        rw [← Piece.text_append]
        change Piece.text ([word.fieldPiece] ++ ([.blank] ++ (Comparator.pieces comparator ++
          Word.valuePieces words))) = _
        rw [Piece.text_append, Piece.text_append]
        rfl
      rw [mapWords, parts, parts, text_field_piece_change change keeps,
        text_value_pieces_change change keeps]

end Change

end Condition

namespace Tree

@[simp] theorem is_bracketed_map_words (change : Word → Word) (outer : Operation) (tree : Tree) :
    (tree.mapWords change).isBracketed outer = tree.isBracketed outer := by
  cases tree with
  | condition leaf => rfl
  | group operation children => rw [map_words_group]; cases operation <;> rfl

theorem text_print_map_words (change : Word → Word)
    (keeps : ∀ word, (change word).text = word.text) (tree : Tree) :
    (tree.mapWords change).print.text = tree.print.text := by
  rw [← print_pieces, ← print_pieces]
  change Piece.text _ = Piece.text _
  induction tree using induct with
  | condition leaf => exact leaf.text_pieces_change change keeps
  | group operation children induction =>
      have operand : ∀ child ∈ children,
          Piece.text ((child.mapWords change).operandPieces operation) =
            Piece.text (child.operandPieces operation) := by
        intro child member
        rw [operandPieces, operandPieces, is_bracketed_map_words]
        split
        · rw [Piece.bracketed, Piece.bracketed, Piece.text_append, Piece.text_append,
            Piece.text_append, Piece.text_append, induction child member]
        · exact induction child member
      rw [map_words_group, pieces_group, pieces_group, Piece.text_append, Piece.text_append,
        Piece.text_join, Piece.text_join, List.map_map, List.map_map, List.map_map]
      congr 2
      exact List.map_congr_left operand

@[simp] theorem text_print_unmarked (tree : Tree) : tree.unmarked.print.text = tree.print.text :=
  text_print_map_words Word.unmarked (fun _ => rfl) tree

theorem cursor_print_of_count (tree : Tree) (legible : tree.Legible)
    (unmarked : tree.words.countP Word.isMarked = 0) : tree.print.cursor = none := by
  rw [← count_pieces tree legible, List.countP_eq_zero] at unmarked
  rw [← print_pieces, ← Option.not_isSome_iff_eq_none, Piece.print_cursor_is_some,
    List.any_eq_false.mpr unmarked]
  decide

@[simp] theorem bracket_depth_map_words (change : Word → Word) (tree : Tree) :
    (tree.mapWords change).bracketDepth = tree.bracketDepth := by
  have among : ∀ (outer : Operation) (trees : List Tree),
      (∀ tree ∈ trees, (tree.mapWords change).bracketDepth = tree.bracketDepth) →
        bracketDepthAmong outer (trees.map (mapWords change)) = bracketDepthAmong outer trees := by
    intro outer trees
    induction trees with
    | nil => exact fun _ => rfl
    | cons tree rest induction =>
        intro each
        rw [List.map_cons, bracketDepthAmong, bracketDepthAmong, is_bracketed_map_words,
          each tree (by simp), induction fun other member => each other (by simp [member])]
  induction tree using induct with
  | condition leaf => rfl
  | group operation children induction =>
      rw [map_words_group, bracketDepth, bracketDepth]
      exact among operation children induction

end Tree

end FilterQuery
