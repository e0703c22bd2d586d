import FilterQuery.Proofs.Nesting
import Mathlib

/-!
What a backslash protects. Outside quotes it keeps the next character inside the word, as quotes do,
but the word is then an ordinary one: it is divided at its signs, and a word that is a bracket or a
comma is read as punctuation. Between quotes neither happens.
-/

set_option autoImplicit false

namespace FilterQuery

/-- The text with a backslash in front of each of its characters. -/
def Text.backslashed (text : Text) : Text := text.flatMap fun char => ['\\', char]

def Text.inQuotes (text : Text) : Text := '"' :: text.escape ++ ['"']

namespace Word

theorem readings_backslashed (text : Text) (rest : List (Char × Bool)) :
    readings .start (markCursor none text.backslashed ++ rest) =
      keep (markCursor none text) ++ readings .start rest := by
  induction text with
  | nil => rfl
  | cons char text induction =>
      have pair : Text.backslashed (char :: text) = '\\' :: char :: Text.backslashed text := rfl
      -- The backslash itself leaves no reading, and behind it every character is kept.
      have step : ∀ later, readings .start (('\\', false) :: (char, false) :: later) =
          .kept char false :: readings .start later := fun _ => rfl
      rw [pair, mark_cursor_cons, mark_cursor_cons, mark_cursor_cons]
      exact (step _).trans (congrArg (List.cons (.kept char false)) induction)

theorem Span.words_without_cursor (text : Text) :
    Span.words ⟨markCursor none text, false⟩ = (Comparator.cutSigns text).map plain := by
  cases text with
  | nil => rfl
  | cons char rest =>
      have inside := find_mark_cursor none (char :: rest) fun offset absent => nomatch absent
      rw [← place_cursor_none]
      simp only [words, text, cursor, text_mark_cursor, inside]
      rw [mark_cursor_cons, List.isEmpty_cons, if_neg Bool.false_ne_true,
        if_neg Bool.false_ne_true]

/-- Backslashes keep every character and divide nothing, so the signs alone divide the text. -/
theorem scan_backslashed (text : Text) :
    scan text.backslashed none = (Comparator.cutSigns text).map plain := by
  have kept := readings_backslashed text []
  rw [List.append_nil] at kept
  change wordsOf (readings .start (markCursor none text.backslashed)) = _
  rw [kept]
  change wordsOf (keep (markCursor none text) ++ .boundary false :: []) = _
  rw [words_of_keep, Span.words_without_cursor]
  exact List.append_nil _

theorem scan_in_quotes (text : Text) (written : text ≠ []) :
    scan text.inQuotes none = [.quote text] := by
  have legible : ∀ piece ∈ [Piece.quoted (.quote text)], piece.Legible :=
    List.forall_mem_singleton.mpr (sound_of_unmarked _ written rfl)
  have reads := Piece.scan_print _ legible (List.isChain_singleton _) List.countP_le_length
  rw [Piece.print_quoted] at reads
  exact reads

end Word

theorem Comparator.cut_signs_whole_iff (text : Text) (written : text ≠ []) :
    cutSigns text = [text] ↔ text ∈ signs ∨ ∀ sign ∈ signs, ¬ sign <:+: text := by
  constructor
  · intro whole
    have clear := cut_signs_clears text
    rw [whole] at clear
    exact clear text (List.mem_singleton_self text)
  · exact cut_signs_whole text written

theorem Word.scan_backslashed_whole_iff (text : Text) (written : text ≠ []) :
    (∃ word, scan text.backslashed none = [word] ∧ word.text = text) ↔
      text ∈ Comparator.signs ∨ ∀ sign ∈ Comparator.signs, ¬ sign <:+: text := by
  rw [scan_backslashed, ← Comparator.cut_signs_whole_iff text written]
  constructor
  · rintro ⟨word, single, same⟩
    obtain ⟨piece, alone, rfl⟩ := List.map_eq_singleton_iff.mp single
    rw [alone, ← same]
    rfl
  · intro whole
    exact ⟨.plain text, by rw [whole, List.map_singleton], rfl⟩

namespace Tree

def assignmentText (field value : Text) : Text := spaced [field, "=".toList] ++ value

def assignment (field : Text) (values : List Word) : Condition :=
  ⟨.plain field, some "=".toList, values⟩

theorem of_assignment_text (field value : Text) (plain : field.needsQuotes = false) :
    ofText (assignmentText field value) none =
      (Draft.start.toPhase (.continuation (.plain field) "=".toList false)).run
        (Word.scan value none) := by
  have legible : ∀ word ∈ [field, "=".toList], (Piece.plain (.plain word)).Legible := by
    intro word member
    simp only [List.mem_cons, List.not_mem_nil, or_false] at member
    rcases member with rfl | rfl
    · exact Word.legible_plain _ (Word.sound_plain _ (Text.needs_no_quotes word plain).1) plain
    · exact Comparator.legible_sign _ (by decide)
  have scanned : Word.scan (assignmentText field value) none =
      .plain field :: .plain "=".toList :: Word.scan value none := by
    rw [assignmentText]
    change Word.wordsOf (Word.readings .start (Word.markCursor none (spaced _ ++ value))) = _
    rw [Word.mark_cursor_append, words_of_spaced _ legible]
    rfl
  have named : Draft.start.read (.plain field) =
      .ok (Draft.start.toPhase (.comparator (.plain field))) := by
    have known : (Word.plain field).asField = .plain field := by
      rw [Word.asField]
      exact congrArg (Word.mk field none) plain
    have special := fun token => (Word.plain field).as_field_is_no_token token
    rw [known] at special
    change (if (true && (Word.plain field).isToken "not".toList) = true then _ else
      Draft.start.readOperand (.plain field)) = _
    rw [special "not".toList (by decide), Draft.readOperand, special "(".toList (by decide),
      special ")".toList (by decide)]
    rfl
  rw [ofText, scanned]
  exact Draft.run_of_read _ _ _ _ named

theorem run_single_value (field : Text) (value : Word)
    (ordinary : ∀ token ∈ ["(".toList, ")".toList, ",".toList], value.isToken token = false) :
    (Draft.start.toPhase (.continuation (.plain field) "=".toList false)).run [value] =
      .ok (.condition (assignment field [value])) := by
  have reads : (Draft.start.toPhase (.continuation (.plain field) "=".toList false)).read value =
      .ok (Draft.start.toPhase (.afterValue (assignment field []) value 0)) := by
    change Draft.start.readValue (assignment field []) 0 value = _
    rw [Draft.readValue, ordinary _ (by simp), ordinary _ (by simp), ordinary _ (by simp)]
    rfl
  rw [Draft.run_of_read _ _ _ _ reads]
  rfl

/-- A bracket or a comma is read as punctuation in spite of its backslash, and what is understood is
the condition without the value. -/
theorem refuses_backslashed_punctuation (field text : Text) (plain : field.needsQuotes = false)
    (punctuation : text ∈ ["(".toList, ")".toList, ",".toList]) :
    ∃ cause, ofText (assignmentText field text.backslashed) none =
      .error ⟨cause, some (.condition (assignment field []))⟩ := by
  rw [of_assignment_text field _ plain, Word.scan_backslashed]
  simp only [List.mem_cons, List.not_mem_nil, or_false] at punctuation
  rcases punctuation with rfl | rfl | rfl
  · exact ⟨.unclosedList (assignment field []), rfl⟩
  · exact ⟨.unexpectedCloseAfter (assignment field []), rfl⟩
  · exact ⟨.valueExpected (assignment field []), rfl⟩

theorem reads_backslashed_value (field text : Text) (plain : field.needsQuotes = false)
    (whole : Comparator.cutSigns text = [text])
    (ordinary : text ∉ ["(".toList, ")".toList, ",".toList]) :
    ofText (assignmentText field text.backslashed) none =
      .ok (.condition (assignment field [.plain text])) := by
  rw [of_assignment_text field _ plain, Word.scan_backslashed, whole]
  apply run_single_value
  intro token member
  rw [Bool.eq_false_iff, ne_eq, Word.is_token_iff]
  rintro ⟨_, rfl⟩
  exact ordinary member

/-- In quotes every text is one word and one value. With a backslash in front of each character it
is divided at its signs and nowhere else, and it means the same as in quotes exactly if that leaves
it whole and it is neither a bracket nor a comma. -/
theorem backslashed_as_in_quotes (field text : Text) (plain : field.needsQuotes = false)
    (written : text ≠ []) :
    (Word.scan text.inQuotes none = [.quote text] ∧
        ofText (assignmentText field text.inQuotes) none =
          .ok (.condition (assignment field [.quote text]))) ∧
      Word.scan text.backslashed none = (Comparator.cutSigns text).map Word.plain ∧
      (((∃ word, Word.scan text.backslashed none = [word] ∧ word.text = text) ∧
          ∃ tree, ofText (assignmentText field text.backslashed) none = .ok tree ∧
            tree.sameShape (.condition (assignment field [.quote text])) = true) ↔
        (text ∈ Comparator.signs ∨ ∀ sign ∈ Comparator.signs, ¬ sign <:+: text) ∧
          text ∉ ["(".toList, ")".toList, ",".toList]) := by
  have quoted := Word.scan_in_quotes text written
  refine ⟨⟨quoted, ?_⟩, Word.scan_backslashed text, ?_⟩
  · rw [of_assignment_text field _ plain, quoted]
    exact run_single_value field _ fun token _ => Word.is_token_quote text token
  rw [Word.scan_backslashed_whole_iff text written]
  constructor
  · rintro ⟨whole, tree, accepted, _⟩
    refine ⟨whole, ?_⟩
    intro punctuation
    obtain ⟨cause, refused⟩ := refuses_backslashed_punctuation field text plain punctuation
    rw [refused] at accepted
    cases accepted
  · rintro ⟨whole, ordinary⟩
    have alone := Comparator.cut_signs_whole text written whole
    refine ⟨whole, _, reads_backslashed_value field text plain alone ordinary, ?_⟩
    -- The two trees differ in the quotes of the value only.
    exact (same_shape_iff _ _).mpr rfl

/-- A comma behind a backslash is no value, and a sign behind a backslash divides the text. -/
theorem backslash_protects_no_comma :
    assignmentText "f".toList (Text.backslashed ",".toList) = "f = \\,".toList ∧
      (¬ ∃ tree, ofText "f = \\,".toList none = .ok tree) ∧
      ofText "f = \",\"".toList none =
        .ok (.condition (assignment "f".toList [.quote ",".toList])) ∧
      ¬ ∃ word, Word.scan "\\a\\=\\b".toList none = [word] := by
  have refused : ofText "f = \\,".toList none =
      .error ⟨.valueExpected (assignment "f".toList []),
        some (.condition (assignment "f".toList []))⟩ := rfl
  have divided : Word.scan "\\a\\=\\b".toList none = ["a", "=", "b"].map (.plain ·.toList) := rfl
  refine ⟨rfl, ?_, rfl, ?_⟩
  · rintro ⟨tree, accepted⟩
    rw [refused] at accepted
    cases accepted
  · rintro ⟨word, single⟩
    rw [divided] at single
    cases single

theorem backslashed_as_in_quotes_call :
    Word.scan "\\n\\o\\w\\(\\-\\5\\ \\d\\)".toList none = [.plain "now(-5 d)".toList] ∧
      (∃ tree, ofText (assignmentText "f".toList (Text.backslashed "now(-5 d)".toList)) none =
          .ok tree ∧
        tree.sameShape (.condition (assignment "f".toList [.quote "now(-5 d)".toList])) = true) ∧
      ofText (assignmentText "f".toList (Text.inQuotes "now(-5 d)".toList)) none =
        .ok (.condition (assignment "f".toList [.quote "now(-5 d)".toList])) := by
  obtain ⟨⟨_, quoted⟩, _, alike⟩ :=
    backslashed_as_in_quotes "f".toList "now(-5 d)".toList rfl (by decide)
  exact ⟨rfl, (alike.mpr ⟨.inr (by decide), by decide⟩).2, quoted⟩

end Tree

end FilterQuery
