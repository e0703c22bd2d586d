import FilterQuery.Proofs.Tree.Ink

/-!
Where the cursor stands once a suggestion is written. The edit takes the cursors from the condition
of the word only, and the first cursor of the tree is the one that is written. So the cursor stands
behind the suggestion exactly if no condition further to the left has a word with a cursor.
-/

set_option autoImplicit false

namespace FilterQuery

/-- A cursor further to the left is the one that is kept. -/
theorem Printed.cursor_behind_iff (front middle back : Printed) (offset : Nat)
    (here : middle.cursor = some offset)
    (left : ∀ earlier, front.cursor = some earlier → earlier < front.text.length + offset) :
    ∃ cursor, (front ++ (middle ++ back)).cursor = some cursor ∧
      (cursor = front.text.length + offset ↔ front.cursor = none) := by
  rw [cursor_append, cursor_append, here, Option.some_or, Option.map_some]
  cases found : front.cursor with
  | none => exact ⟨_, rfl, iff_of_true rfl rfl⟩
  | some earlier =>
      refine ⟨earlier, rfl, iff_of_false ?_ (Option.some_ne_none earlier)⟩
      exact Nat.ne_of_lt (left earlier found)

namespace Tree

theorem cursor_of_earlier_word (tree : Tree) (found : Target) (condition : Condition) (word : Word)
    (first : FirstTyped tree found condition word) (path : List Nat) (earlier : Condition)
    (smaller : path < found.path) (here : tree.conditionAt path = some earlier) (other : Word)
    (member : other ∈ earlier.words) (offset : Nat) (carried : other.cursor = some offset) :
    offset = 0 := by
  obtain ⟨slot, stands⟩ := (earlier.mem_words_iff other).mp member
  have reached : tree.wordAt path slot = some other := by
    rw [wordAt, here]
    exact stands
  have untyped := first.first path slot other reached
    (address_lt_of_path_lt tree path found.path earlier condition here first.leads smaller _ _)
  rw [Word.isTyped, carried, decide_eq_false_iff_not] at untyped
  exact Nat.eq_zero_of_not_pos untyped

theorem cursor_bound_of_earlier (tree : Tree) (found : Target) (condition : Condition)
    (word : Word) (first : FirstTyped tree found condition word) (piece : Piece)
    (earlier : tree.WrittenBefore found.path piece) (offset : Nat)
    (here : piece.printed.cursor = some offset) : offset ≤ piece.printed.text.length := by
  obtain ⟨path, other, smaller, reached, written⟩ := earlier
  have marked : piece.isMarked = true := by
    rw [Piece.isMarked, here]
    rfl
  obtain ⟨carrier, member, spelled⟩ := other.word_of_marked_piece piece written marked
  have front := cursor_of_earlier_word tree found condition word first path other smaller reached
    carrier member
  rcases spelled with rfl | rfl
  · obtain ⟨inner, carried, rfl⟩ := Option.map_eq_some_iff.mp here
    obtain rfl := front inner carried
    simp [Piece.printed, Word.printQuoted, Text.escape]
  · obtain rfl := front offset here
    exact Nat.zero_le _

/-- Writing a suggestion over the word being typed always sets a cursor. What is written around the
suggestion is the same for all suggestions, and the cursor stands right behind the last character of
the suggestion exactly if no word of a condition further to the left carries a cursor. -/
theorem cursor_behind_suggestion_iff (tree : Tree) (found : Target)
    (compared : ∀ condition ∈ tree.conditions, condition.comparator ≠ none)
    (typed : tree.target = some found) :
    ∃ front back, ∀ suggestion, ∃ printed cursor,
      tree.applySuggestion found suggestion = .ok printed ∧
      printed.text = front ++ (found.slot.quotes suggestion ++ found.slot.ink suggestion ++
        found.slot.quotes suggestion ++ back) ∧
      printed.cursor = some cursor ∧
      (cursor = (front ++ (found.slot.quotes suggestion ++ found.slot.ink suggestion)).length ↔
        ∀ earlier condition word, earlier < found.path →
          tree.conditionAt earlier = some condition → word ∈ condition.words →
            word.cursor = none) := by
  obtain ⟨condition, word, first⟩ := first_typed_of_target tree found typed
  obtain ⟨comparator, given⟩ := Option.ne_none_iff_exists'.mp
    (compared condition ((mem_conditions_iff tree condition).mpr ⟨_, first.leads⟩))
  obtain ⟨front, back, marks, edits⟩ := pieces_around_suggestion tree found.path found.slot
    condition comparator word first.leads given first.stands
  have whole : ∀ earlier other, tree.conditionAt earlier = some other →
      other.printedPart = other := by
    intro earlier other leads
    obtain ⟨comparator, given⟩ := Option.ne_none_iff_exists'.mp
      (compared other ((mem_conditions_iff tree other).mpr ⟨earlier, leads⟩))
    exact other.printed_part_of_compared comparator given
  have bounded : ∀ offset, (Piece.print front).cursor = some offset →
      offset ≤ (Piece.print front).text.length := by
    intro offset here
    refine (Piece.print_cursor_bounds 0 front (fun piece member inner carried => ?_) offset here).2
    have marked : piece.isMarked = true := by
      rw [Piece.isMarked, carried]
      rfl
    exact ⟨Nat.zero_le _, cursor_bound_of_earlier tree found condition word first piece
      ((marks piece marked).mp member) inner carried⟩
  refine ⟨(Piece.print front).text, (Piece.print back).text, fun suggestion => ?_⟩
  obtain ⟨edited, replaced, written⟩ := edits suggestion
  have ink := found.slot.printed_suggestion suggestion word
  have positive := found.slot.quotes_ink_nonempty suggestion
  obtain ⟨cursor, here, behind⟩ := Printed.cursor_behind_iff (Piece.print front)
    (found.slot.piece (Condition.suggest suggestion word)).printed (Piece.print back)
    (found.slot.quotes suggestion ++ found.slot.ink suggestion).length (by rw [ink])
    fun earlier left => (bounded earlier left).trans_lt (Nat.lt_add_of_pos_right positive)
  rw [← Piece.print_cons, ← Piece.print_append, ← written, print_pieces] at here
  refine ⟨edited.print, cursor, by rw [applySuggestion, replaced], ?_, here, ?_⟩
  · rw [← print_pieces, written, Piece.print_append, Piece.print_cons, Printed.text_append,
      Printed.text_append, ink]
  · rw [List.length_append, behind, cursor_in_front_eq_none_iff tree found.path front marks]
    constructor
    · intro unmarked earlier other value smaller leads member
      rw [← whole earlier other leads] at member
      exact unmarked earlier other value smaller leads member
    · intro unmarked earlier other value smaller leads member
      rw [whole earlier other leads] at member
      exact unmarked earlier other value smaller leads member

/-- Two conditions. Both words of the second one carry a cursor, and the field of the first one may
carry one. -/
def twoConditions (first : Option Nat) : Tree :=
  .group .and [.condition ⟨⟨"a".toList, first, false⟩, some "=".toList, [.plain "x".toList]⟩,
    .condition ⟨(Word.plain "b".toList).withCursor 1, some "=".toList,
      [(Word.plain "y".toList).withCursor 1]⟩]

theorem cursor_behind_suggestion_iff_second :
    (∀ condition ∈ (twoConditions none).conditions, condition.comparator ≠ none) ∧
      (twoConditions none).target = some ⟨[1], .field, "b".toList, "b".toList⟩ ∧
      ∃ front back, ∀ suggestion, ∃ printed,
        (twoConditions none).applySuggestion ⟨[1], .field, "b".toList, "b".toList⟩ suggestion =
          .ok printed ∧
        printed.text = front ++ (Slot.field.quotes suggestion ++ Slot.field.ink suggestion ++
          Slot.field.quotes suggestion ++ back) ∧
        printed.cursor =
          some (front ++ (Slot.field.quotes suggestion ++ Slot.field.ink suggestion)).length := by
  have compared : ∀ condition ∈ (twoConditions none).conditions, condition.comparator ≠ none := by
    decide
  have typed : (twoConditions none).target = some ⟨[1], .field, "b".toList, "b".toList⟩ := rfl
  have unmarked : ∀ earlier condition word, earlier < [1] →
      (twoConditions none).conditionAt earlier = some condition → word ∈ condition.words →
        word.cursor = none := by
    intro earlier condition word smaller here member
    match earlier with
    | [] => cases here
    | [0] =>
        obtain rfl := Option.some.inj here
        revert word
        decide
    | 0 :: _ :: _ => cases here
    | (index + 1) :: rest =>
        rcases List.cons_lt_cons_iff.mp smaller with left | ⟨_, empty⟩
        · omega
        · exact absurd empty (List.not_lt_nil rest)
  obtain ⟨front, back, edits⟩ := cursor_behind_suggestion_iff (twoConditions none)
    ⟨[1], .field, "b".toList, "b".toList⟩ compared typed
  refine ⟨compared, typed, front, back, fun suggestion => ?_⟩
  obtain ⟨printed, cursor, applied, text, here, behind⟩ := edits suggestion
  rw [behind.mpr unmarked] at here
  exact ⟨printed, applied, text, here⟩

/-- The search passes a cursor in front of its word, which is then written in the place of the one
behind the suggestion. -/
theorem cursor_stays_in_front :
    (∀ condition ∈ (twoConditions (some 0)).conditions, condition.comparator ≠ none) ∧
      (∀ word ∈ (twoConditions (some 0)).words, ∀ offset ∈ word.cursor, offset ≤ word.length) ∧
      (twoConditions (some 0)).target = some ⟨[1], .field, "b".toList, "b".toList⟩ ∧
      (twoConditions (some 0)).applySuggestion ⟨[1], .field, "b".toList, "b".toList⟩ "bc".toList =
        .ok ⟨"a = \"x\" and ".toList ++ "bc".toList ++ " = \"y\"".toList, some 0⟩ ∧
      ("a = \"x\" and ".toList ++ "bc".toList).length = 14 := by
  refine ⟨by decide, by decide, rfl, rfl, by decide⟩

end Tree

end FilterQuery
