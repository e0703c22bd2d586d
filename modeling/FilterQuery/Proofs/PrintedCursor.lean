import FilterQuery.Proofs.Replacement
import FilterQuery.Proofs.Tree.Ink

/-!
Where the cursor stands in a written tree. It belongs to the first written word that carries one,
and it stands behind what is written for the typed part of that word. Only a word that is written
without quotes can carry a cursor behind its end, and this one is written as if the word went on.
-/

set_option autoImplicit false

namespace FilterQuery

theorem modify_at_length {Item : Type} (before : List Item) (item : Item) (after : List Item)
    (change : Item → Item) :
    (before ++ item :: after).modify before.length change = before ++ change item :: after := by
  induction before with
  | nil => rfl
  | cons first before induction =>
      rw [List.cons_append, List.length_cons, List.modify_succ_cons, induction, List.cons_append]

theorem Printed.append_of_first (front middle back : Printed) (offset : Nat)
    (silent : front.cursor = none) (here : middle.cursor = some offset) :
    front ++ (middle ++ back) =
      ⟨front.text ++ (middle.text ++ back.text), some (front.text.length + offset)⟩ := by
  have cursor : (front ++ (middle ++ back)).cursor = some (front.text.length + offset) := by
    rw [cursor_append, silent, Option.none_or, cursor_append, here, Option.some_or,
      Option.map_some]
  exact congrArg (mk _) cursor

namespace Condition

@[simp] theorem comparator_retext (condition : Condition) (text : Text) (slot : Slot) :
    (condition.retext text slot).comparator = condition.comparator := by
  cases slot <;> rfl

@[simp] theorem words_retext (condition : Condition) (text : Text) (slot : Slot) :
    (condition.retext text slot).words = condition.words.modify slot.index (Word.retext text) := by
  cases slot <;> rfl

theorem pieces_around_printed (condition : Condition) (slot : Slot) (word : Word)
    (stands : condition.printedPart.wordAt slot = some word)
    (unmarked : ∀ other earlier, other.index < slot.index →
      condition.printedPart.wordAt other = some earlier → earlier.cursor = none) :
    ∃ front back, (∀ piece ∈ front, piece.isMarked = false) ∧
      condition.pieces = front ++ slot.piece word :: back ∧
      ∀ text, (condition.retext text slot).pieces =
        front ++ slot.piece (word.retext text) :: back := by
  cases compared : condition.comparator with
  | none =>
      rw [printedPart, compared] at stands
      cases slot with
      | value index => cases stands
      | field =>
          obtain rfl := Option.some.inj stands
          refine ⟨[], [], List.forall_mem_nil _, ?_, fun text => ?_⟩
          · rw [pieces, compared]
            rfl
          · rw [pieces, comparator_retext, compared]
            rfl
  | some comparator =>
      rw [printed_part_of_compared condition comparator compared] at stands unmarked
      obtain ⟨before, after, split, place⟩ := split_at_get condition.words slot.index word
        ((word_at_eq condition slot).symm.trans stands)
      have quiet : ∀ earlier ∈ before, earlier.isMarked = false := by
        intro earlier member
        obtain ⟨index, inside, rfl⟩ := List.mem_iff_getElem.mp member
        obtain ⟨other, rfl⟩ := Slot.exists_of_index index
        have here : condition.wordAt other = some before[other.index] := by
          rw [word_at_eq, split, List.getElem?_append_left inside, List.getElem?_eq_getElem inside]
        rw [Word.isMarked, unmarked other _ (inside.trans_eq place) here]
        rfl
      obtain ⟨front, back, silent, around⟩ :=
        pieces_around_word comparator slot before after place quiet
      refine ⟨front, back, silent, around condition word compared split, fun text => ?_⟩
      apply around _ _ ((condition.comparator_retext text slot).trans compared)
      rw [words_retext, split, ← place, modify_at_length]

end Condition

namespace Tree

/-- The word at a place, if it is written. -/
def printedAt (tree : Tree) (path : List Nat) (slot : Slot) : Option Word :=
  (tree.conditionAt path).bind fun condition => condition.printedPart.wordAt slot

/-- The written word at the place carries a cursor, and no word that is written in front of it
does. -/
structure FirstMarked (tree : Tree) (path : List Nat) (slot : Slot) (word : Word) (offset : Nat) :
    Prop where
  printed : tree.printedAt path slot = some word
  marked : word.cursor = some offset
  first : ∀ earlier other unmarked, tree.printedAt earlier other = some unmarked →
    other.address earlier < slot.address path → unmarked.cursor = none

theorem printed_at_child (operation : Operation) (children : List Tree) (index : Nat)
    (path : List Nat) (slot : Slot) :
    (group operation children).printedAt (index :: path) slot =
      children[index]?.bind fun child => child.printedAt path slot := by
  rw [printedAt, conditionAt, Option.bind_assoc]
  rfl

theorem print_cursor_eq_none_iff (tree : Tree) :
    tree.print.cursor = none ↔
      ∀ path slot word, tree.printedAt path slot = some word → word.cursor = none := by
  rw [← Option.not_isSome_iff_eq_none, ← print_pieces, Piece.print_cursor_is_some,
    List.any_eq_true]
  constructor
  · intro unmarked path slot word here
    obtain ⟨condition, reached, stands⟩ := Option.bind_eq_some_iff.mp here
    by_contra marked
    obtain ⟨piece, written, carried⟩ := condition.marked_printed_iff.mpr
      ⟨word, (condition.printedPart.mem_words_iff word).mpr ⟨slot, stands⟩,
        Option.isSome_iff_ne_none.mpr marked⟩
    have listed := (mem_conditions_iff tree condition).mpr ⟨path, reached⟩
    exact unmarked ⟨piece, (mem_pieces_iff tree piece carried).mpr ⟨condition, listed, written⟩,
      carried⟩
  · rintro unmarked ⟨piece, member, carried⟩
    obtain ⟨condition, listed, written⟩ := (mem_pieces_iff tree piece carried).mp member
    obtain ⟨word, contained, marked⟩ := condition.marked_printed_iff.mp ⟨piece, written, carried⟩
    obtain ⟨path, reached⟩ := (mem_conditions_iff tree condition).mp listed
    obtain ⟨slot, stands⟩ := (condition.printedPart.mem_words_iff word).mp contained
    have absent := unmarked path slot word (by rw [printedAt, reached]; exact stands)
    rw [Word.isMarked, absent] at marked
    cases marked

theorem retext_of_differs (path : List Nat) (old new : Condition) (tree edited : Tree)
    (differs : DiffersAt path old new tree edited) (slot : Slot) (text : Text)
    (changed : new = old.retext text slot) : edited = tree.retext slot text path := by
  induction differs with
  | condition old new => rw [changed, retext]
  | group operation before child edited after path old new _ induction =>
      rw [retext, modify_at_length, induction changed]

theorem same_of_differs (path : List Nat) (old new : Condition) (tree edited : Tree)
    (differs : DiffersAt path old new tree edited) (same : new = old) : edited = tree := by
  induction differs with
  | condition old new => rw [same]
  | group operation before child edited after path old new _ induction => rw [induction same]

theorem first_marked_condition (leaf : Condition) (slot : Slot) (word : Word)
    (printed : (condition leaf).printedAt [] slot = some word) (marked : word.cursor ≠ none) :
    ∃ slot word offset, (condition leaf).FirstMarked [] slot word offset := by
  classical
  have given : ∃ index, ∃ slot word, slot.index = index ∧
      (condition leaf).printedAt [] slot = some word ∧ word.cursor ≠ none :=
    ⟨slot.index, slot, word, rfl, printed, marked⟩
  obtain ⟨index, ⟨slot, word, rfl, here, marked⟩, earlier⟩ := Nat.findX given
  obtain ⟨offset, carried⟩ := Option.ne_none_iff_exists'.mp marked
  refine ⟨slot, word, offset, here, carried, fun path other unmarked there smaller => ?_⟩
  cases path with
  | cons index path => cases there
  | nil =>
      by_contra marked
      rcases List.cons_lt_cons_iff.mp smaller with lower | ⟨_, empty⟩
      · exact earlier other.index lower ⟨other, unmarked, rfl, there, marked⟩
      · exact List.not_lt_nil [] empty

theorem first_marked_group (operation : Operation) (children : List Tree) (index : Nat)
    (child : Tree) (place : children[index]? = some child) (path : List Nat) (slot : Slot)
    (word : Word) (offset : Nat) (first : child.FirstMarked path slot word offset)
    (earlier : ∀ lower < index, ∀ path slot unmarked,
      (group operation children).printedAt (lower :: path) slot = some unmarked →
        unmarked.cursor = none) :
    (group operation children).FirstMarked (index :: path) slot word offset := by
  refine ⟨?_, first.marked, fun other otherSlot unmarked there smaller => ?_⟩
  · rw [printed_at_child, place]
    exact first.printed
  · cases other with
    | nil => cases there
    | cons next other =>
        rcases List.cons_lt_cons_iff.mp smaller with lower | ⟨rfl, behind⟩
        · exact earlier next lower other otherSlot unmarked there
        · rw [printed_at_child, place] at there
          exact first.first other otherSlot unmarked there behind

theorem exists_first_marked (tree : Tree) (path : List Nat) (slot : Slot) (word : Word)
    (printed : tree.printedAt path slot = some word) (marked : word.cursor ≠ none) :
    ∃ path slot word offset, tree.FirstMarked path slot word offset := by
  induction tree using induct generalizing path slot word with
  | condition leaf =>
      cases path with
      | nil => exact ⟨[], first_marked_condition leaf slot word printed marked⟩
      | cons index path => cases printed
  | group operation children induction =>
      cases path with
      | nil => cases printed
      | cons index path =>
          classical
          have given : ∃ index, ∃ path slot word,
              (group operation children).printedAt (index :: path) slot = some word ∧
                word.cursor ≠ none :=
            ⟨index, path, slot, word, printed, marked⟩
          obtain ⟨index, ⟨path, slot, word, printed, marked⟩, earlier⟩ := Nat.findX given
          rw [printed_at_child] at printed
          obtain ⟨child, place, inside⟩ := Option.bind_eq_some_iff.mp printed
          obtain ⟨path, slot, word, offset, first⟩ :=
            induction child (List.mem_of_getElem? place) path slot word inside marked
          refine ⟨index :: path, slot, word, offset, ?_⟩
          apply first_marked_group operation children index child place path slot word offset first
          intro lower smaller path slot unmarked here
          by_contra marked
          exact earlier lower smaller ⟨path, slot, unmarked, here, marked⟩

theorem print_cursor_eq_none_iff_no_first (tree : Tree) :
    tree.print.cursor = none ↔
      ¬ ∃ path slot word offset, tree.FirstMarked path slot word offset := by
  rw [print_cursor_eq_none_iff]
  constructor
  · rintro unmarked ⟨path, slot, word, offset, first⟩
    have absent := unmarked path slot word first.printed
    rw [first.marked] at absent
    cases absent
  · intro absent path slot word written
    by_contra marked
    exact absent (exists_first_marked tree path slot word written marked)

/-- What is written around the first word with a cursor does not depend on its text, and no cursor
stands in front of it. -/
theorem pieces_around_first (tree : Tree) (path : List Nat) (slot : Slot) (word : Word)
    (offset : Nat) (first : tree.FirstMarked path slot word offset) :
    ∃ front back, (Piece.print front).cursor = none ∧
      tree.pieces = front ++ slot.piece word :: back ∧
      ∀ text, (tree.retext slot text path).pieces =
        front ++ slot.piece (word.retext text) :: back := by
  obtain ⟨condition, reached, stands⟩ := Option.bind_eq_some_iff.mp first.printed
  have earlierUnmarked : ∀ earlier other leaf unmarked, tree.conditionAt earlier = some leaf →
      leaf.printedPart.wordAt other = some unmarked →
        other.address earlier < slot.address path → unmarked.cursor = none := by
    intro earlier other leaf unmarked leads here smaller
    refine first.first earlier other unmarked ?_ smaller
    rw [printedAt, leads]
    exact here
  obtain ⟨front, back, marks, around⟩ := pieces_around path tree condition reached
  obtain ⟨ahead, behind, quiet, here, edits⟩ := condition.pieces_around_printed slot word stands
    fun other earlier smaller placed => earlierUnmarked path other condition earlier reached placed
      (other.address_lt_of_index_lt slot path smaller)
  have frontSilent : (Piece.print front).cursor = none := by
    rw [cursor_in_front_eq_none_iff tree path front marks]
    intro earlier leaf unmarked smaller leads member
    obtain ⟨other, placed⟩ := (leaf.printedPart.mem_words_iff unmarked).mp member
    exact earlierUnmarked earlier other leaf unmarked leads placed
      (address_lt_of_path_lt tree earlier path leaf condition leads reached smaller other slot)
  have aheadSilent : (Piece.print ahead).cursor = none := by
    rw [← Option.not_isSome_iff_eq_none, Piece.print_cursor_is_some, List.any_eq_true]
    rintro ⟨piece, member, marked⟩
    rw [quiet piece member] at marked
    cases marked
  refine ⟨front ++ ahead, behind ++ back, ?_, ?_, fun text => ?_⟩
  · rw [Piece.print_append, Printed.cursor_append, frontSilent, aheadSilent]
    rfl
  · obtain ⟨same, differs, spelled⟩ := around condition
    rw [← same_of_differs path condition condition tree same differs rfl, spelled, here]
    simp only [List.append_assoc, List.cons_append]
  · obtain ⟨edited, differs, spelled⟩ := around (condition.retext text slot)
    rw [← retext_of_differs path condition _ tree edited differs slot text rfl, spelled, edits]
    simp only [List.append_assoc, List.cons_append]

/-- A written tree has a cursor exactly if a written word does. What is written around the first
such word is the same for all texts of this word, and the cursor stands right behind the typed part
of it exactly if the word is written in quotes or its cursor is not behind its end. Otherwise the
cursor is as far behind the word as it would be in a longer one. -/
theorem cursor_behind_typed_iff (tree : Tree) :
    (tree.print.cursor = none ↔
      ¬ ∃ path slot word offset, tree.FirstMarked path slot word offset) ∧
    ∀ path slot word offset, tree.FirstMarked path slot word offset →
      ∃ front back cursor,
        (∀ text, (tree.retext slot text path).print.text =
          front ++ (slot.quotes text ++ slot.ink text ++ slot.quotes text ++ back)) ∧
        tree.print = ⟨front ++ (slot.quotes word.text ++ slot.ink word.text ++
          slot.quotes word.text ++ back), some cursor⟩ ∧
        (cursor = (front ++ (slot.quotes word.text ++ slot.inkPart word.text word.typed)).length ↔
          slot.quotes word.text ≠ [] ∨ offset ≤ word.length) ∧
        (slot.quotes word.text ≠ [] ∨ offset ≤ word.length → cursor ≤ tree.print.text.length) ∧
        (slot.quotes word.text = [] → cursor = front.length + offset) := by
  refine ⟨print_cursor_eq_none_iff_no_first tree, fun path slot word offset first => ?_⟩
  obtain ⟨front, back, silent, here, edits⟩ := pieces_around_first tree path slot word offset first
  have typed : word.typed = word.text.take offset := by rw [Word.typed, first.marked]
  have written : tree.print = ⟨(Piece.print front).text ++ (slot.quotes word.text ++
      slot.ink word.text ++ slot.quotes word.text ++ (Piece.print back).text),
      some ((Piece.print front).text.length + slot.mark word.text offset)⟩ := by
    rw [← print_pieces, here, Piece.print_append, Piece.print_cons, slot.printed_piece word,
      first.marked, Printed.append_of_first _ _ _ _ silent rfl]
  refine ⟨(Piece.print front).text, (Piece.print back).text,
    (Piece.print front).text.length + slot.mark word.text offset, fun text => ?_, written, ?_, ?_,
    ?_⟩
  · rw [← print_pieces, edits, Piece.print_append, Piece.print_cons, Printed.text_append,
      Printed.text_append, slot.printed_piece]
    rfl
  · rw [List.length_append, Nat.add_left_cancel_iff, typed]
    exact slot.mark_eq_iff word.text offset
  · intro inside
    have bound := slot.mark_le word.text offset inside
    rw [written, List.length_append, List.length_append, List.length_append]
    omega
  · intro plain
    rw [Slot.mark, if_pos plain]

def markedCondition (field : Option Nat) : Tree :=
  .condition ⟨⟨"a".toList, field, false⟩, some "=".toList, [⟨"x\"y".toList, some 2, false⟩]⟩

theorem cursor_behind_typed_iff_value :
    (markedCondition none).FirstMarked [] (.value 0) ⟨"x\"y".toList, some 2, false⟩ 2 ∧
      ∃ front back,
        (∀ text, ((markedCondition none).retext (.value 0) text []).print.text =
          front ++ ('"' :: text.escape ++ ['"'] ++ back)) ∧
        (markedCondition none).print.cursor = some (front ++ "\"x\\\"".toList).length := by
  have first :
      (markedCondition none).FirstMarked [] (.value 0) ⟨"x\"y".toList, some 2, false⟩ 2 := by
    refine ⟨rfl, rfl, fun earlier other unmarked here smaller => ?_⟩
    cases earlier with
    | cons index earlier => cases here
    | nil =>
        cases other with
        | field =>
            obtain rfl := Option.some.inj here
            rfl
        | value index =>
            rcases List.cons_lt_cons_iff.mp smaller with lower | ⟨_, empty⟩
            · exact absurd (Nat.lt_of_succ_lt_succ lower) (Nat.not_lt_zero index)
            · exact absurd empty (List.not_lt_nil [])
  obtain ⟨front, back, cursor, around, printed, behind, _, _⟩ :=
    (cursor_behind_typed_iff (markedCondition none)).2 [] (.value 0) _ 2 first
  refine ⟨first, front, back, around, ?_⟩
  rw [printed]
  exact congrArg some (behind.mpr (Or.inl (by decide)))

/-- The field is one character long and written without quotes, and so its cursor stands behind the
end of the whole text. -/
theorem cursor_behind_end_of_text :
    (markedCondition (some 99)).FirstMarked [] .field ⟨"a".toList, some 99, false⟩ 99 ∧
      Word.typed ⟨"a".toList, some 99, false⟩ = "a".toList ∧
      (markedCondition (some 99)).print = ⟨"a = \"x\\\"y\"".toList, some 99⟩ ∧
      (markedCondition (some 99)).print.text.length = 10 := by
  refine ⟨⟨rfl, rfl, fun earlier other unmarked here smaller => ?_⟩, rfl, by decide, by decide⟩
  cases earlier with
  | cons index earlier => cases here
  | nil =>
      rcases List.cons_lt_cons_iff.mp smaller with lower | ⟨_, empty⟩
      · exact absurd lower (Nat.not_lt_zero _)
      · exact absurd empty (List.not_lt_nil [])

end Tree

end FilterQuery
