import FilterQuery.Proofs.Tree.Place

/-!
What is written around a word of a tree does not depend on this word. In front of it stand the
conditions further to the left, with their cursors, and no other cursors once the rest of its own
condition has none.
-/

set_option autoImplicit false

namespace FilterQuery

theorem split_at_get {Item : Type} (items : List Item) (index : Nat) (item : Item)
    (here : items[index]? = some item) :
    ∃ before after, items = before ++ item :: after ∧ before.length = index := by
  obtain ⟨inside, rfl⟩ := List.getElem?_eq_some_iff.mp here
  refine ⟨items.take index, items.drop (index + 1), ?_, List.length_take_of_le inside.le⟩
  rw [List.cons_getElem_drop_succ, List.take_append_drop]

namespace Piece

theorem join_around (separator : List Piece) (before after : List (List Piece))
    (part : List Piece) :
    join separator (before ++ part :: after) =
      before.flatMap (· ++ separator) ++ (part ++ after.flatMap (separator ++ ·)) := by
  induction before with
  | nil => exact join_cons separator part after
  | cons first before induction =>
      have later : join separator (first :: (before ++ part :: after)) =
          first ++ separator ++ join separator (before ++ part :: after) := by
        rw [join]
        simp
      rw [List.cons_append, later, induction, List.flatMap_cons]
      simp only [List.append_assoc]

theorem mem_join_iff (separator : List Piece) (parts : List (List Piece)) (piece : Piece)
    (elsewhere : piece ∉ separator) :
    piece ∈ join separator parts ↔ ∃ part ∈ parts, piece ∈ part := by
  constructor
  · intro member
    exact (mem_join separator parts piece member).resolve_left elsewhere
  · rintro ⟨part, listed, member⟩
    obtain ⟨before, after, rfl⟩ := List.append_of_mem listed
    rw [join_around]
    simp [member]

theorem not_mem_of_marked (pieces : List Piece) (unmarked : pieces.countP isMarked = 0)
    (piece : Piece) (marked : piece.isMarked = true) : piece ∉ pieces :=
  fun member => List.countP_eq_zero.mp unmarked piece member marked

def bracket (char : Char) (needed : Bool) : List Piece :=
  if needed then [.punctuation char] else []

theorem not_mem_bracket (char : Char) (needed : Bool) (piece : Piece)
    (marked : piece.isMarked = true) : piece ∉ bracket char needed := by
  apply not_mem_of_marked _ _ piece marked
  cases needed <;> rfl

end Piece

namespace Word

theorem value_pieces_eq (values : List Word) (given : values ≠ []) :
    valuePieces values = .blank :: (Piece.bracket '(' (decide (1 < values.length)) ++
      (Piece.join [.punctuation ','] (values.map fun value => [.quoted value]) ++
        Piece.bracket ')' (decide (1 < values.length)))) := by
  match values with
  | [] => contradiction
  | [value] => rfl
  | first :: second :: rest =>
      have several : decide (1 < (first :: second :: rest).length) = true := by simp
      rw [several, valuePieces, Piece.bracketed, List.append_assoc]
      · rfl
      all_goals simp

theorem value_of_marked_piece (values : List Word) (piece : Piece)
    (member : piece ∈ valuePieces values) (marked : piece.isMarked = true) :
    ∃ value ∈ values, piece = .quoted value := by
  have given : values ≠ [] := by
    rintro rfl
    cases member
  have comma := Piece.not_mem_of_marked [.punctuation ','] rfl piece marked
  have opening := Piece.not_mem_bracket '(' (decide (1 < values.length)) piece marked
  have closing := Piece.not_mem_bracket ')' (decide (1 < values.length)) piece marked
  rw [value_pieces_eq values given, List.mem_cons, List.mem_append, List.mem_append,
    Piece.mem_join_iff _ _ piece comma] at member
  rcases member with rfl | bracket | ⟨part, listed, inside⟩ | bracket
  · cases marked
  · contradiction
  · obtain ⟨value, known, rfl⟩ := List.mem_map.mp listed
    exact ⟨value, known, List.mem_singleton.mp inside⟩
  · contradiction

theorem value_pieces_around (before after : List Word)
    (unmarked : ∀ value ∈ before, value.isMarked = false) :
    ∃ front back, (∀ piece ∈ front, piece.isMarked = false) ∧
      ∀ value, valuePieces (before ++ value :: after) = front ++ .quoted value :: back := by
  let several := decide (1 < before.length + (after.length + 1))
  let quoted := fun value : Word => [Piece.quoted value]
  refine ⟨.blank :: (Piece.bracket '(' several ++
      (before.map quoted).flatMap (· ++ [.punctuation ','])),
    (after.map quoted).flatMap ([.punctuation ','] ++ ·) ++ Piece.bracket ')' several, ?_, ?_⟩
  · intro piece member
    by_contra marked
    rw [Bool.not_eq_false] at marked
    rw [List.mem_cons, List.mem_append, List.mem_flatMap] at member
    rcases member with rfl | bracket | ⟨part, listed, inside⟩
    · cases marked
    · exact Piece.not_mem_bracket '(' several piece marked bracket
    · obtain ⟨value, known, rfl⟩ := List.mem_map.mp listed
      rcases List.mem_append.mp inside with here | comma
      · obtain rfl := List.mem_singleton.mp here
        rw [is_marked_quoted, unmarked value known] at marked
        cases marked
      · exact Piece.not_mem_of_marked _ rfl piece marked comma
  · intro value
    rw [value_pieces_eq _ (by simp), List.length_append, List.length_cons, List.map_append,
      List.map_cons, Piece.join_around]
    simp only [List.append_assoc, List.cons_append, List.nil_append]
    rfl

end Word

/-- How a word is written in the slot. -/
def Slot.piece (word : Word) : Slot → Piece
  | .field => word.fieldPiece
  | .value _ => .quoted word

namespace Condition

theorem word_of_marked_piece (condition : Condition) (piece : Piece)
    (member : piece ∈ condition.pieces) (marked : piece.isMarked = true) :
    ∃ word ∈ condition.words, piece = .quoted word ∨ piece = .plain word := by
  have field : condition.field.fieldPiece = .quoted condition.field ∨
      condition.field.fieldPiece = .plain condition.field := by
    rw [Word.fieldPiece]
    cases condition.field.text.needsQuotes
    · exact Or.inr rfl
    · exact Or.inl rfl
  rw [pieces] at member
  split at member
  · obtain rfl := List.mem_singleton.mp member
    exact ⟨condition.field, by simp [words], field⟩
  · next comparator _ =>
      simp only [List.cons_append, List.mem_cons, List.mem_append] at member
      rcases member with rfl | rfl | compared | given
      · exact ⟨condition.field, by simp [words], field⟩
      · cases marked
      · exact absurd compared
          (Piece.not_mem_of_marked _ (Comparator.count_pieces comparator) piece marked)
      · obtain ⟨value, listed, rfl⟩ :=
          Word.value_of_marked_piece condition.values piece given marked
        exact ⟨value, List.mem_cons_of_mem _ listed, Or.inl rfl⟩

/-- What is written of the condition. Without a comparator the values are not. -/
def printedPart (condition : Condition) : Condition :=
  match condition.comparator with
  | none => { condition with values := [] }
  | some _ => condition

theorem printed_part_of_compared (condition : Condition) (comparator : Text)
    (compared : condition.comparator = some comparator) : condition.printedPart = condition := by
  rw [printedPart, compared]

@[simp] theorem pieces_printed_part (condition : Condition) :
    condition.printedPart.pieces = condition.pieces := by
  obtain ⟨field, comparator, values⟩ := condition
  cases comparator <;> rfl

theorem marked_printed_iff (condition : Condition) :
    (∃ piece ∈ condition.pieces, piece.isMarked = true) ↔
      ∃ word ∈ condition.printedPart.words, word.isMarked = true := by
  have complete : condition.printedPart.comparator = none → condition.printedPart.values = [] := by
    obtain ⟨field, comparator, values⟩ := condition
    cases comparator with
    | none => exact fun _ => rfl
    | some comparator => exact fun absent => by cases absent
  have count := condition.printedPart.count_pieces complete
  rw [pieces_printed_part] at count
  rw [← List.countP_pos_iff, count, List.countP_pos_iff]

theorem pieces_of_compared (condition : Condition) (comparator : Text)
    (compared : condition.comparator = some comparator) :
    condition.pieces = condition.field.fieldPiece :: .blank ::
      (Comparator.pieces comparator ++ Word.valuePieces condition.values) := by
  rw [pieces, compared]
  rfl

/-- What is written around a word of a condition does not depend on it, and in front of it there is
no cursor if no word in front of it has one. -/
theorem pieces_around_word (comparator : Text) (slot : Slot) (before after : List Word)
    (place : before.length = slot.index) (unmarked : ∀ word ∈ before, word.isMarked = false) :
    ∃ front back, (∀ piece ∈ front, piece.isMarked = false) ∧
      ∀ (condition : Condition) (word : Word), condition.comparator = some comparator →
        condition.words = before ++ word :: after →
          condition.pieces = front ++ slot.piece word :: back := by
  cases slot with
  | field =>
      obtain rfl := List.length_eq_zero_iff.mp place
      refine ⟨[], .blank :: (Comparator.pieces comparator ++ Word.valuePieces after),
        List.forall_mem_nil _, fun condition word compared written => ?_⟩
      obtain ⟨rfl, rfl⟩ := List.cons.inj written
      exact pieces_of_compared condition comparator compared
  | value index =>
      match before with
      | [] => cases place
      | field :: before =>
          rw [List.forall_mem_cons] at unmarked
          obtain ⟨front, back, quiet, around⟩ := Word.value_pieces_around before after unmarked.2
          refine ⟨field.fieldPiece :: .blank :: (Comparator.pieces comparator ++ front), back, ?_,
            fun condition word compared written => ?_⟩
          · intro piece member
            simp only [List.mem_cons, List.mem_append] at member
            rcases member with rfl | rfl | compared | inside
            · exact (Word.is_marked_field_piece field).trans unmarked.1
            · rfl
            · rw [Bool.eq_false_iff]
              exact List.countP_eq_zero.mp (Comparator.count_pieces comparator) piece compared
            · exact quiet piece inside
          · obtain ⟨first, values⟩ := List.cons.inj (written.trans (List.cons_append ..))
            rw [pieces_of_compared condition comparator compared, first, values, around]
            simp only [List.append_assoc, List.cons_append]
            rfl

theorem pieces_around_suggestion (condition : Condition) (comparator : Text)
    (compared : condition.comparator = some comparator) (slot : Slot) (word : Word)
    (stands : condition.wordAt slot = some word) :
    ∃ front back, (∀ piece ∈ front, piece.isMarked = false) ∧
      ∀ suggestion, ∃ new, condition.replace slot suggestion = some new ∧
        new.pieces = front ++ slot.piece (suggest suggestion word) :: back := by
  obtain ⟨before, after, split, place⟩ := split_at_get condition.words slot.index word
    ((word_at_eq condition slot).symm.trans stands)
  have unmarked : ∀ value ∈ before.map Word.unmarked, value.isMarked = false := by
    intro value member
    obtain ⟨source, _, rfl⟩ := List.mem_map.mp member
    rfl
  obtain ⟨front, back, quiet, around⟩ := pieces_around_word comparator slot
    (before.map Word.unmarked) (after.map Word.unmarked) (by rw [List.length_map, place]) unmarked
  refine ⟨front, back, quiet, fun suggestion => ?_⟩
  obtain ⟨new, replaced, same, changed⟩ := condition.replace_word slot suggestion before after word
    split place
  exact ⟨new, replaced, around new _ (same.trans compared) changed⟩

end Condition

namespace Tree

theorem operand_pieces_eq (outer : Operation) (tree : Tree) :
    tree.operandPieces outer = Piece.bracket '(' (tree.isBracketed outer) ++
      (tree.pieces ++ Piece.bracket ')' (tree.isBracketed outer)) := by
  rw [operandPieces]
  cases tree.isBracketed outer with
  | false => exact (List.append_nil _).symm
  | true => exact List.append_assoc _ _ _

theorem mem_operand_pieces_iff (outer : Operation) (tree : Tree) (piece : Piece)
    (marked : piece.isMarked = true) :
    piece ∈ tree.operandPieces outer ↔ piece ∈ tree.pieces := by
  have opening := Piece.not_mem_bracket '(' (tree.isBracketed outer) piece marked
  have closing := Piece.not_mem_bracket ')' (tree.isBracketed outer) piece marked
  rw [operand_pieces_eq, List.mem_append, List.mem_append]
  simp only [opening, closing, false_or, or_false]

theorem not_mem_opening (operation : Operation) (piece : Piece)
    (marked : piece.isMarked = true) : piece ∉ operation.opening :=
  Piece.not_mem_of_marked _ (by cases operation <;> rfl) piece marked

theorem not_mem_separator (operation : Operation) (piece : Piece)
    (marked : piece.isMarked = true) : piece ∉ operation.separator :=
  Piece.not_mem_of_marked _ (by cases operation <;> rfl) piece marked

theorem mem_pieces_iff (tree : Tree) (piece : Piece) (marked : piece.isMarked = true) :
    piece ∈ tree.pieces ↔ ∃ condition ∈ tree.conditions, piece ∈ condition.pieces := by
  induction tree using induct with
  | condition leaf => simp [pieces, conditions]
  | group operation children induction =>
      have opening := not_mem_opening operation piece marked
      have separator := not_mem_separator operation piece marked
      rw [pieces_group, conditions_group, List.mem_append, or_iff_right opening,
        Piece.mem_join_iff _ _ piece separator]
      constructor
      · rintro ⟨part, listed, member⟩
        obtain ⟨child, known, rfl⟩ := List.mem_map.mp listed
        rw [mem_operand_pieces_iff operation child piece marked, induction child known] at member
        obtain ⟨condition, inside, written⟩ := member
        exact ⟨condition, List.mem_flatMap.mpr ⟨child, known, inside⟩, written⟩
      · rintro ⟨condition, listed, written⟩
        obtain ⟨child, known, inside⟩ := List.mem_flatMap.mp listed
        refine ⟨child.operandPieces operation, List.mem_map_of_mem known, ?_⟩
        rw [mem_operand_pieces_iff operation child piece marked, induction child known]
        exact ⟨condition, inside, written⟩

theorem is_bracketed_differ (path : List Nat) (old new : Condition) (tree edited : Tree)
    (differs : DiffersAt path old new tree edited) (outer : Operation) :
    edited.isBracketed outer = tree.isBracketed outer := by
  cases differs with
  | condition => rfl
  | group operation => cases operation <;> rfl

def WrittenBefore (tree : Tree) (path : List Nat) (piece : Piece) : Prop :=
  ∃ earlier condition, earlier < path ∧ tree.conditionAt earlier = some condition ∧
    piece ∈ condition.pieces

theorem marked_before_iff (tree : Tree) (path : List Nat) :
    (∃ piece, piece.isMarked = true ∧ tree.WrittenBefore path piece) ↔
      ∃ earlier condition word, earlier < path ∧ tree.conditionAt earlier = some condition ∧
        word ∈ condition.printedPart.words ∧ word.cursor ≠ none := by
  constructor
  · rintro ⟨piece, marked, earlier, condition, smaller, here, written⟩
    obtain ⟨word, member, carried⟩ := condition.marked_printed_iff.mp ⟨piece, written, marked⟩
    exact ⟨earlier, condition, word, smaller, here, member, Option.isSome_iff_ne_none.mp carried⟩
  · rintro ⟨earlier, condition, word, smaller, here, member, marked⟩
    obtain ⟨piece, written, carried⟩ :=
      condition.marked_printed_iff.mpr ⟨word, member, Option.isSome_iff_ne_none.mpr marked⟩
    exact ⟨piece, carried, earlier, condition, smaller, here, written⟩

theorem cursor_in_front_eq_none_iff (tree : Tree) (path : List Nat) (front : List Piece)
    (marks : ∀ piece, piece.isMarked = true →
      (piece ∈ front ↔ tree.WrittenBefore path piece)) :
    (Piece.print front).cursor = none ↔
      ∀ earlier condition word, earlier < path → tree.conditionAt earlier = some condition →
        word ∈ condition.printedPart.words → word.cursor = none := by
  have inFront : (∃ piece, piece.isMarked = true ∧ tree.WrittenBefore path piece) ↔
      ∃ piece ∈ front, piece.isMarked = true :=
    exists_congr fun piece => (and_congr_right fun marked => (marks piece marked).symm).trans
      and_comm
  rw [← Option.not_isSome_iff_eq_none, Piece.print_cursor_is_some, List.any_eq_true, ← inFront,
    marked_before_iff]
  simp only [not_exists, not_and, ne_eq, not_not]

theorem written_before_in_child (operation : Operation) (before after : List Tree) (child : Tree)
    (path : List Nat) (piece : Piece) (marked : piece.isMarked = true) :
    (group operation (before ++ child :: after)).WrittenBefore (before.length :: path) piece ↔
      (∃ earlier ∈ before, piece ∈ earlier.pieces) ∨ child.WrittenBefore path piece := by
  constructor
  · rintro ⟨earlier, condition, smaller, here, written⟩
    cases earlier with
    | nil => cases here
    | cons index earlier =>
        rcases List.cons_lt_cons_iff.mp smaller with left | ⟨rfl, inside⟩
        · rw [condition_at_earlier_child _ _ _ _ _ index left] at here
          have listed := (mem_conditions_iff _ condition).mpr ⟨earlier, here⟩
          exact Or.inl ⟨_, List.getElem_mem left,
            (mem_pieces_iff _ piece marked).mpr ⟨condition, listed, written⟩⟩
        · rw [condition_at_child] at here
          exact Or.inr ⟨earlier, condition, inside, here, written⟩
  · rintro (⟨earlier, listed, written⟩ | ⟨earlier, condition, inside, here, written⟩)
    · obtain ⟨condition, known, member⟩ := (mem_pieces_iff _ piece marked).mp written
      obtain ⟨path, here⟩ := (mem_conditions_iff _ condition).mp known
      obtain ⟨index, left, rfl⟩ := List.mem_iff_getElem.mp listed
      refine ⟨index :: path, condition, List.cons_lt_cons_iff.mpr (Or.inl left), ?_, member⟩
      rw [condition_at_earlier_child _ _ _ _ _ index left]
      exact here
    · refine ⟨before.length :: earlier, condition,
        List.cons_lt_cons_iff.mpr (Or.inr ⟨rfl, inside⟩), ?_, written⟩
      rw [condition_at_child]
      exact here

/-- What is written around a condition does not depend on it, and the cursors in front of it are
those of the conditions further to the left. -/
theorem pieces_around (path : List Nat) (tree : Tree) (old : Condition)
    (here : tree.conditionAt path = some old) :
    ∃ front back, (∀ piece, piece.isMarked = true →
        (piece ∈ front ↔ tree.WrittenBefore path piece)) ∧
      ∀ new, ∃ edited, DiffersAt path old new tree edited ∧
        edited.pieces = front ++ (new.pieces ++ back) := by
  induction path generalizing tree with
  | nil =>
      cases tree with
      | condition leaf =>
          obtain rfl := Option.some.inj here
          refine ⟨[], [], fun piece _ => iff_of_false List.not_mem_nil ?_, fun new => ?_⟩
          · rintro ⟨earlier, condition, smaller, _⟩
            exact List.not_lt_nil earlier smaller
          · exact ⟨.condition new, .condition leaf new, (List.append_nil new.pieces).symm⟩
      | group operation children => cases here
  | cons index path induction =>
      cases tree with
      | condition leaf => cases here
      | group operation children =>
          obtain ⟨child, place, inside⟩ := Option.bind_eq_some_iff.mp here
          obtain ⟨before, after, rfl, rfl⟩ := split_at_get children index child place
          obtain ⟨front, back, marks, around⟩ := induction child inside
          let operands := fun tree => operandPieces operation tree
          refine ⟨operation.opening ++ ((before.map operands).flatMap (· ++ operation.separator) ++
              (Piece.bracket '(' (child.isBracketed operation) ++ front)),
            back ++ (Piece.bracket ')' (child.isBracketed operation) ++
              (after.map operands).flatMap (operation.separator ++ ·)), ?_, fun new => ?_⟩
          · intro piece marked
            have bracket := Piece.not_mem_bracket '(' (child.isBracketed operation) piece marked
            rw [written_before_in_child operation before after child path piece marked,
              ← marks piece marked, List.mem_append, List.mem_append, List.mem_append,
              or_iff_right (not_mem_opening operation piece marked), or_iff_right bracket]
            apply or_congr_left
            rw [List.flatMap_map, List.mem_flatMap]
            apply exists_congr
            intro tree
            apply and_congr_right
            intro _
            rw [List.mem_append, or_iff_left (not_mem_separator operation piece marked)]
            exact mem_operand_pieces_iff operation tree piece marked
          · obtain ⟨changed, differs, written⟩ := around new
            refine ⟨_, .group operation before child changed after path old new differs, ?_⟩
            rw [pieces_group, List.map_append, List.map_cons, Piece.join_around, operand_pieces_eq,
              is_bracketed_differ path old new child changed differs, written]
            simp only [List.append_assoc, operands]

theorem pieces_around_suggestion (tree : Tree) (path : List Nat) (slot : Slot)
    (condition : Condition) (comparator : Text) (word : Word)
    (here : tree.conditionAt path = some condition)
    (compared : condition.comparator = some comparator)
    (stands : condition.wordAt slot = some word) :
    ∃ front back, (∀ piece, piece.isMarked = true →
        (piece ∈ front ↔ tree.WrittenBefore path piece)) ∧
      ∀ suggestion, ∃ edited, tree.replace slot suggestion path = some edited ∧
        edited.pieces = front ++ slot.piece (Condition.suggest suggestion word) :: back := by
  obtain ⟨front, back, marks, around⟩ := pieces_around path tree condition here
  obtain ⟨ahead, behind, quiet, edits⟩ :=
    condition.pieces_around_suggestion comparator compared slot word stands
  refine ⟨front ++ ahead, behind ++ back, fun piece marked => ?_, fun suggestion => ?_⟩
  · have inside : piece ∉ ahead := by
      intro member
      rw [quiet piece member] at marked
      cases marked
    rw [List.mem_append, or_iff_left inside]
    exact marks piece marked
  · obtain ⟨new, replaced, inside⟩ := edits suggestion
    obtain ⟨edited, differs, written⟩ := around new
    refine ⟨edited, replace_of_differs path condition new tree edited differs slot suggestion
      replaced, ?_⟩
    rw [written, inside]
    simp only [List.append_assoc, List.cons_append]

end Tree

end FilterQuery
