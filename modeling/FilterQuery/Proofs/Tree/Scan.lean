import FilterQuery.Proofs.Tree.Pieces

/-!
Scanning a written tree. The quotes are placed so that every field, comparator and value comes back
as it was, and the cursor comes back in the word that carries it.
-/

set_option autoImplicit false

namespace FilterQuery

/-- A condition that can be written: its words and its comparator are not empty, and it has no
values as long as it has no comparator. -/
structure Condition.Legible (condition : Condition) : Prop where
  words : ∀ word ∈ condition.words, word.Sound
  comparator : ∀ text, condition.comparator = some text → text ≠ []
  values : condition.comparator = none → condition.values = []

namespace Piece

def Stops (pieces : List Piece) : Prop := ∀ next ∈ pieces.head?, next.isPlain = false

theorem stops_cons (piece : Piece) (rest : List Piece) (plain : piece.isPlain = false) :
    Stops (piece :: rest) := by
  intro next first
  obtain rfl : piece = next := Option.some.inj first
  exact plain

/-- Pieces behind which anything may stand that begins with no plain word. -/
def Separate (pieces : List Piece) : Prop :=
  ∀ rest, Stops rest → rest.IsChain Apart → (pieces ++ rest).IsChain Apart

/-- Pieces that may stand between any two others. -/
def Divides (separator : List Piece) : Prop :=
  ∀ rest, rest.IsChain Apart → Stops (separator ++ rest) ∧ (separator ++ rest).IsChain Apart

theorem stops_nil : Stops [] := by
  intro next absent
  cases absent

theorem apart_cons (piece : Piece) (rest : List Piece)
    (separate : piece.isPlain = true → Stops rest) (apart : rest.IsChain Apart) :
    (piece :: rest).IsChain Apart := by
  rw [List.isChain_cons]
  exact ⟨fun next first plain => separate plain next first, apart⟩

theorem separate_singleton (piece : Piece) : Separate [piece] :=
  fun rest stops apart => apart_cons piece rest (fun _ => stops) apart

theorem divides_singleton (piece : Piece) (plain : piece.isPlain = false) : Divides [piece] := by
  intro rest apart
  exact ⟨stops_cons piece rest plain,
    apart_cons piece rest (fun is => absurd (plain.symm.trans is) (by decide)) apart⟩

theorem separate_join (separator : List Piece) (divides : Divides separator)
    (parts : List (List Piece)) (each : ∀ part ∈ parts, Separate part) :
    Separate (join separator parts) := by
  match parts with
  | [] => exact fun rest _ apart => apart
  | [part] => exact each part (by simp)
  | first :: second :: rest =>
      have later := separate_join separator divides (second :: rest) fun part member =>
        each part (List.mem_cons_of_mem _ member)
      intro behind stops apart
      rw [join, List.append_assoc, List.append_assoc]
      · have between := divides _ (later behind stops apart)
        exact each first (by simp) _ between.1 between.2
      · simp

theorem separate_bracketed (inner : List Piece) (separate : Separate inner) :
    Separate (bracketed inner) := by
  intro rest stops apart
  have closing := divides_singleton (.punctuation ')') rfl rest apart
  rw [bracketed, List.append_assoc, List.append_assoc]
  exact (divides_singleton (.punctuation '(') rfl _ (separate _ closing.1 closing.2)).2

theorem mem_join (separator : List Piece) (parts : List (List Piece)) (piece : Piece)
    (member : piece ∈ join separator parts) :
    piece ∈ separator ∨ ∃ part ∈ parts, piece ∈ part := by
  cases parts with
  | nil => contradiction
  | cons first rest =>
      rw [join_cons, List.mem_append, List.mem_flatMap] at member
      rcases member with here | ⟨part, listed, inside⟩
      · exact Or.inr ⟨first, by simp, here⟩
      · rcases List.mem_append.mp inside with between | later
        · exact Or.inl between
        · exact Or.inr ⟨part, List.mem_cons_of_mem _ listed, later⟩

theorem count_join (separator : List Piece) (unmarked : separator.countP isMarked = 0)
    (parts : List (List Piece)) :
    (join separator parts).countP isMarked = (parts.map (List.countP isMarked)).sum := by
  cases parts with
  | nil => rfl
  | cons first rest =>
      rw [join_cons, List.countP_append, List.countP_flatMap, List.map_cons, List.sum_cons]
      congr 2
      apply List.map_congr_left
      intro part _
      rw [Function.comp, List.countP_append, unmarked, Nat.zero_add]

end Piece

theorem Text.needs_no_quotes (text : Text) (plain : text.needsQuotes = false) :
    text ≠ [] ∧ (∀ char ∈ text, Word.isOrdinary char = true) ∧
      ∀ sign ∈ Comparator.signs, ¬ sign <:+: text := by
  simp only [needsQuotes, Bool.or_eq_false_iff] at plain
  obtain ⟨⟨⟨written, _⟩, characters⟩, signs⟩ := plain
  refine ⟨List.isEmpty_eq_false_iff.mp written, ?_, ?_⟩
  · intro char member
    have known := List.any_eq_false.mp characters char member
    have blank : Word.isBlank char = true → isBlank char = true := by
      simp only [Word.isBlank, List.mem_cons, List.not_mem_nil, or_false, decide_eq_true_eq]
      rintro (rfl | rfl | rfl | rfl) <;> decide
    simp only [Bool.or_eq_true, decide_eq_true_eq, List.mem_cons, List.not_mem_nil, or_false,
      not_or] at known
    obtain ⟨spaced, quote, backslash, comma, opening, closing⟩ := known
    simp only [Word.isOrdinary, Word.isPunctuation, List.mem_cons, List.not_mem_nil, or_false,
      comma, opening, closing, decide_false, Bool.not_false, Bool.and_true, Bool.and_eq_true,
      bne_iff_ne, ne_eq, Bool.not_eq_true']
    refine ⟨⟨backslash, quote⟩, ?_⟩
    rw [Bool.eq_false_iff]
    exact fun space => spaced (blank space)
  · intro sign listed infixed
    rw [Bool.eq_false_iff] at signs
    exact signs ((Comparator.contains_sign_iff text).mpr ⟨sign, listed, infixed⟩)

theorem Word.legible_plain (word : Word) (sound : word.Sound)
    (plain : word.text.needsQuotes = false) : (Piece.plain word).Legible := by
  obtain ⟨written, ordinary, signs⟩ := Text.needs_no_quotes word.text plain
  exact ⟨sound, Comparator.cut_signs_whole word.text written (Or.inr signs), ordinary⟩

theorem Word.legible_field_piece (field : Word) (sound : field.Sound) :
    field.fieldPiece.Legible := by
  rw [fieldPiece]
  cases quoted : field.text.needsQuotes with
  | true => exact sound
  | false => exact field.legible_plain sound quoted

theorem Word.sound_plain (text : Text) (written : text ≠ []) : (Word.plain text).Sound :=
  Word.sound_of_unmarked _ written rfl

theorem Word.legible_keyword (text : Text)
    (known : text ∈ ["and".toList, "or".toList, "not".toList, "is".toList, "in".toList,
      "like".toList]) : (Piece.plain (.plain text)).Legible := by
  simp only [List.mem_cons, List.not_mem_nil, or_false] at known
  rcases known with rfl | rfl | rfl | rfl | rfl | rfl <;>
    exact ⟨Word.sound_plain _ (by decide), by decide, List.all_eq_true.mp (by decide)⟩

namespace Comparator

theorem legible_sign (sign : Text) (listed : sign ∈ signs) :
    (Piece.plain (.plain sign)).Legible := by
  have written := sign_nonempty sign listed
  refine ⟨Word.sound_plain sign written, cut_signs_whole sign written (Or.inl listed), ?_⟩
  simp only [signs, List.mem_cons, List.not_mem_nil, or_false] at listed
  rcases listed with rfl | rfl | rfl | rfl | rfl | rfl <;> exact List.all_eq_true.mp (by decide)

theorem legible_pieces (comparator : Text) (written : comparator ≠ []) :
    ∀ piece ∈ pieces comparator, piece.Legible := by
  intro piece member
  rw [pieces] at member
  split at member
  · next phrase =>
      have keywords : ∀ word ∈ comparator.splitOn ' ', word ∈ ["and".toList, "or".toList,
          "not".toList, "is".toList, "in".toList, "like".toList] := by
        have known := List.contains_iff_mem.mp phrase
        simp only [phrases, List.mem_cons, List.not_mem_nil, or_false] at known
        rcases known with rfl | rfl | rfl | rfl | rfl | rfl | rfl <;> decide
      rcases Piece.mem_join _ _ piece member with between | ⟨part, listed, inside⟩
      · obtain rfl := List.mem_singleton.mp between
        trivial
      · obtain ⟨word, spoken, rfl⟩ := List.mem_map.mp listed
        obtain rfl := List.mem_singleton.mp inside
        exact Word.legible_keyword word (keywords word spoken)
  · split at member
    · next raw =>
        obtain rfl := List.mem_singleton.mp member
        rw [Bool.or_eq_true, Bool.not_eq_true'] at raw
        rcases raw with sign | plain
        · exact legible_sign comparator (List.contains_iff_mem.mp sign)
        · exact Word.legible_plain _ (Word.sound_plain comparator written) plain
    · obtain rfl := List.mem_singleton.mp member
      exact Word.sound_of_unmarked _ written rfl

theorem separate_pieces (comparator : Text) : Piece.Separate (pieces comparator) := by
  rw [pieces]
  split
  · apply Piece.separate_join _ (Piece.divides_singleton .blank rfl)
    intro part listed
    obtain ⟨word, _, rfl⟩ := List.mem_map.mp listed
    exact Piece.separate_singleton _
  · split <;> exact Piece.separate_singleton _

@[simp]
theorem count_pieces (comparator : Text) : (pieces comparator).countP Piece.isMarked = 0 := by
  rw [List.countP_eq_zero]
  intro piece member
  rw [pieces] at member
  split at member
  · rcases Piece.mem_join _ _ piece member with between | ⟨part, listed, inside⟩
    · obtain rfl := List.mem_singleton.mp between
      exact Bool.false_ne_true
    · obtain ⟨word, _, rfl⟩ := List.mem_map.mp listed
      obtain rfl := List.mem_singleton.mp inside
      exact Bool.false_ne_true
  · split at member <;> obtain rfl := List.mem_singleton.mp member <;> exact Bool.false_ne_true

end Comparator

namespace Word

theorem legible_value_pieces (values : List Word) (sound : ∀ value ∈ values, value.Sound) :
    ∀ piece ∈ valuePieces values, piece.Legible := by
  match values with
  | [] => simp [valuePieces]
  | [value] => simpa [valuePieces, Piece.Legible] using sound
  | first :: second :: rest =>
      intro piece member
      rw [valuePieces, List.mem_cons, Piece.bracketed, List.mem_append, List.mem_append] at member
      · rcases member with rfl | (opening | inner) | closing
        · trivial
        · obtain rfl := List.mem_singleton.mp opening
          rfl
        · rcases Piece.mem_join _ _ piece inner with comma | ⟨part, listed, inside⟩
          · obtain rfl := List.mem_singleton.mp comma
            rfl
          · obtain ⟨value, known, rfl⟩ := List.mem_map.mp listed
            obtain rfl := List.mem_singleton.mp inside
            exact sound value known
        · obtain rfl := List.mem_singleton.mp closing
          rfl
      all_goals simp

theorem separate_value_pieces (values : List Word) (rest : List Piece) (stops : Piece.Stops rest)
    (apart : rest.IsChain Piece.Apart) :
    Piece.Stops (valuePieces values ++ rest) ∧
      (valuePieces values ++ rest).IsChain Piece.Apart := by
  have behindBlank : ∀ pieces, Piece.Separate pieces → Piece.Stops (.blank :: pieces ++ rest) ∧
      (.blank :: pieces ++ rest).IsChain Piece.Apart := fun pieces separate =>
    Piece.divides_singleton .blank rfl _ (separate rest stops apart)
  match values with
  | [] => exact ⟨stops, apart⟩
  | [value] => exact behindBlank _ (Piece.separate_singleton _)
  | first :: second :: rest =>
      apply behindBlank _ (Piece.separate_bracketed _ _)
      apply Piece.separate_join _ (Piece.divides_singleton (.punctuation ',') rfl)
      intro part listed
      obtain ⟨value, _, rfl⟩ := List.mem_map.mp listed
      exact Piece.separate_singleton _

@[simp] theorem is_marked_quoted (word : Word) : (Piece.quoted word).isMarked = word.isMarked :=
  Option.isSome_map

@[simp]
theorem is_marked_field_piece (field : Word) : field.fieldPiece.isMarked = field.isMarked := by
  rw [fieldPiece]
  split
  · exact is_marked_quoted field
  · rfl

theorem sum_marks (words : List Word) :
    (words.map fun word => if word.isMarked = true then 1 else 0).sum = words.countP isMarked := by
  induction words with
  | nil => rfl
  | cons word rest induction =>
      rw [List.map_cons, List.sum_cons, List.countP_cons, induction, Nat.add_comm]

@[simp] theorem count_value_pieces (values : List Word) :
    (valuePieces values).countP Piece.isMarked = values.countP isMarked := by
  match values with
  | [] => rfl
  | [value] =>
      rw [valuePieces, List.countP_cons_of_neg Bool.false_ne_true, List.countP_singleton,
        List.countP_singleton, is_marked_quoted]
  | first :: second :: rest =>
      have each : (List.countP Piece.isMarked ∘ fun value : Word => [Piece.quoted value]) =
          fun value => if isMarked value = true then 1 else 0 := by
        funext value
        rw [Function.comp, List.countP_singleton, is_marked_quoted]
      rw [valuePieces, List.countP_cons_of_neg Bool.false_ne_true, Piece.bracketed,
        List.countP_append, List.countP_append, Piece.count_join [.punctuation ','] rfl,
        List.map_map, each, sum_marks, List.countP_singleton, List.countP_singleton]
      · exact Nat.zero_add _
      all_goals simp

end Word

namespace Condition

theorem legible_pieces (condition : Condition) (legible : condition.Legible) :
    ∀ piece ∈ condition.pieces, piece.Legible := by
  have field := condition.field.legible_field_piece
    (legible.words condition.field (List.mem_cons_self))
  have values := Word.legible_value_pieces condition.values fun value member =>
    legible.words value (List.mem_cons_of_mem _ member)
  intro piece member
  rw [pieces] at member
  split at member
  · obtain rfl := List.mem_singleton.mp member
    exact field
  · next comparator given =>
      simp only [List.cons_append, List.mem_cons, List.mem_append] at member
      rcases member with rfl | rfl | compared | value
      · exact field
      · trivial
      · exact Comparator.legible_pieces comparator (legible.comparator comparator given) piece
          compared
      · exact values piece value

theorem separate_pieces (condition : Condition) : Piece.Separate condition.pieces := by
  intro rest stops apart
  rw [pieces]
  split
  · exact Piece.separate_singleton _ rest stops apart
  · next comparator given =>
      have values := Word.separate_value_pieces condition.values rest stops apart
      have compared := Comparator.separate_pieces comparator _ values.1 values.2
      have blank := Piece.divides_singleton .blank rfl _ compared
      rw [List.append_assoc]
      exact Piece.separate_singleton condition.field.fieldPiece _ blank.1 blank.2

theorem count_pieces (condition : Condition)
    (written : condition.comparator = none → condition.values = []) :
    condition.pieces.countP Piece.isMarked = condition.words.countP Word.isMarked := by
  rw [pieces, words, List.countP_cons]
  split
  · next absent =>
      rw [written absent, List.countP_singleton, Word.is_marked_field_piece]
      simp
  · rw [List.countP_append, List.countP_cons, List.countP_cons_of_neg Bool.false_ne_true,
      Comparator.count_pieces, Word.count_value_pieces, Word.is_marked_field_piece]
    omega

end Condition

namespace Tree

/-- The words of the written tree. -/
def tokens (tree : Tree) : List Word := tree.pieces.flatMap Piece.words

def Legible (tree : Tree) : Prop := ∀ condition ∈ tree.conditions, condition.Legible

theorem legible_child (operation : Operation) (children : List Tree)
    (legible : (group operation children).Legible) : ∀ child ∈ children, child.Legible := by
  intro child member condition contained
  apply legible
  rw [conditions_group]
  exact List.mem_flatMap.mpr ⟨child, member, contained⟩

theorem legible_pieces (tree : Tree) (legible : tree.Legible) :
    ∀ piece ∈ tree.pieces, piece.Legible := by
  induction tree using induct with
  | condition leaf => exact leaf.legible_pieces (legible leaf (by simp [conditions]))
  | group operation children induction =>
      have children := legible_child operation children legible
      intro piece member
      rw [pieces_group, List.mem_append] at member
      rcases member with opening | joined
      · cases operation with
        | and => contradiction
        | or => contradiction
        | not =>
            rcases List.mem_cons.mp opening with rfl | blank
            · exact Word.legible_keyword _ (by decide)
            · obtain rfl := List.mem_singleton.mp blank
              trivial
      · rcases Piece.mem_join _ _ piece joined with between | ⟨part, listed, inside⟩
        · cases operation with
          | not => contradiction
          | _ =>
              simp only [Operation.separator, List.mem_cons, List.not_mem_nil, or_false] at between
              rcases between with rfl | rfl | rfl
              · trivial
              · exact Word.legible_keyword _ (by decide)
              · trivial
        · obtain ⟨child, known, rfl⟩ := List.mem_map.mp listed
          have inner := induction child known (children child known)
          rw [operandPieces] at inside
          split at inside
          · simp only [Piece.bracketed, List.cons_append, List.nil_append, List.mem_cons,
              List.mem_append, List.not_mem_nil, or_false] at inside
            rcases inside with rfl | inside | rfl
            · rfl
            · exact inner piece inside
            · rfl
          · exact inner piece inside

theorem divides_separator (operation : Operation) (joins : operation ≠ .not) :
    Piece.Divides operation.separator := by
  intro rest apart
  have last := Piece.divides_singleton .blank rfl rest apart
  cases operation with
  | not => contradiction
  | _ =>
      exact Piece.divides_singleton .blank rfl _
        (Piece.separate_singleton (.plain _) _ last.1 last.2)

theorem separate_operand_pieces (outer : Operation) (tree : Tree)
    (separate : Piece.Separate tree.pieces) : Piece.Separate (tree.operandPieces outer) := by
  rw [operandPieces]
  split
  · exact Piece.separate_bracketed _ separate
  · exact separate

theorem separate_pieces (tree : Tree) (normal : tree.Normal) : Piece.Separate tree.pieces := by
  induction normal with
  | condition leaf => exact leaf.separate_pieces
  | not child _ induction =>
      rw [pieces_group]
      intro rest stops apart
      have operand := separate_operand_pieces .not child induction rest stops apart
      have blank := Piece.divides_singleton .blank rfl _ operand
      exact Piece.separate_singleton _ _ blank.1 blank.2
  | group operation children joins _ _ _ induction =>
      have opening : operation.opening = [] := by
        cases operation with
        | not => contradiction
        | _ => rfl
      rw [pieces_group, opening, List.nil_append]
      apply Piece.separate_join _ (divides_separator operation joins)
      intro part listed
      obtain ⟨child, member, rfl⟩ := List.mem_map.mp listed
      exact separate_operand_pieces operation child (induction child member)

theorem count_pieces (tree : Tree) (legible : tree.Legible) :
    tree.pieces.countP Piece.isMarked = tree.words.countP Word.isMarked := by
  induction tree using induct with
  | condition leaf =>
      have here := leaf.count_pieces (legible leaf (by simp [conditions])).values
      simpa [pieces, words, conditions] using here
  | group operation children induction =>
      have legibles := legible_child operation children legible
      have opening : operation.opening.countP Piece.isMarked = 0 := by cases operation <;> rfl
      have separator : operation.separator.countP Piece.isMarked = 0 := by cases operation <;> rfl
      have each : ∀ child ∈ children, (child.operandPieces operation).countP Piece.isMarked =
          child.words.countP Word.isMarked := by
        intro child member
        rw [← induction child member (legibles child member), operandPieces]
        split
        · rw [Piece.bracketed, List.countP_append, List.countP_append]
          exact Nat.zero_add _
        · rfl
      rw [pieces_group, List.countP_append, opening, Nat.zero_add, Piece.count_join _ separator,
        List.map_map, words, conditions_group, List.flatMap_assoc, List.countP_flatMap]
      exact congrArg List.sum (List.map_congr_left each)

theorem scan_print (tree : Tree) (normal : tree.Normal) (legible : tree.Legible)
    (single : tree.words.countP Word.isMarked ≤ 1) :
    Word.scan tree.print.text tree.print.cursor = tree.tokens := by
  have apart := separate_pieces tree normal [] Piece.stops_nil List.isChain_nil
  rw [List.append_nil] at apart
  rw [← print_pieces]
  apply Piece.scan_print _ (legible_pieces tree legible) apart
  rw [count_pieces tree legible]
  exact single

end Tree

end FilterQuery
