import FilterQuery.Proofs.Draft.Depth
import FilterQuery.Proofs.RoundTrip

/-!
How deep the brackets of a written query are nested. An accepted query is accepted again after it
is written exactly if the brackets it is written with fit the limit. They need not fit: `and` binds
tighter than `or` without brackets, but a conjunction inside a disjunction is written in brackets.
-/

set_option autoImplicit false

namespace FilterQuery

namespace Tree

theorem of_print_too_deep (tree : Tree) (normal : tree.Normal) (legible : tree.unmarked.Legible)
    (complete : tree.Complete) (deep : maxBracketDepth < tree.bracketDepth) :
    ∃ understood, ofText tree.print.text none = .error ⟨.bracketsTooDeep, understood⟩ := by
  have sound := sound_unmarked tree normal legible complete
  have refuses := (Draft.refuses_deep tree.unmarked sound.normal legible
    ((complete_unmarked_iff tree).mpr complete)).1 [] (Nat.zero_le _) (by
      rwa [List.length_nil, Nat.zero_add, unmarked, bracket_depth_map_words]) [] Draft.ends_nil
  rw [List.append_nil] at refuses
  rw [of_text_unmarked tree legible, ofText,
    scan_print tree.unmarked sound.normal legible sound.single]
  exact refuses

end Tree

def spaced (words : List Text) : Text := words.flatMap fun word => word ++ [' ']

theorem words_of_spaced (words : List Text)
    (legible : ∀ word ∈ words, (Piece.plain (.plain word)).Legible)
    (later : List (Char × Bool)) :
    Word.wordsOf (Word.readings .start (Word.markCursor none (spaced words) ++ later)) =
      words.map Word.plain ++ Word.wordsOf (Word.readings .start later) := by
  induction words with
  | nil => rfl
  | cons word words induction =>
      obtain ⟨sound, whole, ordinary⟩ := legible word (by simp)
      have marked : ∀ marked ∈ Word.markCursor none word, Word.isOrdinary marked.1 = true := by
        intro marked member
        apply ordinary
        rw [← Word.text_mark_cursor none (Word.plain word).text]
        exact List.mem_map_of_mem member
      have blank : ∀ rest, Word.readings .start ((' ', false) :: rest) =
          .boundary false :: Word.readings .start rest := fun _ => rfl
      rw [spaced, List.flatMap_cons, Word.mark_cursor_append, Word.mark_cursor_append,
        List.append_assoc, List.append_assoc, Word.readings_ordinary _ _ marked]
      change Word.wordsOf (Word.keep (Word.markCursor none word) ++ Word.readings .start
        ((' ', false) :: (Word.markCursor none (spaced words) ++ later))) = _
      have single : Word.Span.words ⟨Word.markCursor none word, false⟩ = [.plain word] :=
        Word.Span.words_plain (.plain word) sound whole
      rw [blank, Word.words_of_keep, single,
        induction fun other member => legible other (List.mem_cons_of_mem word member)]
      rfl

namespace Nested

def texts : List Text := ["a", "=", "b", "or", "c", "=", "d"].map String.toList

/-- Two conditions on each level of brackets. Behind the second one `and` and the next level make
a conjunction without brackets of its own. -/
def text : Nat → Text
  | 0 => spaced texts
  | depth + 1 => spaced (texts ++ ["and".toList]) ++ '(' :: (text depth ++ [')'])

def words : Nat → List Word
  | 0 => texts.map Word.plain
  | depth + 1 =>
      (texts ++ ["and".toList]).map Word.plain ++ .plain ['('] :: (words depth ++ [.plain [')']])

def first : Tree := .condition ⟨.plain "a".toList, some "=".toList, [.plain "b".toList]⟩

def second : Tree := .condition ⟨.plain "c".toList, some "=".toList, [.plain "d".toList]⟩

def tree : Nat → Tree
  | 0 => .group .or [first, second]
  | depth + 1 => .group .or [first, .group .and [second, tree depth]]

def level : Nat → Level
  | 0 => ⟨[first, second], [⟨.or, false⟩], false⟩
  | depth + 1 => ⟨[first, second, tree depth], [⟨.or, false⟩, ⟨.and, false⟩], false⟩

theorem assemble_level (depth : Nat) : (level depth).assemble = .ok (tree depth) := by
  match depth with
  | 0 => rfl
  | 1 => rfl
  | _ + 2 => rfl

theorem bracket_depth_tree (depth : Nat) : (tree depth).bracketDepth = 2 * depth := by
  induction depth with
  | zero => rfl
  | succ depth induction =>
      have inner : (tree depth).isBracketed .and = true := by cases depth <;> rfl
      have whole : (tree (depth + 1)).bracketDepth = (tree depth).bracketDepth + 2 := by
        simp only [tree, Tree.bracketDepth, Tree.bracketDepthAmong, inner]
        simp [first, second, Tree.bracketDepth, Tree.isBracketed]
      omega

theorem legible_texts : ∀ word ∈ texts ++ ["and".toList],
    (Piece.plain (.plain word)).Legible := by
  have letter : ∀ word : Text, word.needsQuotes = false → (Piece.plain (.plain word)).Legible := by
    intro word plain
    exact Word.legible_plain _ (Word.sound_plain word (Text.needs_no_quotes word plain).1) plain
  have sign := Comparator.legible_sign "=".toList (by decide)
  simp only [texts, List.map_cons, List.map_nil, List.cons_append, List.nil_append,
    List.forall_mem_cons]
  exact ⟨letter _ rfl, sign, letter _ rfl, Word.legible_keyword _ (by decide), letter _ rfl, sign,
    letter _ rfl, Word.legible_keyword _ (by decide), List.forall_mem_nil _⟩

theorem mark_cursor_bracketed (depth : Nat) :
    Word.markCursor none ('(' :: (text depth ++ [')'])) =
      ('(', false) :: (Word.markCursor none (text depth) ++ [(')', false)]) := by
  rw [Word.mark_cursor_cons, Option.map_none, Word.mark_cursor_append]
  rfl

theorem words_of_text (depth : Nat) (rest : List (Char × Bool)) :
    Word.wordsOf (Word.readings .start
        (Word.markCursor none (text depth) ++ (')', false) :: rest)) =
      words depth ++ .plain [')'] :: Word.wordsOf (Word.readings .start rest) := by
  have punctuation : ∀ char ∈ ['(', ')'], ∀ later : List (Char × Bool),
      Word.wordsOf (Word.readings .start ((char, false) :: later)) =
        .plain [char] :: Word.wordsOf (Word.readings .start later) := by
    intro char member later
    simp only [List.mem_cons, List.not_mem_nil, or_false] at member
    rcases member with rfl | rfl <;> rfl
  induction depth generalizing rest with
  | zero =>
      rw [text, words_of_spaced texts
        fun word member => legible_texts word (List.mem_append_left _ member),
        punctuation ')' (by simp)]
      rfl
  | succ depth induction =>
      have inner := induction ((')', false) :: rest)
      rw [text, Word.mark_cursor_append, List.append_assoc, words_of_spaced _ legible_texts,
        Option.map_none, mark_cursor_bracketed, List.cons_append, punctuation '(' (by simp),
        List.append_assoc, List.singleton_append, inner, punctuation ')' (by simp), words]
      simp only [List.append_assoc, List.cons_append, List.nil_append]

theorem run_words (depth : Nat) (outer : List Level)
    (fits : outer.length + depth ≤ maxBracketDepth) (rest : List Word) :
    Draft.run ⟨outer, .empty, .operand⟩ (words depth ++ .plain [')'] :: rest) =
      Draft.run ⟨outer, level depth, .connective⟩ (.plain [')'] :: rest) := by
  induction depth generalizing outer rest with
  | zero => rfl
  | succ depth induction =>
      -- The bracket stands behind `and`, so it is the third operand of a chain without brackets.
      have begins : ∀ later, Draft.run ⟨outer, .empty, .operand⟩
          ((texts ++ ["and".toList]).map Word.plain ++ later) =
            Draft.run ⟨outer, level 0, .afterConnective ⟨.and, false⟩⟩ later := fun _ => rfl
      have opens : Draft.read ⟨outer, level 0, .afterConnective ⟨.and, false⟩⟩ (.plain ['(']) =
          .ok ⟨⟨[first, second], [⟨.or, false⟩, ⟨.and, false⟩], false⟩ :: outer, .empty,
            .operand⟩ := by
        have room : ¬ maxBracketDepth ≤ outer.length := by omega
        change (if maxBracketDepth ≤ outer.length then _ else _) = _
        rw [if_neg room]
        rfl
      have closes : Draft.read ⟨⟨[first, second], [⟨.or, false⟩, ⟨.and, false⟩], false⟩ :: outer,
          level depth, .connective⟩ (.plain [')']) = .ok ⟨outer, level (depth + 1),
            .connective⟩ := Draft.read_closing _ _ _ _ (assemble_level depth)
      rw [words, List.append_assoc, begins, List.cons_append, Draft.run_of_read _ _ _ _ opens,
        List.append_assoc, List.singleton_append, induction _ (by rw [List.length_cons]; omega),
        Draft.run_of_read _ _ _ _ closes]

def input (depth : Nat) : Text := '(' :: (text depth ++ [')'])

theorem accepted (depth : Nat) (fits : depth < maxBracketDepth) :
    Tree.ofText (input depth) none = .ok (tree depth) := by
  have scanned : Word.scan (input depth) none =
      .plain ['('] :: (words depth ++ [.plain [')']]) := by
    change Word.wordsOf (Word.readings .start (Word.markCursor none (input depth))) = _
    rw [input, mark_cursor_bracketed]
    exact congrArg (Word.plain ['('] :: ·) (words_of_text depth [])
  have alone : Level.assemble ⟨[tree depth], [], false⟩ = .ok (tree depth) := by
    cases depth <;> rfl
  have closes : Draft.read ⟨[.empty], level depth, .connective⟩ (.plain [')']) =
      .ok ⟨[], ⟨[tree depth], [], false⟩, .connective⟩ :=
    Draft.read_closing _ _ _ _ (assemble_level depth)
  have runs := run_words depth [.empty] (by rw [List.length_singleton]; omega) []
  rw [Draft.run_of_read _ _ _ _ closes] at runs
  rw [Tree.ofText, scanned]
  exact runs.trans alone

/-- From a certain depth on the text is accepted but not what is written for it. -/
theorem refused_again (depth : Nat) (fits : depth < maxBracketDepth)
    (deep : maxBracketDepth < 2 * depth) :
    ∃ understood, Tree.ofText (tree depth).print.text none =
      .error ⟨.bracketsTooDeep, understood⟩ := by
  have reads := accepted depth fits
  have sound := Tree.sound_of_text _ none _ (congrArg Tree.understood reads)
  apply Tree.of_print_too_deep _ sound.normal (Tree.legible_unmarked _ sound.legible)
    (Tree.complete_of_text _ none _ reads)
  rwa [bracket_depth_tree]

end Nested

namespace Tree

/-- An accepted query is accepted again after it is written, with the same shape, exactly if the
brackets it is written with fit the limit; otherwise it is refused for its brackets. -/
theorem reprint_accepted_iff (input : Text) (tree : Tree)
    (accepted : ofText input none = .ok tree) :
    ((∃ again, ofText tree.print.text none = .ok again ∧ tree.sameShape again = true) ↔
        tree.bracketDepth ≤ maxBracketDepth) ∧
      (maxBracketDepth < tree.bracketDepth → ∃ understood,
        ofText tree.print.text none = .error ⟨.bracketsTooDeep, understood⟩) := by
  have sound := sound_of_text input none tree (by rw [accepted]; rfl)
  have complete := complete_of_text input none tree accepted
  have legible := legible_unmarked tree sound.legible
  have refused := of_print_too_deep tree sound.normal legible complete
  refine ⟨⟨?_, of_print_text tree sound.normal legible complete⟩, refused⟩
  rintro ⟨again, reads, _⟩
  by_contra deep
  obtain ⟨understood, fails⟩ := refused (Nat.lt_of_not_le deep)
  rw [reads] at fails
  cases fails

theorem nested_query_refused_again :
    ofText (Nested.input 65) none = .ok (Nested.tree 65) ∧
      ¬ ∃ again, ofText (Nested.tree 65).print.text none = .ok again ∧
        (Nested.tree 65).sameShape again = true := by
  refine ⟨Nested.accepted 65 (by decide), ?_⟩
  rintro ⟨again, reads, _⟩
  obtain ⟨understood, fails⟩ := Nested.refused_again 65 (by decide) (by decide)
  rw [reads] at fails
  cases fails

theorem reprint_accepted_iff_nested :
    (ofText (Nested.input 64) none = .ok (Nested.tree 64) ∧
      ∃ again, ofText (Nested.tree 64).print.text none = .ok again ∧
        (Nested.tree 64).sameShape again = true) ∧
      ofText (Nested.input 65) none = .ok (Nested.tree 65) ∧
        ∃ understood, ofText (Nested.tree 65).print.text none =
          .error ⟨.bracketsTooDeep, understood⟩ := by
  have shallow := Nested.accepted 64 (by decide)
  have deep := Nested.accepted 65 (by decide)
  refine ⟨⟨shallow, ?_⟩, deep, ?_⟩
  · apply (reprint_accepted_iff (Nested.input 64) (Nested.tree 64) shallow).1.mpr
    rw [Nested.bracket_depth_tree]
    decide
  · apply (reprint_accepted_iff (Nested.input 65) (Nested.tree 65) deep).2
    rw [Nested.bracket_depth_tree]
    decide

end Tree

end FilterQuery
