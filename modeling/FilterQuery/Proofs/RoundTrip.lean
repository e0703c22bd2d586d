import FilterQuery.Proofs.Draft.Outcome
import FilterQuery.Proofs.Tree.Texts

/-!
Writing a tree and reading the text again. Unless the brackets are nested too deep, the tree that
comes back differs from the written one in quotes only: an accepted query is accepted again, and an
incomplete query keeps everything that was understood of it.
-/

set_option autoImplicit false

namespace FilterQuery

/-- A condition in which nothing is missing and nothing is empty. -/
structure Condition.WellFormed (condition : Condition) : Prop where
  field : condition.field.text ≠ []
  comparator : ∃ text, condition.comparator = some text ∧ text ≠ []
  values : condition.values ≠ []
  texts : ∀ value ∈ condition.values, value.text ≠ []

structure Tree.WellFormed (tree : Tree) : Prop where
  normal : tree.Normal
  conditions : ∀ condition ∈ tree.conditions, condition.WellFormed

namespace Tree

@[simp] theorem unquoted_written (tree : Tree) : tree.written.unquoted = tree.unquoted := by
  rw [unquoted, unquoted, map_words_eq_map_conditions, map_words_eq_map_conditions, written,
    map_conditions_map_conditions]
  apply map_conditions_congr
  intro condition _
  rw [Condition.mapWords, Condition.mapWords, Condition.written, List.map_map]
  rfl

theorem cursors_of_unquoted_eq (left right : Tree) (same : left.unquoted = right.unquoted) :
    left.words.map Word.cursor = right.words.map Word.cursor := by
  have forget : ∀ tree : Tree,
      tree.unquoted.words.map Word.cursor = tree.words.map Word.cursor := by
    intro tree
    rw [unquoted, words_map_words, List.map_map]
    rfl
  rw [← forget left, ← forget right, same]

theorem of_print (tree : Tree) (sound : tree.Sound) (complete : tree.Complete)
    (depth : tree.bracketDepth ≤ maxBracketDepth) :
    ofText tree.print.text tree.print.cursor = .ok tree.written := by
  have reads := (Draft.reads_back tree sound.normal sound.legible sound.readable).1 [] (by
    rw [List.length_nil]
    omega)
  obtain ⟨level, assembled, runs⟩ := reads.complete ((complete_written_iff tree).mpr complete)
  have ends := runs [] Draft.ends_nil
  rw [List.append_nil] at ends
  rw [ofText, scan_print tree sound.normal sound.legible sound.single]
  exact ends.trans assembled

theorem of_print_unfinished (tree : Tree) (sound : tree.Sound) (unfinished : ¬ tree.Complete)
    (depth : tree.bracketDepth ≤ maxBracketDepth) :
    ∃ cause, ofText tree.print.text tree.print.cursor = .error ⟨cause, some tree.written⟩ := by
  have reads := (Draft.reads_back tree sound.normal sound.legible sound.readable).1 [] (by
    rw [List.length_nil]
    omega)
  have partly : ¬ tree.written.Complete := by rwa [complete_written_iff]
  obtain ⟨cause, fails⟩ := reads.unfinished partly [] (Or.inl rfl)
  rw [List.append_nil] at fails
  refine ⟨cause, ?_⟩
  rw [ofText, scan_print tree sound.normal sound.legible sound.single]
  exact fails

theorem understood_print (tree : Tree) (sound : tree.Sound)
    (depth : tree.bracketDepth ≤ maxBracketDepth) :
    understood (ofText tree.print.text tree.print.cursor) = some tree.written := by
  by_cases complete : tree.Complete
  · rw [of_print tree sound complete depth]
    rfl
  · obtain ⟨cause, fails⟩ := of_print_unfinished tree sound complete depth
    rw [fails]
    rfl

theorem legible_unmarked (tree : Tree) (legible : tree.Legible) : tree.unmarked.Legible := by
  intro condition member
  rw [unmarked, map_words_eq_map_conditions, conditions_map_conditions] at member
  obtain ⟨old, listed, rfl⟩ := List.mem_map.mp member
  have before := legible old listed
  refine ⟨?_, before.comparator, fun absent => List.map_eq_nil_iff.mpr (before.values absent)⟩
  intro word contained
  rw [Condition.words_map_words] at contained
  obtain ⟨other, inside, rfl⟩ := List.mem_map.mp contained
  exact Word.sound_of_unmarked _ (before.words other inside).nonempty rfl

@[simp] theorem count_unmarked (tree : Tree) : tree.unmarked.words.countP Word.isMarked = 0 := by
  rw [unmarked, words_map_words, List.countP_eq_zero]
  intro word member
  obtain ⟨other, _, rfl⟩ := List.mem_map.mp member
  exact Bool.false_ne_true

theorem complete_unmarked_iff (tree : Tree) : tree.unmarked.Complete ↔ tree.Complete := by
  simp only [Complete, unmarked, map_words_eq_map_conditions, conditions_map_conditions,
    List.forall_mem_map, Condition.complete_map_words]

@[simp] theorem bare_unmarked (tree : Tree) : tree.unmarked.bare = tree.bare := by
  rw [bare, unmarked, map_words_map_words]
  rfl

theorem sound_unmarked (tree : Tree) (normal : tree.Normal) (legible : tree.unmarked.Legible)
    (complete : tree.Complete) : tree.unmarked.Sound := by
  refine ⟨?_, legible, ?_, ?_⟩
  · rw [unmarked, map_words_eq_map_conditions]
    exact normal_map_conditions _ tree normal
  · exact fun condition member =>
      (complete_unmarked_iff tree).mpr complete condition (List.dropLast_subset _ member)
  · rw [count_unmarked]
    exact Nat.zero_le 1

theorem of_text_unmarked (tree : Tree) (legible : tree.unmarked.Legible) :
    ofText tree.print.text none =
      ofText tree.unmarked.print.text tree.unmarked.print.cursor := by
  rw [text_print_unmarked, cursor_print_of_count _ legible (count_unmarked tree)]

theorem of_print_text (tree : Tree) (normal : tree.Normal) (legible : tree.unmarked.Legible)
    (complete : tree.Complete) (depth : tree.bracketDepth ≤ maxBracketDepth) :
    ∃ again, ofText tree.print.text none = .ok again ∧ tree.sameShape again = true := by
  have sound := sound_unmarked tree normal legible complete
  have again := of_print tree.unmarked sound ((complete_unmarked_iff tree).mpr complete) (by
    rwa [unmarked, bracket_depth_map_words])
  rw [← of_text_unmarked tree legible] at again
  refine ⟨_, again, ?_⟩
  rw [same_shape_iff, ← bare_unmarked, ← same_shape_iff]
  exact same_shape_of_unquoted_eq _ _ (unquoted_written tree.unmarked).symm

end Tree

namespace Condition.WellFormed

theorem complete (condition : Condition) (formed : condition.WellFormed) :
    condition.Complete := by
  obtain ⟨text, given, _⟩ := formed.comparator
  exact ⟨by rw [given]; rfl, formed.values⟩

theorem legible (condition : Condition) (formed : condition.WellFormed)
    (cursors : ∀ word ∈ condition.words, ∀ offset, word.cursor = some offset →
      0 < offset ∧ offset ≤ word.length) : condition.Legible := by
  obtain ⟨text, given, written⟩ := formed.comparator
  refine ⟨?_, ?_, ?_⟩
  · intro word member
    refine ⟨?_, cursors word member⟩
    rcases List.mem_cons.mp member with rfl | value
    · exact formed.field
    · exact formed.texts word value
  · rintro other same
    rw [given] at same
    obtain rfl := Option.some.inj same
    exact written
  · intro absent
    rw [given] at absent
    cases absent

end Condition.WellFormed

namespace Tree.WellFormed

theorem complete (tree : Tree) (formed : tree.WellFormed) : tree.Complete := by
  intro condition member
  exact Condition.WellFormed.complete condition (formed.conditions condition member)

theorem legible (tree : Tree) (formed : tree.WellFormed)
    (cursors : ∀ word ∈ tree.words, ∀ offset, word.cursor = some offset →
      0 < offset ∧ offset ≤ word.length) : tree.Legible := by
  intro condition member
  apply Condition.WellFormed.legible condition (formed.conditions condition member)
  intro word contained
  exact cursors word (List.mem_flatMap.mpr ⟨condition, member, contained⟩)

theorem unmarked (tree : Tree) (formed : tree.WellFormed) : tree.unmarked.WellFormed := by
  constructor
  · rw [Tree.unmarked, map_words_eq_map_conditions]
    exact normal_map_conditions _ tree formed.normal
  · intro condition member
    rw [Tree.unmarked, map_words_eq_map_conditions, conditions_map_conditions] at member
    obtain ⟨old, listed, rfl⟩ := List.mem_map.mp member
    have before := formed.conditions old listed
    refine ⟨before.field, before.comparator, ?_, ?_⟩
    · exact fun empty => before.values (List.map_eq_nil_iff.mp empty)
    · intro value contained
      obtain ⟨other, inside, rfl⟩ := List.mem_map.mp contained
      exact before.texts other inside

theorem unmarked_legible (tree : Tree) (formed : tree.WellFormed) : tree.unmarked.Legible := by
  apply legible tree.unmarked (unmarked tree formed)
  intro word member offset here
  have none : word.isMarked = false := by
    have all := List.countP_eq_zero.mp tree.count_unmarked word member
    exact Bool.eq_false_iff.mpr all
  rw [Word.isMarked, here] at none
  cases none

end Tree.WellFormed

namespace Tree

/-- Reading is the inverse of writing on well-formed trees: the text alone gives back the shape,
and together with the cursor of a tree that carries one it gives back everything but the quotes. -/
theorem print_then_read (tree : Tree) (formed : tree.WellFormed)
    (depth : tree.bracketDepth ≤ maxBracketDepth) :
    (∃ again, ofText tree.print.text none = .ok again ∧ tree.sameShape again = true) ∧
      (tree.words.countP Word.isMarked = 1 →
        (∀ word ∈ tree.words, ∀ offset, word.cursor = some offset →
          0 < offset ∧ offset ≤ word.length) →
        ∃ again, ofText tree.print.text tree.print.cursor = .ok again ∧
          again.unquoted = tree.unquoted ∧
          again.words.map Word.cursor = tree.words.map Word.cursor) := by
  have complete := WellFormed.complete tree formed
  constructor
  · -- The cursors of the tree may stand anywhere here, since the text does not depend on them.
    exact of_print_text tree formed.normal (WellFormed.unmarked_legible tree formed) complete depth
  · intro single cursors
    have sound : tree.Sound := by
      refine ⟨formed.normal, WellFormed.legible tree formed cursors, ?_, single.le⟩
      exact fun condition member => complete condition (List.dropLast_subset _ member)
    have again := of_print tree sound complete depth
    have same := unquoted_written tree
    exact ⟨tree.written, again, same, cursors_of_unquoted_eq tree.written tree same⟩

/-- Words that need quotes, a comparator that looks like three words and one that does not, and the
cursor in front of a quote. -/
def quotedSample : Tree :=
  .group .or [
    .group .and [
      .condition ⟨.plain "and".toList, some "is not in".toList,
        [.quote "a,(b)".toList, (Word.plain "say \"x\" \\".toList).withCursor 4]⟩,
      .negate (.group .or [
        .condition ⟨.plain "na me".toList, some "a<=b".toList, [.plain " ".toList]⟩,
        .condition ⟨.plain "kind".toList, some ">=".toList, [.plain "not".toList]⟩])],
    .condition ⟨.quote "x=y".toList, some "or (".toList, [.plain ",".toList]⟩]

theorem well_formed_quoted_sample : quotedSample.WellFormed := by
  constructor
  · apply Normal.group .or _ (by decide) (by decide) (by simp [operation?])
    simp only [List.forall_mem_cons, List.not_mem_nil, false_implies, implies_true, and_true]
    refine ⟨?_, .condition _⟩
    apply Normal.group .and _ (by decide) (by decide) (by simp [operation?, negate])
    simp only [List.forall_mem_cons, List.not_mem_nil, false_implies, implies_true, and_true]
    refine ⟨.condition _, .not _ ?_⟩
    apply Normal.group .or _ (by decide) (by decide) (by simp [operation?])
    simp [Normal.condition]
  · intro condition member
    simp only [quotedSample, negate, conditions, conditionsAll, List.append_nil, List.cons_append,
      List.nil_append, List.mem_cons, List.not_mem_nil, or_false] at member
    rcases member with rfl | rfl | rfl | rfl <;>
      exact ⟨by decide, ⟨_, rfl, by decide⟩, by decide, by decide⟩

theorem print_then_read_quoted_sample :
    quotedSample.WellFormed ∧ quotedSample.bracketDepth ≤ maxBracketDepth ∧
      quotedSample.words.countP Word.isMarked = 1 ∧
      (∃ again, ofText quotedSample.print.text none = .ok again ∧
        quotedSample.sameShape again = true) ∧
      ∃ again, ofText quotedSample.print.text quotedSample.print.cursor = .ok again ∧
        again.unquoted = quotedSample.unquoted ∧
        again.words.map Word.cursor = [none, none, some 4, none, none, none, none, none, none] := by
  have depth : quotedSample.bracketDepth ≤ maxBracketDepth := by decide
  have single : quotedSample.words.countP Word.isMarked = 1 := by decide
  have inside : ∀ word ∈ quotedSample.words, ∀ offset, word.cursor = some offset →
      0 < offset ∧ offset ≤ word.length := by
    intro word member offset here
    have bounded : ∀ word ∈ quotedSample.words, ∀ offset ∈ word.cursor,
        0 < offset ∧ offset ≤ word.length := by decide
    exact bounded word member offset here
  have reads := print_then_read quotedSample well_formed_quoted_sample depth
  exact ⟨well_formed_quoted_sample, depth, single, reads.1, reads.2 single inside⟩

/-- Writing what was understood of a refused text and reading it again loses nothing: the same
shape is understood, and the cursor stands in the same word at the same offset. -/
theorem reprint_keeps_understood (input : Text) (cursor : Option Nat) (error : SyntaxError)
    (tree : Tree) (refused : ofText input cursor = .error error)
    (partly : error.understood = some tree) (depth : tree.bracketDepth ≤ maxBracketDepth) :
    ∃ again, understood (ofText tree.print.text tree.print.cursor) = some again ∧
      tree.sameShape again = true ∧ again.unquoted = tree.unquoted ∧
      again.words.map Word.cursor = tree.words.map Word.cursor := by
  have sound : tree.Sound := sound_of_text input cursor tree (by rw [refused]; exact partly)
  have same := unquoted_written tree
  refine ⟨tree.written, understood_print tree sound depth, ?_, same, ?_⟩
  · exact same_shape_of_unquoted_eq tree tree.written same.symm
  · exact cursors_of_unquoted_eq tree.written tree same

def unfinishedText : Text := "a = b and (c > d or not (na".toList

def unfinishedTree : Tree :=
  .group .and [.condition ⟨.plain "a".toList, some "=".toList, [.plain "b".toList]⟩,
    .group .or [.condition ⟨.plain "c".toList, some ">".toList, [.plain "d".toList]⟩,
      .negate (.condition ⟨(Word.plain "na".toList).withCursor 2, none, []⟩)]]

theorem reprint_keeps_understood_unfinished :
    ofText unfinishedText (some 27) =
        .error ⟨.comparatorExpected "na".toList, some unfinishedTree⟩ ∧
      unfinishedTree.bracketDepth ≤ maxBracketDepth ∧
      ∃ again, understood (ofText unfinishedTree.print.text unfinishedTree.print.cursor) =
          some again ∧
        unfinishedTree.sameShape again = true ∧ again.unquoted = unfinishedTree.unquoted ∧
        again.words.map Word.cursor = [none, none, none, none, some 2] := by
  have refused : ofText unfinishedText (some 27) =
      .error ⟨.comparatorExpected "na".toList, some unfinishedTree⟩ := rfl
  have depth : unfinishedTree.bracketDepth ≤ maxBracketDepth := by decide
  exact ⟨refused, depth,
    reprint_keeps_understood unfinishedText (some 27) _ unfinishedTree refused rfl depth⟩

end Tree

end FilterQuery
