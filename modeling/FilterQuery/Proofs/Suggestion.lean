import FilterQuery.Proofs.RoundTrip
import FilterQuery.Proofs.Target

/-!
Putting a suggestion in the place of the word being typed. The edited query can be read again, and
then the word being typed is the suggestion, with nothing else changed.
-/

set_option autoImplicit false

namespace FilterQuery.Tree

theorem count_words_split (tree : Tree) (before after : List Condition) (condition : Condition)
    (split : tree.conditions = before ++ condition :: after) :
    tree.words.countP Word.isMarked = (before.flatMap Condition.words).countP Word.isMarked +
      (condition.words.countP Word.isMarked +
        (after.flatMap Condition.words).countP Word.isMarked) := by
  rw [words, split, List.flatMap_append, List.flatMap_cons, List.countP_append,
    List.countP_append]

theorem complete_beside (before after : List Condition) (old new : Condition)
    (same : new.Complete ↔ old.Complete)
    (complete : ∀ condition ∈ (before ++ old :: after).dropLast, condition.Complete) :
    ∀ condition ∈ (before ++ new :: after).dropLast, condition.Complete := by
  cases after with
  | nil =>
      rw [List.dropLast_concat] at complete ⊢
      exact complete
  | cons next after =>
      rw [List.dropLast_append_cons, List.dropLast_cons_cons] at complete ⊢
      intro condition member
      rcases List.mem_append.mp member with earlier | here
      · exact complete condition (List.mem_append_left _ earlier)
      · rcases List.mem_cons.mp here with rfl | later
        · exact same.mpr (complete old (by simp))
        · exact complete condition (by simp [later])

theorem sound_retyped (tree edited : Tree) (path : List Nat) (slot : Slot) (suggestion : Text)
    (written : suggestion ≠ []) (old new : Condition)
    (retyped : Condition.Retyped slot suggestion old new)
    (differs : DiffersAt path old new tree edited) (sound : tree.Sound) :
    edited.Sound ∧ edited.words.countP Word.isMarked = 1 := by
  obtain ⟨before, after, split, changed⟩ := conditions_differ path old new tree edited differs
  obtain ⟨marked, single⟩ := Condition.count_retyped slot suggestion old new retyped
  have count : edited.words.countP Word.isMarked = 1 := by
    have earlier := sound.single
    rw [count_words_split tree before after old split] at earlier
    rw [count_words_split edited before after new changed, single]
    omega
  refine ⟨⟨normal_differ path old new tree edited differs sound.normal, ?_, ?_, count.le⟩, count⟩
  · intro condition member
    have legible := sound.legible
    rw [Legible, split] at legible
    rw [changed] at member
    rcases List.mem_append.mp member with earlier | here
    · exact legible condition (List.mem_append_left _ earlier)
    · rcases List.mem_cons.mp here with rfl | later
      · exact Condition.legible_retyped slot suggestion old _ retyped written
          (legible old (by simp))
      · exact legible condition (by simp [later])
  · have readable := sound.readable
    rw [Readable, split] at readable
    rw [Readable, changed]
    exact complete_beside before after old new
      (Condition.complete_retyped_iff slot suggestion old new retyped) readable

theorem cursor_print_of_marked (tree : Tree) (legible : tree.Legible)
    (marked : 0 < tree.words.countP Word.isMarked) : tree.print.cursor.isSome = true := by
  rw [← count_pieces tree legible] at marked
  obtain ⟨piece, member, here⟩ := List.countP_pos_iff.mp marked
  rw [← print_pieces, Piece.print_cursor_is_some]
  exact List.any_eq_true.mpr ⟨piece, member, here⟩

/-- Putting a suggestion in the place of the word being typed always succeeds and sets the cursor.
When the edited query is read again, the word being typed is the suggestion in the same place, and
every other word has the text it had. -/
theorem suggestion_is_typed_next (input : Text) (cursor : Option Nat) (tree : Tree)
    (found : Target) (suggestion : Text)
    (reads : understood (ofText input cursor) = some tree) (typed : tree.target = some found)
    (written : suggestion ≠ []) :
    ∃ edited, tree.replace found.slot suggestion found.path = some edited ∧
      tree.applySuggestion found suggestion = .ok edited.print ∧
      edited.print.cursor.isSome = true ∧
      (edited.bracketDepth ≤ maxBracketDepth →
        ∃ again, understood (ofText edited.print.text edited.print.cursor) = some again ∧
          again.target = some ⟨found.path, found.slot,
            if found.slot = .field then suggestion else found.field, suggestion⟩ ∧
          ∀ path slot, (path, slot) ≠ (found.path, found.slot) →
            (again.wordAt path slot).map Word.text = (tree.wordAt path slot).map Word.text) := by
  have sound := sound_of_text input cursor tree reads
  obtain ⟨old, first, others⟩ := target_in_condition tree found typed
  obtain ⟨new, replaced, retyped, next⟩ :=
    Condition.target_replace old _ suggestion written first
  obtain ⟨edited, differs, target⟩ := others new
  have edit := replace_of_differs found.path old new tree edited differs found.slot suggestion
    replaced
  obtain ⟨kept, single⟩ := sound_retyped tree edited found.path found.slot suggestion written old
    new retyped differs sound
  refine ⟨edited, edit, ?_, cursor_print_of_marked edited kept.legible ?_, ?_⟩
  · rw [applySuggestion, edit]
  · rw [single]
    decide
  · intro depth
    -- What is read again differs from the edited tree in quotes only, which the search ignores.
    have same := unquoted_written edited
    refine ⟨edited.written, understood_print edited kept depth, ?_, ?_⟩
    · rw [← target_unquoted, same, target_unquoted, target _ rfl next]
      rfl
    · intro path slot elsewhere
      rw [word_texts_of_unquoted_eq edited.written edited same]
      exact word_texts_retyped tree edited found.path found.slot suggestion old new retyped differs
        path slot elsewhere

def completedTree : Tree :=
  .group .and [.condition ⟨.plain "a".toList, some "=".toList, [.plain "b".toList]⟩,
    .group .or [.condition ⟨.plain "c".toList, some ">".toList, [.plain "d".toList]⟩,
      .negate (.condition ⟨(Word.plain "name (x)".toList).withCursor 8, none, []⟩)]]

theorem suggestion_is_typed_next_field :
    understood (ofText unfinishedText (some 27)) = some unfinishedTree ∧
      unfinishedTree.target = some ⟨[1, 1, 0], .field, "na".toList, "na".toList⟩ ∧
      unfinishedTree.replace .field "name (x)".toList [1, 1, 0] = some completedTree ∧
      completedTree.bracketDepth ≤ maxBracketDepth ∧ completedTree.print.cursor.isSome = true ∧
      ∃ again, understood (ofText completedTree.print.text completedTree.print.cursor) =
          some again ∧
        again.target = some ⟨[1, 1, 0], .field, "name (x)".toList, "name (x)".toList⟩ ∧
        (again.wordAt [1, 0] (.value 0)).map Word.text = some "d".toList := by
  have reads : understood (ofText unfinishedText (some 27)) = some unfinishedTree := rfl
  have typed : unfinishedTree.target = some ⟨[1, 1, 0], .field, "na".toList, "na".toList⟩ := rfl
  have depth : completedTree.bracketDepth ≤ maxBracketDepth := by decide
  obtain ⟨edited, replaced, _, cursor, next⟩ := suggestion_is_typed_next unfinishedText (some 27)
    unfinishedTree _ "name (x)".toList reads typed (by decide)
  obtain rfl : completedTree = edited := Option.some.inj replaced
  obtain ⟨again, understood, target, others⟩ := next depth
  exact ⟨reads, typed, rfl, depth, cursor, again, understood, target,
    others [1, 0] (.value 0) (by decide)⟩

end FilterQuery.Tree
