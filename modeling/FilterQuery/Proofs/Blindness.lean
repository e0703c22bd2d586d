import FilterQuery.Proofs.Draft.Outcome
import FilterQuery.Proofs.Draft.Unmarked
import Mathlib

/-!
The cursor never changes what a query means. Wherever it stands in an input, the input is accepted
or refused alike, with the same message and with trees that differ in cursors only; and in no such
tree does it stand in two words, or outside the word that carries it.
-/

set_option autoImplicit false

namespace FilterQuery.Tree

/-- Two outcomes that differ in cursors at most. -/
inductive Agree : Except SyntaxError Tree → Except SyntaxError Tree → Prop
  | ok (left right : Tree) : left.unmarked = right.unmarked → Agree (.ok left) (.ok right)
  | error (left right : SyntaxError) : left.message = right.message →
      left.understood.map unmarked = right.understood.map unmarked →
        Agree (.error left) (.error right)

/-- At most one word carries a cursor, which stands behind one of the characters of its word. -/
structure SinglyMarked (tree : Tree) : Prop where
  single : tree.words.countP Word.isMarked ≤ 1
  inside : ∀ word ∈ tree.words, ∀ offset, word.cursor = some offset →
    1 ≤ offset ∧ offset ≤ word.length

theorem agree_of_unmarked (left right : Except SyntaxError Tree)
    (same : unmarkedOutcome unmarked left = unmarkedOutcome unmarked right) :
    Agree left right := by
  cases left with
  | ok left =>
      cases right with
      | ok right => exact .ok left right (Except.ok.inj same)
      | error right => cases same
  | error left =>
      cases right with
      | ok right => cases same
      | error right =>
          have errors : left.unmarked = right.unmarked := Except.error.inj same
          have messages : left.message = right.message := by
            rw [← left.message_unmarked, errors, right.message_unmarked]
          exact .error left right messages (congrArg SyntaxError.understood errors)

theorem singly_marked_of_sound (tree : Tree) (sound : tree.Sound) : tree.SinglyMarked := by
  refine ⟨sound.single, ?_⟩
  intro word member
  obtain ⟨condition, listed, contained⟩ := List.mem_flatMap.mp member
  exact ((sound.legible condition listed).words word contained).cursor

/-- Reading an input with the cursor in two places, or without it, gives outcomes that differ in
cursors at most, and trees that the cursor marks properly. -/
theorem meaning_without_cursor (input : Text) (first second : Option Nat) :
    Agree (ofText input first) (ofText input second) ∧
      ∀ cursor ∈ [first, second], ∀ tree ∈ understood (ofText input cursor),
        tree.SinglyMarked := by
  constructor
  · apply agree_of_unmarked
    rw [← of_text_without_cursor input first, ← of_text_without_cursor input second]
  · intro cursor _ tree reads
    exact singly_marked_of_sound tree (sound_of_text input cursor tree reads)

def openCallText : Text := "a=b or not c > now( -5".toList

def openCallTree (value call : Option Nat) : Tree :=
  .group .or [.condition ⟨.plain ['a'], some ['='], [⟨['b'], value, false⟩]⟩,
    .negate (.condition ⟨.plain ['c'], some ['>'], [⟨"now(-5".toList, call, false⟩]⟩)]

theorem meaning_without_cursor_open_call :
    ofText openCallText (some 22) =
        .error ⟨.unclosedCall "now(-5".toList, some (openCallTree none (some 6))⟩ ∧
      ofText openCallText (some 3) =
        .error ⟨.unclosedCall "now(-5".toList, some (openCallTree (some 1) none)⟩ ∧
      Agree (ofText openCallText (some 22)) (ofText openCallText (some 3)) ∧
      (openCallTree none (some 6)).SinglyMarked := by
  have reads : ofText openCallText (some 22) =
      .error ⟨.unclosedCall "now(-5".toList, some (openCallTree none (some 6))⟩ := rfl
  obtain ⟨agree, marked⟩ := meaning_without_cursor openCallText (some 22) (some 3)
  refine ⟨reads, rfl, agree, marked (some 22) (by simp) _ ?_⟩
  rw [reads]
  rfl

end FilterQuery.Tree
