import FilterQuery.Proofs.Draft.Outcome
import Mathlib

/-!
The shape of everything that reading returns. Whatever the words are, the query, or what was
understood before an error, is grouped normally at every depth, and nothing is missing in any of its
conditions but the last one of a refused query.
-/

set_option autoImplicit false

namespace FilterQuery.Tree

theorem shape_of_leaves (progress : Progress)
    (complete : ∀ condition ∈ progress.finished, condition.Complete) (tree : Tree)
    (leaves : progress.Leaves (some tree)) : tree.Normal ∧ tree.Readable := by
  cases leaves with
  | all _ _ keeps =>
      exact ⟨(parts_of_keeps tree _ keeps).1, readable_of_keeps progress complete tree keeps⟩
  | negation finished leading _ _ keeps =>
      -- The leading `not` is left out, and all the conditions that remain are finished.
      have remaining : Progress.conditions ⟨finished, none⟩ = finished := List.append_nil _
      refine ⟨(parts_of_keeps tree _ keeps).1, ?_⟩
      apply readable_of_keeps ⟨finished, none⟩ complete
      rwa [remaining]

/-- A query is normal and complete; what is understood of refused words is normal, and only its last
condition may lack its comparator or its values. -/
theorem shape_of_words (words : List Word) :
    (∀ tree, ofWords words = .ok tree → tree.Normal ∧ tree.Complete) ∧
      ∀ error tree, ofWords words = .error error → error.understood = some tree →
        tree.Normal ∧ tree.Readable := by
  constructor
  · intro tree accepted
    exact ⟨normal_of_words words tree accepted, complete_of_words words tree accepted⟩
  · intro error tree refused partly
    obtain ⟨before, after, progress, _, steps, leaves⟩ := of_words_error words error refused
    rw [partly] at leaves
    have complete := Progress.complete_of_steps _ _ _ steps (List.forall_mem_nil _)
    exact shape_of_leaves progress complete tree leaves

def strayWords : List Word :=
  [.plain "not".toList, .plain ['('], (Word.quote []).withCursor 7, .plain "=".toList,
    .plain "x y".toList, .plain "or".toList, .plain "not".toList, .plain ['('],
    .plain "a".toList, .plain "is".toList, .plain "not".toList, .plain "in".toList]

def strayTree : Tree :=
  .negate (.group .or [
    .condition ⟨(Word.quote []).withCursor 7, some "=".toList, [.plain "x y".toList]⟩,
    .negate (.condition ⟨.plain "a".toList, some "is not in".toList, []⟩)])

theorem shape_of_words_stray :
    ofWords strayWords = .error
        ⟨.valueExpected ⟨.plain "a".toList, some "is not in".toList, []⟩, some strayTree⟩ ∧
      strayTree.Normal ∧ strayTree.Readable ∧ ¬ strayTree.Complete := by
  have refused : ofWords strayWords = .error
      ⟨.valueExpected ⟨.plain "a".toList, some "is not in".toList, []⟩, some strayTree⟩ := rfl
  have shape := (shape_of_words strayWords).2 _ strayTree refused rfl
  refine ⟨refused, shape.1, shape.2, ?_⟩
  intro complete
  have last := complete ⟨.plain "a".toList, some "is not in".toList, []⟩ (by decide)
  exact last.2 rfl

end FilterQuery.Tree
