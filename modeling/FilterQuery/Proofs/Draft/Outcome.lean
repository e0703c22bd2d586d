import FilterQuery.Proofs.Draft.Regular
import FilterQuery.Proofs.Draft.Reading
import FilterQuery.Proofs.Word.Scan

/-!
What a whole text is read as. The tree that reading gives, of the query or of what was understood
before an error, is normal and can be written; it carries at most one cursor, and only its last
condition may be unfinished, which in an accepted query it is not.
-/

set_option autoImplicit false

namespace FilterQuery

/-- The tree that reading gives: the query, or what was understood before the error. -/
def Tree.understood : Except SyntaxError Tree → Option Tree
  | .ok tree => some tree
  | .error error => error.understood

/-- A tree as reading a text makes it. -/
structure Tree.Sound (tree : Tree) : Prop where
  normal : tree.Normal
  legible : tree.Legible
  readable : tree.Readable
  single : tree.words.countP Word.isMarked ≤ 1

namespace Draft

theorem start_regular : start.Regular :=
  ⟨⟨List.forall_mem_nil _, Level.regular_empty⟩, trivial⟩

/-- What the end of the words leaves of the conditions. A query leaves no condition unfinished. -/
def Finishes (progress : Progress) : Except SyntaxError Tree → Prop
  | .ok tree => Keeps (some tree) progress.conditions ∧
      ∀ condition ∈ progress.unfinished, condition.Complete
  | .error error => Keeps error.understood progress.conditions

theorem operand_end_finishes (draft : Draft) (balanced : draft.Balanced 1) :
    Finishes ⟨draft.finished, none⟩ draft.finishLevel := by
  have all : Progress.conditions ⟨draft.finished, none⟩ = draft.finished := List.append_nil _
  rw [finishLevel]
  split
  · next alone =>
      obtain ⟨tree, assembled, normal, conditions⟩ := draft.level.assemble_regular balanced.level
      have same : draft.finished = tree.conditions := by
        rw [finished, alone, conditions]
        rfl
      rw [assembled]
      constructor
      · rw [all, same]
        exact Keeps.some tree normal
      · intro condition absent
        cases absent
  · change Keeps _ _
    rw [all]
    exact draft.keeps_recover_none 1 balanced (Nat.le_refl 1)

theorem condition_end_finishes (draft : Draft) (balanced : draft.Balanced 0)
    (condition : Condition) (complete : condition.Complete) :
    Finishes ⟨draft.finished, some condition⟩
      (draft.push (.condition condition)).finishLevel := by
  have pushed := draft.balanced_push balanced _ (Tree.Normal.condition condition)
  have finishes := operand_end_finishes _ pushed
  rw [finished_push] at finishes
  have all := Progress.conditions_completion draft.finished condition
  revert finishes
  generalize (draft.push (.condition condition)).finishLevel = result
  cases result with
  | error error =>
      intro keeps
      change Keeps error.understood _
      rw [← all]
      exact keeps
  | ok tree =>
      rintro ⟨keeps, _⟩
      refine ⟨all ▸ keeps, ?_⟩
      intro other same
      rwa [← Option.some.inj same]

theorem finish_finishes (draft : Draft) (regular : draft.Regular) :
    Finishes draft.progress draft.finish := by
  obtain ⟨outer, level, phase⟩ := draft
  obtain ⟨balanced, consistent⟩ := regular
  have here : ∀ other, Balanced ⟨outer, level, other⟩ phase.ahead :=
    fun _ => ⟨balanced.outer, balanced.level⟩
  have nothing : ∀ ahead ≤ 1, Balanced ⟨outer, level, phase⟩ ahead →
      Keeps (recover ⟨outer, level, phase⟩ none)
        (Progress.conditions ⟨finished ⟨outer, level, phase⟩, none⟩) := by
    intro ahead single around
    have keeps := keeps_recover_none _ ahead around single
    rwa [Progress.conditions, Option.toList_none, List.append_nil]
  cases phase with
  | operand => cases outer <;> exact nothing 0 (Nat.zero_le 1) (here _)
  | leadingNot word => exact keeps_recover_condition _ (here _) _
  | comparator field => exact keeps_recover_condition _ (here _) _
  | continuation field comparator quoted => exact keeps_recover_condition _ (here _) _
  | extended field comparator => exact keeps_recover_condition _ (here _) _
  | value condition depth => cases depth <;> exact keeps_recover_condition _ (here _) _
  | afterValue condition value depth =>
      cases depth with
      | zero =>
          exact condition_end_finishes _ (here _) _
            (complete_add_value condition value consistent)
      | succ depth => exact keeps_recover_condition _ (here _) _
  | call condition value opened depth => exact keeps_recover_condition _ (here _) _
  | afterList condition =>
      rw [finish]
      dsimp only
      split
      · exact keeps_recover_condition _ (here _) _
      · next some =>
          have written : condition.values ≠ [] := by
            intro empty
            exact some (List.isEmpty_iff.mpr empty)
          exact condition_end_finishes _ (here _) condition ⟨consistent, written⟩
  | connective => exact operand_end_finishes _ (here _)
  | afterConnective connective => exact nothing 1 (Nat.le_refl 1) (here _)

def Runs (progress : Progress) (words : List Word) : Except SyntaxError Draft → Prop
  | .ok next => next.Regular ∧ progress.Steps words next.progress
  | .error error => ∃ before after last, words = before ++ after ∧
      progress.Steps before last ∧ last.Leaves error.understood

theorem run_runs (draft : Draft) (regular : draft.Regular) (words : List Word) :
    Runs draft.progress words (words.foldlM read draft) := by
  induction words generalizing draft with
  | nil => exact ⟨regular, .nil _⟩
  | cons word rest induction =>
      have first := draft.read_reads regular word
      rw [List.foldlM_cons]
      cases reads : draft.read word with
      | error error =>
          rw [reads] at first
          exact ⟨[], word :: rest, draft.progress, rfl, .nil _, first⟩
      | ok next =>
          rw [reads] at first
          have later := induction next first.1
          change Runs draft.progress (word :: rest) (rest.foldlM read next)
          cases ends : rest.foldlM read next with
          | ok last =>
              rw [ends] at later
              exact ⟨later.1, .cons _ _ _ word rest first.2 later.2⟩
          | error error =>
              rw [ends] at later
              obtain ⟨before, after, last, rfl, steps, leaves⟩ := later
              exact ⟨word :: before, after, last, rfl, .cons _ _ _ word before first.2 steps,
                leaves⟩

end Draft

namespace Tree

theorem of_words_ok (words : List Word) (tree : Tree) (accepted : ofWords words = .ok tree) :
    ∃ progress, Progress.start.Steps words progress ∧ Keeps (some tree) progress.conditions ∧
      ∀ condition ∈ progress.unfinished, condition.Complete := by
  have runs := Draft.start.run_runs Draft.start_regular words
  rw [ofWords] at accepted
  cases reads : words.foldlM Draft.read Draft.start with
  | error error =>
      rw [reads] at accepted
      cases accepted
  | ok last =>
      rw [reads] at accepted runs
      have finishes := last.finish_finishes runs.1
      rw [show last.finish = .ok tree from accepted] at finishes
      exact ⟨last.progress, runs.2, finishes.1, finishes.2⟩

theorem of_words_error (words : List Word) (error : SyntaxError)
    (refused : ofWords words = .error error) :
    ∃ before after progress, words = before ++ after ∧
      Progress.start.Steps before progress ∧ progress.Leaves error.understood := by
  have runs := Draft.start.run_runs Draft.start_regular words
  rw [ofWords] at refused
  cases reads : words.foldlM Draft.read Draft.start with
  | error cause =>
      rw [reads] at refused runs
      obtain rfl : cause = error := Except.error.inj refused
      exact runs
  | ok last =>
      rw [reads] at refused runs
      have finishes := last.finish_finishes runs.1
      rw [show last.finish = .error error from refused] at finishes
      exact ⟨words, [], last.progress, (List.append_nil words).symm, runs.2, .all _ _ finishes⟩

theorem start_legible : Progress.start.Legible :=
  ⟨List.forall_mem_nil _, List.forall_mem_nil _⟩

theorem parts_of_keeps (tree : Tree) (conditions : List Condition)
    (keeps : Keeps (some tree) conditions) : tree.Normal ∧ tree.conditions = conditions := by
  cases keeps with
  | some _ normal => exact ⟨normal, rfl⟩

theorem readable_of_keeps (progress : Progress)
    (complete : ∀ condition ∈ progress.finished, condition.Complete) (tree : Tree)
    (keeps : Keeps (some tree) progress.conditions) : tree.Readable := by
  obtain ⟨finished, unfinished⟩ := progress
  rw [Readable, (parts_of_keeps tree _ keeps).2]
  intro condition member
  cases unfinished with
  | none =>
      rw [Progress.conditions, Option.toList_none, List.append_nil] at member
      exact complete condition (List.dropLast_subset _ member)
  | some last =>
      rw [Progress.conditions, Option.toList_some, List.dropLast_concat] at member
      exact complete condition member

theorem sound_of_keeps (progress : Progress) (legible : progress.Legible)
    (few : progress.marks ≤ 1) (tree : Tree) (keeps : Keeps (some tree) progress.conditions) :
    tree.Sound := by
  obtain ⟨normal, same⟩ := parts_of_keeps tree _ keeps
  refine ⟨normal, ?_, readable_of_keeps progress legible.finished tree keeps, ?_⟩
  · rw [Legible, same]
    exact legible.conditions
  · rwa [words, same]

theorem sound_of_leaves (progress : Progress) (legible : progress.Legible)
    (few : progress.marks ≤ 1) (tree : Tree) (leaves : progress.Leaves (some tree)) :
    tree.Sound := by
  cases leaves with
  | all _ _ keeps => exact sound_of_keeps progress legible few tree keeps
  | negation finished leading _ _ keeps =>
      apply sound_of_keeps ⟨finished, none⟩
      · refine ⟨legible.finished, ?_⟩
        intro condition member
        apply legible.conditions
        rw [Progress.conditions_negation]
        exact List.mem_append_left _ member
      · rw [Progress.marks_eq] at few ⊢
        exact Nat.le_trans (Nat.add_le_add_left (Nat.zero_le _) _) few
      · rwa [Progress.conditions, Option.toList_none, List.append_nil]

theorem sound_of_text (input : Text) (cursor : Option Nat) (tree : Tree)
    (reads : understood (ofText input cursor) = some tree) : tree.Sound := by
  have sound := Word.sound_scan input cursor
  have single := Word.count_scan input cursor
  cases result : ofText input cursor with
  | ok query =>
      rw [result] at reads
      obtain rfl := Option.some.inj reads
      obtain ⟨progress, steps, keeps, _⟩ := of_words_ok _ query result
      have legible := Progress.legible_of_steps _ _ _ sound steps start_legible
      have marks := Progress.marks_of_steps _ _ _ steps
      rw [Progress.marks_start, Nat.zero_add] at marks
      exact sound_of_keeps progress legible (Nat.le_trans marks single) query keeps
  | error error =>
      rw [result] at reads
      obtain ⟨before, after, progress, words, steps, leaves⟩ := of_words_error _ error result
      rw [show error.understood = some tree from reads] at leaves
      -- The words behind the error were not read, but a cursor may stand in them.
      rw [words] at sound single
      have legible := Progress.legible_of_steps _ _ _
        (fun word member => sound word (List.mem_append_left _ member)) steps start_legible
      have marks := Progress.marks_of_steps _ _ _ steps
      rw [Progress.marks_start, Nat.zero_add] at marks
      rw [List.countP_append] at single
      exact sound_of_leaves progress legible (by omega) tree leaves

theorem complete_of_words (words : List Word) (tree : Tree)
    (accepted : ofWords words = .ok tree) : tree.Complete := by
  obtain ⟨progress, steps, keeps, last⟩ := of_words_ok words tree accepted
  have finished := Progress.complete_of_steps _ _ _ steps (List.forall_mem_nil _)
  intro condition member
  rw [(parts_of_keeps tree _ keeps).2] at member
  rcases List.mem_append.mp member with earlier | unfinished
  · exact finished condition earlier
  · exact last condition (Option.mem_toList.mp unfinished)

theorem normal_of_words (words : List Word) (tree : Tree) (accepted : ofWords words = .ok tree) :
    tree.Normal := by
  obtain ⟨progress, _, keeps, _⟩ := of_words_ok words tree accepted
  exact (parts_of_keeps tree _ keeps).1

theorem complete_of_text (input : Text) (cursor : Option Nat) (tree : Tree)
    (accepted : ofText input cursor = .ok tree) : tree.Complete :=
  complete_of_words _ tree accepted

end Tree

end FilterQuery
