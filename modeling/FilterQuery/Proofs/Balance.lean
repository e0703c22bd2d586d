import FilterQuery.Proofs.Draft.Bracket

/-!
Only balanced words make a query. The brackets of groups, of lists of values and of calls are
counted apart while the words are read, but together they are the brackets that the words have
opened and not yet closed. No word closes a bracket that is not open, and a query leaves none open.
-/

set_option autoImplicit false

namespace FilterQuery

namespace Word

def isOpening (word : Word) : Bool := word.isToken "(".toList

def isClosing (word : Word) : Bool := word.isToken ")".toList

/-- Brackets match. A bracket in quotes is an ordinary word. -/
structure Balanced (words : List Word) : Prop where
  /-- Up to every word at least as many brackets are opened as are closed. -/
  opened : ∀ front, front <+: words → front.countP isClosing ≤ front.countP isOpening
  closed : words.countP isClosing = words.countP isOpening

/-- Each opening bracket adds one open bracket, each closing bracket takes one away if there is one,
and no other word changes their number. -/
theorem count_open_behind (word : Word) (opened : Nat)
    (closable : word.isClosing = true → 0 < opened) :
    word.openBehind opened + [word].countP isClosing = opened + [word].countP isOpening := by
  rw [List.countP_singleton, List.countP_singleton]
  by_cases closing : word.isToken ")".toList = true
  · have plain : word.isOpening = false := word.is_other_token _ _ closing (by decide)
    have before := closable closing
    rw [word.open_behind_closing _ closing, plain, if_pos (show word.isClosing = true from closing),
      if_neg Bool.false_ne_true]
    omega
  · have unclosed : word.isClosing = false := Bool.eq_false_iff.mpr closing
    rw [unclosed, if_neg Bool.false_ne_true]
    by_cases opening : word.isToken "(".toList = true
    · rw [word.open_behind_opening _ opening, if_pos (show word.isOpening = true from opening)]
    · have plain : word.isOpening = false := Bool.eq_false_iff.mpr opening
      rw [word.open_behind_other _ plain unclosed, plain, if_neg Bool.false_ne_true]

end Word

namespace Phase

theorem open_of_closing_step (phase next : Phase) (word : Word) (step : phase.Step word next)
    (inside : phase.Inside) (closing : word.isToken ")".toList = true) : 0 < phase.opened := by
  have other : ∀ token, token ≠ ")".toList → word.isToken token = false := fun token different =>
    word.is_other_token _ token closing different.symm
  have unextended : ∀ comparator, Comparator.extend comparator word = none := by
    intro comparator
    rw [Comparator.extend, other "not".toList (by decide), other "in".toList (by decide),
      other "like".toList (by decide)]
    simp
  cases step with
  | listCloses _ condition _ awaits =>
      rw [opened_of_awaits phase word condition 1 awaits]
      exact Nat.one_pos
  | innerListCloses _ condition depth _ awaits =>
      rw [opened_of_awaits phase word condition _ awaits]
      exact Nat.succ_pos _
  | innerCallCloses | callCloses | listedCallCloses => exact Nat.add_pos_right _ inside
  | comparator _ _ _ plain | value _ _ _ _ _ _ plain | argument _ _ _ _ _ _ plain =>
      rw [closing] at plain
      cases plain
  | continuation _ _ _ _ extended | extended _ _ _ _ extended =>
      rw [unextended] at extended
      cases extended
  | listOpens _ _ _ _ _ opening | callOpens _ _ _ _ opening | innerCallOpens _ _ _ _ _ opening =>
      rw [other _ (by decide)] at opening
      cases opening
  | comma _ _ _ _ _ comma | furtherValue _ _ _ comma | furtherList _ _ comma =>
      rw [other _ (by decide)] at comma
      cases comma

end Phase

namespace Draft

theorem open_of_closing (draft next : Draft) (word : Word) (move : draft.Move word next)
    (inside : draft.phase.Inside) (closing : word.isToken ")".toList = true) :
    0 < draft.opened := by
  have other : ∀ token, token ≠ ")".toList → word.isToken token = false := fun token different =>
    word.is_other_token _ token closing different.symm
  induction move with
  | phase draft word next step =>
      exact Nat.add_pos_right _ (draft.phase.open_of_closing_step next word step inside closing)
  | leadingNot _ _ _ _ not | negation _ _ _ _ not =>
      rw [other _ (by decide)] at not
      cases not
  | opening _ _ _ _ opening =>
      rw [other _ (by decide)] at opening
      cases opening
  | field _ _ _ _ _ plain =>
      rw [closing] at plain
      cases plain
  | connective _ _ junction _ joins =>
      rw [other _ (by cases junction <;> decide)] at joins
      cases joins
  | closing => exact Nat.add_pos_left (Nat.succ_pos _) _
  | completion draft condition word next ends _ _ induction =>
      rw [← draft.opened_push condition ends]
      exact induction trivial closing other

theorem count_of_move (draft next : Draft) (word : Word) (move : draft.Move word next)
    (inside : draft.phase.Inside) :
    next.opened + [word].countP Word.isClosing = draft.opened + [word].countP Word.isOpening := by
  rw [(opened_of_move draft next word move inside).2]
  exact word.count_open_behind draft.opened (open_of_closing draft next word move inside)

theorem count_of_moves (draft last : Draft) (words : List Word) (moves : draft.Moves words last)
    (inside : draft.phase.Inside) :
    last.opened + words.countP Word.isClosing = draft.opened + words.countP Word.isOpening := by
  induction moves with
  | nil => rfl
  | cons draft next last word rest move _ induction =>
      have first := count_of_move draft next word move inside
      have later := induction (opened_of_move draft next word move inside).1
      rw [← List.singleton_append, List.countP_append, List.countP_append]
      omega

theorem moves_of_prefix (draft last : Draft) (words : List Word) (moves : draft.Moves words last)
    (front : List Word) (within : front <+: words) : ∃ middle, draft.Moves front middle := by
  induction moves generalizing front with
  | nil draft =>
      rw [List.prefix_nil.mp within]
      exact ⟨draft, .nil draft⟩
  | cons draft next last word rest move _ induction =>
      rcases List.prefix_cons_iff.mp within with rfl | ⟨later, rfl, inner⟩
      · exact ⟨draft, .nil draft⟩
      · obtain ⟨middle, moves⟩ := induction later inner
        exact ⟨middle, .cons draft next middle word later move moves⟩

end Draft

namespace Tree

/-- The unquoted brackets of an accepted query match, whatever they belong to. -/
theorem balanced_of_words (words : List Word) (tree : Tree) (accepted : ofWords words = .ok tree) :
    Word.Balanced words := by
  obtain ⟨last, moves, finishes⟩ := Draft.start.moves_of_run words tree accepted
  constructor
  · intro front within
    obtain ⟨middle, reached⟩ := Draft.moves_of_prefix _ _ words moves front within
    have count := Draft.count_of_moves _ middle front reached trivial
    rw [show Draft.start.opened = 0 from rfl, Nat.zero_add] at count
    omega
  · obtain ⟨alone, level, completes, _⟩ := last.completes_of_finish tree finishes
    have none : last.opened = 0 := by
      rw [Draft.opened, alone, last.opened_of_completes level completes]
      rfl
    have count := Draft.count_of_moves _ last words moves trivial
    rw [none, show Draft.start.opened = 0 from rfl, Nat.zero_add, Nat.zero_add] at count
    exact count

def bracketedWords : List Word :=
  ["not", "(", "a", "in", "(", "(", "b", ")", ",", "max", "(", "now", "(", "1", ")", ",", "c", ")",
    ")", "or", "d", "="].map (fun text => .plain text.toList) ++ [.quote [')'], .plain [')']]

def bracketedTree : Tree :=
  .negate (.group .or [
    .condition ⟨.plain "a".toList, some "in".toList,
      [.plain "b".toList, .plain "max(now(1),c)".toList]⟩,
    .condition ⟨.plain "d".toList, some "=".toList, [.quote [')']]⟩])

theorem balanced_of_words_bracketed :
    ofWords bracketedWords = .ok bracketedTree ∧ Word.Balanced bracketedWords ∧
      bracketedWords.countP Word.isOpening = 5 ∧
      ¬ Word.Balanced (bracketedWords ++ [.plain [')'], .plain ['(']]) := by
  have accepted : ofWords bracketedWords = .ok bracketedTree := rfl
  refine ⟨accepted, balanced_of_words bracketedWords bracketedTree accepted, by decide, ?_⟩
  intro balanced
  have early := balanced.opened (bracketedWords ++ [.plain [')']]) ⟨[.plain ['(']], by decide⟩
  revert early
  decide

end Tree

end FilterQuery
