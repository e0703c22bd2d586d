import FilterQuery.Proofs.Draft.Move

/-!
Counting brackets. How many brackets are open, those of lists and calls included, depends on the
words alone, and where an accepted query ends none is open.
-/

set_option autoImplicit false

namespace FilterQuery

namespace Word

/-- How many brackets are open behind a word. -/
def openBehind (word : Word) (opened : Nat) : Nat :=
  if word.isToken "(".toList then opened + 1
  else if word.isToken ")".toList then opened - 1
  else opened

def openBehindAll (words : List Word) (opened : Nat) : Nat :=
  words.foldl (fun before word => word.openBehind before) opened

/-- How deep the unquoted brackets of words nest inside brackets that are already open. -/
def nesting (opened : Nat) : List Word → Nat
  | [] => opened
  | word :: rest => max opened (nesting (word.openBehind opened) rest)

theorem open_behind_opening (word : Word) (opened : Nat)
    (opening : word.isToken "(".toList = true) : word.openBehind opened = opened + 1 := by
  rw [openBehind, if_pos opening]

theorem open_behind_closing (word : Word) (opened : Nat)
    (closing : word.isToken ")".toList = true) : word.openBehind opened = opened - 1 := by
  rw [openBehind, word.is_other_token _ _ closing (by decide), if_neg Bool.false_ne_true,
    if_pos closing]

theorem open_behind_other (word : Word) (opened : Nat)
    (opening : word.isToken "(".toList = false) (closing : word.isToken ")".toList = false) :
    word.openBehind opened = opened := by
  rw [openBehind, opening, closing, if_neg Bool.false_ne_true, if_neg Bool.false_ne_true]

theorem open_behind_token (word : Word) (opened : Nat) (token : Text)
    (is : word.isToken token = true) (other : token ∉ ["(".toList, ")".toList]) :
    word.openBehind opened = opened := by
  apply open_behind_other <;> apply word.is_other_token token _ is <;> rintro rfl <;>
    exact other (by simp)

theorem le_nesting (opened : Nat) (words : List Word) : opened ≤ nesting opened words := by
  cases words with
  | nil => exact Nat.le_refl opened
  | cons word rest => exact Nat.le_max_left _ _

theorem nesting_append (opened : Nat) (words later : List Word) :
    nesting opened (words ++ later) =
      max (nesting opened words) (nesting (openBehindAll words opened) later) := by
  induction words generalizing opened with
  | nil => exact (Nat.max_eq_right (le_nesting opened later)).symm
  | cons word rest induction =>
      rw [List.cons_append, nesting, induction, nesting, Nat.max_assoc]
      rfl

end Word

namespace Phase

/-- How many brackets of lists and calls are open. -/
def opened : Phase → Nat
  | .value _ depth | .afterValue _ _ depth => depth
  | .call _ _ opened depth => depth + opened
  | _ => 0

/-- A call is being read only while one of its brackets is open. -/
def Inside : Phase → Prop
  | .call _ _ opened _ => 0 < opened
  | _ => True

theorem opened_of_awaits (phase : Phase) (word : Word) (condition : Condition) (depth : Nat)
    (awaits : phase.Awaits word condition depth) : phase.opened = depth := by
  cases awaits <;> rfl

theorem opened_of_begins (phase : Phase) (level next : Level) (word : Word)
    (begins : phase.Begins level word next) : phase.opened = 0 := by
  cases begins <;> rfl

theorem opened_of_ends (phase : Phase) (condition : Condition)
    (ends : Draft.Ends condition phase) : phase.opened = 0 := by
  rcases ends with ⟨value, values, rfl, _⟩ | ⟨rfl, _⟩ <;> rfl

theorem extends_without_bracket (comparator longer : Text) (word : Word)
    (extended : Comparator.extend comparator word = some longer) (opened : Nat) :
    word.openBehind opened = opened := by
  rw [Comparator.extend] at extended
  split at extended
  · next continues => exact word.open_behind_token opened _ continues.2 (by decide)
  · split at extended
    · next continues =>
        rcases continues.2 with is | is <;> exact word.open_behind_token opened _ is (by decide)
    · cases extended

theorem opened_of_step (phase next : Phase) (word : Word) (step : phase.Step word next)
    (inside : phase.Inside) (outer : Nat) :
    next.Inside ∧ outer + next.opened = word.openBehind (outer + phase.opened) := by
  cases step with
  | comparator field _ opening closing =>
      exact ⟨trivial, (word.open_behind_other _ opening closing).symm⟩
  | continuation field comparator longer _ extended =>
      exact ⟨trivial, (extends_without_bracket comparator longer word extended _).symm⟩
  | extended field comparator longer _ extended =>
      exact ⟨trivial, (extends_without_bracket comparator longer word extended _).symm⟩
  | listOpens _ condition depth _ awaits opening =>
      rw [opened_of_awaits phase word condition depth awaits, word.open_behind_opening _ opening]
      exact ⟨trivial, rfl⟩
  | listCloses _ condition _ awaits closing =>
      rw [opened_of_awaits phase word condition 1 awaits, word.open_behind_closing _ closing]
      exact ⟨trivial, rfl⟩
  | innerListCloses _ condition depth _ awaits closing =>
      rw [opened_of_awaits phase word condition _ awaits, word.open_behind_closing _ closing]
      exact ⟨trivial, rfl⟩
  | comma _ condition depth _ awaits comma =>
      rw [opened_of_awaits phase word condition depth awaits,
        word.open_behind_token _ _ comma (by decide)]
      exact ⟨trivial, rfl⟩
  | value _ condition depth _ awaits opening closing comma =>
      rw [opened_of_awaits phase word condition depth awaits,
        word.open_behind_other _ opening closing]
      exact ⟨trivial, rfl⟩
  | callOpens condition value depth _ opening =>
      rw [word.open_behind_opening _ opening]
      exact ⟨Nat.one_pos, rfl⟩
  | innerCallOpens condition value opened depth _ opening =>
      rw [word.open_behind_opening _ opening]
      exact ⟨Nat.succ_pos opened, rfl⟩
  | innerCallCloses condition value opened depth _ closing more =>
      rw [word.open_behind_closing _ closing]
      simp only [Inside, Phase.opened]
      omega
  | callCloses condition value opened _ closing last =>
      rw [word.open_behind_closing _ closing]
      refine ⟨trivial, ?_⟩
      simp only [Inside, Phase.opened] at inside ⊢
      omega
  | listedCallCloses condition value opened depth _ closing last =>
      rw [word.open_behind_closing _ closing]
      refine ⟨trivial, ?_⟩
      simp only [Inside, Phase.opened] at inside ⊢
      omega
  | argument condition value opened depth _ opening closing =>
      exact ⟨inside, (word.open_behind_other _ opening closing).symm⟩
  | furtherValue condition value _ comma =>
      exact ⟨trivial, (word.open_behind_token _ _ comma (by decide)).symm⟩
  | furtherList condition _ comma =>
      exact ⟨trivial, (word.open_behind_token _ _ comma (by decide)).symm⟩

end Phase

namespace Draft

/-- How many brackets are open, those of lists and calls included. -/
def opened (draft : Draft) : Nat := draft.outer.length + draft.phase.opened

theorem opened_push (draft : Draft) (condition : Condition) (ends : Ends condition draft.phase) :
    (draft.push (.condition condition)).opened = draft.opened := by
  rw [opened, opened, draft.phase.opened_of_ends condition ends]
  rfl

theorem opened_of_move (draft next : Draft) (word : Word) (move : draft.Move word next)
    (inside : draft.phase.Inside) :
    next.phase.Inside ∧ next.opened = word.openBehind draft.opened := by
  induction move with
  | phase draft word next step => exact draft.phase.opened_of_step next word step inside _
  | leadingNot outer level word _ not =>
      exact ⟨trivial, (word.open_behind_token _ _ not (by decide)).symm⟩
  | opening draft word level begins opening =>
      refine ⟨trivial, ?_⟩
      rw [opened, opened, draft.phase.opened_of_begins _ _ _ begins,
        word.open_behind_opening _ opening]
      rfl
  | field draft word level begins opening closing =>
      rw [opened, opened, draft.phase.opened_of_begins _ _ _ begins,
        word.open_behind_other _ opening closing]
      exact ⟨trivial, rfl⟩
  | connective outer level junction word joins =>
      refine ⟨trivial, (word.open_behind_token _ _ joins ?_).symm⟩
      cases junction <;> decide
  | negation outer level junction word not =>
      exact ⟨trivial, (word.open_behind_token _ _ not (by decide)).symm⟩
  | closing outer parent level tree word _ closing =>
      rw [word.open_behind_closing _ closing]
      exact ⟨trivial, rfl⟩
  | completion draft condition word next ends _ _ induction =>
      rw [← draft.opened_push condition ends]
      exact induction trivial

theorem opened_of_moves (draft last : Draft) (words : List Word) (moves : draft.Moves words last)
    (inside : draft.phase.Inside) :
    last.phase.Inside ∧ last.opened = Word.openBehindAll words draft.opened := by
  induction moves with
  | nil => exact ⟨inside, rfl⟩
  | cons draft next last word rest move _ induction =>
      have first := opened_of_move draft next word move inside
      have later := induction first.1
      rw [first.2] at later
      exact later

theorem opened_of_completes (draft : Draft) (level : Level) (completes : draft.Completes level) :
    draft.phase.opened = 0 := by
  cases completes with
  | operand => rfl
  | condition _ condition ends => exact draft.phase.opened_of_ends condition ends

end Draft

end FilterQuery
