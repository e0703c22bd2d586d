import FilterQuery.Proofs.Balance
import FilterQuery.Proofs.Descent.Condition
import FilterQuery.Proofs.Draft.Progress
import FilterQuery.Proofs.Marking

/-!
The call of a value. The words glued to a value are the first ones whose brackets match, or all of
them if there are no such ones. Together they are one text, and a cursor in one of the words stands
behind the same character of this text.
-/

set_option autoImplicit false

namespace FilterQuery

namespace Word

/-- A value with words written behind it one after another. -/
def glueAll (value : Word) (words : List Word) : Word := words.foldl glue value

/-- What words written behind a value make of it. -/
structure Glued (value : Word) (words : List Word) (whole : Word) : Prop where
  text : whole.text = value.text ++ words.flatMap text
  quoted : whole.quoted = value.quoted
  marked : whole.isMarked = true ↔ ∃ word ∈ value :: words, word.isMarked = true
  /-- A cursor moves by the length of everything in front of its word. -/
  cursor : ∀ before word after offset, value :: words = before ++ word :: after →
    word.cursor = some offset → whole.cursor = some (totalLength before + offset)
  inside : ∀ offset, whole.cursor = some offset → offset ≤ whole.length

/-- The shortest beginning of the words that is not empty and whose brackets match. -/
structure FirstBalanced (words front : List Word) : Prop where
  within : front <+: words
  nonempty : front ≠ []
  balanced : Balanced front
  shortest : ∀ other, other <+: words → other ≠ [] → Balanced other →
    front.length ≤ other.length

section Gluing

@[simp] theorem text_glue_all (value : Word) (words : List Word) :
    (value.glueAll words).text = value.text ++ words.flatMap text := by
  induction words generalizing value with
  | nil => exact (List.append_nil _).symm
  | cons word rest induction =>
      have behind : (value.glueAll (word :: rest)).text =
          (value.glue word).text ++ rest.flatMap text := induction (value.glue word)
      rw [behind, List.flatMap_cons, ← List.append_assoc]
      rfl

@[simp] theorem length_glue_all (value : Word) (words : List Word) :
    (value.glueAll words).length = totalLength (value :: words) := by
  rw [length, text_glue_all, total_length_eq]
  rfl

@[simp] theorem quoted_glue_all (value : Word) (words : List Word) :
    (value.glueAll words).quoted = value.quoted := by
  induction words generalizing value with
  | nil => rfl
  | cons word rest induction => exact induction (value.glue word)

@[simp] theorem is_marked_glue_all (value : Word) (words : List Word) :
    (value.glueAll words).isMarked = (value :: words).any isMarked := by
  induction words generalizing value with
  | nil => exact (Bool.or_false _).symm
  | cons word rest induction =>
      have behind : (value.glueAll (word :: rest)).isMarked =
          ((value.glue word).isMarked || rest.any isMarked) := induction (value.glue word)
      rw [behind, is_marked_glue, List.any_cons, List.any_cons, Bool.or_assoc]

theorem cursor_glue_all_unmarked (value : Word) (words : List Word)
    (unmarked : ∀ word ∈ words, word.cursor = none) :
    (value.glueAll words).cursor = value.cursor := by
  induction words generalizing value with
  | nil => rfl
  | cons word rest induction =>
      obtain ⟨first, later⟩ := List.forall_mem_cons.mp unmarked
      have kept : (value.glue word).cursor = value.cursor := by rw [glue, first]
      exact (induction (value.glue word) later).trans kept

theorem cursor_glue_all (value word : Word) (before after : List Word) (offset : Nat)
    (here : word.cursor = some offset) (unmarked : ∀ other ∈ after, other.cursor = none) :
    (value.glueAll (before ++ word :: after)).cursor =
      some (totalLength (value :: before) + offset) := by
  have parts : value.glueAll (before ++ word :: after) =
      ((value.glueAll before).glue word).glueAll after := List.foldl_append
  rw [parts, cursor_glue_all_unmarked _ after unmarked, ← length_glue_all, glue, here]

theorem unmarked_behind (before after : List Word) (word : Word) (offset : Nat)
    (single : (before ++ word :: after).countP isMarked ≤ 1) (here : word.cursor = some offset) :
    ∀ other ∈ after, other.cursor = none := by
  have marked : word.isMarked = true := Option.isSome_of_eq_some here
  rw [List.countP_append, List.countP_cons_of_pos marked] at single
  have none : after.countP isMarked = 0 := by omega
  intro other member
  exact Option.not_isSome_iff_eq_none.mp (List.countP_eq_zero.mp none other member)

theorem cursor_glue_all_single (value : Word) (words : List Word)
    (single : (value :: words).countP isMarked ≤ 1) (before : List Word) (word : Word)
    (after : List Word) (offset : Nat) (split : value :: words = before ++ word :: after)
    (here : word.cursor = some offset) :
    (value.glueAll words).cursor = some (totalLength before + offset) := by
  rw [split] at single
  have unmarked := unmarked_behind before after word offset single here
  cases before with
  | nil =>
      obtain ⟨rfl, rfl⟩ := List.cons.inj split
      rw [cursor_glue_all_unmarked value words unmarked, here]
      exact congrArg some (Nat.zero_add offset).symm
  | cons first before =>
      obtain ⟨rfl, rfl⟩ := List.cons.inj split
      exact cursor_glue_all value word before after offset here unmarked

theorem glued_glue_all (value : Word) (words : List Word)
    (single : (value :: words).countP isMarked ≤ 1)
    (inside : ∀ word ∈ value :: words, ∀ offset, word.cursor = some offset →
      offset ≤ word.length) : value.Glued words (value.glueAll words) := by
  have moved := cursor_glue_all_single value words single
  have marked : (value.glueAll words).isMarked = true ↔
      ∃ word ∈ value :: words, word.isMarked = true := by
    rw [is_marked_glue_all, List.any_eq_true]
  refine ⟨text_glue_all value words, quoted_glue_all value words, marked, moved, ?_⟩
  intro offset here
  obtain ⟨word, member, carries⟩ := marked.mp (Option.isSome_of_eq_some here)
  obtain ⟨inner, standing⟩ := Option.isSome_iff_exists.mp carries
  obtain ⟨before, after, split⟩ := List.append_of_mem member
  have place : offset = totalLength before + inner :=
    Option.some.inj (here.symm.trans (moved before word after inner split standing))
  have bound := inside word member inner standing
  have whole : totalLength (word :: after) = word.length + totalLength after := List.sum_cons
  rw [length_glue_all, split, total_length_append, whole]
  omega

end Gluing

/-- Words that close the last of `opened` brackets, the last word and no other one. -/
inductive Closes : Nat → List Word → Prop
  | last (opened : Nat) (word : Word) : word.openBehind opened = 0 → Closes opened [word]
  | more (opened : Nat) (word : Word) (rest : List Word) : 0 < word.openBehind opened →
      Closes (word.openBehind opened) rest → Closes opened (word :: rest)

/-- Words that close the last of `opened` brackets nowhere. -/
inductive StaysOpen : Nat → List Word → Prop
  | nil (opened : Nat) : StaysOpen opened []
  | cons (opened : Nat) (word : Word) (rest : List Word) : 0 < word.openBehind opened →
      StaysOpen (word.openBehind opened) rest → StaysOpen opened (word :: rest)

section Counting

theorem closes_or_stays_open (opened : Nat) (words : List Word) :
    (∃ front rest, words = front ++ rest ∧ Closes opened front) ∨ StaysOpen opened words := by
  induction words generalizing opened with
  | nil => exact .inr (.nil opened)
  | cons word rest induction =>
      rcases Nat.eq_zero_or_pos (word.openBehind opened) with none | some
      · exact .inl ⟨[word], rest, rfl, .last opened word none⟩
      · rcases induction (word.openBehind opened) with ⟨front, later, rfl, closes⟩ | still
        · exact .inl ⟨word :: front, later, rfl, .more opened word front some closes⟩
        · exact .inr (.cons opened word rest some still)

theorem stays_open_of_beginning (opened : Nat) (words front : List Word)
    (still : StaysOpen opened words) (within : front <+: words) : StaysOpen opened front := by
  induction still generalizing front with
  | nil opened =>
      rw [List.prefix_nil.mp within]
      exact .nil opened
  | cons opened word rest some _ induction =>
      rcases List.prefix_cons_iff.mp within with rfl | ⟨later, rfl, inner⟩
      · exact .nil opened
      · exact .cons opened word later some (induction later inner)

theorem stays_open_of_closes (opened : Nat) (words front : List Word) (closes : Closes opened words)
    (within : front <+: words) (shorter : front ≠ words) : StaysOpen opened front := by
  induction closes generalizing front with
  | last opened word none =>
      rcases List.prefix_cons_iff.mp within with rfl | ⟨later, rfl, inner⟩
      · exact .nil opened
      · rw [List.prefix_nil.mp inner] at shorter
        exact absurd rfl shorter
  | more opened word rest some _ induction =>
      rcases List.prefix_cons_iff.mp within with rfl | ⟨later, rfl, inner⟩
      · exact .nil opened
      · exact .cons opened word later some
          (induction later inner fun same => shorter (congrArg (word :: ·) same))

theorem count_first (opened : Nat) (word : Word) (rest : List Word)
    (begins : 0 < opened ∨ nextIs "(".toList (word :: rest) = true) :
    word.openBehind opened + rest.countP isOpening + (word :: rest).countP isClosing =
      opened + (word :: rest).countP isOpening + rest.countP isClosing := by
  have closable : word.isClosing = true → 0 < opened := by
    intro closing
    refine begins.resolve_right fun opening => ?_
    have plain : word.isClosing = false := word.is_other_token _ _ opening (by decide)
    rw [plain] at closing
    cases closing
  have count := word.count_open_behind opened closable
  rw [← List.singleton_append, List.countP_append, List.countP_append]
  omega

theorem count_of_stays_open (opened : Nat) (words : List Word)
    (begins : 0 < opened ∨ nextIs "(".toList words = true) (still : StaysOpen opened words) :
    words.countP isClosing < opened + words.countP isOpening := by
  induction still with
  | nil opened => exact begins.resolve_right Bool.false_ne_true
  | cons opened word rest some _ induction =>
      have first := count_first opened word rest begins
      have later := induction (.inl some)
      omega

theorem count_of_closes (opened : Nat) (words : List Word)
    (begins : 0 < opened ∨ nextIs "(".toList words = true) (closes : Closes opened words) :
    words.countP isClosing = opened + words.countP isOpening := by
  induction closes with
  | last opened word none =>
      have only := count_first opened word [] begins
      rw [none, Nat.zero_add, List.countP_nil, Nat.zero_add] at only
      exact only
  | more opened word rest some _ induction =>
      have first := count_first opened word rest begins
      have later := induction (.inl some)
      omega

end Counting

section Balancing

theorem next_is_of_beginning (token : Text) (words front : List Word)
    (next : nextIs token words = true) (within : front <+: words) (nonempty : front ≠ []) :
    nextIs token front = true := by
  obtain ⟨first, later, rfl⟩ := List.exists_cons_of_ne_nil nonempty
  obtain ⟨rest, rfl⟩ := within
  exact next

theorem balanced_of_closes (words : List Word) (opening : nextIs "(".toList words = true)
    (closes : Closes 0 words) : Balanced words := by
  have count := count_of_closes 0 words (.inr opening) closes
  rw [Nat.zero_add] at count
  refine ⟨fun front within => ?_, count⟩
  by_cases whole : front = words
  · rw [whole]
    exact count.le
  by_cases empty : front = []
  · rw [empty]
    exact Nat.le_refl 0
  · have still := stays_open_of_closes 0 words front closes within whole
    have begins := next_is_of_beginning _ words front opening within empty
    have fewer := count_of_stays_open 0 front (.inr begins) still
    omega

theorem unbalanced_of_stays_open (words : List Word) (opening : nextIs "(".toList words = true)
    (still : StaysOpen 0 words) : ¬ Balanced words := by
  intro balanced
  have fewer := count_of_stays_open 0 words (.inr opening) still
  have count := balanced.closed
  omega

theorem first_balanced_of_closes (front rest : List Word)
    (opening : nextIs "(".toList (front ++ rest) = true) (closes : Closes 0 front) :
    FirstBalanced (front ++ rest) front := by
  have within := List.prefix_append front rest
  have nonempty : front ≠ [] := by cases closes <;> exact List.cons_ne_nil _ _
  have begins := next_is_of_beginning _ _ front opening within nonempty
  refine ⟨within, nonempty, balanced_of_closes front begins closes, ?_⟩
  intro other early filled balanced
  by_contra longer
  have shorter := Nat.lt_of_not_le longer
  have inner := List.prefix_of_prefix_length_le early within shorter.le
  have different : other ≠ front := fun same => absurd (congrArg List.length same) shorter.ne
  have still := stays_open_of_closes 0 front other closes inner different
  have first := next_is_of_beginning _ _ other opening early filled
  exact unbalanced_of_stays_open other first still balanced

end Balancing

end Word

namespace Descent

theorem call_of_closes (value : Word) (opened : Nat) (front rest : List Word)
    (closes : Word.Closes opened front) :
    call value opened (front ++ rest) = (true, value.glueAll front, rest) := by
  induction closes generalizing value with
  | last opened word none =>
      change call value opened (word :: rest) = _
      rw [call, if_pos none]
      rfl
  | more opened word later some _ induction =>
      change call value opened (word :: (later ++ rest)) = _
      rw [call, if_neg some.ne']
      exact induction (value.glue word)

theorem call_of_stays_open (value : Word) (opened : Nat) (words : List Word)
    (still : Word.StaysOpen opened words) :
    call value opened words = (false, value.glueAll words, []) := by
  induction still generalizing value with
  | nil opened => rfl
  | cons opened word rest some _ induction =>
      rw [call, if_neg some.ne']
      exact induction (value.glue word)

end Descent

namespace Draft

theorem reads_call (draft : Draft) (condition : Condition) (value : Word) (opened depth : Nat)
    (inside : 0 < opened) (words : List Word) (closes : Word.Closes opened words) :
    words.foldlM read (draft.toPhase (.call condition value opened depth)) =
      .ok (draft.toPhase (.behindValue (condition.addValue (value.glueAll words)) depth)) := by
  induction closes generalizing value with
  | last opened word none =>
      rw [List.foldlM_cons, read_call draft condition value opened depth inside word, if_pos none]
      rfl
  | more opened word rest some _ induction =>
      rw [List.foldlM_cons, read_call draft condition value opened depth inside word,
        if_neg some.ne']
      exact induction (value.glue word) some

theorem reads_value (draft : Draft) (condition : Condition) (value : Word) (depth : Nat)
    (words : List Word) (opening : Word.nextIs "(".toList words = true)
    (closes : Word.Closes 0 words) :
    words.foldlM read (draft.toPhase (.afterValue condition value depth)) =
      .ok (draft.toPhase (.behindValue (condition.addValue (value.glueAll words)) depth)) := by
  cases closes with
  | last _ word none =>
      rw [word.open_behind_opening 0 opening] at none
      cases none
  | more _ word rest _ closes =>
      rw [word.open_behind_opening 0 opening] at closes
      have begins : read (draft.toPhase (.afterValue condition value depth)) word =
          .ok (draft.toPhase (.call condition (value.glue word) 1 depth)) :=
        read_step _ word _ (.callOpens condition value depth word opening)
      rw [List.foldlM_cons, begins]
      exact reads_call draft condition (value.glue word) 1 depth Nat.one_pos rest closes

theorem run_unclosed_value (draft : Draft) (condition : Condition) (value : Word) (depth : Nat)
    (words : List Word) (opening : Word.nextIs "(".toList words = true)
    (still : Word.StaysOpen 0 words) :
    (draft.toPhase (.afterValue condition value depth)).run words =
      draft.failIn (.unclosedCall (value.glueAll words).text)
        (condition.addValue (value.glueAll words)) := by
  rw [run_value, Descent.value, if_pos opening, Descent.call_of_stays_open value 0 words still]

end Draft

namespace Word

/-- A bracket behind a value makes a call of it. Read at one stretch or word by word, the call takes
the shortest beginning of the words whose brackets match, and is closed there; where there is none
it takes all words and stays open. -/
theorem call_exact (value : Word) (words : List Word) (opening : nextIs "(".toList words = true)
    (single : (value :: words).countP isMarked ≤ 1)
    (inside : ∀ word ∈ value :: words, ∀ offset, word.cursor = some offset →
      offset ≤ word.length) :
    ∃ consumed rest whole, words = consumed ++ rest ∧ value.Glued consumed whole ∧
      ((FirstBalanced words consumed ∧ Descent.call value 0 words = (true, whole, rest) ∧
          ∀ (draft : Draft) condition depth,
            consumed.foldlM Draft.read (draft.toPhase (.afterValue condition value depth)) =
              .ok (draft.toPhase (.behindValue (condition.addValue whole) depth))) ∨
        ((∀ front, front <+: words → front ≠ [] → ¬ Balanced front) ∧ rest = [] ∧
          Descent.call value 0 words = (false, whole, rest) ∧
          ∀ (draft : Draft) condition depth,
            (draft.toPhase (.afterValue condition value depth)).run words =
              draft.failIn (.unclosedCall whole.text) (condition.addValue whole))) := by
  rcases closes_or_stays_open 0 words with ⟨consumed, rest, rfl, closes⟩ | still
  · have first := first_balanced_of_closes consumed rest opening closes
    have begins := next_is_of_beginning _ _ consumed opening first.within first.nonempty
    have taken : List.Sublist (value :: consumed) (value :: (consumed ++ rest)) :=
      first.within.sublist.cons_cons value
    have glued := glued_glue_all value consumed (taken.countP_le.trans single)
      fun word member => inside word (taken.subset member)
    refine ⟨consumed, rest, value.glueAll consumed, rfl, glued, .inl ⟨first, ?_, ?_⟩⟩
    · exact Descent.call_of_closes value 0 consumed rest closes
    · intro draft condition depth
      exact draft.reads_value condition value depth consumed begins closes
  · have unbalanced : ∀ front, front <+: words → front ≠ [] → ¬ Balanced front :=
      fun front within nonempty => unbalanced_of_stays_open front
        (next_is_of_beginning _ words front opening within nonempty)
        (stays_open_of_beginning 0 words front still within)
    refine ⟨words, [], value.glueAll words, (List.append_nil words).symm,
      glued_glue_all value words single inside, .inr ⟨unbalanced, rfl, ?_, ?_⟩⟩
    · exact Descent.call_of_stays_open value 0 words still
    · intro draft condition depth
      exact draft.run_unclosed_value condition value depth words opening still

/-- The words of `(now(-5 d), ")") and`, with the cursor behind `-5`. -/
def nestedCall : List Word :=
  [plain ['('], plain "now".toList, plain ['('], (plain "-5".toList).withCursor 2, plain ['d'],
    plain [')'], plain [','], quote [')'], plain [')'], plain "and".toList]

theorem call_exact_nested :
    FirstBalanced nestedCall (nestedCall.take 9) ∧
      (plain "max".toList).Glued (nestedCall.take 9)
        ((plain "max(now(-5d),))".toList).withCursor 10) ∧
      ∀ front, front <+: nestedCall.take 8 → front ≠ [] → ¬ Balanced front := by
  have placed : ∀ word ∈ plain "max".toList :: nestedCall, ∀ offset,
      word.cursor = some offset → offset ≤ word.length := by
    simp [nestedCall, plain, quote, withCursor, length]
  have early : List.Sublist (plain "max".toList :: nestedCall.take 8)
      (plain "max".toList :: nestedCall) := (List.take_sublist 8 nestedCall).cons_cons _
  have closed := call_exact (plain "max".toList) nestedCall rfl (by decide) placed
  have unclosed := call_exact (plain "max".toList) (nestedCall.take 8) rfl (by decide)
    fun word member => placed word (early.subset member)
  obtain ⟨consumed, rest, whole, split, glued, ⟨first, called, _⟩ | ⟨_, _, called, _⟩⟩ := closed
  · cases called
    obtain rfl : nestedCall.take 9 = consumed :=
      List.append_cancel_right ((List.take_append_drop 9 nestedCall).trans split)
    refine ⟨first, glued, ?_⟩
    obtain ⟨_, _, _, _, _, ⟨_, called, _⟩ | ⟨unbalanced, _⟩⟩ := unclosed
    · cases called
    · exact unbalanced
  · cases called

end Word

end FilterQuery
