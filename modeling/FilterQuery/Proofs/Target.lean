import FilterQuery.Proofs.Tree.Edit
import FilterQuery.Proofs.Tree.Scan

/-!
The search for the word being typed, and writing over it. The search finds the first word that has
the cursor behind one of its characters; once a suggestion stands there it is the only word with a
cursor, and the search finds it in the same place.
-/

set_option autoImplicit false

namespace FilterQuery

def Slot.index : Slot → Nat
  | .field => 0
  | .value index => index + 1

namespace Condition

theorem word_at_eq (condition : Condition) (slot : Slot) :
    condition.wordAt slot = condition.words[slot.index]? := by
  cases slot <;> rfl

theorem typed_value_split (index : Nat) (values : List Word) (slot : Slot) (word : Word)
    (found : typedValue index values = some (slot, word)) :
    ∃ before after, values = before ++ word :: after ∧ slot = .value (index + before.length) ∧
      word.isTyped = true ∧ ∀ earlier ∈ before, earlier.isTyped = false := by
  induction values generalizing index with
  | nil => cases found
  | cons value rest induction =>
      rw [typedValue] at found
      split at found
      · next typed =>
          obtain ⟨rfl, rfl⟩ := Prod.mk.inj (Option.some.inj found)
          exact ⟨[], rest, rfl, rfl, typed, List.forall_mem_nil _⟩
      · next untyped =>
          obtain ⟨before, after, rfl, rfl, typed, none⟩ := induction (index + 1) found
          refine ⟨value :: before, after, rfl, ?_, typed, ?_⟩
          · rw [List.length_cons, Nat.add_assoc, Nat.add_comm 1]
          · intro earlier member
            rcases List.mem_cons.mp member with rfl | later
            · exact Bool.eq_false_iff.mpr untyped
            · exact none earlier later

theorem typed_value_append (index : Nat) (before after : List Word) (word : Word)
    (typed : word.isTyped = true) (none : ∀ earlier ∈ before, earlier.isTyped = false) :
    typedValue index (before ++ word :: after) = some (.value (index + before.length), word) := by
  induction before generalizing index with
  | nil => rw [List.nil_append, typedValue, typed]; rfl
  | cons value before induction =>
      have later := induction (index + 1) fun other member =>
        none other (List.mem_cons_of_mem value member)
      rw [List.cons_append, typedValue, none value (by simp), if_neg Bool.false_ne_true, later,
        List.length_cons, Nat.add_assoc, Nat.add_comm 1]

theorem typed_word_iff (condition : Condition) (slot : Slot) (word : Word) :
    condition.typedWord = some (slot, word) ↔
      ∃ before after, condition.words = before ++ word :: after ∧ before.length = slot.index ∧
        word.isTyped = true ∧ ∀ earlier ∈ before, earlier.isTyped = false := by
  obtain ⟨field, comparator, values⟩ := condition
  constructor
  · intro found
    rw [typedWord] at found
    split at found
    · next typed =>
        obtain ⟨rfl, rfl⟩ := Prod.mk.inj (Option.some.inj found)
        exact ⟨[], values, rfl, rfl, typed, List.forall_mem_nil _⟩
    · next untyped =>
        obtain ⟨before, after, rfl, rfl, typed, none⟩ := typed_value_split 0 values slot word found
        refine ⟨field :: before, after, rfl, ?_, typed, ?_⟩
        · rw [Slot.index, List.length_cons, Nat.zero_add]
        · intro earlier member
          rcases List.mem_cons.mp member with rfl | later
          · exact Bool.eq_false_iff.mpr untyped
          · exact none earlier later
  · rintro ⟨before, after, split, place, typed, none⟩
    cases before with
    | nil =>
        obtain ⟨rfl, rfl⟩ := List.cons.inj split
        cases slot with
        | field => rw [typedWord, if_pos typed]
        | value index => cases place
    | cons first before =>
        -- The field stands in front of the values, whose indexes do not count it.
        obtain ⟨rfl, rfl⟩ := List.cons.inj split
        have untyped : ¬ field.isTyped = true := Bool.eq_false_iff.mp (none field (by simp))
        cases slot with
        | field => cases place
        | value index =>
            obtain rfl : before.length = index := Nat.succ.inj place
            have later := typed_value_append 0 before after word typed fun other member =>
              none other (List.mem_cons_of_mem _ member)
            rw [Nat.zero_add] at later
            rw [typedWord, if_neg untyped]
            exact later

theorem replace_word (condition : Condition) (slot : Slot) (suggestion : Text)
    (before after : List Word) (word : Word) (split : condition.words = before ++ word :: after)
    (place : before.length = slot.index) :
    ∃ new, condition.replace slot suggestion = some new ∧ new.comparator = condition.comparator ∧
      new.words = before.map Word.unmarked ++ suggest suggestion word ::
        after.map Word.unmarked := by
  obtain ⟨field, comparator, values⟩ := condition
  cases slot with
  | field =>
      obtain rfl := List.length_eq_zero_iff.mp place
      obtain ⟨rfl, rfl⟩ := List.cons.inj split
      exact ⟨_, rfl, rfl, rfl⟩
  | value index =>
      match before with
      | [] => cases place
      | first :: before =>
          obtain rfl : before.length = index := Nat.succ.inj place
          obtain ⟨rfl, rfl⟩ := List.cons.inj split
          refine ⟨⟨field.unmarked, comparator, before.map Word.unmarked ++
            suggest suggestion word :: after.map Word.unmarked⟩, ?_, rfl, rfl⟩
          simp [replace, mapWords, suggest, Word.unmarked]

theorem is_typed_suggest (suggestion : Text) (written : suggestion ≠ []) (word : Word) :
    (suggest suggestion word).isTyped = true :=
  decide_eq_true (List.length_pos_iff.mpr written)

@[simp] theorem typed_suggest (suggestion : Text) (word : Word) :
    (suggest suggestion word).typed = suggestion := List.take_length

theorem sound_suggest (suggestion : Text) (written : suggestion ≠ []) (word : Word) :
    (suggest suggestion word).Sound := by
  refine ⟨written, ?_⟩
  intro offset same
  obtain rfl := Option.some.inj same
  exact ⟨List.length_pos_iff.mpr written, Nat.le_refl _⟩

end Condition

/-- The condition with a suggestion over the word being typed in the slot. -/
structure Condition.Retyped (slot : Slot) (suggestion : Text) (old new : Condition) : Prop where
  comparator : new.comparator = old.comparator
  words : ∃ before word after, old.words = before ++ word :: after ∧ before.length = slot.index ∧
    word.isTyped = true ∧ new.words = before.map Word.unmarked ++
      Condition.suggest suggestion word :: after.map Word.unmarked

/-- What is found in the same place once a suggestion stands there. -/
def Target.retyped (found : Target) (suggestion : Text) : Target :=
  { found with
    field := if found.slot = .field then suggestion else found.field
    typed := suggestion }

namespace Condition

section Retyped

variable (slot : Slot) (suggestion : Text) (old new : Condition)
  (retyped : Retyped slot suggestion old new)

include retyped

theorem values_length_retyped : new.values.length = old.values.length := by
  obtain ⟨before, word, after, split, _, _, changed⟩ := retyped.words
  have same : new.words.length = old.words.length := by
    rw [split, changed, List.length_append, List.length_append, List.length_cons,
      List.length_cons, List.length_map, List.length_map]
  exact Nat.succ.inj same

theorem complete_retyped_iff : new.Complete ↔ old.Complete := by
  have same := values_length_retyped slot suggestion old new retyped
  rw [Complete, Complete, retyped.comparator, ← List.length_pos_iff, ← List.length_pos_iff, same]

theorem legible_retyped (written : suggestion ≠ []) (legible : old.Legible) : new.Legible := by
  obtain ⟨before, word, after, split, _, _, changed⟩ := retyped.words
  have unmarked : ∀ other ∈ old.words, other.unmarked.Sound := fun other member =>
    Word.sound_of_unmarked _ (legible.words other member).nonempty rfl
  rw [split] at unmarked
  refine ⟨?_, ?_, ?_⟩
  · intro other member
    rw [changed, List.mem_append, List.mem_cons] at member
    rcases member with earlier | rfl | later
    · obtain ⟨source, listed, rfl⟩ := List.mem_map.mp earlier
      exact unmarked source (List.mem_append_left _ listed)
    · exact sound_suggest suggestion written word
    · obtain ⟨source, listed, rfl⟩ := List.mem_map.mp later
      exact unmarked source (by simp [listed])
  · rw [retyped.comparator]
    exact legible.comparator
  · intro absent
    rw [retyped.comparator] at absent
    have same := values_length_retyped slot suggestion old new retyped
    rw [legible.values absent] at same
    exact List.length_eq_zero_iff.mp same

theorem count_retyped :
    0 < old.words.countP Word.isMarked ∧ new.words.countP Word.isMarked = 1 := by
  obtain ⟨before, word, after, split, _, typed, changed⟩ := retyped.words
  have none : ∀ words : List Word, (words.map Word.unmarked).countP Word.isMarked = 0 := by
    intro words
    rw [List.countP_eq_zero]
    intro other member
    obtain ⟨source, _, rfl⟩ := List.mem_map.mp member
    exact Bool.false_ne_true
  constructor
  · apply List.countP_pos_iff.mpr
    refine ⟨word, by rw [split]; simp, ?_⟩
    rw [Word.isMarked]
    rw [Word.isTyped] at typed
    cases here : word.cursor with
    | none => rw [here] at typed; contradiction
    | some offset => rfl
  · rw [changed, List.countP_append, List.countP_cons_of_pos rfl, none, none]

theorem word_at_retyped (other : Slot) (elsewhere : other ≠ slot) :
    (new.wordAt other).map Word.text = (old.wordAt other).map Word.text := by
  obtain ⟨before, word, after, split, place, _, changed⟩ := retyped.words
  have apart : other.index ≠ before.length := by
    rw [place]
    cases other <;> cases slot <;> simp_all [Slot.index]
  have texts : ∀ words : List Word, (words.map Word.unmarked).map Word.text =
      words.map Word.text := by
    intro words
    rw [List.map_map]
    rfl
  rw [word_at_eq, word_at_eq, ← List.getElem?_map, ← List.getElem?_map, split, changed,
    List.map_append, List.map_append, texts, List.map_cons, List.map_cons, texts]
  apply get_beside
  rwa [List.length_map]

theorem field_retyped :
    new.field.text = if slot = .field then suggestion else old.field.text := by
  split
  · next field =>
      obtain ⟨before, word, after, _, place, _, changed⟩ := retyped.words
      rw [field] at place
      obtain rfl := List.length_eq_zero_iff.mp place
      exact congrArg Word.text (List.cons.inj changed).1
  · next value =>
      exact Option.some.inj
        (word_at_retyped slot suggestion old new retyped .field fun same => value same.symm)

end Retyped

theorem target_replace (condition : Condition) (found : Target) (suggestion : Text)
    (written : suggestion ≠ []) (typed : condition.target = some found) :
    ∃ new, condition.replace found.slot suggestion = some new ∧
      Retyped found.slot suggestion condition new ∧
      new.target = some (found.retyped suggestion) := by
  obtain ⟨⟨slot, word⟩, first, rfl⟩ := Option.map_eq_some_iff.mp typed
  obtain ⟨before, after, split, place, marked, none⟩ :=
    (typed_word_iff condition slot word).mp first
  obtain ⟨new, replaced, comparator, changed⟩ :=
    replace_word condition slot suggestion before after word split place
  have retyped : Retyped slot suggestion condition new :=
    ⟨comparator, before, word, after, split, place, marked, changed⟩
  refine ⟨new, replaced, retyped, ?_⟩
  have again : new.typedWord = some (slot, suggest suggestion word) := by
    apply (typed_word_iff new slot _).mpr
    refine ⟨before.map Word.unmarked, after.map Word.unmarked, changed, ?_,
      is_typed_suggest suggestion written word, ?_⟩
    · rw [List.length_map, place]
    · intro earlier member
      obtain ⟨source, _, rfl⟩ := List.mem_map.mp member
      rfl
  have here : new.target =
      some ⟨[], slot, new.field.text, (suggest suggestion word).typed⟩ := by
    rw [target, again]
    rfl
  rw [here, field_retyped slot suggestion condition new retyped, typed_suggest]
  rfl

end Condition

namespace Tree

theorem target_among_split (index : Nat) (children : List Tree) (found : Target)
    (typed : targetAmong index children = some found) :
    ∃ before child after inner, children = before ++ child :: after ∧
      (∀ earlier ∈ before, earlier.target = none) ∧ child.target = some inner ∧
      found = { inner with path := (index + before.length) :: inner.path } := by
  induction children generalizing index with
  | nil => cases typed
  | cons child rest induction =>
      rw [targetAmong] at typed
      split at typed
      · next inner here =>
          obtain rfl := Option.some.inj typed
          exact ⟨[], child, rest, inner, rfl, List.forall_mem_nil _, here, rfl⟩
      · next untyped =>
          obtain ⟨before, later, after, inner, rfl, none, here, rfl⟩ := induction (index + 1) typed
          refine ⟨child :: before, later, after, inner, rfl, ?_, here, ?_⟩
          · intro earlier member
            rcases List.mem_cons.mp member with rfl | behind
            · exact untyped
            · exact none earlier behind
          · rw [List.length_cons, Nat.add_assoc, Nat.add_comm 1]

theorem target_among_append (index : Nat) (before after : List Tree) (child : Tree)
    (inner : Target) (none : ∀ earlier ∈ before, earlier.target = none)
    (typed : child.target = some inner) :
    targetAmong index (before ++ child :: after) =
      some { inner with path := (index + before.length) :: inner.path } := by
  induction before generalizing index with
  | nil =>
      rw [List.nil_append, targetAmong, typed]
      rfl
  | cons first before induction =>
      have later := induction (index + 1) fun other member =>
        none other (List.mem_cons_of_mem first member)
      rw [List.cons_append, targetAmong, none first (by simp)]
      dsimp only
      rw [later, List.length_cons, Nat.add_assoc, Nat.add_comm 1]

theorem target_in_condition (tree : Tree) (found : Target) (typed : tree.target = some found) :
    ∃ old, old.target = some { found with path := [] } ∧ ∀ new, ∃ edited,
      DiffersAt found.path old new tree edited ∧ ∀ inner : Target, inner.path = [] →
        new.target = some inner → edited.target = some { inner with path := found.path } := by
  induction tree using induct generalizing found with
  | condition leaf =>
      have place : found.path = [] := by
        obtain ⟨_, _, rfl⟩ := Option.map_eq_some_iff.mp typed
        rfl
      obtain ⟨path, slot, field, text⟩ := found
      obtain rfl : path = [] := place
      refine ⟨leaf, typed, fun new => ⟨.condition new, .condition leaf new, ?_⟩⟩
      rintro ⟨path, slot, field, text⟩ rfl here
      exact here
  | group operation children induction =>
      obtain ⟨before, child, after, inner, rfl, none, here, rfl⟩ :=
        target_among_split 0 children found typed
      obtain ⟨old, first, others⟩ := induction child (by simp) inner here
      refine ⟨old, first, fun new => ?_⟩
      obtain ⟨changed, differs, again⟩ := others new
      refine ⟨.group operation (before ++ changed :: after), ?_, ?_⟩
      · rw [Nat.zero_add]
        exact .group operation before child changed after inner.path old new differs
      · intro target alone typed
        exact target_among_append 0 before after changed _ none (again target alone typed)

theorem typed_value_unquoted (index : Nat) (values : List Word) :
    Condition.typedValue index (values.map Word.unquoted) =
      (Condition.typedValue index values).map (Prod.map id Word.unquoted) := by
  induction values generalizing index with
  | nil => rfl
  | cons value rest induction =>
      have same : value.unquoted.isTyped = value.isTyped := rfl
      rw [List.map_cons, Condition.typedValue, Condition.typedValue, same]
      split
      · rfl
      · exact induction (index + 1)

/-- Quotes play no part in the search for the word being typed. -/
@[simp] theorem target_unquoted (tree : Tree) : tree.unquoted.target = tree.target := by
  have among : ∀ (trees : List Tree) (index : Nat),
      (∀ tree ∈ trees, (tree.mapWords Word.unquoted).target = tree.target) →
        targetAmong index (trees.map (mapWords Word.unquoted)) = targetAmong index trees := by
    intro trees
    induction trees with
    | nil => exact fun _ _ => rfl
    | cons tree rest induction =>
        intro index each
        rw [List.map_cons, targetAmong, targetAmong, each tree (by simp),
          induction (index + 1) fun other member => each other (List.mem_cons_of_mem _ member)]
  rw [unquoted]
  induction tree using induct with
  | condition leaf =>
      obtain ⟨field, comparator, values⟩ := leaf
      have same : field.unquoted.isTyped = field.isTyped := rfl
      have words : (Condition.mapWords Word.unquoted ⟨field, comparator, values⟩).typedWord =
          (Condition.typedWord ⟨field, comparator, values⟩).map
            (Prod.map id Word.unquoted) := by
        rw [Condition.mapWords, Condition.typedWord, Condition.typedWord, same]
        split
        · rfl
        · exact typed_value_unquoted 0 values
      change Condition.target _ = Condition.target _
      rw [Condition.target, words, Option.map_map]
      rfl
  | group operation children induction =>
      rw [map_words_group, target, target]
      exact among children 0 induction

theorem word_texts_of_unquoted_eq (left right : Tree) (same : left.unquoted = right.unquoted)
    (path : List Nat) (slot : Slot) :
    (left.wordAt path slot).map Word.text = (right.wordAt path slot).map Word.text := by
  have forget : ∀ tree : Tree, (tree.unquoted.wordAt path slot).map Word.text =
      (tree.wordAt path slot).map Word.text := by
    intro tree
    rw [unquoted, word_at_map_words, Option.map_map]
    rfl
  rw [← forget left, ← forget right, same]

theorem word_texts_retyped (tree edited : Tree) (place : List Nat) (slot : Slot)
    (suggestion : Text) (old new : Condition)
    (retyped : Condition.Retyped slot suggestion old new)
    (differs : DiffersAt place old new tree edited) (path : List Nat) (other : Slot)
    (elsewhere : (path, other) ≠ (place, slot)) :
    (edited.wordAt path other).map Word.text = (tree.wordAt path other).map Word.text := by
  rw [wordAt, wordAt]
  by_cases here : path = place
  · subst here
    obtain ⟨before, after⟩ := condition_at_differ path old new tree edited differs
    rw [before, after]
    apply Condition.word_at_retyped slot suggestion old new retyped
    rintro rfl
    exact elsewhere rfl
  · rw [condition_at_other place old new tree edited differs path here]

end Tree

end FilterQuery
