import FilterQuery.Proofs.Target

/-!
The places of the words of a tree. A place is the path to a condition and a slot there. With the
slot counted as one more index the places are ordered from left to right, and the search finds the
first word in this order that has the cursor behind one of its characters.
-/

set_option autoImplicit false

namespace FilterQuery

namespace Slot

/-- The place of a word as indexes, which are compared from the front. -/
def address (slot : Slot) (path : List Nat) : List Nat := path ++ [slot.index]

theorem index_injective (left right : Slot) (same : left.index = right.index) : left = right := by
  cases left with
  | field =>
      cases right with
      | field => rfl
      | value index => cases same
  | value index =>
      cases right with
      | field => cases same
      | value other => rw [Nat.succ.inj same]

theorem exists_of_index (index : Nat) : ∃ slot : Slot, slot.index = index := by
  cases index with
  | zero => exact ⟨.field, rfl⟩
  | succ index => exact ⟨.value index, rfl⟩

@[simp] theorem address_cons (slot : Slot) (index : Nat) (path : List Nat) :
    slot.address (index :: path) = index :: slot.address path := rfl

theorem address_lt_of_index_lt (slot other : Slot) (path : List Nat)
    (smaller : slot.index < other.index) : slot.address path < other.address path := by
  induction path with
  | nil => exact List.cons_lt_cons_iff.mpr (Or.inl smaller)
  | cons index path induction => exact List.cons_lt_cons_iff.mpr (Or.inr ⟨rfl, induction⟩)

theorem address_injective (slot other : Slot) (path otherPath : List Nat)
    (same : slot.address path = other.address otherPath) : path = otherPath ∧ slot = other := by
  obtain ⟨paths, last⟩ := List.append_inj' same rfl
  exact ⟨paths, index_injective slot other (List.cons.inj last).1⟩

end Slot

namespace Condition

theorem mem_words_iff (condition : Condition) (word : Word) :
    word ∈ condition.words ↔ ∃ slot, condition.wordAt slot = some word := by
  rw [List.mem_iff_getElem?]
  constructor
  · rintro ⟨index, here⟩
    obtain ⟨slot, rfl⟩ := Slot.exists_of_index index
    exact ⟨slot, (word_at_eq condition slot).trans here⟩
  · rintro ⟨slot, here⟩
    exact ⟨slot.index, (word_at_eq condition slot).symm.trans here⟩

theorem word_at_eq_none_iff (condition : Condition) (slot : Slot) :
    condition.wordAt slot = none ↔
      ∃ index, slot = .value index ∧ condition.values.length ≤ index := by
  cases slot with
  | field => simp [wordAt]
  | value index => simp [wordAt]

end Condition

namespace Tree

section Child

variable (operation : Operation) (before : List Tree) (child : Tree) (after : List Tree)
  (path : List Nat)

theorem condition_at_child :
    (group operation (before ++ child :: after)).conditionAt (before.length :: path) =
      child.conditionAt path := by
  rw [conditionAt, List.getElem?_append_right (Nat.le_refl _), Nat.sub_self]
  rfl

theorem condition_at_earlier_child (index : Nat) (earlier : index < before.length) :
    (group operation (before ++ child :: after)).conditionAt (index :: path) =
      before[index].conditionAt path := by
  rw [conditionAt, List.getElem?_append_left earlier, List.getElem?_eq_getElem earlier]
  rfl

end Child

theorem mem_conditions_iff (tree : Tree) (condition : Condition) :
    condition ∈ tree.conditions ↔ ∃ path, tree.conditionAt path = some condition := by
  induction tree using induct with
  | condition leaf =>
      constructor
      · intro member
        obtain rfl := List.mem_singleton.mp member
        exact ⟨[], rfl⟩
      · rintro ⟨path, here⟩
        cases path with
        | nil => exact List.mem_singleton.mpr (Option.some.inj here).symm
        | cons index path => cases here
  | group operation children induction =>
      rw [conditions_group, List.mem_flatMap]
      constructor
      · rintro ⟨child, listed, member⟩
        obtain ⟨index, place⟩ := List.mem_iff_getElem?.mp listed
        obtain ⟨path, here⟩ := (induction child listed).mp member
        exact ⟨index :: path, by rw [conditionAt, place]; exact here⟩
      · rintro ⟨path, here⟩
        cases path with
        | nil => cases here
        | cons index path =>
            obtain ⟨child, place, inside⟩ := Option.bind_eq_some_iff.mp here
            have listed := List.mem_of_getElem? place
            exact ⟨child, listed, (induction child listed).mpr ⟨path, inside⟩⟩

theorem mem_words_iff (tree : Tree) (word : Word) :
    word ∈ tree.words ↔ ∃ path slot, tree.wordAt path slot = some word := by
  rw [words, List.mem_flatMap]
  constructor
  · rintro ⟨condition, listed, member⟩
    obtain ⟨path, here⟩ := (mem_conditions_iff tree condition).mp listed
    obtain ⟨slot, inside⟩ := (condition.mem_words_iff word).mp member
    exact ⟨path, slot, by rw [wordAt, here]; exact inside⟩
  · rintro ⟨path, slot, here⟩
    obtain ⟨condition, reached, inside⟩ := Option.bind_eq_some_iff.mp here
    exact ⟨condition, (mem_conditions_iff tree condition).mpr ⟨path, reached⟩,
      (condition.mem_words_iff word).mpr ⟨slot, inside⟩⟩

/-- Two conditions of a tree stand side by side, so their words are ordered as they are. -/
theorem address_lt_of_path_lt (tree : Tree) (earlier path : List Nat) (first second : Condition)
    (here : tree.conditionAt earlier = some first) (there : tree.conditionAt path = some second)
    (smaller : earlier < path) (slot other : Slot) : slot.address earlier < other.address path := by
  induction earlier generalizing tree path with
  | nil =>
      cases tree with
      | group operation children => cases here
      | condition leaf =>
          cases path with
          | nil => exact absurd smaller (List.not_lt_nil _)
          | cons index path => cases there
  | cons index earlier induction =>
      cases path with
      | nil => exact absurd smaller (List.not_lt_nil _)
      | cons next path =>
          rw [Slot.address_cons, Slot.address_cons]
          apply List.cons_lt_cons_iff.mpr
          rcases List.cons_lt_cons_iff.mp smaller with left | ⟨rfl, inside⟩
          · exact Or.inl left
          · cases tree with
            | condition leaf => cases here
            | group operation children =>
                obtain ⟨child, place, found⟩ := Option.bind_eq_some_iff.mp here
                rw [conditionAt, place] at there
                exact Or.inr ⟨rfl, induction child path found there inside⟩

end Tree

namespace Condition

theorem typed_value_eq_none_iff (index : Nat) (values : List Word) :
    typedValue index values = none ↔ ∀ value ∈ values, value.isTyped = false := by
  induction values generalizing index with
  | nil => simp [typedValue]
  | cons value rest induction =>
      rw [typedValue, List.forall_mem_cons, ← induction (index + 1)]
      cases value.isTyped <;> simp

theorem target_eq_none_iff (condition : Condition) :
    condition.target = none ↔ ∀ word ∈ condition.words, word.isTyped = false := by
  rw [target, Option.map_eq_none_iff, typedWord, words, List.forall_mem_cons,
    ← typed_value_eq_none_iff 0]
  cases condition.field.isTyped <;> simp

end Condition

namespace Tree

theorem target_among_eq_none_iff (index : Nat) (children : List Tree) :
    targetAmong index children = none ↔ ∀ child ∈ children, child.target = none := by
  induction children generalizing index with
  | nil => simp [targetAmong]
  | cons child rest induction =>
      rw [targetAmong, List.forall_mem_cons, ← induction (index + 1)]
      cases child.target <;> simp

theorem target_eq_none_iff (tree : Tree) :
    tree.target = none ↔ ∀ word ∈ tree.words, word.isTyped = false := by
  induction tree using induct with
  | condition leaf =>
      rw [target, leaf.target_eq_none_iff, words, conditions, List.flatMap_singleton]
  | group operation children induction =>
      have inside : (group operation children).words = children.flatMap words := by
        rw [words, conditions_group, List.flatMap_assoc]
        rfl
      rw [target, target_among_eq_none_iff, inside]
      constructor
      · intro none word member
        obtain ⟨child, listed, here⟩ := List.mem_flatMap.mp member
        exact (induction child listed).mp (none child listed) word here
      · intro untyped child listed
        refine (induction child listed).mpr fun word member => ?_
        exact untyped word (List.mem_flatMap.mpr ⟨child, listed, member⟩)

/-- What is told about a word that has the cursor behind one of its characters, when no word in
front of it has. -/
structure FirstTyped (tree : Tree) (found : Target) (condition : Condition) (word : Word) :
    Prop where
  leads : tree.conditionAt found.path = some condition
  stands : condition.wordAt found.slot = some word
  typed : word.isTyped = true
  field : found.field = condition.field.text
  text : found.typed = word.typed
  first : ∀ path slot earlier, tree.wordAt path slot = some earlier →
    slot.address path < found.slot.address found.path → earlier.isTyped = false

theorem FirstTyped.word_at (tree : Tree) (found : Target) (condition : Condition) (word : Word)
    (here : FirstTyped tree found condition word) :
    tree.wordAt found.path found.slot = some word := by
  rw [wordAt, here.leads]
  exact here.stands

theorem first_typed_condition (leaf : Condition) (found : Target)
    (typed : leaf.target = some found) :
    ∃ condition word, FirstTyped (.condition leaf) found condition word := by
  obtain ⟨⟨slot, word⟩, here, rfl⟩ := Option.map_eq_some_iff.mp typed
  obtain ⟨before, after, split, place, typed, none⟩ :=
    (Condition.typed_word_iff leaf slot word).mp here
  refine ⟨leaf, word, ⟨rfl, ?_, typed, rfl, rfl, ?_⟩⟩
  · rw [Condition.word_at_eq, split, ← place, List.getElem?_append_right (Nat.le_refl _),
      Nat.sub_self]
    rfl
  · intro path other earlier listed smaller
    cases path with
    | nil =>
        -- Both words stand in the one condition, so their slots decide.
        have lower : other.index < before.length := by
          rw [place]
          rcases List.cons_lt_cons_iff.mp smaller with lower | ⟨_, empty⟩
          · exact lower
          · exact absurd empty (List.not_lt_nil _)
        have member : leaf.words[other.index]? = some earlier :=
          (Condition.word_at_eq leaf other).symm.trans listed
        rw [split, List.getElem?_append_left lower] at member
        exact none earlier (List.mem_of_getElem? member)
    | cons index path => cases listed

theorem first_typed_of_target (tree : Tree) (found : Target) (typed : tree.target = some found) :
    ∃ condition word, FirstTyped tree found condition word := by
  induction tree using induct generalizing found with
  | condition leaf => exact first_typed_condition leaf found typed
  | group operation children induction =>
      obtain ⟨before, child, after, inner, rfl, none, here, rfl⟩ :=
        target_among_split 0 children found typed
      rw [Nat.zero_add]
      obtain ⟨condition, word, inside⟩ := induction child (by simp) inner here
      refine ⟨condition, word, ?_, inside.stands, inside.typed, inside.field, inside.text, ?_⟩
      · rw [condition_at_child]
        exact inside.leads
      · intro path slot earlier listed smaller
        cases path with
        | nil => cases listed
        | cons index path =>
            rw [Slot.address_cons, Slot.address_cons, List.cons_lt_cons_iff] at smaller
            rcases smaller with left | ⟨rfl, behind⟩
            · rw [wordAt, condition_at_earlier_child _ _ _ _ _ index left] at listed
              have untyped := (target_eq_none_iff _).mp (none _ (List.getElem_mem left))
              exact untyped earlier ((mem_words_iff _ earlier).mpr ⟨path, slot, listed⟩)
            · rw [wordAt, condition_at_child] at listed
              exact inside.first path slot earlier listed behind

theorem first_typed_unique (tree : Tree) (found other : Target)
    (condition otherCondition : Condition) (word otherWord : Word)
    (here : FirstTyped tree found condition word)
    (there : FirstTyped tree other otherCondition otherWord) : found = other := by
  have same : found.slot.address found.path = other.slot.address other.path := by
    rcases lt_trichotomy (found.slot.address found.path) (other.slot.address other.path) with
      earlier | same | later
    · have untyped := there.first _ _ word (here.word_at tree found condition word) earlier
      rw [here.typed] at untyped
      contradiction
    · exact same
    · have untyped := here.first _ _ otherWord
        (there.word_at tree other otherCondition otherWord) later
      rw [there.typed] at untyped
      contradiction
  obtain ⟨path, slot, field, typed⟩ := found
  obtain ⟨otherPath, otherSlot, otherField, otherTyped⟩ := other
  obtain ⟨rfl, rfl⟩ := Slot.address_injective slot otherSlot path otherPath same
  obtain rfl := Option.some.inj (here.leads.symm.trans there.leads)
  obtain rfl := Option.some.inj (here.stands.symm.trans there.stands)
  obtain rfl : field = otherField := here.field.trans there.field.symm
  obtain rfl : typed = otherTyped := here.text.trans there.text.symm
  rfl

theorem target_eq_some_iff (tree : Tree) (found : Target) :
    tree.target = some found ↔ ∃ condition word, FirstTyped tree found condition word := by
  constructor
  · exact first_typed_of_target tree found
  · rintro ⟨condition, word, first⟩
    cases search : tree.target with
    | none =>
        have reached := first.word_at tree found condition word
        have untyped := (target_eq_none_iff tree).mp search word
          ((mem_words_iff tree word).mpr ⟨_, _, reached⟩)
        rw [first.typed] at untyped
        contradiction
    | some other =>
        obtain ⟨_, _, there⟩ := first_typed_of_target tree other search
        rw [first_typed_unique tree found other _ _ _ _ first there]

end Tree

end FilterQuery
