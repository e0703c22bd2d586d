import FilterQuery.Proofs.Tree.Place
import FilterQuery.Proofs.Tree.Texts

/-!
The search and the edit name the same words. A search by a stack of subtrees visits the words in the
order of their places, and an edit reaches the word at any place of the tree, where it changes the
text of the query as if only the text of that word had been replaced.
-/

set_option autoImplicit false

namespace FilterQuery

theorem map_set_eq_map_modify {Item Image : Type} (image : Item → Image) (change : Item → Item)
    (items : List Item) (index : Nat) (old new : Item) (here : items[index]? = some old)
    (same : image new = image (change old)) :
    (items.set index new).map image = (items.modify index change).map image := by
  apply List.ext_getElem?
  intro place
  rw [List.getElem?_map, List.getElem?_map, List.getElem?_set, List.getElem?_modify]
  by_cases equal : index = place
  · subst equal
    obtain ⟨inside, rfl⟩ := List.getElem?_eq_some_iff.mp here
    simp [inside, same]
  · simp [equal]

/-- The word with another text; its cursor and its quotes stay. -/
def Word.retext (text : Text) (word : Word) : Word := { word with text := text }

namespace Condition

def retext (condition : Condition) (text : Text) : Slot → Condition
  | .field => { condition with field := condition.field.retext text }
  | .value index => { condition with values := condition.values.modify index (Word.retext text) }

theorem word_at_retext (condition : Condition) (text : Text) (slot other : Slot) :
    (condition.retext text slot).wordAt other =
      (condition.wordAt other).map (if other = slot then Word.retext text else id) := by
  cases slot with
  | field => cases other <;> simp [retext, wordAt]
  | value index =>
      cases other with
      | field => simp [retext, wordAt]
      | value place =>
          have changed : (condition.values.modify index (Word.retext text))[place]? =
              condition.values[place]?.map fun word =>
                if index = place then word.retext text else word := List.getElem?_modify ..
          rw [retext, wordAt, wordAt, changed]
          by_cases here : index = place
          · rw [if_pos (congrArg Slot.value here.symm)]
            simp only [here, if_true]
          · have apart : Slot.value place ≠ Slot.value index := by
              intro same
              cases same
              contradiction
            rw [if_neg apart]
            simp only [here, if_false]
            rfl

theorem replace_eq_none_iff (condition : Condition) (slot : Slot) (suggestion : Text) :
    condition.replace slot suggestion = none ↔ condition.wordAt slot = none := by
  cases slot with
  | field => simp [replace, wordAt]
  | value index => simp [replace, wordAt, mapWords]

theorem unmarked_replace (condition new : Condition) (slot : Slot) (suggestion : Text)
    (replaced : condition.replace slot suggestion = some new) :
    new.mapWords Word.unmarked = (condition.retext suggestion slot).mapWords Word.unmarked := by
  obtain ⟨field, comparator, values⟩ := condition
  have again : (values.map Word.unmarked).map Word.unmarked = values.map Word.unmarked := by
    rw [List.map_map]
    rfl
  cases slot with
  | field =>
      obtain rfl := Option.some.inj replaced
      exact congrArg (mk ⟨suggestion, none, field.quoted⟩ comparator) again
  | value index =>
      obtain ⟨_, listed, rfl⟩ := Option.map_eq_some_iff.mp replaced
      obtain ⟨value, here, rfl⟩ := Option.map_eq_some_iff.mp (List.getElem?_map.symm.trans listed)
      have changed := map_set_eq_map_modify Word.unmarked (Word.retext suggestion) values index
        value (suggest suggestion value) here rfl
      rw [List.map_set, ← again, ← List.map_set] at changed
      exact congrArg (mk field.unmarked comparator) changed

end Condition

def Target.below (path : List Nat) (found : Target) : Target :=
  { found with path := path ++ found.path }

namespace Tree

def pushChildren (path : List Nat) (children : List Tree) (stack : List (List Nat × Tree)) :
    List (List Nat × Tree) :=
  children.zipIdx.reverse.foldl (fun stack entry => (path ++ [entry.2], entry.1) :: stack) stack

theorem push_children_eq (path : List Nat) (children : List Tree)
    (stack : List (List Nat × Tree)) :
    pushChildren path children stack =
      (children.zipIdx.map fun entry => (path ++ [entry.2], entry.1)) ++ stack := by
  rw [pushChildren, List.foldl_reverse, List.foldr_cons_eq_append]

mutual

def size : Tree → Nat
  | .condition _ => 1
  | .group _ children => sizeAll children + 1

def sizeAll : List Tree → Nat
  | [] => 0
  | child :: rest => size child + sizeAll rest

end

@[simp] theorem size_all_eq_sum (trees : List Tree) : sizeAll trees = (trees.map size).sum := by
  induction trees with
  | nil => rfl
  | cons tree rest induction => rw [sizeAll, induction, List.map_cons, List.sum_cons]

def stackSize (stack : List (List Nat × Tree)) : Nat := (stack.map fun entry => entry.2.size).sum

/-- The children of a group that is replaced by them lack the group itself. -/
theorem stack_size_push_children (path : List Nat) (operation : Operation) (children : List Tree)
    (stack : List (List Nat × Tree)) :
    stackSize (pushChildren path children stack) <
      stackSize ((path, .group operation children) :: stack) := by
  have entries : (fun entry : List Nat × Tree => entry.2.size) ∘
      (fun entry : Tree × Nat => (path ++ [entry.2], entry.1)) = size ∘ Prod.fst := rfl
  rw [push_children_eq, stackSize, stackSize, List.map_append, List.sum_append, List.map_map,
    entries, ← List.map_map, List.zipIdx_map_fst, List.map_cons, List.sum_cons, size,
    size_all_eq_sum]
  omega

/-- The search by a stack of the subtrees that are still to be visited. -/
def search : List (List Nat × Tree) → Option Target
  | [] => none
  | (path, .condition leaf) :: stack =>
      match leaf.typedWord with
      | some (slot, word) => some ⟨path, slot, leaf.field.text, word.typed⟩
      | none => search stack
  | (path, .group _ children) :: stack => search (pushChildren path children stack)
termination_by stack => stackSize stack
decreasing_by
  · rw [stackSize, stackSize, List.map_cons, List.sum_cons, size]
    omega
  · exact stack_size_push_children _ _ _ _

def targetBelow (entry : List Nat × Tree) : Option Target :=
  entry.2.target.map (Target.below entry.1)

theorem find_among_children (path : List Nat) (index : Nat) (children : List Tree) :
    (children.zipIdx index).findSome?
        (targetBelow ∘ fun entry => (path ++ [entry.2], entry.1)) =
      (targetAmong index children).map (Target.below path) := by
  induction children generalizing index with
  | nil => rfl
  | cons child rest induction =>
      rw [List.zipIdx_cons, List.findSome?_cons, induction, targetAmong, Function.comp,
        targetBelow]
      cases child.target with
      | none => rfl
      | some found => simp [Target.below]

theorem search_eq_find (stack : List (List Nat × Tree)) :
    search stack = stack.findSome? targetBelow := by
  induction stack using search.induct with
  | case1 => rw [search]; rfl
  | case2 path leaf stack slot word here =>
      rw [search, here, List.findSome?_cons, targetBelow, target, Condition.target, here]
      simp [Target.below]
  | case3 path leaf stack untyped induction =>
      rw [search, untyped, induction, List.findSome?_cons, targetBelow, target, Condition.target,
        untyped]
      rfl
  | case4 path operation children stack induction =>
      rw [search, induction, push_children_eq, List.findSome?_append, List.findSome?_map,
        find_among_children, List.findSome?_cons, targetBelow, target]
      cases targetAmong 0 children <;> rfl

theorem search_eq_target (tree : Tree) : search [([], tree)] = tree.target := by
  rw [search_eq_find, List.findSome?_singleton, targetBelow]
  cases tree.target <;> rfl

/-- The tree with another text for one word. -/
def retext (tree : Tree) (slot : Slot) (text : Text) : (path : List Nat) → Tree
  | [] =>
      match tree with
      | .condition leaf => .condition (leaf.retext text slot)
      | .group operation children => .group operation children
  | index :: path =>
      match tree with
      | .condition leaf => .condition leaf
      | .group operation children =>
          .group operation (children.modify index fun child => retext child slot text path)

theorem condition_at_retext (tree : Tree) (slot : Slot) (text : Text) (path other : List Nat) :
    (tree.retext slot text path).conditionAt other =
      (tree.conditionAt other).map
        (if other = path then fun condition => condition.retext text slot else id) := by
  induction path generalizing tree other with
  | nil =>
      cases tree with
      | condition leaf => cases other <;> simp [retext, conditionAt]
      | group operation children =>
          cases other with
          | nil => rfl
          | cons index other => simp [retext]
  | cons index path induction =>
      cases tree with
      | condition leaf => cases other <;> simp [retext, conditionAt]
      | group operation children =>
          cases other with
          | nil => rfl
          | cons place other =>
              have changed :
                  (children.modify index fun child => retext child slot text path)[place]? =
                    children[place]?.map fun child =>
                      if index = place then retext child slot text path else child :=
                List.getElem?_modify ..
              rw [retext, conditionAt, conditionAt, changed]
              cases children[place]? with
              | none => rfl
              | some child =>
                  by_cases here : index = place
                  · subst here
                    simpa using induction child other
                  · simp [here, Ne.symm here]

/-- One word gets the text, and every other word of the tree stays as it was. -/
theorem word_at_retext (tree : Tree) (slot : Slot) (text : Text) (path other : List Nat)
    (otherSlot : Slot) :
    (tree.retext slot text path).wordAt other otherSlot =
      (tree.wordAt other otherSlot).map
        (if other = path ∧ otherSlot = slot then Word.retext text else id) := by
  rw [wordAt, wordAt, condition_at_retext]
  cases tree.conditionAt other with
  | none => rfl
  | some condition =>
      by_cases here : other = path
      · simp [here, condition.word_at_retext]
      · simp [here]

theorem replace_in_child (operation : Operation) (children : List Tree) (slot : Slot)
    (suggestion : Text) (index : Nat) (path : List Nat) :
    (group operation children).replace slot suggestion (index :: path) =
      children[index]?.bind fun child => (child.replace slot suggestion path).map fun changed =>
        .group operation (children.set index changed) := by
  simp only [replace, Option.bind_eq_bind, Option.map_eq_bind]
  rfl

theorem replace_eq_none_iff (tree : Tree) (slot : Slot) (suggestion : Text) (path : List Nat) :
    tree.replace slot suggestion path = none ↔ tree.wordAt path slot = none := by
  induction path generalizing tree with
  | nil =>
      cases tree with
      | condition leaf =>
          rw [replace, Option.map_eq_none_iff, leaf.replace_eq_none_iff slot suggestion]
          rfl
      | group operation children => exact ⟨fun _ => rfl, fun _ => rfl⟩
  | cons index path induction =>
      cases tree with
      | condition leaf => exact ⟨fun _ => rfl, fun _ => rfl⟩
      | group operation children =>
          rw [replace_in_child, wordAt, conditionAt]
          cases children[index]? with
          | none => exact ⟨fun _ => rfl, fun _ => rfl⟩
          | some child =>
              rw [Option.bind_some, Option.map_eq_none_iff, induction child]
              rfl

theorem unmarked_replace (tree edited : Tree) (slot : Slot) (suggestion : Text) (path : List Nat)
    (replaced : tree.replace slot suggestion path = some edited) :
    edited.unmarked = (tree.retext slot suggestion path).unmarked := by
  induction path generalizing tree edited with
  | nil =>
      cases tree with
      | condition leaf =>
          obtain ⟨new, here, rfl⟩ := Option.map_eq_some_iff.mp replaced
          exact congrArg condition (leaf.unmarked_replace new slot suggestion here)
      | group operation children => cases replaced
  | cons index path induction =>
      cases tree with
      | condition leaf => cases replaced
      | group operation children =>
          rw [replace_in_child] at replaced
          obtain ⟨child, place, later⟩ := Option.bind_eq_some_iff.mp replaced
          obtain ⟨changed, here, rfl⟩ := Option.map_eq_some_iff.mp later
          have inside := induction child changed here
          rw [retext, unmarked, unmarked, map_words_group, map_words_group]
          exact congrArg (group operation)
            (map_set_eq_map_modify unmarked _ children index child changed place inside)

/-- A path that leads through existing children of groups to a condition, and a slot that this
condition has. -/
def HasPlace (tree : Tree) (target : Target) : Prop :=
  ∃ condition, tree.conditionAt target.path = some condition ∧
    ∀ index, target.slot = .value index → index < condition.values.length

theorem has_place_iff (tree : Tree) (target : Target) :
    tree.HasPlace target ↔ tree.wordAt target.path target.slot ≠ none := by
  rw [HasPlace, wordAt]
  cases tree.conditionAt target.path with
  | none => simp
  | some condition => simp [Condition.word_at_eq_none_iff]

theorem apply_suggestion_ok (tree : Tree) (target : Target) (suggestion : Text)
    (place : tree.HasPlace target) :
    ∃ printed, tree.applySuggestion target suggestion = .ok printed ∧
      printed.text = (tree.retext target.slot suggestion target.path).print.text := by
  rw [has_place_iff, ne_eq, ← replace_eq_none_iff tree target.slot suggestion] at place
  obtain ⟨edited, replaced⟩ := Option.ne_none_iff_exists'.mp place
  refine ⟨edited.print, by rw [applySuggestion, replaced], ?_⟩
  rw [← text_print_unmarked edited, unmarked_replace tree edited _ _ _ replaced,
    text_print_unmarked]

theorem apply_suggestion_error (tree : Tree) (target : Target) (suggestion : Text)
    (missing : ¬ tree.HasPlace target) :
    tree.applySuggestion target suggestion = .error .targetMissing := by
  rw [has_place_iff, not_not, ← replace_eq_none_iff tree target.slot suggestion] at missing
  rw [applySuggestion, missing]

/-- The search by a stack of subtrees finds the first word being typed, if there is one. A
suggestion is refused exactly if the tree has no such place, and else the text is that of the tree
in which this one word has another text; it is never refused where the search has found a word. -/
theorem search_and_edit_agree (tree : Tree) :
    search [([], tree)] = tree.target ∧
      (∀ found, tree.target = some found ↔
        ∃ condition word, FirstTyped tree found condition word) ∧
      (tree.target = none ↔ ∀ word ∈ tree.words, word.isTyped = false) ∧
      (∀ target suggestion,
        ((∃ failure, tree.applySuggestion target suggestion = .error failure) ↔
          ¬ tree.HasPlace target) ∧
        (tree.HasPlace target → ∃ printed, tree.applySuggestion target suggestion = .ok printed ∧
          printed.text = (tree.retext target.slot suggestion target.path).print.text) ∧
        ∀ path slot, (tree.retext target.slot suggestion target.path).wordAt path slot =
          (tree.wordAt path slot).map
            (if path = target.path ∧ slot = target.slot then Word.retext suggestion else id)) ∧
      ∀ found suggestion, tree.target = some found →
        ∃ printed, tree.applySuggestion found suggestion = .ok printed := by
  refine ⟨search_eq_target tree, target_eq_some_iff tree, target_eq_none_iff tree, ?_, ?_⟩
  · intro target suggestion
    refine ⟨⟨?_, ?_⟩, apply_suggestion_ok tree target suggestion,
      tree.word_at_retext target.slot suggestion target.path⟩
    · rintro ⟨failure, refused⟩ place
      obtain ⟨printed, accepted, _⟩ := apply_suggestion_ok tree target suggestion place
      rw [accepted] at refused
      cases refused
    · intro missing
      exact ⟨_, apply_suggestion_error tree target suggestion missing⟩
  · intro found suggestion typed
    obtain ⟨condition, word, first⟩ := first_typed_of_target tree found typed
    have place : tree.HasPlace found := by
      rw [has_place_iff, first.word_at tree found condition word]
      exact Option.some_ne_none word
    obtain ⟨printed, accepted, _⟩ := apply_suggestion_ok tree found suggestion place
    exact ⟨printed, accepted⟩

/-- A tree with four cursors. The first of them stands in front of its word, so the search passes
it. -/
def scatteredTree : Tree :=
  .group .and [.condition ⟨(Word.plain "a".toList).withCursor 0, some "=".toList,
      [.plain "x".toList]⟩,
    .negate (.group .or [.condition ⟨.plain "b".toList, some "in".toList,
        [.plain "c".toList, (Word.plain "de".toList).withCursor 1,
          (Word.plain "f".toList).withCursor 1]⟩,
      .condition ⟨(Word.plain "g".toList).withCursor 1, none, []⟩])]

theorem search_and_edit_agree_scattered :
    scatteredTree.target = some ⟨[1, 0, 0], .value 1, "b".toList, "d".toList⟩ ∧
      search [([], scatteredTree)] = scatteredTree.target ∧
      scatteredTree.HasPlace ⟨[1, 0, 1], .field, [], []⟩ ∧
      (∃ printed, scatteredTree.applySuggestion ⟨[1, 0, 1], .field, [], []⟩ "h".toList =
        .ok printed ∧ printed.text = "a = \"x\" and not (b in (\"c\",\"de\",\"f\") or h)".toList) ∧
      (∃ printed, scatteredTree.applySuggestion
        ⟨[1, 0, 0], .value 1, "b".toList, "d".toList⟩ "dx".toList = .ok printed) ∧
      ∃ failure, scatteredTree.applySuggestion ⟨[1, 0, 0], .value 3, [], []⟩ "h".toList =
        .error failure := by
  obtain ⟨same, _, _, edits, accepted⟩ := search_and_edit_agree scatteredTree
  have found : scatteredTree.target = some ⟨[1, 0, 0], .value 1, "b".toList, "d".toList⟩ := rfl
  have place : scatteredTree.HasPlace ⟨[1, 0, 1], .field, [], []⟩ :=
    ⟨_, rfl, fun _ absent => by cases absent⟩
  have outside : ¬ scatteredTree.HasPlace ⟨[1, 0, 0], .value 3, [], []⟩ := by
    rintro ⟨condition, here, inside⟩
    obtain rfl := Option.some.inj here
    exact absurd (inside 3 rfl) (by decide)
  obtain ⟨printed, written, text⟩ := (edits _ "h".toList).2.1 place
  exact ⟨found, same, place, ⟨printed, written, text⟩, accepted _ _ found,
    (edits _ _).1.mpr outside⟩

end Tree

end FilterQuery
