import FilterQuery.Proofs.Tree.Normal
import Mathlib

/-!
Changing the conditions of a tree in their places, and comparing trees by what stands in these
places. Having the same shape is equality of the trees without cursors and quotes.
-/

set_option autoImplicit false

namespace FilterQuery

namespace Word

/-- The word without its quotes; its cursor stays. -/
def unquoted (word : Word) : Word := { word with quoted := false }

def isMarked (word : Word) : Bool := word.cursor.isSome

end Word

namespace Condition

/-- Nothing is missing that a query needs. -/
def Complete (condition : Condition) : Prop :=
  condition.comparator.isSome = true ∧ condition.values ≠ []

@[simp] theorem words_map_words (change : Word → Word) (condition : Condition) :
    (condition.mapWords change).words = condition.words.map change := rfl

theorem same_shape_iff (left right : Condition) :
    left.sameShape right = true ↔ left.mapWords Word.bare = right.mapWords Word.bare := by
  obtain ⟨field, comparator, values⟩ := left
  obtain ⟨otherField, otherComparator, otherValues⟩ := right
  have texts : values.map Word.text = otherValues.map Word.text ↔
      values.map Word.bare = otherValues.map Word.bare := by
    constructor
    · intro same
      have plain := congrArg (List.map Word.plain) same
      rwa [List.map_map, List.map_map] at plain
    · intro same
      have text := congrArg (List.map Word.text) same
      rwa [List.map_map, List.map_map] at text
  simp only [sameShape, mapWords, Bool.and_eq_true, beq_iff_eq, mk.injEq, texts, and_assoc]
  simp [Word.bare, Word.plain]

end Condition

namespace Tree

def unquoted (tree : Tree) : Tree := tree.mapWords Word.unquoted

mutual

def mapConditions (change : Condition → Condition) : Tree → Tree
  | .condition leaf => .condition (change leaf)
  | .group operation children => .group operation (mapConditionsAll change children)

def mapConditionsAll (change : Condition → Condition) : List Tree → List Tree
  | [] => []
  | child :: rest => mapConditions change child :: mapConditionsAll change rest

end

@[simp] theorem map_conditions_all_eq_map (change : Condition → Condition) (trees : List Tree) :
    mapConditionsAll change trees = trees.map (mapConditions change) := by
  induction trees with
  | nil => rfl
  | cons tree rest induction => rw [mapConditionsAll, induction, List.map_cons]

@[simp] theorem map_conditions_group (change : Condition → Condition) (operation : Operation)
    (children : List Tree) :
    (group operation children).mapConditions change =
      .group operation (children.map (mapConditions change)) := by
  rw [mapConditions, map_conditions_all_eq_map]

theorem map_words_eq_map_conditions (change : Word → Word) (tree : Tree) :
    tree.mapWords change = tree.mapConditions (Condition.mapWords change) := by
  induction tree using induct with
  | condition leaf => rfl
  | group operation children induction =>
      rw [map_words_group, map_conditions_group, List.map_congr_left induction]

theorem map_conditions_map_conditions (first second : Condition → Condition) (tree : Tree) :
    (tree.mapConditions first).mapConditions second =
      tree.mapConditions fun condition => second (first condition) := by
  induction tree using induct with
  | condition leaf => rfl
  | group operation children induction =>
      rw [map_conditions_group, map_conditions_group, map_conditions_group, List.map_map]
      exact congrArg (group operation) (List.map_congr_left induction)

theorem map_conditions_congr (first second : Condition → Condition) (tree : Tree)
    (same : ∀ condition ∈ tree.conditions, first condition = second condition) :
    tree.mapConditions first = tree.mapConditions second := by
  induction tree using induct with
  | condition leaf =>
      rw [mapConditions, mapConditions, same leaf (by simp [conditions])]
  | group operation children induction =>
      rw [conditions_group] at same
      rw [map_conditions_group, map_conditions_group]
      apply congrArg (group operation)
      apply List.map_congr_left
      intro child member
      apply induction child member
      intro condition contained
      exact same condition (List.mem_flatMap.mpr ⟨child, member, contained⟩)

theorem map_words_map_words (first second : Word → Word) (tree : Tree) :
    (tree.mapWords first).mapWords second = tree.mapWords fun word => second (first word) := by
  rw [map_words_eq_map_conditions, map_words_eq_map_conditions, map_words_eq_map_conditions,
    map_conditions_map_conditions]
  apply map_conditions_congr
  intro condition _
  rw [Condition.mapWords, Condition.mapWords, Condition.mapWords, List.map_map]
  rfl

@[simp] theorem conditions_map_conditions (change : Condition → Condition) (tree : Tree) :
    (tree.mapConditions change).conditions = tree.conditions.map change := by
  induction tree using induct with
  | condition leaf => rfl
  | group operation children induction =>
      rw [map_conditions_group, conditions_group, conditions_group, List.flatMap_map,
        List.map_flatMap]
      exact List.flatMap_congr induction

@[simp] theorem words_map_words (change : Word → Word) (tree : Tree) :
    (tree.mapWords change).words = tree.words.map change := by
  rw [words, words, map_words_eq_map_conditions, conditions_map_conditions, List.flatMap_map,
    List.map_flatMap]
  rfl

@[simp] theorem operation_map_conditions (change : Condition → Condition) (tree : Tree) :
    (tree.mapConditions change).operation? = tree.operation? := by
  cases tree with
  | condition leaf => rfl
  | group operation children => rw [map_conditions_group]; rfl

theorem normal_map_conditions (change : Condition → Condition) (tree : Tree)
    (normal : tree.Normal) : (tree.mapConditions change).Normal := by
  induction normal with
  | condition leaf => exact Normal.condition _
  | not child _ induction => exact Normal.not _ induction
  | group operation children joins count separate _ induction =>
      rw [map_conditions_group]
      apply Normal.group operation _ joins (by simpa using count)
      · intro child member
        obtain ⟨old, listed, rfl⟩ := List.mem_map.mp member
        rw [operation_map_conditions]
        exact separate old listed
      · intro child member
        obtain ⟨old, listed, rfl⟩ := List.mem_map.mp member
        exact induction old listed

theorem same_shapes_iff (lefts rights : List Tree)
    (each : ∀ left ∈ lefts, ∀ right : Tree,
      left.sameShape right = true ↔ left.bare = right.bare) :
    sameShapes lefts rights = true ↔ lefts.map bare = rights.map bare := by
  induction lefts generalizing rights with
  | nil => cases rights <;> simp [sameShapes]
  | cons left lefts induction =>
      cases rights with
      | nil => simp [sameShapes]
      | cons right rights =>
          rw [sameShapes, Bool.and_eq_true, each left (by simp),
            induction rights fun tree member => each tree (by simp [member]), List.map_cons,
            List.map_cons, List.cons.injEq]

theorem same_shape_iff (left right : Tree) :
    left.sameShape right = true ↔ left.bare = right.bare := by
  induction left using induct generalizing right with
  | condition leaf =>
      cases right with
      | condition other =>
          rw [sameShape, Condition.same_shape_iff, bare, bare, mapWords, mapWords,
            condition.injEq]
      | group operation children => simp [sameShape, bare, mapWords]
  | group operation children induction =>
      cases right with
      | condition other => simp [sameShape, bare, mapWords]
      | group other others =>
          rw [sameShape, Bool.and_eq_true, decide_eq_true_iff,
            same_shapes_iff children others induction, bare, bare, map_words_group,
            map_words_group, group.injEq]
          rfl

/-- Trees that differ in quotes only have the same shape. -/
theorem same_shape_of_unquoted_eq (left right : Tree) (same : left.unquoted = right.unquoted) :
    left.sameShape right = true := by
  have forget : ∀ tree : Tree, tree.unquoted.bare = tree.bare := by
    intro tree
    rw [bare, unquoted, map_words_map_words]
    rfl
  rw [same_shape_iff, ← forget left, ← forget right, same]

end Tree

end FilterQuery
