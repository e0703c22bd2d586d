import FilterQuery.Word

/-!
A query is a tree of conditions joined by logical operations. Two trees have the same shape when
they differ in cursors and quotes at most.
-/

set_option autoImplicit false

namespace FilterQuery

/-- A field compared with values. The comparator is absent only while the condition is still
being written. -/
structure Condition where
  field : Word
  comparator : Option Text
  values : List Word
deriving DecidableEq

inductive Operation where
  | and
  | or
  | not
deriving DecidableEq

def Operation.text : Operation → Text
  | .and => "and".toList
  | .or => "or".toList
  | .not => "not".toList

inductive Tree where
  | condition (leaf : Condition)
  | group (operation : Operation) (children : List Tree)

namespace Condition

def words (condition : Condition) : List Word := condition.field :: condition.values

def mapWords (change : Word → Word) (condition : Condition) : Condition :=
  ⟨change condition.field, condition.comparator, condition.values.map change⟩

def sameShape (left right : Condition) : Bool :=
  left.field.text == right.field.text && left.comparator == right.comparator &&
    left.values.map Word.text == right.values.map Word.text

end Condition

namespace Tree

mutual

def decEq : (left right : Tree) → Decidable (left = right)
  | .condition left, .condition right =>
      if same : left = right then isTrue (by rw [same])
      else isFalse (by intro equal; injection equal; contradiction)
  | .condition _, .group _ _ => isFalse (by intro equal; cases equal)
  | .group _ _, .condition _ => isFalse (by intro equal; cases equal)
  | .group left leftChildren, .group right rightChildren =>
      if same : left = right then
        match decEqAll leftChildren rightChildren with
        | isTrue children => isTrue (by rw [same, children])
        | isFalse children => isFalse (by intro equal; injection equal; contradiction)
      else isFalse (by intro equal; injection equal; contradiction)

def decEqAll : (left right : List Tree) → Decidable (left = right)
  | [], [] => isTrue rfl
  | [], _ :: _ => isFalse (by intro equal; cases equal)
  | _ :: _, [] => isFalse (by intro equal; cases equal)
  | left :: leftRest, right :: rightRest =>
      match decEq left right with
      | isTrue same =>
          match decEqAll leftRest rightRest with
          | isTrue rest => isTrue (by rw [same, rest])
          | isFalse rest => isFalse (by intro equal; injection equal; contradiction)
      | isFalse same => isFalse (by intro equal; injection equal; contradiction)

end

instance : DecidableEq Tree := decEq

def negate (tree : Tree) : Tree := .group .not [tree]

mutual

/-- The conditions from left to right. -/
def conditions : Tree → List Condition
  | .condition leaf => [leaf]
  | .group _ children => conditionsAll children

def conditionsAll : List Tree → List Condition
  | [] => []
  | child :: rest => conditions child ++ conditionsAll rest

end

mutual

def mapWords (change : Word → Word) : Tree → Tree
  | .condition leaf => .condition (leaf.mapWords change)
  | .group operation children => .group operation (mapWordsAll change children)

def mapWordsAll (change : Word → Word) : List Tree → List Tree
  | [] => []
  | child :: rest => mapWords change child :: mapWordsAll change rest

end

mutual

/-- Equality of grouping, comparators and texts; cursors and quotes are not looked at. -/
def sameShape : Tree → Tree → Bool
  | .condition left, .condition right => left.sameShape right
  | .group left leftChildren, .group right rightChildren =>
      decide (left = right) && sameShapes leftChildren rightChildren
  | .condition _, .group _ _ => false
  | .group _ _, .condition _ => false

def sameShapes : List Tree → List Tree → Bool
  | [], [] => true
  | left :: leftRest, right :: rightRest => sameShape left right && sameShapes leftRest rightRest
  | [], _ :: _ => false
  | _ :: _, [] => false

end

def unmarked (tree : Tree) : Tree := tree.mapWords Word.unmarked

/-- The tree without cursors and quotes. -/
def bare (tree : Tree) : Tree := tree.mapWords Word.bare

/-- All words in the order in which they are written. -/
def words (tree : Tree) : List Word := tree.conditions.flatMap Condition.words

/-- The trees an outermost conjunction joins: any other tree stands for itself. -/
def conjuncts : Tree → List Tree
  | .group .and children => children
  | tree => [tree]

def disjuncts : Tree → List Tree
  | .group .or children => children
  | tree => [tree]

/-- A group of the given trees; a single tree needs no group. -/
def collapse (operation : Operation) : List Tree → Tree
  | [tree] => tree
  | trees => .group operation trees

/-- The conjunction of the given trees, with no conjunction directly inside it. -/
def conjoin (trees : List Tree) : Tree := collapse .and (trees.flatMap conjuncts)

def disjoin (trees : List Tree) : Tree := collapse .or (trees.flatMap disjuncts)

@[simp] theorem conditions_all_eq_flat_map (trees : List Tree) :
    conditionsAll trees = trees.flatMap conditions := by
  induction trees with
  | nil => rfl
  | cons tree rest induction => rw [conditionsAll, induction, List.flatMap_cons]

@[simp] theorem map_words_all_eq_map (change : Word → Word) (trees : List Tree) :
    mapWordsAll change trees = trees.map (mapWords change) := by
  induction trees with
  | nil => rfl
  | cons tree rest induction => rw [mapWordsAll, induction, List.map_cons]

@[simp] theorem conditions_group (operation : Operation) (children : List Tree) :
    (group operation children).conditions = children.flatMap conditions := by
  rw [conditions, conditions_all_eq_flat_map]

@[simp]
theorem map_words_group (change : Word → Word) (operation : Operation) (children : List Tree) :
    (group operation children).mapWords change =
      .group operation (children.map (mapWords change)) := by
  rw [mapWords, map_words_all_eq_map]

@[simp] theorem flat_map_conditions_conjuncts (tree : Tree) :
    tree.conjuncts.flatMap conditions = tree.conditions := by
  cases tree with
  | condition leaf => simp [conjuncts]
  | group operation children => cases operation <;> simp [conjuncts]

@[simp] theorem flat_map_conditions_disjuncts (tree : Tree) :
    tree.disjuncts.flatMap conditions = tree.conditions := by
  cases tree with
  | condition leaf => simp [disjuncts]
  | group operation children => cases operation <;> simp [disjuncts]

@[simp] theorem conditions_collapse (operation : Operation) (trees : List Tree) :
    (collapse operation trees).conditions = trees.flatMap conditions := by
  match trees with
  | [] => simp [collapse]
  | [tree] => simp [collapse]
  | first :: second :: rest => simp [collapse]

@[simp] theorem conditions_conjoin (trees : List Tree) :
    (conjoin trees).conditions = trees.flatMap conditions := by
  simp [conjoin, List.flatMap_assoc]

@[simp] theorem conditions_disjoin (trees : List Tree) :
    (disjoin trees).conditions = trees.flatMap conditions := by
  simp [disjoin, List.flatMap_assoc]

end Tree

end FilterQuery
