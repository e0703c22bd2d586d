import FilterQuery.Proofs.Tree.Conditions
import FilterQuery.Target
import Mathlib

/-!
Changing one condition of a tree. Two trees that differ in the condition at the end of a path have
the same conditions on every other path and in every other place from left to right, and the same
grouping.
-/

set_option autoImplicit false

namespace FilterQuery

theorem get_beside {Item : Type} (before after : List Item) (first second : Item) (index : Nat)
    (elsewhere : index ≠ before.length) :
    (before ++ first :: after)[index]? = (before ++ second :: after)[index]? := by
  rcases Nat.lt_or_gt_of_ne elsewhere with earlier | later
  · rw [List.getElem?_append_left earlier, List.getElem?_append_left earlier]
  · obtain ⟨distance, rfl⟩ := Nat.exists_eq_add_of_lt later
    rw [List.getElem?_append_right (by omega), List.getElem?_append_right (by omega),
      Nat.add_assoc, Nat.add_sub_cancel_left]
    rfl

def Condition.wordAt (condition : Condition) : Slot → Option Word
  | .field => some condition.field
  | .value index => condition.values[index]?

namespace Tree

/-- The condition to which the indexes of children lead. -/
def conditionAt (tree : Tree) : (path : List Nat) → Option Condition
  | [] =>
      match tree with
      | .condition leaf => some leaf
      | .group _ _ => none
  | index :: path =>
      match tree with
      | .condition _ => none
      | .group _ children => children[index]?.bind fun child => conditionAt child path

def wordAt (tree : Tree) (path : List Nat) (slot : Slot) : Option Word :=
  (tree.conditionAt path).bind fun condition => condition.wordAt slot

/-- The second tree is the first one with `new` in the place of `old` at the end of the path. -/
inductive DiffersAt : List Nat → Condition → Condition → Tree → Tree → Prop
  | condition (old new : Condition) : DiffersAt [] old new (.condition old) (.condition new)
  | group (operation : Operation) (before : List Tree) (child changed : Tree)
      (after : List Tree) (path : List Nat) (old new : Condition) :
      DiffersAt path old new child changed →
        DiffersAt (before.length :: path) old new (.group operation (before ++ child :: after))
          (.group operation (before ++ changed :: after))

theorem conditions_differ (path : List Nat) (old new : Condition) (tree edited : Tree)
    (differs : DiffersAt path old new tree edited) :
    ∃ before after, tree.conditions = before ++ old :: after ∧
      edited.conditions = before ++ new :: after := by
  induction differs with
  | condition old new => exact ⟨[], [], rfl, rfl⟩
  | group operation before child changed after path old new _ induction =>
      obtain ⟨left, right, first, second⟩ := induction
      refine ⟨before.flatMap conditions ++ left, right ++ after.flatMap conditions, ?_, ?_⟩
      · rw [conditions_group, List.flatMap_append, List.flatMap_cons, first]
        simp only [List.append_assoc, List.cons_append]
      · rw [conditions_group, List.flatMap_append, List.flatMap_cons, second]
        simp only [List.append_assoc, List.cons_append]

theorem operation_differ (path : List Nat) (old new : Condition) (tree edited : Tree)
    (differs : DiffersAt path old new tree edited) : edited.operation? = tree.operation? := by
  cases differs <;> rfl

theorem normal_differ (path : List Nat) (old new : Condition) (tree edited : Tree)
    (differs : DiffersAt path old new tree edited) (normal : tree.Normal) : edited.Normal := by
  induction differs with
  | condition old new => exact Normal.condition new
  | group operation before child changed after path old new differs induction =>
      -- The changed child has the operation of the old one, so it stays apart from its parent.
      have same := operation_differ path old new child changed differs
      by_cases joins : operation = .not
      · subst joins
        generalize listed : before ++ child :: after = children at normal
        cases normal with
        | not inner whole =>
            obtain ⟨rfl, single⟩ : before = [] ∧ child :: after = [inner] := by
              cases before with
              | nil => exact ⟨rfl, listed⟩
              | cons first rest => simp at listed
            obtain ⟨rfl, rfl⟩ := List.cons.inj single
            exact Normal.not changed (induction whole)
        | group _ _ joins => contradiction
      · obtain ⟨count, separate, normals⟩ := parts_of_normal_group operation joins _ normal
        apply Normal.group operation _ joins
        · simpa using count
        · intro tree member
          rcases List.mem_append.mp member with earlier | later
          · exact separate tree (List.mem_append_left _ earlier)
          · rcases List.mem_cons.mp later with rfl | behind
            · rw [same]
              exact separate child (by simp)
            · exact separate tree (by simp [behind])
        · intro tree member
          rcases List.mem_append.mp member with earlier | later
          · exact normals tree (List.mem_append_left _ earlier)
          · rcases List.mem_cons.mp later with rfl | behind
            · exact induction (normals child (by simp))
            · exact normals tree (by simp [behind])

theorem condition_at_differ (path : List Nat) (old new : Condition) (tree edited : Tree)
    (differs : DiffersAt path old new tree edited) :
    tree.conditionAt path = some old ∧ edited.conditionAt path = some new := by
  induction differs with
  | condition old new => exact ⟨rfl, rfl⟩
  | group operation before child changed after path old new _ induction =>
      simpa [conditionAt] using induction

theorem condition_at_other (path : List Nat) (old new : Condition) (tree edited : Tree)
    (differs : DiffersAt path old new tree edited) (other : List Nat) (elsewhere : other ≠ path) :
    edited.conditionAt other = tree.conditionAt other := by
  induction differs generalizing other with
  | condition old new =>
      cases other with
      | nil => contradiction
      | cons index rest => rfl
  | group operation before child changed after path old new _ induction =>
      cases other with
      | nil => rfl
      | cons index rest =>
          rw [conditionAt, conditionAt]
          by_cases here : index = before.length
          · subst here
            have same := induction rest fun equal => elsewhere (congrArg _ equal)
            simpa using same
          · rw [get_beside before after changed child index here]

theorem replace_of_differs (path : List Nat) (old new : Condition) (tree edited : Tree)
    (differs : DiffersAt path old new tree edited) (slot : Slot) (suggestion : Text)
    (replaced : old.replace slot suggestion = some new) :
    tree.replace slot suggestion path = some edited := by
  induction differs with
  | condition old new =>
      rw [replace, replaced]
      rfl
  | group operation before child changed after path old new _ induction =>
      have inner := induction replaced
      simp [replace, inner]

theorem condition_at_map_words (change : Word → Word) (tree : Tree) (path : List Nat) :
    (tree.mapWords change).conditionAt path =
      (tree.conditionAt path).map (Condition.mapWords change) := by
  induction path generalizing tree with
  | nil => cases tree <;> rfl
  | cons index path induction =>
      cases tree with
      | condition leaf => rfl
      | group operation children =>
          rw [map_words_group, conditionAt, conditionAt]
          rw [List.getElem?_map]
          cases children[index]? with
          | none => rfl
          | some child => exact induction child

theorem word_at_map_words (change : Word → Word) (tree : Tree) (path : List Nat) (slot : Slot) :
    (tree.mapWords change).wordAt path slot = (tree.wordAt path slot).map change := by
  rw [wordAt, wordAt, condition_at_map_words]
  cases tree.conditionAt path with
  | none => rfl
  | some condition =>
      cases slot with
      | field => rfl
      | value index => exact List.getElem?_map

end Tree

end FilterQuery
