import FilterQuery.Proofs.Tree.Conditions
import FilterQuery.Tree.Wire
import Mathlib

/-!
What the service is told of cursors. Each word of a tree is written with its own cursor, in the
order in which the words stand in the tree, and nothing else in the JSON looks like a cursor.
-/

set_option autoImplicit false

namespace FilterQuery

namespace Json

mutual

/-- Everything that stands under a key, at any depth, in the order in which it is written. -/
def under (key : Text) : Json → List Json
  | .array items => underAll key items
  | .object members => underMembers key members
  | _ => []

def underAll (key : Text) : List Json → List Json
  | [] => []
  | item :: rest => under key item ++ underAll key rest

def underMembers (key : Text) : List (Text × Json) → List Json
  | [] => []
  | (name, value) :: rest =>
      (if name = key then [value] else []) ++ under key value ++ underMembers key rest

end

@[simp] theorem under_array (key : Text) (items : List Json) :
    (array items).under key = items.flatMap (under key) := by
  rw [under]
  induction items with
  | nil => rfl
  | cons item rest induction => rw [underAll, induction, List.flatMap_cons]

end Json

def Word.cursorKey : Text := "beingTyped".toList

def Word.cursorToJson (word : Word) : Json :=
  .integer (match word.cursor with
    | some offset => (offset % Json.unsignedLimit : Nat)
    | none => -1)

@[simp] theorem Word.under_to_json (word : Word) :
    word.toJson.under cursorKey = [word.cursorToJson] := rfl

@[simp] theorem Condition.under_to_json (condition : Condition) :
    condition.toJson.under Word.cursorKey = condition.words.map Word.cursorToJson := by
  obtain ⟨field, comparator, values⟩ := condition
  -- A comparator is a text or absent, so nothing stands under a key in it.
  have parts : (toJson ⟨field, comparator, values⟩).under Word.cursorKey =
      field.toJson.under Word.cursorKey ++
        ((Json.array (values.map Word.toJson)).under Word.cursorKey ++ []) := by
    cases comparator <;> rfl
  have each : values.flatMap (fun value => value.toJson.under Word.cursorKey) =
      values.map Word.cursorToJson := List.map_eq_flatMap.symm
  rw [parts, Word.under_to_json, Json.under_array, List.flatMap_map, each, List.append_nil]
  rfl

namespace Tree

@[simp] theorem to_json_all_eq_map (trees : List Tree) : toJsonAll trees = trees.map toJson := by
  induction trees with
  | nil => rfl
  | cons tree rest induction => rw [toJsonAll, induction, List.map_cons]

@[simp] theorem under_to_json (tree : Tree) :
    tree.toJson.under Word.cursorKey = tree.words.map Word.cursorToJson := by
  induction tree using induct with
  | condition leaf =>
      rw [toJson, leaf.under_to_json, words, conditions, List.flatMap_singleton]
  | group operation children induction =>
      have parts : (group operation children).toJson.under Word.cursorKey =
          (Json.array (toJsonAll children)).under Word.cursorKey ++ [] := rfl
      rw [parts, List.append_nil, to_json_all_eq_map, Json.under_array, List.flatMap_map,
        List.flatMap_congr induction, words, conditions_group, List.flatMap_assoc,
        List.map_flatMap]
      rfl

/-- Without cursors every word is written with -1. -/
theorem under_to_json_unmarked (tree : Tree) :
    ∀ value ∈ tree.unmarked.toJson.under Word.cursorKey, value = .integer (-1) := by
  rw [under_to_json, unmarked, words_map_words, List.map_map]
  intro value member
  obtain ⟨word, _, rfl⟩ := List.mem_map.mp member
  rfl

end Tree

end FilterQuery
