import FilterQuery.Proofs.Draft.Unmarked
import FilterQuery.Proofs.Nesting
import FilterQuery.Proofs.Wire

/-!
Reading an accepted query back from the JSON it is handed on as. Each group nests this JSON two
levels deeper and each condition three. The limit of the reader counts these levels, the limit of
the query counts brackets, and so a query can be accepted that is not read back.
-/

set_option autoImplicit false

namespace FilterQuery

namespace Tree

mutual

/-- How deep groups are nested, whatever their operations are. -/
def groupDepth : Tree → Nat
  | .condition _ => 0
  | .group _ children => groupDepthAmong children + 1

def groupDepthAmong : List Tree → Nat
  | [] => 0
  | child :: rest => max (groupDepth child) (groupDepthAmong rest)

end

end Tree

theorem Condition.depth_to_json_of_complete (condition : Condition)
    (complete : condition.Complete) : condition.toJson.depth = 3 := by
  obtain ⟨value, values, given⟩ := List.exists_cons_of_ne_nil complete.2
  have shallow : Json.depthAll (values.map Word.toJson) ≤ 1 := by
    rw [Json.depth_all_le_iff]
    intro item listed
    obtain ⟨word, _, rfl⟩ := List.mem_map.mp listed
    exact word.depth_to_json.le
  rw [depth_to_json, given, List.map_cons, Json.depthAll, value.depth_to_json]
  omega

namespace Tree

theorem depth_all_to_json (first : Tree) (rest : List Tree)
    (each : ∀ child ∈ first :: rest, child.toJson.depth = 2 * child.groupDepth + 3) :
    Json.depthAll ((first :: rest).map toJson) = 2 * groupDepthAmong (first :: rest) + 3 := by
  induction rest generalizing first with
  | nil =>
      have here := each first (by simp)
      simp only [List.map_cons, List.map_nil, Json.depthAll, groupDepthAmong]
      omega
  | cons second rest induction =>
      have here := each first (by simp)
      have later := induction second fun child member =>
        each child (List.mem_cons_of_mem first member)
      rw [List.map_cons, Json.depthAll, groupDepthAmong, later, here]
      omega

theorem complete_child (operation : Operation) (children : List Tree)
    (complete : (group operation children).Complete) (child : Tree) (member : child ∈ children) :
    child.Complete := by
  intro condition contained
  apply complete
  rw [conditions_group]
  exact List.mem_flatMap.mpr ⟨child, member, contained⟩

theorem depth_to_json_of_complete (tree : Tree) (normal : tree.Normal) (complete : tree.Complete) :
    tree.toJson.depth = 2 * tree.groupDepth + 3 := by
  have ofGroup : ∀ operation first rest,
      (∀ child ∈ first :: rest, child.toJson.depth = 2 * child.groupDepth + 3) →
        (toJson (.group operation (first :: rest))).depth =
          2 * (group operation (first :: rest)).groupDepth + 3 := by
    intro operation first rest each
    rw [depth_to_json_group, depth_all_to_json first rest each, groupDepth]
    omega
  induction normal with
  | condition leaf =>
      rw [toJson, leaf.depth_to_json_of_complete (complete leaf (List.mem_singleton_self leaf))]
      rfl
  | not child _ induction =>
      apply ofGroup
      rw [List.forall_mem_singleton]
      exact induction (complete_child .not [child] complete child (by simp))
  | group operation children _ count _ _ induction =>
      obtain ⟨first, second, rest, rfl⟩ := exists_two children count
      apply ofGroup
      intro child member
      exact induction child member (complete_child operation _ complete child member)

theorem unmarked_of_text (input : Text) (tree : Tree) (accepted : ofText input none = .ok tree) :
    tree.unmarked = tree := by
  have same := of_text_without_cursor input none
  rw [accepted] at same
  exact (Except.ok.inj same).symm

/-- The reader takes what is written for a tree exactly up to its limit. -/
theorem read_write_eq (tree : Tree) (signed : ∀ word ∈ tree.words, word.Signed) :
    read tree.write = if tree.toJson.depth ≤ maxJsonDepth then some tree else none := by
  split
  · next shallow => exact read_write tree signed shallow
  · next deep =>
      have refused :
          (tree.toJson.readable && decide (tree.toJson.depth ≤ maxJsonDepth)) = false := by
        rw [decide_eq_false deep, Bool.and_false]
      unfold read write
      rw [Json.parse_write _ tree.exact_to_json, Option.bind_eq_bind, Option.bind_some, refused]
      rfl

theorem read_write_of_accepted (input : Text) (tree : Tree)
    (accepted : ofText input none = .ok tree) :
    read tree.write =
      if 2 * tree.groupDepth + 3 ≤ maxJsonDepth then some tree else none := by
  have normal := (sound_of_text input none tree (congrArg understood accepted)).normal
  have signed : ∀ word ∈ tree.words, word.Signed := by
    rw [← unmarked_of_text input tree accepted, unmarked, words_map_words]
    intro word member offset here
    obtain ⟨_, _, rfl⟩ := List.mem_map.mp member
    cases here
  rw [read_write_eq tree signed,
    depth_to_json_of_complete tree normal (complete_of_text input none tree accepted)]

/-- An accepted query is read back from its JSON exactly if its groups are nested so deep at most
that the reader takes two levels for each of them and three for a condition. Otherwise the JSON is
refused. -/
theorem read_back_iff (input : Text) (tree : Tree) (accepted : ofText input none = .ok tree) :
    (read tree.write = some tree ↔ 2 * tree.groupDepth + 3 ≤ maxJsonDepth) ∧
      (maxJsonDepth < 2 * tree.groupDepth + 3 → read tree.write = none) := by
  rw [read_write_of_accepted input tree accepted]
  constructor
  · simp
  · intro deep
    rw [if_neg (Nat.not_le_of_lt deep)]

end Tree

theorem Nested.group_depth_tree (depth : Nat) : (tree depth).groupDepth = 2 * depth + 1 := by
  induction depth with
  | zero => rfl
  | succ depth induction =>
      simp only [tree, Tree.groupDepth, Tree.groupDepthAmong, first, second, induction]
      omega

namespace Tree

/-- Brackets that are nested 32 deep are far from their limit, and the JSON is refused. -/
theorem nested_query_not_read_back :
    ofText (Nested.input 31) none = .ok (Nested.tree 31) ∧
      read (Nested.tree 31).write ≠ some (Nested.tree 31) := by
  have accepted := Nested.accepted 31 (by decide)
  refine ⟨accepted, ?_⟩
  rw [read_write_of_accepted _ _ accepted, Nested.group_depth_tree]
  decide

theorem read_back_iff_nested :
    (ofText (Nested.input 30) none = .ok (Nested.tree 30) ∧
        read (Nested.tree 30).write = some (Nested.tree 30)) ∧
      ofText (Nested.input 31) none = .ok (Nested.tree 31) ∧
        maxJsonDepth < 2 * (Nested.tree 31).groupDepth + 3 ∧
        read (Nested.tree 31).write = none := by
  have shallow := Nested.accepted 30 (by decide)
  have deep := Nested.accepted 31 (by decide)
  have beyond : maxJsonDepth < 2 * (Nested.tree 31).groupDepth + 3 := by
    rw [Nested.group_depth_tree]
    decide
  refine ⟨⟨shallow, ?_⟩, deep, beyond, (read_back_iff _ _ deep).2 beyond⟩
  apply (read_back_iff _ _ shallow).1.mpr
  rw [Nested.group_depth_tree]
  decide

end Tree

end FilterQuery
