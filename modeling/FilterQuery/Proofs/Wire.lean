import FilterQuery.Proofs.Json.Depth
import FilterQuery.Proofs.Json.Written
import FilterQuery.Proofs.Tree.Wire

/-!
The JSON of a tree is lossless. What is written for a tree is read as the tree, cursors and quotes
included, as far as offsets are signed 64-bit integers and the nesting is not refused; and whatever
is read as a tree keeps within both bounds.
-/

set_option autoImplicit false

namespace FilterQuery

namespace Word

/-- The cursor can be told from an absent one when it is read. -/
def Signed (word : Word) : Prop := ∀ offset, word.cursor = some offset → offset < Json.signedLimit

theorem exact_to_json (word : Word) : word.toJson.Exact := by
  have cursor : word.cursorToJson.Exact := by
    unfold cursorToJson
    split
    · next offset _ =>
        have small := Nat.mod_lt offset (show 0 < Json.unsignedLimit by decide)
        exact .integer _ (by omega) (by omega)
    · exact .integer (-1) (by decide) (by decide)
  apply Json.Exact.object
  intro member listed
  simp only [List.mem_cons, List.not_mem_nil, or_false] at listed
  rcases listed with rfl | rfl | rfl
  · exact .string word.text
  · exact cursor
  · exact .bool word.quoted

theorem cursor_of_json_cursor (word : Word) (signed : word.Signed) :
    cursorOfJson word.cursorToJson = some word.cursor := by
  unfold cursorToJson
  cases here : word.cursor with
  | none => rfl
  | some offset =>
      have small := signed offset here
      have kept : offset % Json.unsignedLimit = offset :=
        Nat.mod_eq_of_lt (Nat.lt_trans small (by decide))
      have below : (offset : Int) < Json.signedLimit := Int.ofNat_lt.mpr small
      unfold cursorOfJson
      dsimp only
      rw [Json.integer?, Option.bind_eq_bind, Option.bind_some, kept, if_pos below,
        if_pos (Int.natCast_nonneg offset), Int.toNat_natCast]

theorem of_json_to_json (word : Word) (signed : word.Signed) : ofJson word.toJson = some word := by
  have cursor := word.cursor_of_json_cursor signed
  change (Json.optional none cursorOfJson (some word.cursorToJson)).bind _ = _
  rw [Json.optional, cursor]
  rfl

@[simp] theorem depth_to_json (word : Word) : word.toJson.depth = 1 := rfl

theorem signed_of_json_cursor (json : Json) (cursor : Option Nat)
    (reads : cursorOfJson json = some cursor) :
    ∀ offset, cursor = some offset → offset < Json.signedLimit := by
  unfold cursorOfJson at reads
  rw [Option.bind_eq_bind, Option.bind_eq_some_iff] at reads
  obtain ⟨number, _, reads⟩ := reads
  split at reads
  · next small =>
      rintro offset rfl
      split at reads
      · obtain rfl := Option.some.inj (Option.some.inj reads)
        omega
      · cases reads
  · cases reads

theorem bounds_of_json (json : Json) (word : Word) (reads : ofJson json = some word) :
    word.Signed ∧ 1 ≤ json.depth := by
  unfold ofJson at reads
  rw [Option.bind_eq_bind, Option.bind_eq_some_iff] at reads
  obtain ⟨values, fields, reads⟩ := reads
  split at reads
  · next text cursor quoted =>
      have inside := json.depth_of_field _ _ _ fields text (by simp)
      simp only [Option.bind_eq_bind, Option.bind_eq_some_iff] at reads
      obtain ⟨text, _, offset, placed, mark, _, same⟩ := reads
      obtain rfl := Option.some.inj same
      refine ⟨?_, Nat.one_le_of_lt inside⟩
      cases cursor with
      | none =>
          obtain rfl := Option.some.inj placed
          intro offset absent
          cases absent
      | some json => exact signed_of_json_cursor json offset placed
  · cases reads

end Word

namespace Condition

theorem exact_to_json (condition : Condition) : condition.toJson.Exact := by
  apply Json.Exact.object
  intro member listed
  simp only [List.mem_cons, List.not_mem_nil, or_false] at listed
  rcases listed with rfl | rfl | rfl
  · exact condition.field.exact_to_json
  · dsimp only
    split
    · exact .string _
    · exact .null
  · apply Json.Exact.array
    intro item listed
    obtain ⟨word, _, rfl⟩ := List.mem_map.mp listed
    exact word.exact_to_json

def comparatorToJson (condition : Condition) : Json :=
  match condition.comparator with
  | some comparator => .string comparator
  | none => .null

theorem of_json_to_json (condition : Condition) (signed : ∀ word ∈ condition.words, word.Signed) :
    ofJson condition.toJson = some condition := by
  have fields : condition.toJson.fields ["lValue".toList, "comparator".toList, "rValues".toList] 2 =
      some [some condition.field.toJson, some condition.comparatorToJson,
        some (.array (condition.values.map Word.toJson))] := rfl
  have field := condition.field.of_json_to_json (signed _ (by simp [words]))
  have comparator : comparatorOfJson condition.comparatorToJson = some condition.comparator := by
    unfold comparatorToJson
    cases condition.comparator <;> rfl
  have values : Word.listOfJson (.array (condition.values.map Word.toJson)) =
      some condition.values := by
    apply Json.read_map
    intro word member
    exact word.of_json_to_json (signed word (List.mem_cons_of_mem _ member))
  unfold ofJson
  rw [fields]
  simp only [Option.bind_eq_bind, Option.bind_some, Json.optional, field, comparator, values]

theorem depth_to_json (condition : Condition) :
    condition.toJson.depth = max 1 (Json.depthAll (condition.values.map Word.toJson) + 1) + 1 := by
  have comparator : condition.comparatorToJson.depth = 0 := by
    unfold comparatorToJson
    cases condition.comparator <;> rfl
  have members : condition.toJson.depth = max condition.field.toJson.depth
      (max condition.comparatorToJson.depth
        (max (Json.depthAll (condition.values.map Word.toJson) + 1) 0)) + 1 := rfl
  rw [members, comparator, condition.field.depth_to_json, Nat.max_zero, Nat.zero_max]

theorem bounds_of_json (json : Json) (condition : Condition)
    (reads : ofJson json = some condition) :
    (∀ word ∈ condition.words, word.Signed) ∧ condition.toJson.depth ≤ json.depth := by
  unfold ofJson at reads
  rw [Option.bind_eq_bind, Option.bind_eq_some_iff] at reads
  obtain ⟨parts, fields, reads⟩ := reads
  split at reads
  · next field comparator values =>
      have inside := json.depth_of_field _ _ _ fields
      simp only [Option.bind_eq_bind, Option.bind_eq_some_iff] at reads
      obtain ⟨first, here, text, _, rest, later, same⟩ := reads
      obtain rfl := Option.some.inj same
      obtain ⟨signed, deep⟩ := Word.bounds_of_json field first here
      have outer := inside field (by simp)
      have each : ∀ word ∈ rest, word.Signed ∧ 3 ≤ json.depth := by
        cases values with
        | none =>
            obtain rfl := Option.some.inj later
            exact List.forall_mem_nil _
        | some list =>
            intro word member
            cases list with
            | array items =>
                obtain ⟨item, listed, reads⟩ := Json.item_of_read _ items rest later word member
                obtain ⟨signed, deep⟩ := Word.bounds_of_json item word reads
                have inner := Json.depth_of_item items item listed
                have around := inside (.array items) (by simp)
                exact ⟨signed, by omega⟩
            | _ => cases later
      refine ⟨List.forall_mem_cons.mpr ⟨signed, fun word member => (each word member).1⟩, ?_⟩
      rw [depth_to_json]
      -- Only a list of values that is not empty nests deeper than the field.
      cases rest with
      | nil =>
          change 2 ≤ json.depth
          omega
      | cons word rest =>
          have three := (each word (by simp)).2
          have all : Json.depthAll ((word :: rest).map Word.toJson) ≤ 1 := by
            rw [Json.depth_all_le_iff]
            intro item listed
            obtain ⟨value, _, rfl⟩ := List.mem_map.mp listed
            exact value.depth_to_json.le
          dsimp only
          omega
  · cases reads

end Condition

namespace Tree

theorem exact_to_json (tree : Tree) : tree.toJson.Exact := by
  induction tree using induct with
  | condition leaf => exact leaf.exact_to_json
  | group operation children induction =>
      rw [toJson, to_json_all_eq_map]
      apply Json.Exact.object
      intro member listed
      simp only [List.mem_cons, List.not_mem_nil, or_false] at listed
      rcases listed with rfl | rfl
      · exact .string operation.text
      · apply Json.Exact.array
        intro item listed
        obtain ⟨child, member, rfl⟩ := List.mem_map.mp listed
        exact induction child member

@[simp] theorem of_all_eq_map_m (items : List Json) : ofAll items = items.mapM ofJson := by
  induction items with
  | nil => rfl
  | cons item rest induction => rw [ofAll, induction, List.mapM_cons]; rfl

theorem of_json_group (operation : Operation) (children : List Tree) :
    ofJson (toJson (.group operation children)) =
      ((children.map toJson).mapM ofJson).map (.group operation) := by
  have none : Condition.ofJson (.object [(operationKey, operation.toJson),
      (childrenKey, .array (children.map toJson))]) = none := rfl
  have named : operationOfMembers [(operationKey, operation.toJson),
      (childrenKey, .array (children.map toJson))] = some operation := by
    cases operation <;> rfl
  have members : ofMembers [(operationKey, operation.toJson),
      (childrenKey, .array (children.map toJson))] = (children.map toJson).mapM ofJson := by
    rw [ofMembers, if_neg (by decide), ofMembers, if_pos rfl, ofChildren, of_all_eq_map_m]
  rw [toJson, to_json_all_eq_map, ofJson, none, named, members]
  cases (children.map toJson).mapM ofJson <;> rfl

theorem of_json_to_json (tree : Tree) (signed : ∀ word ∈ tree.words, word.Signed) :
    ofJson tree.toJson = some tree := by
  induction tree using induct with
  | condition leaf =>
      have same : Condition.ofJson leaf.toJson = some leaf := by
        apply leaf.of_json_to_json
        intro word member
        apply signed
        rwa [words, conditions, List.flatMap_singleton]
      unfold Condition.toJson at same
      rw [toJson, Condition.toJson, ofJson, same]
  | group operation children induction =>
      rw [of_json_group, Json.read_map]
      · rfl
      · intro child member
        apply induction child member
        intro word contained
        apply signed
        rw [words, conditions_group, List.flatMap_assoc]
        exact List.mem_flatMap.mpr ⟨child, member, contained⟩

theorem children_of_json (json : Json) (children : List Tree)
    (reads : ofChildren json = some children) :
    ∃ items, json = .array items ∧ items.mapM ofJson = some children := by
  unfold ofChildren at reads
  split at reads
  · next items =>
      rw [of_all_eq_map_m] at reads
      exact ⟨items, rfl, reads⟩
  · cases reads

theorem children_of_members (members : List (Text × Json)) (children : List Tree)
    (reads : ofMembers members = some children) :
    ∃ value, (childrenKey, value) ∈ members ∧ ofChildren value = some children := by
  induction members with
  | nil => cases reads
  | cons member rest induction =>
      obtain ⟨key, value⟩ := member
      rw [ofMembers] at reads
      split at reads
      · next same =>
          subst same
          exact ⟨value, List.mem_cons_self, reads⟩
      · obtain ⟨value, listed, reads⟩ := induction reads
        exact ⟨value, List.mem_cons_of_mem _ listed, reads⟩

/-- A condition is read from a record of its own, a group from a record in which the list of its
children stands. -/
theorem of_json_cases (json : Json) (tree : Tree) (reads : ofJson json = some tree) :
    (∃ leaf, tree = .condition leaf ∧ Condition.ofJson json = some leaf) ∨
      ∃ operation children items, tree = .group operation children ∧
        items.mapM ofJson = some children ∧ (Json.array items).depth < json.depth := by
  unfold ofJson at reads
  split at reads
  · next members =>
      split at reads
      · next leaf same => exact .inl ⟨leaf, (Option.some.inj reads).symm, same⟩
      · simp only [Option.bind_eq_bind, Option.bind_eq_some_iff] at reads
        obtain ⟨operation, _, children, listed, same⟩ := reads
        obtain ⟨value, member, list⟩ := children_of_members members children listed
        obtain ⟨items, rfl, read⟩ := children_of_json value children list
        exact .inr ⟨operation, children, items, (Option.some.inj same).symm, read,
          Json.depth_of_member members _ _ member⟩
  · next first second =>
      split at reads
      · next leaf same => exact .inl ⟨leaf, (Option.some.inj reads).symm, same⟩
      · simp only [Option.bind_eq_bind, Option.bind_eq_some_iff] at reads
        obtain ⟨operation, _, children, list, same⟩ := reads
        obtain ⟨items, rfl, read⟩ := children_of_json second children list
        exact .inr ⟨operation, children, items, (Option.some.inj same).symm, read,
          Json.depth_of_item _ _ (by simp)⟩
  · obtain ⟨leaf, same, equal⟩ := Option.map_eq_some_iff.mp reads
    exact .inl ⟨leaf, equal.symm, same⟩

theorem depth_to_json_group (operation : Operation) (children : List Tree) :
    (toJson (.group operation children)).depth =
      Json.depthAll (children.map toJson) + 2 := by
  have members : (toJson (.group operation children)).depth =
      max 0 (max (Json.depthAll (toJsonAll children) + 1) 0) + 1 := rfl
  rw [members, to_json_all_eq_map, Nat.zero_max, Nat.max_zero]

theorem bounds_of_json (json : Json) (tree : Tree) (reads : ofJson json = some tree) :
    (∀ word ∈ tree.words, word.Signed) ∧ tree.toJson.depth ≤ json.depth := by
  induction tree using induct generalizing json with
  | condition leaf =>
      obtain ⟨found, same, read⟩ | ⟨_, _, _, different, _⟩ := of_json_cases json _ reads
      · obtain rfl := condition.inj same
        rw [words, conditions, List.flatMap_singleton, toJson]
        exact leaf.bounds_of_json json read
      · cases different
  | group operation children induction =>
      obtain ⟨_, different, _⟩ | ⟨_, _, items, same, read, deep⟩ := of_json_cases json _ reads
      · cases different
      · obtain ⟨rfl, rfl⟩ := group.inj same
        have each : ∀ child ∈ children, (∀ word ∈ child.words, word.Signed) ∧
            child.toJson.depth ≤ Json.depthAll items := by
          intro child member
          obtain ⟨item, listed, reads⟩ := Json.item_of_read ofJson items children read child member
          obtain ⟨signed, deeper⟩ := induction child member item reads
          exact ⟨signed, deeper.trans ((Json.depth_all_le_iff items _).mp (Nat.le_refl _) item
            listed)⟩
        constructor
        · intro word member
          rw [words, conditions_group, List.flatMap_assoc] at member
          obtain ⟨child, listed, contained⟩ := List.mem_flatMap.mp member
          exact (each child listed).1 word contained
        · have all : Json.depthAll (children.map toJson) ≤ Json.depthAll items := by
            rw [Json.depth_all_le_iff]
            intro item listed
            obtain ⟨child, member, rfl⟩ := List.mem_map.mp listed
            exact (each child member).2
          rw [Json.depth] at deep
          rw [depth_to_json_group]
          omega

theorem read_write (tree : Tree) (signed : ∀ word ∈ tree.words, word.Signed)
    (shallow : tree.toJson.depth ≤ maxJsonDepth) : read tree.write = some tree := by
  have readable := Json.readable_of_exact _ tree.exact_to_json
  have limit : (tree.toJson.readable && decide (tree.toJson.depth ≤ maxJsonDepth)) = true := by
    rw [readable, Bool.true_and, decide_eq_true_iff]
    exact shallow
  unfold read write
  rw [Json.parse_write _ tree.exact_to_json, Option.bind_eq_bind, Option.bind_some, if_pos limit]
  exact tree.of_json_to_json signed

/-- A tree whose offsets are signed 64-bit integers, and that is not nested too deep, is read as it
was written; and every tree that is read from any text is such a tree. -/
theorem wire_lossless :
    (∀ tree : Tree, (∀ word ∈ tree.words, ∀ offset, word.cursor = some offset →
        offset < Json.signedLimit) → tree.toJson.depth ≤ maxJsonDepth →
      read tree.write = some tree) ∧
    ∀ text tree, read text = some tree → read tree.write = some tree := by
  refine ⟨read_write, ?_⟩
  intro text tree reads
  unfold read at reads
  rw [Option.bind_eq_bind, Option.bind_eq_some_iff] at reads
  obtain ⟨json, _, reads⟩ := reads
  split at reads
  · next limit =>
      rw [Bool.and_eq_true, decide_eq_true_iff] at limit
      -- The limit holds for the text that was read, which may hold more than the tree.
      obtain ⟨signed, deep⟩ := bounds_of_json json tree reads
      exact read_write tree signed (deep.trans limit.2)
  · cases reads

/-- A negation of nothing, a text in which all but one of the characters are escaped, and the
largest offset. -/
def oddTree : Tree :=
  .group .and [.group .not [],
    .condition ⟨⟨['"', '\\', '\x01', '😀', '\n'], some 9223372036854775807, true⟩, none, []⟩]

/-- The fields are in another order than they are written in, and one is not known. -/
def oddText : Text := "\x7b\"rValues\":[], \"y\":0,\"lValue\":[\"b\",-7]\x7d".toList

theorem wire_lossless_odd :
    (∀ word ∈ oddTree.words, ∀ offset, word.cursor = some offset → offset < Json.signedLimit) ∧
      oddTree.toJson.depth ≤ maxJsonDepth ∧ read oddTree.write = some oddTree ∧
      read oddText = some (.condition ⟨.plain ['b'], none, []⟩) ∧
      read (write (.condition ⟨.plain ['b'], none, []⟩)) =
        some (.condition ⟨.plain ['b'], none, []⟩) := by
  have signed : ∀ word ∈ oddTree.words, ∀ offset, word.cursor = some offset →
      offset < Json.signedLimit := by
    intro word member offset here
    obtain rfl := List.mem_singleton.mp member
    obtain rfl := Option.some.inj here
    decide
  have shallow : oddTree.toJson.depth ≤ maxJsonDepth := by decide
  have reads : read oddText = some (.condition ⟨.plain ['b'], none, []⟩) := by
    decide +kernel
  exact ⟨signed, shallow, wire_lossless.1 oddTree signed shallow, reads,
    wire_lossless.2 oddText _ reads⟩

end Tree

end FilterQuery
