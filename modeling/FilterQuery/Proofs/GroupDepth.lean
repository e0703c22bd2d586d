import FilterQuery.Proofs.Descent.Group
import FilterQuery.Proofs.Draft.Limit
import FilterQuery.Proofs.ReadBack

/-!
How deep trees get. Operands are nested at most three levels deeper by the chain they are joined in:
in a negation, a conjunction and a disjunction. Every bracket adds one chain, so the limit of the
brackets limits the depth of every tree, and of what is recovered from an error too.
-/

set_option autoImplicit false

namespace FilterQuery

namespace Tree

theorem group_depth_among_le_iff (trees : List Tree) (bound : Nat) :
    groupDepthAmong trees ≤ bound ↔ ∀ tree ∈ trees, tree.groupDepth ≤ bound := by
  induction trees with
  | nil => exact iff_of_true (Nat.zero_le bound) (List.forall_mem_nil _)
  | cons tree rest induction =>
      rw [groupDepthAmong, Nat.max_le, induction, List.forall_mem_cons]

theorem group_depth_negate_if (negated : Bool) (tree : Tree) :
    (negateIf negated tree).groupDepth ≤ tree.groupDepth + 1 := by
  cases negated with
  | false => exact Nat.le_succ _
  | true =>
      change max tree.groupDepth 0 + 1 ≤ _
      rw [Nat.max_zero]

theorem group_depth_member (operation : Operation) (tree member : Tree)
    (listed : member ∈ tree.members operation) : member.groupDepth ≤ tree.groupDepth := by
  cases tree with
  | condition leaf => rw [List.mem_singleton.mp listed]
  | group outer children =>
      rw [members] at listed
      split at listed
      · have inner := (group_depth_among_le_iff children _).mp (Nat.le_refl _) member listed
        exact inner.trans (Nat.le_succ _)
      · rw [List.mem_singleton.mp listed]

/-- Joining trees by one operation nests them one level deeper. -/
theorem group_depth_join (operation : Operation) (trees : List Tree) (bound : Nat)
    (within : ∀ tree ∈ trees, tree.groupDepth ≤ bound) :
    (collapse operation (trees.flatMap (members operation))).groupDepth ≤ bound + 1 := by
  have parts : ∀ part ∈ trees.flatMap (members operation), part.groupDepth ≤ bound := by
    intro part listed
    obtain ⟨tree, member, inner⟩ := List.mem_flatMap.mp listed
    exact (group_depth_member operation tree part inner).trans (within tree member)
  match same : trees.flatMap (members operation) with
  | [] => exact Nat.le_add_left 1 bound
  | [tree] => exact (parts tree (by simp [same])).trans (Nat.le_succ bound)
  | first :: second :: rest =>
      exact Nat.succ_le_succ ((group_depth_among_le_iff _ _).mpr (same ▸ parts))

theorem group_depth_of_chain (first : Tree) (chain : List (Connective × Tree)) (bound : Nat)
    (within : ∀ operand ∈ chainOperands first chain, operand.groupDepth ≤ bound) :
    (ofChain first chain).groupDepth ≤ bound + 2 := by
  rw [ofChain, disjoin, funext disjuncts_eq_members]
  apply group_depth_join
  intro conjunction listed
  obtain ⟨part, member, rfl⟩ := List.mem_map.mp listed
  rw [conjoin, funext conjuncts_eq_members]
  apply group_depth_join
  intro operand inner
  apply within
  rw [← flatten_split_at_or]
  exact List.mem_flatten.mpr ⟨part, member, inner⟩

theorem group_depth_assemble (operands : List Tree) (connectives : List Connective) (bound : Nat)
    (first : ∀ operand ∈ operands, operand.groupDepth ≤ bound + 1)
    (later : ∀ operand ∈ operands.tail, operand.groupDepth ≤ bound) (tree : Tree)
    (assembled : understood (assemble operands connectives) = some tree) :
    tree.groupDepth ≤ bound + 3 := by
  cases operands with
  | nil => cases assembled
  | cons operand rest =>
      rw [assemble] at assembled
      split at assembled
      · obtain rfl := Option.some.inj assembled
        apply group_depth_of_chain operand _ (bound + 1)
        intro part listed
        rcases List.mem_cons.mp listed with rfl | behind
        · exact first part (by simp)
        · obtain ⟨⟨connective, other⟩, linked, rfl⟩ := List.mem_map.mp behind
          have shallow := later other (List.of_mem_zip linked).2
          exact (group_depth_negate_if _ other).trans (Nat.succ_le_succ shallow)
      · obtain rfl := Option.some.inj assembled
        exact (first operand (by simp)).trans (Nat.add_le_add_left (by decide) bound)

end Tree

namespace Level

/-- The operands are nested as deep as the bound allows, or one level deeper for a leading `not`. -/
structure Within (level : Level) (bound : Nat) : Prop where
  first : ∀ operand ∈ level.operands, operand.groupDepth ≤ bound + 1
  later : ∀ operand ∈ level.operands.tail, operand.groupDepth ≤ bound
  settled : level.operands ≠ [] → level.negated = false

theorem within_empty (bound : Nat) : empty.Within bound :=
  ⟨List.forall_mem_nil _, List.forall_mem_nil _, fun filled => absurd rfl filled⟩

theorem within_push (level : Level) (bound : Nat) (within : level.Within bound) (operand : Tree)
    (shallow : operand.groupDepth ≤ bound) : (level.push operand).Within bound := by
  obtain ⟨operands, connectives, negated⟩ := level
  have added := (Tree.group_depth_negate_if negated operand).trans (Nat.succ_le_succ shallow)
  refine ⟨?_, ?_, fun _ => rfl⟩
  · intro part listed
    rcases List.mem_append.mp listed with before | last
    · exact within.first part before
    · rw [List.mem_singleton.mp last]
      exact added
  · cases operands with
    | nil => exact List.forall_mem_nil _
    | cons first rest =>
        obtain rfl : negated = false := within.settled (List.cons_ne_nil _ _)
        intro part listed
        rcases List.mem_append.mp listed with before | last
        · exact within.later part before
        · rw [List.mem_singleton.mp last]
          exact shallow

theorem within_recover (level : Level) (bound : Nat) (within : level.Within bound)
    (unfinished : Option Tree) (shallow : ∀ tree, unfinished = some tree → tree.groupDepth ≤ bound)
    (tree : Tree) (recovered : level.recover unfinished = some tree) :
    tree.groupDepth ≤ bound + 3 := by
  have assembled : ∀ operands : List Tree, (∀ operand ∈ operands, operand.groupDepth ≤ bound + 1) →
      (∀ operand ∈ operands.tail, operand.groupDepth ≤ bound) →
        Tree.recover operands level.connectives = some tree → tree.groupDepth ≤ bound + 3 := by
    intro operands first later recovered
    apply Tree.group_depth_assemble operands _ bound first later tree
    rw [Tree.recover] at recovered
    generalize Tree.assemble _ _ = result at recovered ⊢
    cases result with
    | ok whole => exact recovered
    | error error => cases recovered
  cases unfinished with
  | none =>
      rw [recover, Option.map_none, Option.toList_none, List.append_nil] at recovered
      exact assembled level.operands within.first within.later recovered
  | some last =>
      have pushed := within_push level bound within last (shallow last rfl)
      exact assembled _ pushed.first pushed.later recovered

end Level

namespace Descent

/-- The tree of the query, or of what was understood before the error, is nested at most so deep. -/
def Shallow (outcome : Outcome) (bound : Nat) : Prop :=
  ∀ tree, Tree.understood outcome.1 = some tree → tree.groupDepth ≤ bound

/-- How deep the operands inside `depth` brackets are nested. -/
def depthLeft (depth : Nat) : Nat := 3 * (maxBracketDepth - depth)

theorem shallow_without_tree (cause : SyntaxError.Cause) (state : State) (bound : Nat) :
    Shallow (.error ⟨cause, none⟩, state) bound := by
  rintro tree ⟨⟩

theorem assemble_shallow (level : Level) (bound : Nat) (within : level.Within bound)
    (state : State) : Shallow (assemble level.operands level.connectives state) (bound + 3) :=
  Tree.group_depth_assemble level.operands level.connectives bound within.first within.later

theorem fail_shallow (cause : SyntaxError.Cause) (level : Level) (bound : Nat)
    (within : level.Within bound) (unfinished : Option Tree)
    (shallow : ∀ tree, unfinished = some tree → tree.groupDepth ≤ bound) (state : State) :
    Shallow (fail cause level unfinished state) (bound + 3) := by
  intro tree recovered
  change (recover level unfinished state).1 = some tree at recovered
  rw [tree_of_recover] at recovered
  exact level.within_recover bound within unfinished shallow tree recovered

theorem fail_between_shallow (cause : SyntaxError.Cause) (level : Level) (bound : Nat)
    (within : level.Within bound) (state : State) :
    Shallow (fail cause level none state) (bound + 3) := by
  apply fail_shallow cause level bound within
  rintro tree ⟨⟩

theorem finish_shallow (inside : Bool) (level : Level) (bound : Nat) (within : level.Within bound)
    (state : State) : Shallow (finish inside level state) (bound + 3) := by
  rw [finish]
  split
  · exact fail_between_shallow .unclosedBracket level bound within state
  · exact assemble_shallow level bound within state

theorem operand_shallow (group : State → Outcome) (closed : SyntaxError.Cause) (word : Word)
    (state : State) (shallow : state.depth < maxBracketDepth →
      Shallow (group { state with depth := state.depth + 1 }) (depthLeft (state.depth + 1) + 3)) :
    Shallow (operand group closed word state) (depthLeft state.depth) := by
  rw [operand]
  split
  · rw [nested]
    split
    · exact shallow_without_tree _ _ _
    · next room =>
        have inner := shallow (Nat.lt_of_not_le room)
        have less : depthLeft (state.depth + 1) + 3 = depthLeft state.depth := by
          rw [depthLeft, depthLeft]
          omega
        rw [less] at inner
        exact inner
  · split
    · exact shallow_without_tree _ _ _
    · generalize condition word state.rest = reading
      obtain ⟨⟨cause, leaf⟩ | leaf, rest⟩ := reading <;>
      · intro tree same
        obtain rfl := Option.some.inj same
        exact Nat.zero_le _

theorem behind_operand_shallow (further : Level → State → Outcome) (inside : Bool) (level : Level)
    (bound : Nat) (within : level.Within bound) (state : State)
    (shallow : ∀ level later, level.Within bound → later.depth = state.depth →
      Shallow (further level later) (bound + 3)) :
    Shallow (behindOperand further inside level state) (bound + 3) := by
  rw [behindOperand]
  split
  · exact finish_shallow inside level bound within state
  · split
    · split
      · exact assemble_shallow level bound within _
      · exact fail_between_shallow .unexpectedClose level bound within _
    · split
      · exact fail_between_shallow _ level bound within _
      · exact shallow _ _ ⟨within.first, within.later, within.settled⟩ rfl

theorem after_operand_shallow (further : Level → State → Outcome) (inside : Bool) (level : Level)
    (bound : Nat) (within : level.Within bound) (outcome : Outcome)
    (operand : Shallow outcome bound)
    (shallow : ∀ level later, level.Within bound → later.depth = outcome.2.depth →
      Shallow (further level later) (bound + 3)) :
    Shallow (afterOperand further inside level outcome) (bound + 3) := by
  obtain ⟨error | tree, after⟩ := outcome
  · exact fail_shallow error.cause level bound within error.understood operand after
  · have pushed := level.within_push bound within tree (operand tree rfl)
    exact behind_operand_shallow further inside _ bound pushed after shallow

theorem leading_within (level : Level) (bound : Nat) (within : level.Within bound) (word : Word)
    (rest : List Word) : (leading level word rest).1.Within bound := by
  cases rest with
  | nil => exact within
  | cons next rest =>
      rw [leading]
      split
      · next leads =>
          have none := List.isEmpty_iff.mp (Bool.and_eq_true_iff.mp leads).1
          exact ⟨within.first, within.later, fun filled => absurd none filled⟩
      · exact within

/-- Inside every bracket there is room for one level of brackets less. -/
theorem group_shallow (fuel : Nat) (inside : Bool) (level : Level) (state : State)
    (within : level.Within (depthLeft state.depth)) :
    Shallow (group fuel inside level state) (depthLeft state.depth + 3) := by
  induction fuel generalizing inside level state with
  | zero => exact shallow_without_tree _ _ _
  | succ fuel induction =>
      rw [group]
      split
      · exact finish_shallow inside level _ within state
      · next word rest same =>
          have begins := leading_within level _ within word rest
          generalize leading level word rest = begun at begins
          obtain ⟨begun, first, later⟩ := begun
          have shallow := operand_shallow (group fuel true .empty) (closedEarly inside begun) first
            { state with rest := later } (fun _ => induction true .empty _ (Level.within_empty _))
          have onward := operand_onward (group fuel true .empty) (group_onward fuel true .empty)
            (closedEarly inside begun) first { state with rest := later }
          refine after_operand_shallow (group fuel inside) inside begun _ begins _ shallow ?_
          intro level later within depth
          have same : later.depth = state.depth := depth.trans onward.depth
          rw [← same] at within ⊢
          exact induction inside level later within

end Descent

namespace Tree

/-- A tree, of a query or of what was understood before an error, is nested at most three levels for
each bracket that may be open and three more. The number of open groups is counted by calls that
restore it even where they fail, so words are refused for the depth of their brackets exactly if
more groups are open at one time than the limit allows. -/
theorem depth_of_words (words : List Word) :
    (∀ tree, understood (ofWords words) = some tree →
      tree.groupDepth ≤ 3 * (maxBracketDepth + 1)) ∧
    (Descent.ofWords words).1 = ofWords words ∧
    (∀ fuel state, (Descent.nested (Descent.group fuel true .empty) state).2.depth = state.depth) ∧
    ((∃ understood, ofWords words = .error ⟨.bracketsTooDeep, understood⟩) ↔
      maxBracketDepth < Draft.start.groupNesting words) := by
  have same := Descent.of_words words
  refine ⟨?_, same, ?_, Draft.start.run_too_deep_iff (Nat.zero_le _) words⟩
  · have shallow : Descent.Shallow (Descent.ofWords words) (3 * (maxBracketDepth + 1)) := by
      rw [Descent.ofWords]
      split
      · exact Descent.shallow_without_tree _ _ _
      · exact Descent.group_shallow _ false .empty ⟨words, 0, []⟩ (Level.within_empty _)
    rw [Descent.Shallow, same] at shallow
    exact shallow
  · intro fuel state
    exact (Descent.nested_onward _ (Descent.group_onward fuel true .empty) state).depth

def adjoiningWords : List Word :=
  ["(", "not", "a", "=", "b", "and", "c", "=", "d", "or", "e", "=", "f", ")", "and", "(", "g"].map
    fun text => .plain text.toList

def adjoiningTree : Tree :=
  let leaf (field value : String) : Tree :=
    .condition ⟨.plain field.toList, some "=".toList, [.plain value.toList]⟩
  .group .and [.group .or [.group .and [.negate (leaf "a" "b"), leaf "c" "d"], leaf "e" "f"],
    .condition ⟨.plain "g".toList, none, []⟩]

theorem depth_of_words_adjoining :
    understood (ofWords adjoiningWords) = some adjoiningTree ∧
      adjoiningTree.groupDepth ≤ 3 * (maxBracketDepth + 1) ∧
      Draft.start.groupNesting adjoiningWords = 1 ∧
      ¬ ∃ understood, ofWords adjoiningWords = .error ⟨.bracketsTooDeep, understood⟩ := by
  have given : understood (ofWords adjoiningWords) = some adjoiningTree := rfl
  have nesting : Draft.start.groupNesting adjoiningWords = 1 := rfl
  obtain ⟨shallow, _, _, refused⟩ := depth_of_words adjoiningWords
  refine ⟨given, shallow adjoiningTree given, nesting, ?_⟩
  rw [refused, nesting]
  decide

end Tree

end FilterQuery
