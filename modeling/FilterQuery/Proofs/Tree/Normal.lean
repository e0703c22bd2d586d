import FilterQuery.Tree.Assemble
import Mathlib

/-!
The grouping that reading a query produces. A tree is normal when a negation has one operand, a
conjunction or a disjunction has two or more, and neither stands directly inside its own kind.
A chain of normal operands becomes a normal tree with the conditions of the operands in order.
-/

set_option autoImplicit false

namespace FilterQuery.Tree

theorem exists_two (children : List Tree) (count : 2 ≤ children.length) :
    ∃ first second rest, children = first :: second :: rest := by
  cases children with
  | nil => contradiction
  | cons first later =>
      cases later with
      | nil => contradiction
      | cons second rest => exact ⟨first, second, rest, rfl⟩

/-- What holds of a group whenever it holds of its children holds of every tree. -/
theorem induct {motive : Tree → Prop} (condition : ∀ leaf, motive (.condition leaf))
    (group : ∀ operation children, (∀ child ∈ children, motive child) →
      motive (.group operation children)) : ∀ tree, motive tree
  | .condition leaf => condition leaf
  | .group operation children =>
      group operation children fun child _ => induct condition group child

def operation? : Tree → Option Operation
  | .condition _ => none
  | .group operation _ => some operation

inductive Normal : Tree → Prop
  | condition (leaf : Condition) : Normal (.condition leaf)
  | not (child : Tree) : Normal child → Normal (.group .not [child])
  | group (operation : Operation) (children : List Tree) : operation ≠ .not →
      2 ≤ children.length → (∀ child ∈ children, child.operation? ≠ some operation) →
      (∀ child ∈ children, Normal child) → Normal (.group operation children)

theorem parts_of_normal_group (operation : Operation) (joins : operation ≠ .not)
    (children : List Tree) (normal : (group operation children).Normal) :
    2 ≤ children.length ∧ (∀ child ∈ children, child.operation? ≠ some operation) ∧
      ∀ child ∈ children, child.Normal := by
  cases normal with
  | not child => contradiction
  | group _ _ _ count separate normals => exact ⟨count, separate, normals⟩

/-- The trees that an outermost group of the operation joins. -/
def members (operation : Operation) : Tree → List Tree
  | .condition leaf => [.condition leaf]
  | .group outer children =>
      if outer = operation then children else [.group outer children]

theorem conjuncts_eq_members (tree : Tree) : tree.conjuncts = tree.members .and := by
  cases tree with
  | condition leaf => rfl
  | group operation children => cases operation <;> rfl

theorem disjuncts_eq_members (tree : Tree) : tree.disjuncts = tree.members .or := by
  cases tree with
  | condition leaf => rfl
  | group operation children => cases operation <;> rfl

theorem members_of_other_operation (operation : Operation) (tree : Tree)
    (other : tree.operation? ≠ some operation) : tree.members operation = [tree] := by
  cases tree with
  | condition leaf => rfl
  | group outer children =>
      have different : outer ≠ operation := by
        intro same
        exact other (by rw [same]; rfl)
      simp only [members, if_neg different]

theorem members_nonempty (operation : Operation) (tree : Tree) (normal : tree.Normal) :
    tree.members operation ≠ [] := by
  cases normal with
  | condition leaf => simp [members]
  | not child => simp only [members]; split <;> simp
  | group outer children _ count =>
      simp only [members]
      split
      · intro empty
        rw [empty] at count
        contradiction
      · simp

theorem normal_of_member (operation : Operation) (joins : operation ≠ .not) (tree : Tree)
    (normal : tree.Normal) :
    ∀ member ∈ tree.members operation, member.Normal ∧ member.operation? ≠ some operation := by
  intro member contained
  by_cases same : tree.operation? = some operation
  · cases normal with
    | condition leaf => cases same
    | not child => exact absurd (Option.some.inj same).symm joins
    | group outer children _ _ separate normals =>
        obtain rfl : outer = operation := Option.some.inj same
        simp only [members, if_true] at contained
        exact ⟨normals member contained, separate member contained⟩
  · rw [members_of_other_operation operation tree same] at contained
    obtain rfl := List.mem_singleton.mp contained
    exact ⟨normal, same⟩

theorem normal_collapse (operation : Operation) (joins : operation ≠ .not) (trees : List Tree)
    (nonempty : trees ≠ [])
    (parts : ∀ tree ∈ trees, tree.Normal ∧ tree.operation? ≠ some operation) :
    (collapse operation trees).Normal := by
  match trees with
  | [] => contradiction
  | [tree] => exact (parts tree (by simp)).1
  | first :: second :: rest =>
      apply Normal.group operation _ joins (by simp)
      · intro child member
        exact (parts child member).2
      · intro child member
        exact (parts child member).1

theorem normal_collapse_members (operation : Operation) (joins : operation ≠ .not)
    (trees : List Tree) (nonempty : trees ≠ []) (normal : ∀ tree ∈ trees, tree.Normal) :
    (collapse operation (trees.flatMap (members operation))).Normal := by
  apply normal_collapse operation joins
  · obtain ⟨first, rest, rfl⟩ := List.exists_cons_of_ne_nil nonempty
    intro empty
    rw [List.flatMap_cons, List.append_eq_nil_iff] at empty
    exact members_nonempty operation first (normal first (by simp)) empty.1
  · intro member contained
    obtain ⟨tree, listed, part⟩ := List.mem_flatMap.mp contained
    exact normal_of_member operation joins tree (normal tree listed) member part

theorem normal_conjoin (trees : List Tree) (nonempty : trees ≠ [])
    (normal : ∀ tree ∈ trees, tree.Normal) : (conjoin trees).Normal := by
  rw [conjoin, funext conjuncts_eq_members]
  exact normal_collapse_members .and (by simp) trees nonempty normal

theorem normal_disjoin (trees : List Tree) (nonempty : trees ≠ [])
    (normal : ∀ tree ∈ trees, tree.Normal) : (disjoin trees).Normal := by
  rw [disjoin, funext disjuncts_eq_members]
  exact normal_collapse_members .or (by simp) trees nonempty normal

theorem normal_negate_if (negated : Bool) (tree : Tree) (normal : tree.Normal) :
    (negateIf negated tree).Normal := by
  cases negated with
  | false => exact normal
  | true => exact Normal.not tree normal

@[simp] theorem conditions_negate_if (negated : Bool) (tree : Tree) :
    (negateIf negated tree).conditions = tree.conditions := by
  cases negated with
  | false => rfl
  | true => simp [negateIf, negate]

/-- The operands of a chain with their negations. -/
def chainOperands (first : Tree) (chain : List (Connective × Tree)) : List Tree :=
  first :: chain.map fun (connective, operand) => negateIf connective.negated operand

@[simp] theorem flatten_split_at_or (first : Tree) (chain : List (Connective × Tree)) :
    (splitAtOr first chain).flatten = chainOperands first chain := by
  induction chain generalizing first with
  | nil => rfl
  | cons link rest induction =>
      obtain ⟨⟨junction, negated⟩, operand⟩ := link
      have later := induction (negateIf negated operand)
      rw [splitAtOr]
      dsimp only
      split
      · next conjunction further same =>
          rw [same, List.flatten_cons] at later
          rw [List.flatten_cons, List.cons_append, later]
          rfl
      · rw [List.flatten_cons, later]
        rfl

theorem split_at_or_parts_nonempty (first : Tree) (chain : List (Connective × Tree)) :
    splitAtOr first chain ≠ [] ∧ ∀ part ∈ splitAtOr first chain, part ≠ [] := by
  induction chain generalizing first with
  | nil => simp [splitAtOr]
  | cons link rest induction =>
      obtain ⟨⟨junction, negated⟩, operand⟩ := link
      have later := (induction (negateIf negated operand)).2
      rw [splitAtOr]
      dsimp only
      split
      · next conjunction further same =>
          rw [same] at later
          simp only [ne_eq, reduceCtorEq, not_false_eq_true, List.mem_cons, true_and]
          rintro part (rfl | member)
          · simp
          · exact later part (List.mem_cons_of_mem _ member)
      · simp only [ne_eq, reduceCtorEq, not_false_eq_true, List.mem_cons, true_and]
        rintro part (rfl | member)
        · simp
        · exact later part member

theorem split_at_or_append (first : Tree) (chain : List (Connective × Tree)) (negated : Bool)
    (operand : Tree) (rest : List (Connective × Tree)) :
    splitAtOr first (chain ++ (⟨.or, negated⟩, operand) :: rest) =
      splitAtOr first chain ++ splitAtOr (negateIf negated operand) rest := by
  induction chain generalizing first with
  | nil => rfl
  | cons link chain induction =>
      obtain ⟨connective, next⟩ := link
      obtain ⟨conjunction, further, same⟩ := List.exists_cons_of_ne_nil
        (split_at_or_parts_nonempty (negateIf connective.negated next) chain).1
      rw [List.cons_append, splitAtOr, splitAtOr, induction, same, List.cons_append]
      cases connective.junction <;> rfl

theorem normal_of_chain (first : Tree) (chain : List (Connective × Tree))
    (normal : ∀ operand ∈ chainOperands first chain, operand.Normal) :
    (ofChain first chain).Normal := by
  have parts := split_at_or_parts_nonempty first chain
  rw [← flatten_split_at_or] at normal
  apply normal_disjoin
  · simpa using parts.1
  · intro conjunction member
    obtain ⟨part, listed, rfl⟩ := List.mem_map.mp member
    apply normal_conjoin part (parts.2 part listed)
    intro operand contained
    exact normal operand (List.mem_flatten.mpr ⟨part, listed, contained⟩)

theorem conditions_of_chain (first : Tree) (chain : List (Connective × Tree)) :
    (ofChain first chain).conditions =
      first.conditions ++ chain.flatMap fun link => link.2.conditions := by
  calc
    (ofChain first chain).conditions =
        (splitAtOr first chain).flatten.flatMap conditions := by
      rw [ofChain, conditions_disjoin, List.flatMap_map, ← List.flatMap_id, List.flatMap_assoc]
      simp only [conditions_conjoin, id]
    _ = first.conditions ++ chain.flatMap fun link => link.2.conditions := by
      rw [flatten_split_at_or, chainOperands, List.flatMap_cons, List.flatMap_map]
      simp only [conditions_negate_if]

theorem collapse_members (operation : Operation) (joins : operation ≠ .not) (tree : Tree)
    (normal : tree.Normal) : collapse operation (tree.members operation) = tree := by
  by_cases same : tree.operation? = some operation
  · cases normal with
    | condition leaf => rfl
    | not child => exact absurd (Option.some.inj same).symm joins
    | group outer children _ count =>
        obtain rfl : outer = operation := Option.some.inj same
        obtain ⟨first, second, rest, rfl⟩ := exists_two children count
        simp [members, collapse]
  · rw [members_of_other_operation operation tree same]
    rfl

theorem collapse_flat_map_members (operation : Operation) (children : List Tree)
    (count : 2 ≤ children.length)
    (separate : ∀ child ∈ children, child.operation? ≠ some operation) :
    collapse operation (children.flatMap (members operation)) = group operation children := by
  have apart : children.flatMap (members operation) = children := by
    rw [List.flatMap_congr fun child member =>
      members_of_other_operation operation child (separate child member)]
    exact List.flatMap_singleton' children
  rw [apart]
  obtain ⟨first, second, rest, rfl⟩ := exists_two children count
  rfl

theorem conjoin_singleton (tree : Tree) (normal : tree.Normal) : conjoin [tree] = tree := by
  rw [conjoin, funext conjuncts_eq_members, List.flatMap_singleton]
  exact collapse_members .and (by simp) tree normal

theorem disjoin_singleton (tree : Tree) (normal : tree.Normal) : disjoin [tree] = tree := by
  rw [disjoin, funext disjuncts_eq_members, List.flatMap_singleton]
  exact collapse_members .or (by simp) tree normal

theorem of_chain_single (tree : Tree) (normal : tree.Normal) : ofChain tree [] = tree := by
  rw [ofChain, splitAtOr, List.map_singleton, conjoin_singleton tree normal,
    disjoin_singleton tree normal]

/-- Whether an operand is written behind `not`. -/
def isNegation : Tree → Bool
  | .group .not [_] => true
  | _ => false

/-- What is written behind the `not` of an operand, if it has one. -/
def operand : Tree → Tree
  | .group .not [child] => child
  | tree => tree

@[simp] theorem negate_if_operand (tree : Tree) : negateIf tree.isNegation tree.operand = tree := by
  match tree with
  | .condition leaf => rfl
  | .group .and children => rfl
  | .group .or children => rfl
  | .group .not [] => rfl
  | .group .not [child] => rfl
  | .group .not (first :: second :: rest) => rfl

end FilterQuery.Tree

namespace FilterQuery

def Junction.operation : Junction → Operation
  | .and => .and
  | .or => .or

theorem Operation.exists_junction (operation : Operation) (joins : operation ≠ .not) :
    ∃ junction : Junction, junction.operation = operation := by
  cases operation with
  | and => exact ⟨.and, rfl⟩
  | or => exact ⟨.or, rfl⟩
  | not => contradiction

namespace Tree

def link (junction : Junction) (tree : Tree) : Connective × Tree :=
  (⟨junction, tree.isNegation⟩, tree.operand)

theorem split_at_or_links (junction : Junction) (first : Tree) (later : List Tree) :
    splitAtOr first (later.map (link junction)) =
      match junction with
      | .and => [first :: later]
      | .or => (first :: later).map fun tree => [tree] := by
  induction later generalizing first with
  | nil => cases junction <;> rfl
  | cons second later induction =>
      have next := induction second
      rw [List.map_cons, link, splitAtOr, negate_if_operand]
      cases junction with
      | and => rw [next]
      | or => rw [next]; rfl

theorem of_chain_links (junction : Junction) (first : Tree) (later : List Tree)
    (normal : (group junction.operation (first :: later)).Normal) :
    ofChain first (later.map (link junction)) = group junction.operation (first :: later) := by
  rw [ofChain, split_at_or_links]
  cases junction with
  | and =>
      obtain ⟨count, separate, _⟩ := parts_of_normal_group .and (by simp) _ normal
      have joined : conjoin (first :: later) = group .and (first :: later) := by
        rw [conjoin, funext conjuncts_eq_members]
        exact collapse_flat_map_members .and _ count separate
      simp only [List.map_singleton, joined]
      exact disjoin_singleton _ normal
  | or =>
      obtain ⟨count, separate, normals⟩ := parts_of_normal_group .or (by simp) _ normal
      have alone : ((first :: later).map fun tree => [tree]).map conjoin = first :: later := by
        rw [List.map_map]
        refine (List.map_congr_left ?_).trans (List.map_id _)
        intro tree member
        exact conjoin_singleton tree (normals tree member)
      simp only [alone]
      rw [disjoin, funext disjuncts_eq_members]
      exact collapse_flat_map_members .or _ count separate

end Tree

end FilterQuery
