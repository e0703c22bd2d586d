import FilterQuery.Proofs.Tree.Normal

/-!
What a query means. A tree holds or not, depending on which conditions hold; joining operands into
one tree, with groups taken apart and single trees left without a group, keeps the meaning of the
expression that the operands and connectives write.
-/

set_option autoImplicit false

namespace FilterQuery

namespace Tree

variable (given : Condition → Bool)

mutual

/-- Whether a tree holds, when the conditions hold as given. A negation says that not all of its
children hold. -/
def holds : Tree → Bool
  | .condition leaf => given leaf
  | .group .and children => allHold children
  | .group .or children => someHold children
  | .group .not children => !allHold children

def allHold : List Tree → Bool
  | [] => true
  | child :: rest => holds child && allHold rest

def someHold : List Tree → Bool
  | [] => false
  | child :: rest => holds child || someHold rest

end

@[simp]
theorem all_hold_eq_all (trees : List Tree) : allHold given trees = trees.all (holds given) := by
  induction trees with
  | nil => rfl
  | cons tree rest induction => rw [allHold, induction, List.all_cons]

@[simp]
theorem some_hold_eq_any (trees : List Tree) : someHold given trees = trees.any (holds given) := by
  induction trees with
  | nil => rfl
  | cons tree rest induction => rw [someHold, induction, List.any_cons]

@[simp] theorem holds_negate (tree : Tree) : tree.negate.holds given = !tree.holds given := by
  rw [negate, holds, all_hold_eq_all, List.all_cons, List.all_nil, Bool.and_true]

@[simp] theorem holds_negate_if (negated : Bool) (tree : Tree) :
    (negateIf negated tree).holds given = (negated ^^ tree.holds given) := by
  cases negated with
  | false => exact (Bool.false_xor _).symm
  | true => exact (holds_negate given tree).trans (Bool.true_xor _).symm

@[simp] theorem holds_collapse_and (trees : List Tree) :
    (collapse .and trees).holds given = trees.all (holds given) := by
  unfold collapse
  split
  · rw [List.all_cons, List.all_nil, Bool.and_true]
  · rw [holds, all_hold_eq_all]

@[simp] theorem holds_collapse_or (trees : List Tree) :
    (collapse .or trees).holds given = trees.any (holds given) := by
  unfold collapse
  split
  · rw [List.any_cons, List.any_nil, Bool.or_false]
  · rw [holds, some_hold_eq_any]

@[simp]
theorem holds_conjuncts (tree : Tree) : tree.conjuncts.all (holds given) = tree.holds given := by
  unfold conjuncts
  split
  · rw [holds, all_hold_eq_all]
  · rw [List.all_cons, List.all_nil, Bool.and_true]

@[simp]
theorem holds_disjuncts (tree : Tree) : tree.disjuncts.any (holds given) = tree.holds given := by
  unfold disjuncts
  split
  · rw [holds, some_hold_eq_any]
  · rw [List.any_cons, List.any_nil, Bool.or_false]

@[simp] theorem holds_conjoin (trees : List Tree) :
    (conjoin trees).holds given = trees.all (holds given) := by
  rw [conjoin, holds_collapse_and, List.all_flatMap]
  simp only [holds_conjuncts]

@[simp] theorem holds_disjoin (trees : List Tree) :
    (disjoin trees).holds given = trees.any (holds given) := by
  rw [disjoin, holds_collapse_or, List.any_flatMap]
  simp only [holds_disjuncts]

theorem holds_of_chain (first : Tree) (chain : List (Connective × Tree)) :
    (ofChain first chain).holds given =
      (splitAtOr first chain).any fun part => part.all (holds given) := by
  rw [ofChain, holds_disjoin, List.any_map]
  simp only [Function.comp_def, holds_conjoin]

end Tree

/-- An expression in which it is explicit what each connective joins. -/
inductive Expression where
  | operand (tree : Tree)
  | negation (inner : Expression)
  | conjunction (left right : Expression)
  | disjunction (left right : Expression)

namespace Expression

def holds (given : Condition → Bool) : Expression → Bool
  | .operand tree => tree.holds given
  | .negation inner => !inner.holds given
  | .conjunction left right => left.holds given && right.holds given
  | .disjunction left right => left.holds given || right.holds given

/-- The `not` of a connective negates the operand behind it and nothing else. -/
def behind (connective : Connective) (operand : Tree) : Expression :=
  if connective.negated then .negation (.operand operand) else .operand operand

/-- How a chain of operands with `and` between them is read. -/
inductive Conjoined : Expression → List (Connective × Tree) → Expression → Prop
  | single (first : Expression) : Conjoined first [] first
  | and (first left right : Expression) (before after : List (Connective × Tree))
      (connective : Connective) (operand : Tree) : connective.junction = .and →
      Conjoined first before left → Conjoined (behind connective operand) after right →
        Conjoined first (before ++ (connective, operand) :: after) (.conjunction left right)

/-- How a chain of operands is read. Since `and` binds tighter than `or`, what an `or` joins are
chains, and what an `and` joins are chains without `or`. -/
inductive Written : Expression → List (Connective × Tree) → Expression → Prop
  | conjoined (first whole : Expression) (chain : List (Connective × Tree)) :
      Conjoined first chain whole → Written first chain whole
  | or (first left right : Expression) (before after : List (Connective × Tree))
      (connective : Connective) (operand : Tree) : connective.junction = .or →
      Written first before left → Written (behind connective operand) after right →
        Written first (before ++ (connective, operand) :: after) (.disjunction left right)

theorem holds_behind (given : Condition → Bool) (connective : Connective) (operand : Tree) :
    (behind connective operand).holds given =
      (Tree.negateIf connective.negated operand).holds given := by
  rw [Tree.holds_negate_if, behind]
  cases connective.negated with
  | false => exact (Bool.false_xor _).symm
  | true => exact (Bool.true_xor _).symm

theorem written_behind_and (first : Expression) (connective : Connective) (operand : Tree)
    (and : connective.junction = .and) (chain : List (Connective × Tree)) (next whole : Expression)
    (same : next = behind connective operand) (written : Written next chain whole) :
    ∃ longer, Written first ((connective, operand) :: chain) longer := by
  -- An `or` farther behind keeps what stands behind it; only what stands in front becomes longer.
  induction written with
  | conjoined next whole chain conjoined =>
      subst same
      exact ⟨_, .conjoined _ _ _
        (.and first first whole [] chain connective operand and (.single first) conjoined)⟩
  | or next left right before after joint other or _ later front _ =>
      obtain ⟨longer, written⟩ := front same
      exact ⟨_, .or first longer right ((connective, operand) :: before) after joint other or
        written later⟩

theorem exists_written (first : Expression) (chain : List (Connective × Tree)) :
    ∃ whole, Written first chain whole := by
  induction chain generalizing first with
  | nil => exact ⟨first, .conjoined first first [] (.single first)⟩
  | cons link chain induction =>
      obtain ⟨connective, operand⟩ := link
      obtain ⟨later, written⟩ := induction (behind connective operand)
      cases junction : connective.junction with
      | and => exact written_behind_and first connective operand junction chain _ later rfl written
      | or =>
          exact ⟨_, .or first first later [] chain connective operand junction
            (.conjoined first first [] (.single first)) written⟩

end Expression

namespace Tree

theorem chain_operands_append (first : Tree) (before after : List (Connective × Tree))
    (connective : Connective) (operand : Tree) :
    chainOperands first (before ++ (connective, operand) :: after) =
      chainOperands first before ++ chainOperands (negateIf connective.negated operand) after := by
  unfold chainOperands
  rw [List.map_append, List.map_cons, List.cons_append]

theorem split_at_or_conjoined (first : Tree) (chain : List (Connective × Tree))
    (only : ∀ link ∈ chain, link.1.junction = .and) :
    splitAtOr first chain = [chainOperands first chain] := by
  induction chain generalizing first with
  | nil => rfl
  | cons link chain induction =>
      have here : link.1.junction = .and := only link (by simp)
      have later := induction (negateIf link.1.negated link.2) fun other member =>
        only other (List.mem_cons_of_mem link member)
      rw [splitAtOr, here, later]
      rfl

end Tree

namespace Expression

variable (given : Condition → Bool)

theorem only_and_of_conjoined (first whole : Expression) (chain : List (Connective × Tree))
    (conjoined : Conjoined first chain whole) : ∀ link ∈ chain, link.1.junction = .and := by
  induction conjoined with
  | single first => exact List.forall_mem_nil _
  | and first left right before after connective operand and _ _ front back =>
      intro link member
      rcases List.mem_append.mp member with earlier | later
      · exact front link earlier
      · rcases List.mem_cons.mp later with rfl | behind
        · exact and
        · exact back link behind

theorem holds_of_conjoined (first whole : Expression) (chain : List (Connective × Tree))
    (conjoined : Conjoined first chain whole) (tree : Tree)
    (same : tree.holds given = first.holds given) :
    (Tree.chainOperands tree chain).all (Tree.holds given) = whole.holds given := by
  induction conjoined generalizing tree with
  | single first =>
      unfold Tree.chainOperands
      rw [List.map_nil, List.all_cons, List.all_nil, Bool.and_true, same]
  | and first left right before after connective operand _ _ _ front back =>
      have right := back _ (holds_behind given connective operand).symm
      rw [Tree.chain_operands_append, List.all_append, front tree same, right, holds]

theorem holds_of_written (first whole : Expression) (chain : List (Connective × Tree))
    (written : Written first chain whole) (tree : Tree)
    (same : tree.holds given = first.holds given) :
    (Tree.ofChain tree chain).holds given = whole.holds given := by
  -- Behind an `or` the first tree is a negated operand, so it may be any tree that holds likewise.
  induction written generalizing tree with
  | conjoined first whole chain conjoined =>
      have only := only_and_of_conjoined first whole chain conjoined
      rw [Tree.holds_of_chain, Tree.split_at_or_conjoined tree chain only, List.any_cons,
        List.any_nil, Bool.or_false]
      exact holds_of_conjoined given first whole chain conjoined tree same
  | or first left right before after connective operand or _ _ front back =>
      obtain ⟨junction, negated⟩ := connective
      obtain rfl : junction = .or := or
      have left := front tree same
      have right := back _ (holds_behind given ⟨.or, negated⟩ operand).symm
      rw [Tree.holds_of_chain] at left right ⊢
      rw [Tree.split_at_or_append, List.any_append, left, right, holds]

end Expression

/-- Any number of operands with one connective fewer make a tree, and it means what they write. -/
theorem Tree.assembled_meaning (first : Tree) (rest : List Tree) (connectives : List Connective)
    (count : rest.length = connectives.length) :
    ∃ tree, assemble (first :: rest) connectives = .ok tree ∧
      (∃ whole, Expression.Written (.operand first) (connectives.zip rest) whole) ∧
      ∀ whole, Expression.Written (.operand first) (connectives.zip rest) whole →
        ∀ given, tree.holds given = whole.holds given := by
  refine ⟨ofChain first (connectives.zip rest), if_pos count, Expression.exists_written _ _, ?_⟩
  intro whole written given
  exact Expression.holds_of_written given _ whole _ written first rfl

namespace Tree

def leaf (name : Char) : Tree := .condition ⟨.plain [name], some ['='], [.plain ['1']]⟩

def mixedOperands : List Tree := [leaf 'b', .group .and []]

def mixedConnectives : List Connective := [⟨.or, true⟩, ⟨.and, false⟩]

/-- The disjunction is taken apart, and of the conjunction nothing remains. -/
def mixedTree : Tree := .group .or [leaf 'a', leaf 'a', (leaf 'b').negate]

theorem assembled_meaning_mixed :
    mixedOperands.length = mixedConnectives.length ∧
      assemble (.group .or [leaf 'a', leaf 'a'] :: mixedOperands) mixedConnectives =
        .ok mixedTree ∧
      ∀ given, mixedTree.holds given = (Expression.disjunction
        (.operand (.group .or [leaf 'a', leaf 'a']))
        (.conjunction (.negation (.operand (leaf 'b')))
          (.operand (.group .and [])))).holds given := by
  obtain ⟨tree, assembled, _, meaning⟩ :=
    assembled_meaning (.group .or [leaf 'a', leaf 'a']) mixedOperands mixedConnectives rfl
  obtain rfl : mixedTree = tree := Except.ok.inj assembled
  refine ⟨rfl, assembled, meaning _ ?_⟩
  apply Expression.Written.or _ _ _ [] [(⟨.and, false⟩, .group .and [])] ⟨.or, true⟩ (leaf 'b') rfl
  · exact .conjoined _ _ _ (.single _)
  · apply Expression.Written.conjoined
    exact .and _ _ _ [] [] ⟨.and, false⟩ (.group .and []) rfl (.single _) (.single _)

end Tree

end FilterQuery
