import FilterQuery.Proofs.Draft.Context
import FilterQuery.Proofs.Draft.Outcome

/-!
Reading is compositional. Queries that are bracketed, negated or joined are read as the trees of the
parts, bracketed, negated or joined: no part changes how its neighbour is read.
-/

set_option autoImplicit false

namespace FilterQuery

def Word.Token (text : Text) : Type := { word : Word // word.isToken text = true }

structure Brackets where
  opening : Word.Token "(".toList
  closing : Word.Token ")".toList

def Brackets.around (brackets : Brackets) (words : List Word) : List Word :=
  brackets.opening.val :: (words ++ [brackets.closing.val])

namespace Tree

theorem members_collapse (operation : Operation) (trees : List Tree) (nonempty : trees ≠ [])
    (separate : ∀ tree ∈ trees, tree.operation? ≠ some operation) :
    (collapse operation trees).members operation = trees := by
  match trees with
  | [] => contradiction
  | [tree] => exact members_of_other_operation operation tree (separate tree (by simp))
  | first :: second :: rest => exact if_pos rfl

theorem collapse_two (operation : Operation) (left right : Tree) (leftNormal : left.Normal)
    (rightNormal : right.Normal) :
    collapse operation (left.members operation ++ right.members operation) =
      group operation (left.members operation ++ right.members operation) := by
  obtain ⟨first, lefts, same⟩ :=
    List.exists_cons_of_ne_nil (members_nonempty operation left leftNormal)
  obtain ⟨second, rights, other⟩ :=
    List.exists_cons_of_ne_nil (members_nonempty operation right rightNormal)
  rw [same, other]
  cases lefts <;> rfl

theorem disjuncts_of_chain (first : Tree) (chain : List (Connective × Tree))
    (normal : ∀ operand ∈ chainOperands first chain, operand.Normal) :
    (ofChain first chain).disjuncts =
      ((splitAtOr first chain).map conjoin).flatMap disjuncts := by
  have parts := split_at_or_parts_nonempty first chain
  rw [← flatten_split_at_or] at normal
  have conjunctions : ∀ tree ∈ (splitAtOr first chain).map conjoin, tree.Normal := by
    intro tree member
    obtain ⟨part, listed, rfl⟩ := List.mem_map.mp member
    apply normal_conjoin part (parts.2 part listed)
    intro operand contained
    exact normal operand (List.mem_flatten.mpr ⟨part, listed, contained⟩)
  rw [ofChain, disjoin, disjuncts_eq_members, funext disjuncts_eq_members]
  apply members_collapse
  · obtain ⟨conjunction, further, same⟩ := List.exists_cons_of_ne_nil parts.1
    rw [same] at conjunctions ⊢
    intro empty
    rw [List.map_cons, List.flatMap_cons, List.append_eq_nil_iff] at empty
    exact members_nonempty .or _ (conjunctions _ (by simp)) empty.1
  · intro member contained
    obtain ⟨tree, listed, part⟩ := List.mem_flatMap.mp contained
    exact (normal_of_member .or (by simp) tree (conjunctions tree listed) member part).2

theorem of_chain_append (first : Tree) (chain : List (Connective × Tree)) (negated : Bool)
    (operand : Tree) (rest : List (Connective × Tree))
    (normal : ∀ tree ∈ chainOperands first chain, tree.Normal)
    (later : ∀ tree ∈ chainOperands (negateIf negated operand) rest, tree.Normal) :
    ofChain first (chain ++ (⟨.or, negated⟩, operand) :: rest) =
      group .or ((ofChain first chain).disjuncts ++
        (ofChain (negateIf negated operand) rest).disjuncts) := by
  have whole : ofChain first (chain ++ (⟨.or, negated⟩, operand) :: rest) =
      collapse .or ((ofChain first chain).disjuncts ++
        (ofChain (negateIf negated operand) rest).disjuncts) := by
    rw [disjuncts_of_chain first chain normal, disjuncts_of_chain _ rest later, ofChain, disjoin,
      split_at_or_append, List.map_append, List.flatMap_append]
  rw [whole, disjuncts_eq_members, disjuncts_eq_members]
  exact collapse_two .or _ _ (normal_of_chain first chain normal) (normal_of_chain _ rest later)

theorem of_chain_and (left right : Tree) (leftNormal : left.Normal) (rightNormal : right.Normal) :
    ofChain left [(⟨.and, false⟩, right)] = group .and (left.conjuncts ++ right.conjuncts) := by
  have joined : conjoin [left, right] = group .and (left.conjuncts ++ right.conjuncts) := by
    rw [conjoin, List.flatMap_cons, List.flatMap_singleton, conjuncts_eq_members,
      conjuncts_eq_members]
    exact collapse_two .and left right leftNormal rightNormal
  change disjoin [conjoin [left, right]] = _
  rw [← joined]
  apply disjoin_singleton
  apply normal_conjoin [left, right] (by simp)
  simpa using ⟨leftNormal, rightNormal⟩

end Tree

namespace Draft

/-- Where an operand may be negated, a `not` in front of the operand, and the words from the operand
on. -/
inductive Leads : List Word → Bool → List Word → Prop
  | plain (word : Word) (rest : List Word) : word.isToken "not".toList = false →
      Leads (word :: rest) false (word :: rest)
  | negated (not word : Word) (rest : List Word) : not.isToken "not".toList = true →
      Leads (not :: word :: rest) true (word :: rest)

theorem leads_of_accepted (words : List Word) (tree : Tree)
    (accepted : start.run words = .ok tree) :
    ∃ negated operands, Leads words negated operands ∧
      runOperand ⟨[], ⟨[], [], negated⟩, .operand⟩ operands = .ok tree := by
  cases words with
  | nil => cases accepted
  | cons word rest =>
      rw [run_cons] at accepted
      change (if word.isToken "not".toList then _ else _) >>= _ = _ at accepted
      split at accepted
      · next not =>
          cases rest with
          | nil => cases accepted
          | cons next rest =>
              change (start.toPhase (.leadingNot word)).run (next :: rest) = _ at accepted
              rw [run_cons] at accepted
              exact ⟨true, next :: rest, .negated word next rest not, accepted⟩
      · next other =>
          have plain := Bool.eq_false_iff.mpr other
          exact ⟨false, word :: rest, .plain word rest plain, accepted⟩

section Leads

variable (words operands : List Word) (negated : Bool) (leads : Leads words negated operands)

include leads

theorem run_leading (outer : List Level) (rest : List Word) :
    run ⟨outer, .empty, .operand⟩ (words ++ rest) =
      runOperand ⟨outer, ⟨[], [], negated⟩, .operand⟩ (operands ++ rest) := by
  cases leads with
  | plain word later plain =>
      rw [List.cons_append, run_cons]
      change (if word.isToken "not".toList then _ else _) >>= _ = _
      rw [plain, if_neg Bool.false_ne_true]
      rfl
  | negated not word later is =>
      rw [List.cons_append, run_cons]
      change (if not.isToken "not".toList then _ else _) >>= _ = _
      rw [if_pos is]
      exact run_cons _ word (later ++ rest)

theorem run_behind_connective (outer : List Level) (level : Level) (junction : Junction)
    (rest : List Word) :
    run ⟨outer, level, .afterConnective ⟨junction, false⟩⟩ (words ++ rest) =
      runOperand ⟨outer, { level with connectives := level.connectives ++ [⟨junction, negated⟩] },
        .operand⟩ (operands ++ rest) := by
  cases leads with
  | plain word later plain =>
      rw [List.cons_append, run_cons]
      change readAfterConnective _ _ word >>= _ = _
      rw [readAfterConnective, plain, if_neg (by simp)]
      rfl
  | negated not word later is =>
      rw [List.cons_append, run_cons]
      change readAfterConnective _ _ not >>= _ = _
      rw [readAfterConnective, is]
      exact run_cons _ word (later ++ rest)

theorem nesting_leading (opened : Nat) :
    Word.nesting opened words = Word.nesting opened operands := by
  cases leads with
  | plain => rfl
  | negated not word later is =>
      rw [Word.nesting, not.open_behind_token opened _ is (by decide)]
      exact Nat.max_eq_right (Word.le_nesting opened _)

theorem open_behind_leading (opened : Nat) :
    Word.openBehindAll words opened = Word.openBehindAll operands opened := by
  cases leads with
  | plain => rfl
  | negated not word later is =>
      rw [Word.openBehindAll, List.foldl_cons, not.open_behind_token opened _ is (by decide)]
      rfl

end Leads

theorem carries_eq : Carries Eq := by
  constructor
  · rintro level _ operand rfl
    rfl
  · rintro level _ connective rfl
    rfl

theorem leads_brackets (brackets : Brackets) (words : List Word) :
    Leads (brackets.around words) false (brackets.around words) :=
  .plain _ _ (brackets.opening.val.is_other_token _ _ brackets.opening.property (by decide))

theorem run_brackets (brackets : Brackets) (words : List Word) (tree : Tree)
    (accepted : start.run words = .ok tree) (draft : Draft)
    (fits : Word.nesting draft.outer.length (brackets.around words) ≤ maxBracketDepth) :
    Word.openBehindAll (brackets.around words) draft.outer.length = draft.outer.length ∧
      ∀ rest, draft.runOperand (brackets.around words ++ rest) = (draft.push tree).run rest := by
  obtain ⟨opening, closing⟩ := brackets
  obtain ⟨negated, operands, leads, accepted⟩ := leads_of_accepted words tree accepted
  have inner : Word.nesting (draft.outer.length + 1) operands ≤ maxBracketDepth := by
    rw [Brackets.around, Word.nesting, opening.val.open_behind_opening _ opening.property,
      Word.nesting_append, nesting_leading words operands negated leads] at fits
    omega
  have room : ¬ maxBracketDepth ≤ draft.outer.length := by
    have bound := (Word.le_nesting _ operands).trans inner
    omega
  obtain ⟨final, reached, reads⟩ : ∃ final reached, ReadsWithin Eq (draft.level :: draft.outer)
      ⟨[], [], negated⟩ operands tree final reached :=
    reads_within carries_eq _ _ rfl ⟨List.forall_mem_nil _, rfl⟩ operands tree accepted (.inr inner)
  obtain rfl : final = reached := reads.related
  constructor
  · have inside := reads.brackets
    rw [← open_behind_leading words operands negated leads] at inside
    rw [Brackets.around, Word.openBehindAll, List.foldl_cons, List.foldl_append,
      opening.val.open_behind_opening _ opening.property]
    change closing.val.openBehind (Word.openBehindAll words (draft.level :: draft.outer).length) = _
    rw [inside, closing.val.open_behind_closing _ closing.property]
    rfl
  · intro rest
    have behind := ends_token closing.val _ closing.property (by decide) rest
    have closes := read_of_move _ closing.val _
      (Move.closing draft.outer draft.level final tree closing.val reads.assembled closing.property)
    rw [Brackets.around, List.cons_append, List.append_assoc, List.singleton_append, runOperand,
      readOperand, if_pos opening.property, if_neg room]
    change run _ (words ++ closing.val :: rest) = _
    rw [run_leading words operands negated leads, reads.runs _ behind,
      run_of_read _ _ _ _ closes]
    rfl

/-- A level that is read as it is, where the first operand takes the leading `not`. -/
def Spent (level other : Level) : Prop :=
  level = other ∧ (level.operands = [] ∨ level.negated = false)

theorem carries_spent : Carries Spent := by
  constructor
  · rintro level _ operand ⟨rfl, _⟩
    exact ⟨rfl, .inr rfl⟩
  · rintro level _ connective ⟨rfl, spent⟩
    exact ⟨rfl, spent⟩

/-- A level, and the level it is read as behind other operands and an `or`. The connective has the
`not` of the first operand. -/
inductive Continues (before : Level) (negated : Bool) : Level → Level → Prop
  | first (connectives : List Connective) : Continues before negated ⟨[], connectives, negated⟩
      ⟨before.operands, before.connectives ++ ⟨.or, negated⟩ :: connectives, false⟩
  | further (operand : Tree) (operands : List Tree) (connectives : List Connective) :
      Continues before negated ⟨Tree.negateIf negated operand :: operands, connectives, false⟩
        ⟨before.operands ++ operand :: operands,
          before.connectives ++ ⟨.or, negated⟩ :: connectives, false⟩

theorem carries_continues (before : Level) (negated : Bool) :
    Carries (Continues before negated) := by
  constructor
  · intro level other operand continues
    cases continues with
    | first connectives => exact .further operand [] connectives
    | further first operands connectives =>
        rw [Level.push, Level.push, List.append_assoc]
        exact .further first (operands ++ [operand]) connectives
  · intro level other connective continues
    cases continues with
    | first connectives =>
        rw [List.append_assoc]
        exact .first (connectives ++ [connective])
    | further first operands connectives =>
        rw [List.append_assoc]
        exact .further first operands (connectives ++ [connective])

/-- Levels one behind the other make the disjunction of what each of them makes. -/
theorem assemble_continued (before final reached : Level) (negated : Bool)
    (continues : Continues before negated final reached) (left right : Tree)
    (leftRegular : before.Regular 1) (rightRegular : final.Regular 1)
    (leftAssembled : before.assemble = .ok left) (rightAssembled : final.assemble = .ok right) :
    reached.assemble = .ok (.group .or (left.disjuncts ++ right.disjuncts)) := by
  obtain ⟨operands, connectives, _⟩ := before
  have leftCount := leftRegular.count
  have rightCount := rightRegular.count
  cases continues with
  | first => contradiction
  | further operand others further =>
      cases operands with
      | nil => contradiction
      | cons first rest =>
          have leftSame : rest.length = connectives.length := Nat.succ.inj leftCount
          have rightSame : others.length = further.length := Nat.succ.inj rightCount
          obtain rfl : Tree.ofChain first (connectives.zip rest) = left :=
            Except.ok.inj ((if_pos leftSame).symm.trans leftAssembled)
          obtain rfl : Tree.ofChain (Tree.negateIf negated operand) (further.zip others) = right :=
            Except.ok.inj ((if_pos rightSame).symm.trans rightAssembled)
          have whole : (rest ++ operand :: others).length =
              (connectives ++ ⟨.or, negated⟩ :: further).length := by
            simp only [List.length_append, List.length_cons, leftSame, rightSame]
          have chain : (connectives ++ ⟨.or, negated⟩ :: further).zip (rest ++ operand :: others) =
              connectives.zip rest ++ (⟨.or, negated⟩, operand) :: further.zip others :=
            List.zip_append leftSame.symm
          refine (if_pos whole).trans (congrArg Except.ok ?_)
          change Tree.ofChain first
            ((connectives ++ ⟨.or, negated⟩ :: further).zip (rest ++ operand :: others)) = _
          rw [chain]
          exact Tree.of_chain_append first _ negated operand _
            (Level.normal_chain_operands first rest connectives leftRegular.normal)
            (Level.normal_chain_operands _ others further rightRegular.normal)

theorem run_disjunction (words later : List Word) (or : Word.Token "or".toList) (left right : Tree)
    (readsLeft : start.run words = .ok left) (readsRight : start.run later = .ok right) :
    start.run (words ++ or.val :: later) =
      .ok (.group .or (left.disjuncts ++ right.disjuncts)) := by
  obtain ⟨negated, operands, leads, accepted⟩ := leads_of_accepted words left readsLeft
  obtain ⟨laterNegated, laterOperands, laterLeads, laterAccepted⟩ :=
    leads_of_accepted later right readsRight
  obtain ⟨before, _, first⟩ : ∃ final reached, ReadsWithin Spent [] ⟨[], [], negated⟩ operands left
      final reached :=
    reads_within carries_spent _ _ ⟨rfl, .inl rfl⟩ ⟨List.forall_mem_nil _, rfl⟩ operands left
      accepted (.inl rfl)
  obtain ⟨rfl, spent⟩ := first.related
  have plain : before.negated = false := by
    refine spent.resolve_left ?_
    intro empty
    have count := first.regular.count
    rw [empty] at count
    contradiction
  obtain ⟨final, reached, second⟩ : ∃ final reached, ReadsWithin (Continues before laterNegated) []
      ⟨before.operands, before.connectives ++ [⟨.or, laterNegated⟩], false⟩ laterOperands right
      final reached :=
    reads_within (carries_continues before laterNegated) _ _ (.first [])
      ⟨List.forall_mem_nil _, rfl⟩ laterOperands right laterAccepted (.inl rfl)
  have behind := ends_token or.val _ or.property (by decide) later
  have joins := read_of_move _ or.val _ (Move.connective [] before .or or.val or.property)
  have lastly := second.runs [] ends_nil
  rw [List.append_nil] at lastly
  change run ⟨[], .empty, .operand⟩ _ = _
  rw [run_leading words operands negated leads, first.runs _ behind, run_of_read _ _ _ _ joins,
    ← List.append_nil later, run_behind_connective later laterOperands laterNegated laterLeads,
    List.append_nil, plain, lastly]
  exact assemble_continued before final reached laterNegated second.related left right first.regular
    second.regular first.assembled second.assembled

end Draft

namespace Tree

section Composition

variable (brackets : Brackets) (words : List Word) (tree : Tree)
  (accepted : ofWords words = .ok tree)

include accepted

theorem of_words_brackets
    (fits : Word.nesting 0 (brackets.around words) ≤ maxBracketDepth) :
    ofWords (brackets.around words) = .ok tree := by
  have runs := (Draft.run_brackets brackets words tree accepted .start fits).2 []
  have leading := Draft.run_leading _ _ false (Draft.leads_brackets brackets words) [] []
  rw [List.append_nil] at runs leading
  have alone := of_chain_single tree (normal_of_words words tree accepted)
  exact leading.trans (runs.trans (congrArg Except.ok alone))

theorem of_words_negation (not : Word.Token "not".toList)
    (fits : Word.nesting 0 (not.val :: brackets.around words) ≤ maxBracketDepth) :
    ofWords (not.val :: brackets.around words) = .ok tree.negate := by
  have leads : Draft.Leads (not.val :: brackets.around words) true (brackets.around words) :=
    .negated not.val _ _ not.property
  rw [Draft.nesting_leading _ _ true leads] at fits
  have runs := (Draft.run_brackets brackets words tree accepted ⟨[], ⟨[], [], true⟩, .operand⟩
    fits).2 []
  have leading := Draft.run_leading _ _ true leads [] []
  rw [List.append_nil] at runs
  rw [List.append_nil, List.append_nil] at leading
  have alone := of_chain_single tree.negate (.not tree (normal_of_words words tree accepted))
  exact leading.trans (runs.trans (congrArg Except.ok alone))

theorem of_words_conjunction (later : List Word) (other : Tree)
    (acceptedLater : ofWords later = .ok other) (others : Brackets)
    (and : Word.Token "and".toList)
    (fits : Word.nesting 0 (brackets.around words ++ and.val :: others.around later) ≤
      maxBracketDepth) :
    ofWords (brackets.around words ++ and.val :: others.around later) =
      .ok (.group .and (tree.conjuncts ++ other.conjuncts)) := by
  rw [Word.nesting_append, Nat.max_le] at fits
  obtain ⟨balanced, runs⟩ := Draft.run_brackets brackets words tree accepted .start fits.1
  have leading := Draft.run_leading _ _ false (Draft.leads_brackets brackets words) []
    (and.val :: others.around later)
  have inner : Word.nesting 0 (others.around later) ≤ maxBracketDepth := by
    have behind := fits.2
    rw [show Word.openBehindAll (brackets.around words) 0 = 0 from balanced, Word.nesting,
      and.val.open_behind_token 0 _ and.property (by decide)] at behind
    exact (Nat.le_max_right _ _).trans behind
  have joins := Draft.read_of_move _ and.val _
    (Draft.Move.connective [] (Level.empty.push tree) .and and.val and.property)
  have second := (Draft.run_brackets others later other acceptedLater
    ⟨[], ⟨[tree], [⟨.and, false⟩], false⟩, .operand⟩ inner).2 []
  have between := Draft.run_behind_connective _ _ false (Draft.leads_brackets others later) []
    ⟨[tree], [], false⟩ .and []
  rw [List.append_nil] at second between
  have joined := of_chain_and tree other (normal_of_words words tree accepted)
    (normal_of_words later other acceptedLater)
  calc
    ofWords (brackets.around words ++ and.val :: others.around later) =
        (Draft.start.push tree).run (and.val :: others.around later) := leading.trans (runs _)
    _ = Draft.run ⟨[], ⟨[tree], [], false⟩, .afterConnective ⟨.and, false⟩⟩
        (others.around later) := Draft.run_of_read _ _ _ _ joins
    _ = .ok (.group .and (tree.conjuncts ++ other.conjuncts)) :=
      between.trans (second.trans (congrArg Except.ok joined))

end Composition

/-- Brackets, negation, `or` and `and` make of any two queries what they make of the trees. The
limit on brackets counts those of lists and calls too; without brackets around the parts it cannot
be passed. -/
theorem of_words_compositional (words later : List Word) (left right : Tree)
    (readsLeft : ofWords words = .ok left) (readsRight : ofWords later = .ok right)
    (brackets others : Brackets) (and : Word.Token "and".toList) (or : Word.Token "or".toList)
    (not : Word.Token "not".toList) :
    (Word.nesting 0 (brackets.around words) ≤ maxBracketDepth →
      ofWords (brackets.around words) = .ok left) ∧
    (Word.nesting 0 (not.val :: brackets.around words) ≤ maxBracketDepth →
      ofWords (not.val :: brackets.around words) = .ok left.negate) ∧
    ofWords (words ++ or.val :: later) = .ok (.group .or (left.disjuncts ++ right.disjuncts)) ∧
    (Word.nesting 0 (brackets.around words ++ and.val :: others.around later) ≤ maxBracketDepth →
      ofWords (brackets.around words ++ and.val :: others.around later) =
        .ok (.group .and (left.conjuncts ++ right.conjuncts))) :=
  ⟨of_words_brackets brackets words left readsLeft,
    of_words_negation brackets words left readsLeft not,
    Draft.run_disjunction words later or left right readsLeft readsRight,
    of_words_conjunction brackets words left readsLeft later right readsRight others and⟩

def listWords : List Word :=
  ["n", "is", "not", "in", "(", "u", ",", "now", "(", "-5", "d", ")", ")"].map
    fun text => .plain text.toList

def listTree : Tree :=
  .condition ⟨.plain "n".toList, some "is not in".toList,
    [.plain "u".toList, .plain "now(-5d)".toList]⟩

/-- The second `not` is a field. -/
def fieldWords : List Word :=
  ["not", "not", "=", "x", "or", "y", "=", "z"].map fun text => .plain text.toList

def negatedTree : Tree :=
  .negate (.condition ⟨.plain "not".toList, some "=".toList, [.plain "x".toList]⟩)

def lastTree : Tree := .condition ⟨.plain "y".toList, some "=".toList, [.plain "z".toList]⟩

def plainBrackets : Brackets := ⟨⟨.plain ['('], rfl⟩, ⟨.plain [')'], rfl⟩⟩

theorem of_words_compositional_list :
    ofWords listWords = .ok listTree ∧
      ofWords fieldWords = .ok (.group .or [negatedTree, lastTree]) ∧
      Word.nesting 0 (plainBrackets.around listWords ++
        .plain "and".toList :: plainBrackets.around fieldWords) = 3 ∧
      ofWords (plainBrackets.around listWords) = .ok listTree ∧
      ofWords (.plain "not".toList :: plainBrackets.around listWords) = .ok listTree.negate ∧
      ofWords (listWords ++ .plain "or".toList :: fieldWords) =
        .ok (.group .or [listTree, negatedTree, lastTree]) ∧
      ofWords (plainBrackets.around listWords ++
          .plain "and".toList :: plainBrackets.around fieldWords) =
        .ok (.group .and [listTree, .group .or [negatedTree, lastTree]]) := by
  have list : ofWords listWords = .ok listTree := rfl
  have field : ofWords fieldWords = .ok (.group .or [negatedTree, lastTree]) := rfl
  obtain ⟨bracketed, negated, disjoined, conjoined⟩ :=
    of_words_compositional listWords fieldWords listTree _ list field plainBrackets plainBrackets
      ⟨.plain "and".toList, rfl⟩ ⟨.plain "or".toList, rfl⟩ ⟨.plain "not".toList, rfl⟩
  exact ⟨list, field, by decide, bracketed (by decide), negated (by decide), disjoined,
    conjoined (by decide)⟩

end Tree

end FilterQuery
