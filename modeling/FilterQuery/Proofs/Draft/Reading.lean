import FilterQuery.Proofs.Draft.Run

/-!
Reading the tokens of a tree. The operands of a group come back one after another, brackets open
and close a level of the draft, and the level becomes the group again. If the last condition is
still being written, the reading ends there and everything of the tree is understood.
-/

set_option autoImplicit false

namespace FilterQuery

namespace Tree

/-- The tree as it is read back from what is written. -/
def written (tree : Tree) : Tree := tree.mapConditions Condition.written

def Complete (tree : Tree) : Prop := ∀ condition ∈ tree.conditions, condition.Complete

/-- Only the last condition may still be in the course of being written. -/
def Readable (tree : Tree) : Prop := ∀ condition ∈ tree.conditions.dropLast, condition.Complete

/-- The words of an operand without the `not` in front of it. -/
def operandTokens (tree : Tree) : List Word := (tree.operandPieces .not).flatMap Piece.words

theorem conditions_nonempty (tree : Tree) (normal : tree.Normal) : tree.conditions ≠ [] := by
  induction normal with
  | condition leaf => simp [conditions]
  | not child _ induction => simpa using induction
  | group operation children _ count _ _ induction =>
      obtain ⟨first, second, rest, rfl⟩ := exists_two children count
      rw [conditions_group, List.flatMap_cons]
      intro empty
      exact induction first (by simp) (List.append_eq_nil_iff.mp empty).1

theorem complete_written_iff (tree : Tree) : tree.written.Complete ↔ tree.Complete := by
  have each : ∀ condition : Condition, condition.written.Complete ↔ condition.Complete := by
    intro condition
    simp [Condition.Complete, Condition.written]
  simp only [Complete, written, conditions_map_conditions, List.forall_mem_map, each]

@[simp] theorem written_group (operation : Operation) (children : List Tree) :
    (group operation children).written = group operation (children.map written) :=
  map_conditions_group Condition.written operation children

theorem normal_written (tree : Tree) (normal : tree.Normal) : tree.written.Normal :=
  normal_map_conditions Condition.written tree normal

@[simp] theorem is_negation_written (tree : Tree) : tree.written.isNegation = tree.isNegation := by
  cases tree with
  | condition leaf => rfl
  | group operation children =>
      rw [written_group]
      match operation, children with
      | .and, _ => rfl
      | .or, _ => rfl
      | .not, [] => rfl
      | .not, [_] => rfl
      | .not, _ :: _ :: _ => rfl

@[simp] theorem operand_written (tree : Tree) : tree.written.operand = tree.operand.written := by
  cases tree with
  | condition leaf => rfl
  | group operation children =>
      rw [written_group]
      match operation, children with
      | .and, _ => rw [operand, operand, written_group] <;> simp
      | .or, _ => rw [operand, operand, written_group] <;> simp
      | .not, [] => rfl
      | .not, [_] => rfl
      | .not, _ :: _ :: _ => rw [operand, operand, written_group] <;> simp

theorem operand_pieces_words (operation : Operation) (joins : operation ≠ .not) (tree : Tree)
    (normal : tree.Normal) :
    (tree.operandPieces operation).flatMap Piece.words =
      (if tree.isNegation then [.plain "not".toList] else []) ++ tree.operand.operandTokens := by
  have other : (operation == Operation.not) = false := beq_eq_false_iff_ne.mpr joins
  cases normal with
  | condition leaf => rfl
  | not child _ =>
      rw [operandPieces, isBracketed, other, if_neg Bool.false_ne_true, pieces_group,
        List.flatMap_append]
      rfl
  | group inner children innerJoins _ _ _ =>
      cases inner with
      | not => contradiction
      | and => rfl
      | or => rfl

theorem operand_depth_operand (operation : Operation) (joins : operation ≠ .not) (tree : Tree)
    (normal : tree.Normal) :
    tree.operand.operandDepth .not = tree.operandDepth operation := by
  have other : (operation == Operation.not) = false := beq_eq_false_iff_ne.mpr joins
  cases normal with
  | condition leaf => rfl
  | not child _ =>
      change child.operandDepth .not = _
      rw [operandDepth, operandDepth, isBracketed, other, if_neg Bool.false_ne_true, bracketDepth,
        bracketDepthAmong, bracketDepthAmong, Nat.max_zero, Nat.add_zero]
  | group inner children innerJoins _ _ _ =>
      cases inner with
      | not => contradiction
      | and => rfl
      | or => rfl

@[simp] theorem conditions_operand (tree : Tree) : tree.operand.conditions = tree.conditions := by
  conv_rhs => rw [← negate_if_operand tree, conditions_negate_if]

theorem operand_tokens_group (operation : Operation) (children : List Tree) :
    (group operation children).operandTokens =
      .plain ['('] :: ((group operation children).tokens ++ [.plain [')']]) := by
  have brackets : (group operation children).isBracketed .not = true := by
    cases operation <;> rfl
  rw [operandTokens, operandPieces, if_pos brackets, Piece.bracketed, List.flatMap_append,
    List.flatMap_append]
  rfl

theorem operand_tokens_begin (tree : Tree) :
    ∃ word rest, tree.operandTokens = word :: rest ∧ word.isToken "not".toList = false := by
  cases tree with
  | group operation children =>
      exact ⟨.plain ['('], _, operand_tokens_group operation children, rfl⟩
  | condition leaf =>
      have field := leaf.field.as_field_is_no_token "not".toList (by decide)
      change ∃ word rest, leaf.pieces.flatMap Piece.words = word :: rest ∧ _
      rw [Condition.pieces]
      split
      · rw [List.flatMap_singleton, Word.words_field_piece]
        exact ⟨_, _, rfl, field⟩
      · rw [List.cons_append, List.flatMap_cons, Word.words_field_piece]
        exact ⟨_, _, rfl, field⟩

end Tree

namespace Draft

theorem run_first (outer : List Level) (operation : Operation) (joins : operation ≠ .not)
    (tree : Tree) (normal : tree.Normal) (rest : List Word) :
    run ⟨outer, .empty, .operand⟩ ((tree.operandPieces operation).flatMap Piece.words ++ rest) =
      runOperand ⟨outer, ⟨[], [], tree.isNegation⟩, .operand⟩
        (tree.operand.operandTokens ++ rest) := by
  obtain ⟨word, later, tokens, keyword⟩ := tree.operand.operand_tokens_begin
  rw [Tree.operand_pieces_words operation joins tree normal, tokens]
  cases tree.isNegation with
  | true =>
      rw [if_pos rfl, List.singleton_append, List.cons_append, List.cons_append]
      rw [run_of_read _ ⟨outer, .empty, .leadingNot (.plain "not".toList)⟩ _ _ rfl]
      exact run_cons _ word _
  | false =>
      rw [if_neg Bool.false_ne_true, List.nil_append, List.cons_append, run_cons]
      have reads : read ⟨outer, .empty, .operand⟩ word =
          readOperand ⟨outer, .empty, .operand⟩ word := by
        rw [read, keyword, Bool.and_false, if_neg Bool.false_ne_true]
      rw [reads]
      rfl

theorem run_link (outer : List Level) (level : Level) (junction : Junction) (tree : Tree)
    (normal : tree.Normal) (rest : List Word) :
    run ⟨outer, level, .connective⟩ (.plain junction.operation.text ::
        ((tree.operandPieces junction.operation).flatMap Piece.words ++ rest)) =
      runOperand ⟨outer, ⟨level.operands,
          level.connectives ++ [⟨junction, tree.isNegation⟩], level.negated⟩, .operand⟩
        (tree.operand.operandTokens ++ rest) := by
  obtain ⟨word, later, tokens, keyword⟩ := tree.operand.operand_tokens_begin
  have joins : junction.operation ≠ .not := by cases junction <;> decide
  have connects : read ⟨outer, level, .connective⟩ (.plain junction.operation.text) =
      .ok ⟨outer, level, .afterConnective ⟨junction, false⟩⟩ := by cases junction <;> rfl
  rw [run_of_read _ _ _ _ connects, Tree.operand_pieces_words junction.operation joins tree normal,
    tokens]
  cases tree.isNegation with
  | true =>
      rw [if_pos rfl, List.singleton_append, List.cons_append, List.cons_append]
      rw [run_of_read _ ⟨outer, level, .afterConnective ⟨junction, true⟩⟩ _ _ rfl]
      exact run_cons _ word _
  | false =>
      rw [if_neg Bool.false_ne_true, List.nil_append, List.cons_append, run_cons]
      have reads : read ⟨outer, level, .afterConnective ⟨junction, false⟩⟩ word =
          readOperand ⟨outer, ⟨level.operands, level.connectives ++ [⟨junction, false⟩],
            level.negated⟩, .operand⟩ word := by
        change readAfterConnective _ ⟨junction, false⟩ word = _
        rw [readAfterConnective, keyword, Bool.and_false, if_neg Bool.false_ne_true]
        rfl
      rw [reads]
      rfl

def levelOf (junction : Junction) (first : Tree) (later : List Tree) : Level :=
  ⟨first :: later.map Tree.operand, later.map fun tree => ⟨junction, tree.isNegation⟩, false⟩

theorem assemble_level_of (junction : Junction) (first : Tree) (later : List Tree)
    (normal : (Tree.group junction.operation (first :: later)).Normal) :
    (levelOf junction first later).assemble =
      .ok (.group junction.operation (first :: later)) := by
  rw [Level.assemble, levelOf, Tree.assemble, List.length_map, List.length_map, if_pos rfl,
    List.zip_map']
  exact congrArg Except.ok (Tree.of_chain_links junction first later normal)

theorem recover_last_operand (outer : List Level) (junction : Junction) (first : Tree)
    (middle : List Tree) (last : Tree)
    (normal : (Tree.group junction.operation (first :: (middle ++ [last]))).Normal) :
    recover ⟨outer, ⟨(levelOf junction first middle).operands,
        (levelOf junction first middle).connectives ++ [⟨junction, last.isNegation⟩], false⟩,
        .operand⟩ (some last.operand) =
      outer.foldl (fun inner level => level.recover inner)
        (some (.group junction.operation (first :: (middle ++ [last])))) := by
  have all := assemble_level_of junction first (middle ++ [last]) normal
  rw [Level.assemble, levelOf, List.map_append, List.map_append] at all
  have understood : Level.recover ⟨(levelOf junction first middle).operands,
      (levelOf junction first middle).connectives ++ [⟨junction, last.isNegation⟩], false⟩
        (some last.operand) =
      some (.group junction.operation (first :: (middle ++ [last]))) := by
    change Tree.recover ((first :: middle.map Tree.operand) ++ [last.operand]) _ = _
    rw [Tree.recover, List.take_of_length_le (by simp [levelOf])]
    exact congrArg Except.toOption all
  rw [recover, understood]

/-- What reading the tokens of a tree does where a level begins. -/
structure ReadsLevel (outer : List Level) (words : List Word) (tree : Tree) : Prop where
  complete : tree.Complete → ∃ level, level.assemble = .ok tree ∧ ∀ rest, EndsOperand rest →
    run ⟨outer, .empty, .operand⟩ (words ++ rest) = run ⟨outer, level, .connective⟩ rest
  unfinished : ¬ tree.Complete → ∀ rest, Closes rest →
    ∃ cause, run ⟨outer, .empty, .operand⟩ (words ++ rest) =
      .error ⟨cause, outer.foldl (fun inner level => level.recover inner) (some tree)⟩

/-- The tokens of the tree are read as the tree wherever its brackets are not too deep. -/
def ReadsBack (tree : Tree) : Prop :=
  ∀ outer : List Level, outer.length + tree.bracketDepth ≤ maxBracketDepth →
    ReadsLevel outer tree.tokens tree.written

theorem ends_closing (rest : List Word) : EndsOperand (.plain [')'] :: rest) := by
  intro next first
  obtain rfl := Option.some.inj first
  exact ⟨rfl, rfl⟩

/-- Brackets around a group, and a condition as it is, are read as one operand. -/
theorem reads_operand (draft : Draft) (tree : Tree) (legible : tree.Legible)
    (depth : draft.outer.length + tree.operandDepth .not ≤ maxBracketDepth)
    (inner : ReadsBack tree) :
    draft.ReadsOperand tree.operandTokens tree.written := by
  cases tree with
  | condition leaf => exact reads_condition draft leaf (legible leaf (by simp [Tree.conditions]))
  | group operation children =>
      have brackets : (Tree.group operation children).isBracketed .not = true := by
        cases operation <;> rfl
      rw [Tree.operandDepth, if_pos brackets] at depth
      -- The bracket begins a level of its own, on which the whole group is read.
      have reads := inner (draft.level :: draft.outer) (by rw [List.length_cons]; omega)
      have opens : draft.readOperand (.plain ['(']) =
          .ok ⟨draft.level :: draft.outer, .empty, .operand⟩ := by
        have fits : ¬ maxBracketDepth ≤ draft.outer.length := by omega
        change (if maxBracketDepth ≤ draft.outer.length then _ else _) = _
        rw [if_neg fits]
      have begins : ∀ rest, draft.runOperand
          ((Tree.group operation children).operandTokens ++ rest) =
            run ⟨draft.level :: draft.outer, .empty, .operand⟩
              ((Tree.group operation children).tokens ++ .plain [')'] :: rest) := by
        intro rest
        rw [Tree.operand_tokens_group, List.cons_append, runOperand, opens, List.append_assoc]
        rfl
      constructor
      · intro complete rest ends
        obtain ⟨level, assembled, continues⟩ := reads.complete complete
        rw [begins, continues _ (ends_closing rest)]
        exact run_of_read _ _ _ _ (read_closing _ _ _ _ assembled)
      · intro unfinished rest closes
        obtain ⟨cause, fails⟩ := reads.unfinished unfinished _ (Or.inr ⟨rest, rfl⟩)
        exact ⟨cause, (begins rest).trans fails⟩

theorem written_operand (tree : Tree) :
    Tree.negateIf tree.isNegation tree.operand.written = tree.written := by
  rw [← Tree.operand_written, ← Tree.is_negation_written, Tree.negate_if_operand]

theorem complete_operand_iff (tree : Tree) :
    tree.operand.written.Complete ↔ tree.Complete := by
  rw [Tree.complete_written_iff, Tree.Complete, Tree.conditions_operand]
  rfl

theorem reads_single (outer : List Level) (tree : Tree) (normal : tree.Normal)
    (alone : tree.tokens = (tree.operandPieces .and).flatMap Piece.words)
    (reads : ∀ draft : Draft, draft.outer = outer →
      draft.ReadsOperand tree.operand.operandTokens tree.operand.written) :
    ReadsLevel outer tree.tokens tree.written := by
  have operand := reads ⟨outer, ⟨[], [], tree.isNegation⟩, .operand⟩ rfl
  have single := Tree.of_chain_single tree.written (tree.normal_written normal)
  constructor
  · intro complete
    refine ⟨⟨[tree.written], [], false⟩, congrArg Except.ok single, ?_⟩
    intro rest ends
    have all := (complete_operand_iff tree).mpr ((Tree.complete_written_iff tree).mp complete)
    rw [alone, run_first outer .and (by simp) tree normal, operand.complete all rest ends, push,
      Level.push, written_operand]
    rfl
  · intro unfinished rest closes
    have some : ¬ tree.operand.written.Complete := by
      rwa [complete_operand_iff, ← Tree.complete_written_iff]
    obtain ⟨cause, fails⟩ := operand.unfinished some rest closes
    have understood : Level.recover ⟨[], [], tree.isNegation⟩ (Option.some tree.operand.written) =
        Option.some tree.written := by
      change Option.some (Tree.ofChain (Tree.negateIf tree.isNegation tree.operand.written) []) = _
      rw [written_operand, single]
    refine ⟨cause, ?_⟩
    rw [alone, run_first outer .and (by simp) tree normal, fails, recover, understood]

def linkTokens (operation : Operation) (tree : Tree) : List Word :=
  .plain operation.text :: (tree.operandPieces operation).flatMap Piece.words

theorem ends_links (junction : Junction) (later : List Tree) (rest : List Word)
    (ends : EndsOperand rest) :
    EndsOperand (later.flatMap (linkTokens junction.operation) ++ rest) := by
  cases later with
  | nil => exact ends
  | cons tree later =>
      intro next first
      obtain rfl := Option.some.inj first
      cases junction <;> exact ⟨rfl, rfl⟩

theorem run_links (outer : List Level) (junction : Junction) (first : Tree)
    (done later : List Tree) (normal : ∀ tree ∈ later, tree.Normal)
    (complete : ∀ tree ∈ later, tree.Complete)
    (reads : ∀ tree ∈ later, ∀ draft : Draft, draft.outer = outer →
      draft.ReadsOperand tree.operand.operandTokens tree.operand.written)
    (rest : List Word) (ends : EndsOperand rest) :
    run ⟨outer, levelOf junction first (done.map Tree.written), .connective⟩
        (later.flatMap (linkTokens junction.operation) ++ rest) =
      run ⟨outer, levelOf junction first ((done ++ later).map Tree.written), .connective⟩ rest := by
  induction later generalizing done with
  | nil => rw [List.append_nil]; rfl
  | cons tree later induction =>
      have operand (level : Level) :=
        (reads tree (by simp) ⟨outer, level, .operand⟩ rfl).complete
          ((complete_operand_iff tree).mpr (complete tree (by simp))) _
          (ends_links junction later rest ends)
      have next := induction (done ++ [tree])
        (fun other member => normal other (List.mem_cons_of_mem _ member))
        (fun other member => complete other (List.mem_cons_of_mem _ member))
        (fun other member => reads other (List.mem_cons_of_mem _ member))
      rw [List.append_assoc, List.singleton_append] at next
      rw [← next, List.flatMap_cons, List.append_assoc, linkTokens, List.cons_append,
        run_link outer _ junction tree (normal tree (by simp)), operand, push, Level.push,
        levelOf, levelOf, List.map_append, List.map_append, List.map_append]
      simp only [List.map_singleton, Tree.operand_written, Tree.is_negation_written]
      rfl

theorem tokens_group (junction : Junction) (first : Tree) (later : List Tree) :
    (Tree.group junction.operation (first :: later)).tokens =
      (first.operandPieces junction.operation).flatMap Piece.words ++
        later.flatMap (linkTokens junction.operation) := by
  have opening : junction.operation.opening = [] := by cases junction <;> rfl
  have separator : junction.operation.separator.flatMap Piece.words =
      [.plain junction.operation.text] := by cases junction <;> rfl
  rw [Tree.tokens, Tree.pieces_group, opening, List.nil_append, List.map_cons, Piece.join_cons,
    List.flatMap_append, List.flatMap_map, List.flatMap_assoc]
  congr 1
  apply List.flatMap_congr
  intro tree _
  rw [List.flatMap_append, separator]
  rfl

theorem readable_parts (operation : Operation) (before : List Tree) (last : Tree)
    (normal : last.Normal)
    (readable : (Tree.group operation (before ++ [last])).Readable) :
    (∀ tree ∈ before, tree.Complete) ∧ last.Readable := by
  rw [Tree.Readable, Tree.conditions_group, List.flatMap_append, List.flatMap_singleton,
    List.dropLast_append_of_ne_nil (last.conditions_nonempty normal)] at readable
  constructor
  · intro tree member condition contained
    exact readable condition
      (List.mem_append_left _ (List.mem_flatMap.mpr ⟨tree, member, contained⟩))
  · intro condition contained
    exact readable condition (List.mem_append_right _ contained)

section Group

variable (outer : List Level) (junction : Junction) (first : Tree) (normal : first.Normal)
  (complete : first.Complete)
  (reads : ∀ draft : Draft, draft.outer = outer →
    draft.ReadsOperand first.operand.operandTokens first.operand.written)

include normal complete reads

theorem run_first_complete (rest : List Word) (ends : EndsOperand rest) :
    run ⟨outer, .empty, .operand⟩
        ((first.operandPieces junction.operation).flatMap Piece.words ++ rest) =
      run ⟨outer, levelOf junction first.written [], .connective⟩ rest := by
  have joins : junction.operation ≠ .not := by cases junction <;> decide
  have operand := (reads ⟨outer, ⟨[], [], first.isNegation⟩, .operand⟩ rfl).complete
    ((complete_operand_iff first).mpr complete) rest ends
  rw [run_first outer _ joins first normal, operand, push, Level.push, written_operand]
  rfl

theorem run_group (later : List Tree) (normals : ∀ tree ∈ later, tree.Normal)
    (completes : ∀ tree ∈ later, tree.Complete)
    (readsLater : ∀ tree ∈ later, ∀ draft : Draft, draft.outer = outer →
      draft.ReadsOperand tree.operand.operandTokens tree.operand.written)
    (rest : List Word) (ends : EndsOperand rest) :
    run ⟨outer, .empty, .operand⟩
        ((first.operandPieces junction.operation).flatMap Piece.words ++
          (later.flatMap (linkTokens junction.operation) ++ rest)) =
      run ⟨outer, levelOf junction first.written (later.map Tree.written), .connective⟩ rest := by
  rw [run_first_complete outer junction first normal complete reads _
    (ends_links junction later rest ends)]
  exact run_links outer junction first.written [] later normals completes readsLater rest ends

theorem run_group_unfinished (middle : List Tree) (last : Tree)
    (group : (Tree.group junction.operation (first :: (middle ++ [last]))).Normal)
    (completes : ∀ tree ∈ middle, tree.Complete) (unfinished : ¬ last.Complete)
    (readsLater : ∀ tree ∈ middle ++ [last], ∀ draft : Draft, draft.outer = outer →
      draft.ReadsOperand tree.operand.operandTokens tree.operand.written)
    (rest : List Word) (closes : Closes rest) :
    ∃ cause, run ⟨outer, .empty, .operand⟩
        ((Tree.group junction.operation (first :: (middle ++ [last]))).tokens ++ rest) =
      .error ⟨cause, outer.foldl (fun inner level => level.recover inner)
        (some (Tree.group junction.operation (first :: (middle ++ [last]))).written)⟩ := by
  have joins : junction.operation ≠ .not := by cases junction <;> decide
  have normals := (Tree.parts_of_normal_group _ joins _ group).2.2
  have whole := Tree.normal_written _ group
  rw [Tree.written_group, List.map_cons, List.map_append, List.map_singleton] at whole
  obtain ⟨cause, fails⟩ := (readsLater last (by simp) ⟨outer,
    ⟨(levelOf junction first.written (middle.map Tree.written)).operands,
      (levelOf junction first.written (middle.map Tree.written)).connectives ++
        [⟨junction, last.isNegation⟩], false⟩, .operand⟩ rfl).unfinished
          (fun finished => unfinished ((complete_operand_iff last).mp finished)) rest closes
  have understood := recover_last_operand outer junction first.written (middle.map Tree.written)
    last.written whole
  rw [Tree.operand_written, Tree.is_negation_written] at understood
  have ends := ends_links junction [last] [] ends_nil
  rw [List.flatMap_singleton, List.append_nil] at ends
  have earlier := run_group outer junction first normal complete reads middle
    (fun tree member => normals tree (by simp [member])) completes
    (fun tree member => readsLater tree (by simp [member]))
    (linkTokens junction.operation last ++ rest) ends
  refine ⟨cause, ?_⟩
  rw [tokens_group, List.flatMap_append, List.flatMap_singleton, List.append_assoc,
    List.append_assoc, earlier, linkTokens, List.cons_append,
    run_link outer _ junction last (normals last (by simp)), Tree.written_group, List.map_cons,
    List.map_append, List.map_singleton, ← understood]
  exact fails

end Group

theorem reads_group (outer : List Level) (junction : Junction) (first : Tree)
    (middle : List Tree) (last : Tree)
    (normal : (Tree.group junction.operation (first :: (middle ++ [last]))).Normal)
    (complete : ∀ tree ∈ first :: middle, tree.Complete)
    (reads : ∀ tree ∈ first :: (middle ++ [last]), ∀ draft : Draft, draft.outer = outer →
      draft.ReadsOperand tree.operand.operandTokens tree.operand.written) :
    ReadsLevel outer (Tree.group junction.operation (first :: (middle ++ [last]))).tokens
      (Tree.group junction.operation (first :: (middle ++ [last]))).written := by
  have joins : junction.operation ≠ .not := by cases junction <;> decide
  have normals := (Tree.parts_of_normal_group _ joins _ normal).2.2
  have whole := Tree.normal_written _ normal
  have conditions : (Tree.group junction.operation (first :: (middle ++ [last]))).Complete ↔
      last.Complete := by
    constructor
    · intro all condition contained
      apply all
      rw [Tree.conditions_group]
      exact List.mem_flatMap.mpr ⟨last, by simp, contained⟩
    · intro finished condition contained
      rw [Tree.conditions_group] at contained
      obtain ⟨tree, member, inside⟩ := List.mem_flatMap.mp contained
      rw [← List.cons_append, List.mem_append, List.mem_singleton] at member
      rcases member with earlier | rfl
      · exact complete tree earlier condition inside
      · exact finished condition inside
  constructor
  · intro all
    have finished := conditions.mp ((Tree.complete_written_iff _).mp all)
    refine ⟨levelOf junction first.written ((middle ++ [last]).map Tree.written), ?_, ?_⟩
    · rw [Tree.written_group] at whole ⊢
      exact assemble_level_of junction _ _ whole
    · intro rest ends
      rw [tokens_group, List.append_assoc]
      apply run_group outer junction first (normals first (by simp)) (complete first (by simp))
        (reads first (by simp)) (middle ++ [last])
      · exact fun tree member => normals tree (List.mem_cons_of_mem _ member)
      · intro tree member
        rcases List.mem_append.mp member with earlier | here
        · exact complete tree (List.mem_cons_of_mem _ earlier)
        · rwa [List.mem_singleton.mp here]
      · exact fun tree member => reads tree (List.mem_cons_of_mem _ member)
      · exact ends
  · intro partly
    have unfinished : ¬ last.Complete := fun finished =>
      partly ((Tree.complete_written_iff _).mpr (conditions.mpr finished))
    exact run_group_unfinished outer junction first (normals first (by simp))
      (complete first (by simp)) (reads first (by simp)) middle last normal
      (fun tree member => complete tree (List.mem_cons_of_mem _ member)) unfinished
      (fun tree member => reads tree (List.mem_cons_of_mem _ member))

theorem legible_operand (tree : Tree) (legible : tree.Legible) : tree.operand.Legible := by
  rw [Tree.Legible, Tree.conditions_operand]
  exact legible

/-- The operand is read by itself because it stands in brackets of its own behind `not`. -/
theorem reads_back (tree : Tree) (normal : tree.Normal) (legible : tree.Legible)
    (readable : tree.Readable) : ReadsBack tree ∧ ReadsBack tree.operand := by
  induction normal with
  | condition leaf =>
      have reads : ReadsBack (.condition leaf) := by
        intro outer _
        apply reads_single outer _ (Tree.Normal.condition leaf) rfl
        intro draft _
        exact reads_condition draft leaf (legible leaf (by simp [Tree.conditions]))
      exact ⟨reads, reads⟩
  | not child normal induction =>
      have inner := Tree.legible_child .not [child] legible child (by simp)
      have last : child.Readable := by simpa [Tree.Readable] using readable
      have reads := (induction inner last).1
      refine ⟨?_, reads⟩
      intro outer depth
      apply reads_single outer _ (Tree.Normal.not child normal) rfl
      rintro draft rfl
      apply reads_operand draft child inner _ reads
      have nested := Tree.operand_depth_le .not [child] child (by simp)
      omega
  | group operation children joins count separate normals induction =>
      obtain ⟨junction, rfl⟩ := operation.exists_junction joins
      have normal := Tree.Normal.group _ children joins count separate normals
      have legibles := Tree.legible_child _ children legible
      have reads : ReadsBack (.group junction.operation children) := by
        intro outer depth
        obtain ⟨before, last, rfl⟩ := children.eq_nil_or_concat'.resolve_left (by
          rintro rfl
          contradiction)
        have parts := readable_parts _ before last (normals last (by simp)) readable
        have readsLater : ∀ tree ∈ before ++ [last], ∀ draft : Draft, draft.outer = outer →
            draft.ReadsOperand tree.operand.operandTokens tree.operand.written := by
          rintro tree member draft rfl
          have here : tree.Readable := by
            rcases List.mem_append.mp member with earlier | final
            · exact fun condition contained =>
                parts.1 tree earlier condition (List.dropLast_subset _ contained)
            · rw [List.mem_singleton.mp final]
              exact parts.2
          have nested := Tree.operand_depth_le junction.operation _ tree member
          rw [← Tree.operand_depth_operand _ joins tree (normals tree member)] at nested
          apply reads_operand draft tree.operand (legible_operand tree (legibles tree member))
          · omega
          · exact (induction tree member (legibles tree member) here).2
        cases before with
        | nil =>
            simp at count
        | cons first middle =>
            exact reads_group outer junction first middle last normal parts.1 readsLater
      refine ⟨reads, ?_⟩
      cases junction <;> exact reads

end Draft

end FilterQuery
