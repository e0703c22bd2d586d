import FilterQuery.Proofs.Draft.Reading

/-!
A complete tree whose brackets are nested too deep is refused when it is read back, with the first
bracket that is too deep as the cause.
-/

set_option autoImplicit false

namespace FilterQuery.Draft

/-- The tokens of the tree are refused wherever its brackets are too deep. -/
def RefusesDeep (tree : Tree) : Prop :=
  ∀ outer : List Level, outer.length ≤ maxBracketDepth →
    maxBracketDepth < outer.length + tree.bracketDepth → ∀ rest, EndsOperand rest →
      TooDeep (run ⟨outer, .empty, .operand⟩ (tree.tokens ++ rest))

theorem operand_too_deep (draft : Draft) (tree : Tree) (refuses : RefusesDeep tree)
    (fits : draft.outer.length ≤ maxBracketDepth)
    (deep : maxBracketDepth < draft.outer.length + tree.operandDepth .not) (rest : List Word) :
    TooDeep (draft.runOperand (tree.operandTokens ++ rest)) := by
  cases tree with
  | condition leaf =>
      change maxBracketDepth < draft.outer.length + 0 at deep
      omega
  | group operation children =>
      have brackets : (Tree.group operation children).isBracketed .not = true := by
        cases operation <;> rfl
      rw [Tree.operandDepth, if_pos brackets] at deep
      rw [Tree.operand_tokens_group, List.cons_append, runOperand, List.append_assoc]
      by_cases full : maxBracketDepth ≤ draft.outer.length
      · have refused : draft.readOperand (.plain ['(']) =
            .error ⟨.bracketsTooDeep, draft.recover none⟩ := by
          change (if maxBracketDepth ≤ draft.outer.length then _ else _) = _
          rw [if_pos full]
          rfl
        rw [refused]
        exact ⟨_, rfl⟩
      · have opens : draft.readOperand (.plain ['(']) =
            .ok ⟨draft.level :: draft.outer, .empty, .operand⟩ := by
          change (if maxBracketDepth ≤ draft.outer.length then _ else _) = _
          rw [if_neg full]
        rw [opens]
        apply refuses (draft.level :: draft.outer)
        · rw [List.length_cons]
          omega
        · rw [List.length_cons]
          omega
        · exact ends_closing rest

theorem links_too_deep (outer : List Level) (fits : outer.length ≤ maxBracketDepth)
    (junction : Junction) (first : Tree) (done later : List Tree)
    (normal : ∀ tree ∈ later, tree.Normal) (legible : ∀ tree ∈ later, tree.Legible)
    (complete : ∀ tree ∈ later, tree.Complete)
    (refuses : ∀ tree ∈ later, RefusesDeep tree.operand)
    (deep : ∃ tree ∈ later, maxBracketDepth < outer.length + tree.operand.operandDepth .not)
    (rest : List Word) (ends : EndsOperand rest) :
    TooDeep (run ⟨outer, levelOf junction first (done.map Tree.written), .connective⟩
      (later.flatMap (linkTokens junction.operation) ++ rest)) := by
  induction later generalizing done with
  | nil =>
      obtain ⟨tree, member, _⟩ := deep
      contradiction
  | cons tree later induction =>
      rw [List.flatMap_cons, List.append_assoc]
      by_cases here : maxBracketDepth < outer.length + tree.operand.operandDepth .not
      · rw [linkTokens, List.cons_append, run_link outer _ junction tree (normal tree (by simp))]
        exact operand_too_deep _ _ (refuses tree (by simp)) fits here _
      · -- This operand fits and is read, and the one that is too deep stands behind it.
        have readable : tree.Readable := fun condition contained =>
          complete tree (by simp) condition (List.dropLast_subset _ contained)
        have reads := (reads_back tree (normal tree (by simp)) (legible tree (by simp))
          readable).2
        have passes := run_links outer junction first done [tree]
          (by simpa using normal tree (by simp)) (by simpa using complete tree (by simp))
          (by
            intro other member draft same
            obtain rfl := List.mem_singleton.mp member
            apply reads_operand draft _ (legible_operand other (legible other (by simp))) _ reads
            rw [same]
            omega) _ (ends_links junction later rest ends)
        rw [List.flatMap_singleton] at passes
        rw [passes]
        apply induction
        · exact fun other member => normal other (List.mem_cons_of_mem _ member)
        · exact fun other member => legible other (List.mem_cons_of_mem _ member)
        · exact fun other member => complete other (List.mem_cons_of_mem _ member)
        · exact fun other member => refuses other (List.mem_cons_of_mem _ member)
        · obtain ⟨other, member, beyond⟩ := deep
          rcases List.mem_cons.mp member with rfl | later
          · contradiction
          · exact ⟨other, later, beyond⟩

theorem refuses_single (tree : Tree) (normal : tree.Normal)
    (alone : tree.tokens = (tree.operandPieces .and).flatMap Piece.words)
    (depth : tree.bracketDepth = tree.operand.operandDepth .not)
    (refuses : RefusesDeep tree.operand) : RefusesDeep tree := by
  intro outer fits deep rest _
  rw [alone, run_first outer .and (by simp) tree normal]
  apply operand_too_deep _ _ refuses fits
  rw [← depth]
  exact deep

/-- Some operand of a group whose brackets are too deep is too deep. -/
theorem exists_operand_too_deep (outer : List Level) (fits : outer.length ≤ maxBracketDepth)
    (operation : Operation) (joins : operation ≠ .not) (children : List Tree)
    (normals : ∀ tree ∈ children, tree.Normal)
    (deep : maxBracketDepth < outer.length + (Tree.group operation children).bracketDepth) :
    ∃ tree ∈ children, maxBracketDepth < outer.length + tree.operand.operandDepth .not := by
  by_contra none
  have bounded := (Tree.bracket_depth_group_le_iff operation children
    (maxBracketDepth - outer.length)).mpr (by
      intro tree member
      have here : ¬ maxBracketDepth < outer.length + tree.operand.operandDepth .not :=
        fun beyond => none ⟨tree, member, beyond⟩
      rw [Tree.operand_depth_operand operation joins tree (normals tree member)] at here
      omega)
  omega

theorem refuses_group (junction : Junction) (first : Tree) (later : List Tree)
    (normals : ∀ tree ∈ first :: later, tree.Normal)
    (legibles : ∀ tree ∈ first :: later, tree.Legible)
    (completes : ∀ tree ∈ first :: later, tree.Complete)
    (refuses : ∀ tree ∈ first :: later, RefusesDeep tree.operand) :
    RefusesDeep (.group junction.operation (first :: later)) := by
  intro outer fits deep rest ends
  have joins : junction.operation ≠ .not := by cases junction <;> decide
  obtain ⟨tree, member, beyond⟩ :=
    exists_operand_too_deep outer fits _ joins (first :: later) normals deep
  have normal := normals first (by simp)
  rw [tokens_group, List.append_assoc]
  by_cases here : maxBracketDepth < outer.length + first.operand.operandDepth .not
  · rw [run_first outer _ joins first normal]
    exact operand_too_deep _ _ (refuses first (by simp)) fits here _
  · have legible := legibles first (by simp)
    have complete := completes first (by simp)
    have reads := (reads_back first normal legible fun condition contained =>
      complete condition (List.dropLast_subset _ contained)).2
    rw [run_first_complete outer junction first normal complete
      (by
        rintro draft rfl
        apply reads_operand draft _ (legible_operand first legible) _ reads
        omega) _ (ends_links junction later rest ends)]
    apply links_too_deep outer fits junction first.written [] later
    · exact fun tree member => normals tree (List.mem_cons_of_mem _ member)
    · exact fun tree member => legibles tree (List.mem_cons_of_mem _ member)
    · exact fun tree member => completes tree (List.mem_cons_of_mem _ member)
    · exact fun tree member => refuses tree (List.mem_cons_of_mem _ member)
    · rcases List.mem_cons.mp member with rfl | behind
      · contradiction
      · exact ⟨tree, behind, beyond⟩
    · exact ends

theorem refuses_deep (tree : Tree) (normal : tree.Normal) (legible : tree.Legible)
    (complete : tree.Complete) : RefusesDeep tree ∧ RefusesDeep tree.operand := by
  induction normal with
  | condition leaf =>
      have refuses : RefusesDeep (.condition leaf) := by
        intro outer fits deep
        change maxBracketDepth < outer.length + 0 at deep
        omega
      exact ⟨refuses, refuses⟩
  | not child normal induction =>
      have inner := (induction (Tree.legible_child .not [child] legible child (by simp))
        (by simpa [Tree.Complete] using complete)).1
      refine ⟨?_, inner⟩
      have negation := Tree.Normal.not child normal
      apply refuses_single _ negation rfl _ inner
      rw [Tree.operand_depth_operand .and (by simp) _ negation]
      rfl
  | group operation children joins count separate normals induction =>
      obtain ⟨junction, rfl⟩ := operation.exists_junction joins
      have legibles := Tree.legible_child _ children legible
      have completes : ∀ tree ∈ children, tree.Complete := by
        intro tree member condition contained
        apply complete
        rw [Tree.conditions_group]
        exact List.mem_flatMap.mpr ⟨tree, member, contained⟩
      have refusesLater : ∀ tree ∈ children, RefusesDeep tree.operand := fun tree member =>
        (induction tree member (legibles tree member) (completes tree member)).2
      have refuses : RefusesDeep (.group junction.operation children) := by
        obtain ⟨first, second, others, rfl⟩ := Tree.exists_two children count
        exact refuses_group junction first (second :: others) normals legibles completes
          refusesLater
      refine ⟨refuses, ?_⟩
      cases junction <;> exact refuses

end FilterQuery.Draft
