import FilterQuery.Proofs.Draft.Run

/-!
All that one word can do to a draft. Inside a condition only the phase changes, in a way that does
not depend on what stands around the condition; between conditions a word begins an operand, joins
operands or closes a bracket. A word is read exactly if it makes such a move.
-/

set_option autoImplicit false

namespace FilterQuery

theorem Word.is_other_token (word : Word) (token other : Text) (is : word.isToken token = true)
    (different : token ≠ other) : word.isToken other = false := by
  rw [Bool.eq_false_iff, ne_eq, is_token_iff]
  rintro ⟨_, same⟩
  exact different (((word.is_token_iff token).mp is).2.symm.trans same)

namespace Phase

/-- A value may stand here, in `depth` brackets of the list of a condition. -/
inductive Awaits : Phase → Word → Condition → Nat → Prop
  | continuation (field : Word) (comparator : Text) (quoted : Bool) (word : Word) :
      (if quoted then none else Comparator.extend comparator word) = none →
        Awaits (.continuation field comparator quoted) word ⟨field, some comparator, []⟩ 0
  | extended (field : Word) (comparator : Text) (word : Word) :
      Comparator.extend comparator word = none →
        Awaits (.extended field comparator) word ⟨field, some comparator, []⟩ 0
  | value (condition : Condition) (depth : Nat) (word : Word) :
      Awaits (.value condition depth) word condition depth
  | afterValue (condition : Condition) (value : Word) (depth : Nat) (word : Word) :
      word.isToken "(".toList = false →
        Awaits (.afterValue condition value (depth + 1)) word (condition.addValue value) (depth + 1)

/-- What a word does inside a condition. -/
inductive Step : Phase → Word → Phase → Prop
  | comparator (field word : Word) : word.isToken "(".toList = false →
      word.isToken ")".toList = false →
        Step (.comparator field) word (.continuation field word.text word.quoted)
  | continuation (field : Word) (comparator longer : Text) (word : Word) :
      Comparator.extend comparator word = some longer →
        Step (.continuation field comparator false) word (.extended field longer)
  | extended (field : Word) (comparator longer : Text) (word : Word) :
      Comparator.extend comparator word = some longer →
        Step (.extended field comparator) word (.extended field longer)
  | listOpens (phase : Phase) (condition : Condition) (depth : Nat) (word : Word) :
      phase.Awaits word condition depth → word.isToken "(".toList = true →
        Step phase word (.value condition (depth + 1))
  | listCloses (phase : Phase) (condition : Condition) (word : Word) :
      phase.Awaits word condition 1 → word.isToken ")".toList = true →
        Step phase word (.afterList condition)
  | innerListCloses (phase : Phase) (condition : Condition) (depth : Nat) (word : Word) :
      phase.Awaits word condition (depth + 2) → word.isToken ")".toList = true →
        Step phase word (.value condition (depth + 1))
  | comma (phase : Phase) (condition : Condition) (depth : Nat) (word : Word) :
      phase.Awaits word condition depth → word.isToken ",".toList = true →
        Step phase word (.value condition depth)
  | value (phase : Phase) (condition : Condition) (depth : Nat) (word : Word) :
      phase.Awaits word condition depth → word.isToken "(".toList = false →
        word.isToken ")".toList = false → word.isToken ",".toList = false →
          Step phase word (.afterValue condition word depth)
  | callOpens (condition : Condition) (value : Word) (depth : Nat) (word : Word) :
      word.isToken "(".toList = true →
        Step (.afterValue condition value depth) word (.call condition (value.glue word) 1 depth)
  | innerCallOpens (condition : Condition) (value : Word) (opened depth : Nat) (word : Word) :
      word.isToken "(".toList = true →
        Step (.call condition value opened depth) word
          (.call condition (value.glue word) (opened + 1) depth)
  | innerCallCloses (condition : Condition) (value : Word) (opened depth : Nat) (word : Word) :
      word.isToken ")".toList = true → 1 < opened →
        Step (.call condition value opened depth) word
          (.call condition (value.glue word) (opened - 1) depth)
  | callCloses (condition : Condition) (value : Word) (opened : Nat) (word : Word) :
      word.isToken ")".toList = true → opened ≤ 1 →
        Step (.call condition value opened 0) word
          (.afterList (condition.addValue (value.glue word)))
  | listedCallCloses (condition : Condition) (value : Word) (opened depth : Nat) (word : Word) :
      word.isToken ")".toList = true → opened ≤ 1 →
        Step (.call condition value opened (depth + 1)) word
          (.value (condition.addValue (value.glue word)) (depth + 1))
  | argument (condition : Condition) (value : Word) (opened depth : Nat) (word : Word) :
      word.isToken "(".toList = false → word.isToken ")".toList = false →
        Step (.call condition value opened depth) word
          (.call condition (value.glue word) opened depth)
  | furtherValue (condition : Condition) (value word : Word) : word.isToken ",".toList = true →
      Step (.afterValue condition value 0) word (.value (condition.addValue value) 0)
  | furtherList (condition : Condition) (word : Word) : word.isToken ",".toList = true →
      Step (.afterList condition) word (.value condition 0)

/-- An operand begins here, on the level that the connective or the `not` in front of it makes. -/
inductive Begins (level : Level) : Phase → Word → Level → Prop
  | operand (word : Word) : (level.operands.isEmpty && word.isToken "not".toList) = false →
      Begins level .operand word level
  | leadingNot (leading word : Word) :
      Begins level (.leadingNot leading) word { level with negated := true }
  | afterConnective (connective : Connective) (word : Word) :
      (!connective.negated && word.isToken "not".toList) = false →
        Begins level (.afterConnective connective) word
          { level with connectives := level.connectives ++ [connective] }

end Phase

namespace Draft

/-- What a word that can be read does to a draft. -/
inductive Move : Draft → Word → Draft → Prop
  | phase (draft : Draft) (word : Word) (next : Phase) : draft.phase.Step word next →
      Move draft word (draft.toPhase next)
  | leadingNot (outer : List Level) (level : Level) (word : Word) :
      level.operands.isEmpty = true → word.isToken "not".toList = true →
        Move ⟨outer, level, .operand⟩ word ⟨outer, level, .leadingNot word⟩
  | opening (draft : Draft) (word : Word) (level : Level) :
      draft.phase.Begins draft.level word level → word.isToken "(".toList = true →
        draft.outer.length < maxBracketDepth →
          Move draft word ⟨level :: draft.outer, .empty, .operand⟩
  | field (draft : Draft) (word : Word) (level : Level) :
      draft.phase.Begins draft.level word level → word.isToken "(".toList = false →
        word.isToken ")".toList = false → Move draft word ⟨draft.outer, level, .comparator word⟩
  | connective (outer : List Level) (level : Level) (junction : Junction) (word : Word) :
      word.isToken junction.operation.text = true →
        Move ⟨outer, level, .connective⟩ word ⟨outer, level, .afterConnective ⟨junction, false⟩⟩
  | negation (outer : List Level) (level : Level) (junction : Junction) (word : Word) :
      word.isToken "not".toList = true →
        Move ⟨outer, level, .afterConnective ⟨junction, false⟩⟩ word
          ⟨outer, level, .afterConnective ⟨junction, true⟩⟩
  | closing (outer : List Level) (parent level : Level) (tree : Tree) (word : Word) :
      level.assemble = .ok tree → word.isToken ")".toList = true →
        Move ⟨parent :: outer, level, .connective⟩ word (push ⟨outer, parent, .operand⟩ tree)
  /-- A complete condition becomes an operand, and the word stands behind it. -/
  | completion (draft : Draft) (condition : Condition) (word : Word) (next : Draft) :
      Ends condition draft.phase → EndsOperand [word] →
        Move (draft.push (.condition condition)) word next → Move draft word next

theorem value_moves (draft : Draft) (condition : Condition) (depth : Nat) (word : Word)
    (awaits : draft.phase.Awaits word condition depth) (next : Draft)
    (reads : draft.readValue condition depth word = .ok next) : draft.Move word next := by
  unfold readValue at reads
  split at reads
  · next opening =>
      cases reads
      exact .phase draft word _ (.listOpens _ _ _ _ awaits opening)
  · next opening =>
      split at reads
      · next closing =>
          split at reads
          · cases reads
          · cases reads
            exact .phase draft word _ (.listCloses _ _ _ awaits closing)
          · cases reads
            exact .phase draft word _ (.innerListCloses _ _ _ _ awaits closing)
      · next closing =>
          split at reads
          · next comma =>
              cases reads
              exact .phase draft word _ (.comma _ _ _ _ awaits comma)
          · next comma =>
              cases reads
              exact .phase draft word _ (.value _ _ _ _ awaits (Bool.eq_false_iff.mpr opening)
                (Bool.eq_false_iff.mpr closing) (Bool.eq_false_iff.mpr comma))

theorem operand_moves (draft : Draft) (level : Level) (word : Word)
    (begins : draft.phase.Begins draft.level word level) (next : Draft)
    (reads : readOperand { draft with level } word = .ok next) : draft.Move word next := by
  unfold readOperand at reads
  split at reads
  · next opening =>
      split at reads
      · cases reads
      · next room =>
          cases reads
          exact .opening draft word level begins opening (Nat.lt_of_not_le room)
  · next opening =>
      split at reads
      · split at reads <;> cases reads
      · next closing =>
          cases reads
          exact .field draft word level begins (Bool.eq_false_iff.mpr opening)
            (Bool.eq_false_iff.mpr closing)

theorem connective_moves (outer : List Level) (level : Level) (word : Word) (next : Draft)
    (reads : readConnective ⟨outer, level, .connective⟩ word = .ok next) :
    Move ⟨outer, level, .connective⟩ word next := by
  unfold readConnective at reads
  split at reads
  · next closing =>
      cases outer with
      | nil => cases reads
      | cons parent outer =>
          dsimp only at reads
          split at reads
          · next tree assembled =>
              cases reads
              exact .closing outer parent level tree word assembled closing
          · cases reads
  · split at reads
    · next and =>
        cases reads
        exact .connective outer level .and word and
    · split at reads
      · next or =>
          cases reads
          exact .connective outer level .or word or
      · cases reads

theorem ends_token (word : Word) (token : Text) (is : word.isToken token = true)
    (other : token ∉ ["(".toList, ",".toList]) (rest : List Word) : EndsOperand (word :: rest) := by
  intro first same
  obtain rfl := Option.some.inj same
  constructor <;> apply word.is_other_token token _ is <;> rintro rfl <;> exact other (by simp)

theorem ends_of_connective (draft : Draft) (word : Word) (next : Draft)
    (reads : draft.readConnective word = .ok next) : EndsOperand [word] := by
  have token : ∃ token ∈ [")".toList, "and".toList, "or".toList], word.isToken token = true := by
    rw [readConnective] at reads
    split at reads
    · next closing => exact ⟨_, by simp, closing⟩
    · split at reads
      · next and => exact ⟨_, by simp, and⟩
      · split at reads
        · next or => exact ⟨_, by simp, or⟩
        · cases reads
  obtain ⟨token, listed, is⟩ := token
  refine ends_token word token is ?_ []
  simp only [List.mem_cons, List.not_mem_nil, or_false] at listed
  rcases listed with rfl | rfl | rfl <;> decide

theorem completion_moves (draft : Draft) (condition : Condition) (word : Word)
    (ends : Ends condition draft.phase) (next : Draft)
    (reads : (draft.push (.condition condition)).readConnective word = .ok next) :
    draft.Move word next :=
  .completion draft condition word next ends (ends_of_connective _ word next reads)
    (connective_moves _ _ word next reads)

theorem call_moves (outer : List Level) (level : Level) (condition : Condition) (value : Word)
    (opened depth : Nat) (word : Word) (next : Draft)
    (reads : readCall ⟨outer, level, .call condition value opened depth⟩ condition value opened
      depth word = .ok next) :
    Move ⟨outer, level, .call condition value opened depth⟩ word next := by
  unfold readCall at reads
  dsimp only at reads
  split at reads
  · next opening =>
      cases reads
      exact .phase _ word _ (.innerCallOpens _ _ _ _ _ opening)
  · next opening =>
      split at reads
      · next closing =>
          split at reads
          · next last =>
              cases depth with
              | zero =>
                  cases reads
                  exact .phase _ word _ (.callCloses _ _ _ _ closing last)
              | succ depth =>
                  cases reads
                  exact .phase _ word _ (.listedCallCloses _ _ _ _ _ closing last)
          · next more =>
              cases reads
              exact .phase _ word _ (.innerCallCloses _ _ _ _ _ closing (Nat.lt_of_not_le more))
      · next closing =>
          cases reads
          exact .phase _ word _ (.argument _ _ _ _ _ (Bool.eq_false_iff.mpr opening)
            (Bool.eq_false_iff.mpr closing))

theorem continuation_moves (outer : List Level) (level : Level) (field : Word)
    (comparator : Text) (quoted : Bool) (word : Word) (next : Draft)
    (reads : readContinuation ⟨outer, level, .continuation field comparator quoted⟩ field
      comparator quoted word = .ok next) :
    Move ⟨outer, level, .continuation field comparator quoted⟩ word next := by
  rw [readContinuation] at reads
  split at reads
  · next longer extended =>
      cases reads
      cases quoted with
      | true => cases extended
      | false => exact .phase _ word _ (.continuation _ _ _ _ extended)
  · next alone => exact value_moves _ _ 0 word (.continuation _ _ _ _ alone) next reads

theorem extended_moves (outer : List Level) (level : Level) (field : Word) (comparator : Text)
    (word : Word) (next : Draft)
    (reads : readContinuation ⟨outer, level, .extended field comparator⟩ field comparator false
      word = .ok next) :
    Move ⟨outer, level, .extended field comparator⟩ word next := by
  rw [readContinuation] at reads
  split at reads
  · next longer extended =>
      cases reads
      exact .phase _ word _ (.extended _ _ _ _ extended)
  · next alone => exact value_moves _ _ 0 word (.extended _ _ _ alone) next reads

theorem after_value_moves (outer : List Level) (level : Level) (condition : Condition)
    (value : Word) (depth : Nat) (word : Word) (next : Draft)
    (reads : readAfterValue ⟨outer, level, .afterValue condition value depth⟩ condition value depth
      word = .ok next) :
    Move ⟨outer, level, .afterValue condition value depth⟩ word next := by
  rw [readAfterValue] at reads
  split at reads
  · next opening =>
      cases reads
      exact .phase _ word _ (.callOpens _ _ _ _ opening)
  · next bracket =>
      dsimp only at reads
      split at reads
      · split at reads
        · next comma =>
            cases reads
            exact .phase _ word _ (.furtherValue _ _ _ comma)
        · exact completion_moves _ (condition.addValue value) word
            (.inl ⟨value, condition.values, rfl, rfl⟩) next reads
      · next inside =>
          obtain ⟨depth, rfl⟩ := Nat.exists_eq_succ_of_ne_zero inside
          exact value_moves _ _ _ word
            (.afterValue _ _ _ _ (Bool.eq_false_iff.mpr bracket)) next reads

theorem after_list_moves (outer : List Level) (level : Level) (condition : Condition)
    (word : Word) (next : Draft)
    (reads : readAfterList ⟨outer, level, .afterList condition⟩ condition word = .ok next) :
    Move ⟨outer, level, .afterList condition⟩ word next := by
  rw [readAfterList] at reads
  split at reads
  · next comma =>
      cases reads
      exact .phase _ word _ (.furtherList _ _ comma)
  · split at reads
    · cases reads
    · next some =>
        have written : condition.values ≠ [] := fun empty => some (List.isEmpty_iff.mpr empty)
        exact completion_moves _ condition word (.inr ⟨rfl, written⟩) next reads

theorem after_connective_moves (outer : List Level) (level : Level) (connective : Connective)
    (word : Word) (next : Draft)
    (reads : readAfterConnective ⟨outer, level, .afterConnective connective⟩ connective word =
      .ok next) :
    Move ⟨outer, level, .afterConnective connective⟩ word next := by
  rw [readAfterConnective] at reads
  split at reads
  · next negation =>
      cases reads
      obtain ⟨junction, negated⟩ := connective
      obtain ⟨plain, not⟩ := Bool.and_eq_true_iff.mp negation
      cases negated with
      | true => cases plain
      | false => exact .negation outer level junction word not
  · next other =>
      exact operand_moves _ _ word (.afterConnective connective word (Bool.eq_false_iff.mpr other))
        next reads

theorem move_of_read (draft : Draft) (word : Word) (next : Draft)
    (reads : draft.read word = .ok next) : draft.Move word next := by
  obtain ⟨outer, level, phase⟩ := draft
  cases phase with
  | operand =>
      change (if _ then _ else _) = _ at reads
      split at reads
      · next negation =>
          cases reads
          obtain ⟨first, not⟩ := Bool.and_eq_true_iff.mp negation
          exact .leadingNot outer level word first not
      · next other =>
          exact operand_moves _ _ word (.operand word (Bool.eq_false_iff.mpr other)) next reads
  | leadingNot leading => exact operand_moves _ _ word (.leadingNot leading word) next reads
  | comparator field =>
      change readComparator _ field word = _ at reads
      rw [readComparator] at reads
      split at reads
      · cases reads
      · next brackets =>
          cases reads
          obtain ⟨opening, closing⟩ := Bool.or_eq_false_iff.mp (Bool.eq_false_iff.mpr brackets)
          exact .phase _ word _ (.comparator field word opening closing)
  | continuation field comparator quoted =>
      exact continuation_moves outer level field comparator quoted word next reads
  | extended field comparator => exact extended_moves outer level field comparator word next reads
  | value condition depth =>
      exact value_moves _ condition depth word (.value condition depth word) next reads
  | afterValue condition value depth =>
      exact after_value_moves outer level condition value depth word next reads
  | call condition value opened depth =>
      exact call_moves outer level condition value opened depth word next reads
  | afterList condition => exact after_list_moves outer level condition word next reads
  | connective => exact connective_moves outer level word next reads
  | afterConnective connective =>
      exact after_connective_moves outer level connective word next reads

theorem read_awaiting (draft : Draft) (word : Word) (condition : Condition) (depth : Nat)
    (awaits : draft.phase.Awaits word condition depth) :
    draft.read word = draft.readValue condition depth word := by
  obtain ⟨outer, level, phase⟩ := draft
  cases awaits with
  | continuation field comparator quoted _ alone =>
      change readContinuation _ field comparator quoted word = _
      rw [readContinuation, alone]
  | extended field comparator _ alone =>
      change readContinuation _ field comparator false word = _
      rw [readContinuation, if_neg Bool.false_ne_true, alone]
  | value => rfl
  | afterValue condition value depth _ bracket =>
      change readAfterValue _ condition value (depth + 1) word = _
      rw [readAfterValue, bracket, if_neg Bool.false_ne_true]
      rfl

theorem read_step (draft : Draft) (word : Word) (next : Phase)
    (step : draft.phase.Step word next) : draft.read word = .ok (draft.toPhase next) := by
  have other := word.is_other_token
  obtain ⟨outer, level, phase⟩ := draft
  cases step with
  | comparator field _ opening closing =>
      change readComparator _ field word = _
      rw [readComparator, opening, closing]
      rfl
  | continuation field comparator longer _ extended =>
      change readContinuation _ field comparator false word = _
      rw [readContinuation, if_neg Bool.false_ne_true, extended]
  | extended field comparator longer _ extended =>
      change readContinuation _ field comparator false word = _
      rw [readContinuation, if_neg Bool.false_ne_true, extended]
  | listOpens _ condition depth _ awaits opening =>
      rw [read_awaiting _ word condition depth awaits, readValue.eq_def, if_pos opening]
  | listCloses _ condition _ awaits closing =>
      rw [read_awaiting _ word condition 1 awaits, readValue.eq_def, if_pos closing,
        other _ _ closing (by decide), if_neg Bool.false_ne_true]
  | innerListCloses _ condition depth _ awaits closing =>
      rw [read_awaiting _ word condition _ awaits, readValue.eq_def, if_pos closing,
        other _ _ closing (by decide), if_neg Bool.false_ne_true]
  | comma _ condition depth _ awaits comma =>
      rw [read_awaiting _ word condition depth awaits, readValue.eq_def,
        other _ "(".toList comma (by decide), other _ ")".toList comma (by decide), if_pos comma]
      rfl
  | value _ condition depth _ awaits opening closing comma =>
      rw [read_awaiting _ word condition depth awaits, readValue.eq_def, opening, closing, comma]
      rfl
  | callOpens condition value depth _ opening =>
      change readAfterValue _ condition value depth word = _
      rw [readAfterValue, if_pos opening]
  | innerCallOpens condition value opened depth _ opening =>
      change readCall _ condition value opened depth word = _
      rw [readCall.eq_def, if_pos opening]
  | innerCallCloses condition value opened depth _ closing more =>
      change readCall _ condition value opened depth word = _
      rw [readCall.eq_def]
      dsimp only
      rw [if_pos closing, other _ _ closing (by decide), if_neg Bool.false_ne_true,
        if_neg (Nat.not_le_of_lt more)]
  | callCloses condition value opened _ closing last =>
      change readCall _ condition value opened 0 word = _
      rw [readCall.eq_def]
      dsimp only
      rw [if_pos closing, other _ _ closing (by decide), if_neg Bool.false_ne_true,
        if_pos last]
      rfl
  | listedCallCloses condition value opened depth _ closing last =>
      change readCall _ condition value opened (depth + 1) word = _
      rw [readCall.eq_def]
      dsimp only
      rw [if_pos closing, other _ _ closing (by decide), if_neg Bool.false_ne_true,
        if_pos last]
      rfl
  | argument condition value opened depth _ opening closing =>
      change readCall _ condition value opened depth word = _
      rw [readCall.eq_def, opening, closing]
      rfl
  | furtherValue condition value _ comma =>
      change readAfterValue _ condition value 0 word = _
      rw [readAfterValue, other _ "(".toList comma (by decide), if_neg Bool.false_ne_true]
      exact if_pos comma
  | furtherList condition _ comma =>
      change readAfterList _ condition word = _
      rw [readAfterList, if_pos comma]

theorem read_begins (draft : Draft) (word : Word) (level : Level)
    (begins : draft.phase.Begins draft.level word level) :
    draft.read word = readOperand { draft with level } word := by
  obtain ⟨outer, before, phase⟩ := draft
  cases begins with
  | operand _ plain => exact if_neg (Bool.eq_false_iff.mp plain)
  | leadingNot => rfl
  | afterConnective connective _ plain =>
      exact if_neg (Bool.eq_false_iff.mp plain)

theorem read_of_move (draft : Draft) (word : Word) (next : Draft) (move : draft.Move word next) :
    draft.read word = .ok next := by
  have other := fun word : Word => word.is_other_token
  induction move with
  | phase draft _ next step => exact read_step draft _ next step
  | leadingNot outer level _ first not =>
      change (if level.operands.isEmpty && _ then _ else _) = _
      rw [first, not]
      rfl
  | opening draft _ level begins opening room =>
      rw [read_begins draft _ level begins, readOperand, if_pos opening,
        if_neg (Nat.not_le_of_lt room)]
  | field draft _ level begins opening closing =>
      rw [read_begins draft _ level begins, readOperand, opening, closing]
      rfl
  | connective outer level junction word joins =>
      change readConnective _ _ = _
      rw [readConnective]
      cases junction with
      | and =>
          change word.isToken "and".toList = true at joins
          rw [other _ _ _ joins (by decide), if_neg Bool.false_ne_true, if_pos joins]
          rfl
      | or =>
          change word.isToken "or".toList = true at joins
          rw [other _ _ ")".toList joins (by decide), other _ _ "and".toList joins (by decide),
            if_neg Bool.false_ne_true, if_neg Bool.false_ne_true, if_pos joins]
          rfl
  | negation outer level junction _ not =>
      change readAfterConnective _ ⟨junction, false⟩ _ = _
      rw [readAfterConnective, not]
      rfl
  | closing outer parent level tree _ assembled closing =>
      change readConnective _ _ = _
      rw [readConnective, if_pos closing]
      dsimp only
      rw [assembled]
  | completion draft condition _ next ends behind _ induction =>
      obtain ⟨bracket, comma⟩ := behind _ rfl
      exact (read_behind_operand draft condition draft.phase ends _ bracket comma).trans
        induction

inductive Moves : Draft → List Word → Draft → Prop
  | nil (draft : Draft) : Moves draft [] draft
  | cons (draft next last : Draft) (word : Word) (rest : List Word) :
      Move draft word next → Moves next rest last → Moves draft (word :: rest) last

theorem run_of_moves (draft last : Draft) (words : List Word) (moves : draft.Moves words last)
    (rest : List Word) : draft.run (words ++ rest) = last.run rest := by
  induction moves with
  | nil => rfl
  | cons draft next last word later move _ induction =>
      rw [List.cons_append, run_of_read draft next word _ (read_of_move draft word next move),
        induction]

theorem moves_of_run (draft : Draft) (words : List Word) (tree : Tree)
    (accepted : draft.run words = .ok tree) :
    ∃ last, draft.Moves words last ∧ last.finish = .ok tree := by
  induction words generalizing draft with
  | nil => exact ⟨draft, .nil draft, accepted⟩
  | cons word rest induction =>
      rw [run_cons] at accepted
      cases reads : draft.read word with
      | error error =>
          rw [reads] at accepted
          cases accepted
      | ok next =>
          rw [reads] at accepted
          obtain ⟨last, moves, ends⟩ := induction next accepted
          exact ⟨last, .cons draft next last word rest (move_of_read draft word next reads) moves,
            ends⟩

/-- The level being read once its last operand is complete. -/
inductive Completes : Draft → Level → Prop
  | operand (outer : List Level) (level : Level) : Completes ⟨outer, level, .connective⟩ level
  | condition (draft : Draft) (condition : Condition) : Ends condition draft.phase →
      Completes draft (draft.level.push (.condition condition))

theorem run_completed (draft : Draft) (level : Level) (completes : draft.Completes level)
    (rest : List Word) (ends : EndsOperand rest) :
    draft.run rest = run ⟨draft.outer, level, .connective⟩ rest := by
  cases completes with
  | operand => rfl
  | condition _ condition behind =>
      exact run_behind_operand draft condition draft.phase behind rest ends

theorem assemble_of_finish (draft : Draft) (tree : Tree) (finishes : draft.finishLevel = .ok tree) :
    draft.outer = [] ∧ draft.level.assemble = .ok tree := by
  rw [finishLevel] at finishes
  split at finishes
  · next alone => exact ⟨alone, finishes⟩
  · cases finishes

/-- A draft can end where one level with a complete last operand is open. -/
theorem completes_of_finish (draft : Draft) (tree : Tree) (finishes : draft.finish = .ok tree) :
    draft.outer = [] ∧ ∃ level, draft.Completes level ∧ level.assemble = .ok tree := by
  obtain ⟨outer, level, phase⟩ := draft
  cases phase with
  | operand => cases outer <;> cases finishes
  | leadingNot | comparator | continuation | extended | call | afterConnective => cases finishes
  | value condition depth => cases depth <;> cases finishes
  | afterValue condition value depth =>
      cases depth with
      | zero =>
          obtain ⟨alone, assembled⟩ := assemble_of_finish _ tree finishes
          exact ⟨alone, _, .condition _ (condition.addValue value)
            (.inl ⟨value, condition.values, rfl, rfl⟩), assembled⟩
      | succ depth => cases finishes
  | afterList condition =>
      change (if condition.values.isEmpty then _ else _) = _ at finishes
      split at finishes
      · cases finishes
      · next some =>
          have written : condition.values ≠ [] := fun empty => some (List.isEmpty_iff.mpr empty)
          obtain ⟨alone, assembled⟩ := assemble_of_finish _ tree finishes
          exact ⟨alone, _, .condition _ condition (.inr ⟨rfl, written⟩), assembled⟩
  | connective =>
      obtain ⟨alone, assembled⟩ := assemble_of_finish _ tree finishes
      exact ⟨alone, level, .operand outer level, assembled⟩

end Draft

end FilterQuery
