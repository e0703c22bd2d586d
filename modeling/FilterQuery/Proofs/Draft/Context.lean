import FilterQuery.Proofs.Draft.Bracket
import FilterQuery.Proofs.Draft.Regular

/-!
Reading words inside a larger query. The levels around a draft, and what stands in front of it on
its lowest level, take no part in reading, except that they leave less room for brackets. So words
that make a query are read in the same way wherever an operand may begin.
-/

set_option autoImplicit false

namespace FilterQuery.Draft

/-- How a level relates to the level it is read as in a larger query: whatever is read makes the
same change to both. -/
structure Carries (related : Level → Level → Prop) : Prop where
  push : ∀ level other operand, related level other →
    related (level.push operand) (other.push operand)
  connective : ∀ level other connective, related level other →
    related { level with connectives := level.connectives ++ [connective] }
      { other with connectives := other.connectives ++ [connective] }

def Begun : Phase → Prop
  | .operand | .leadingNot _ => False
  | _ => True

theorem regular_of_moves (draft last : Draft) (words : List Word) (moves : draft.Moves words last)
    (regular : draft.Regular) : last.Regular := by
  induction moves with
  | nil => exact regular
  | cons draft next last word rest move _ induction =>
      have reads := draft.read_reads regular word
      rw [read_of_move draft word next move] at reads
      exact induction reads.1

theorem regular_completion (draft : Draft) (condition : Condition)
    (ends : Ends condition draft.phase) (regular : draft.Regular) :
    (draft.push (.condition condition)).Regular := by
  have ahead : draft.phase.ahead = 0 := by
    rcases ends with ⟨_, _, same, _⟩ | ⟨same, _⟩ <;> rw [same] <;> rfl
  have balanced := regular.balanced
  rw [ahead] at balanced
  exact ⟨draft.balanced_push balanced _ (Tree.Normal.condition condition), trivial⟩

theorem regular_of_completes (draft : Draft) (level : Level) (regular : draft.Regular)
    (completes : draft.Completes level) : level.Regular 1 := by
  cases completes with
  | operand => exact regular.balanced.level
  | condition _ condition ends =>
      exact (regular_completion draft condition ends regular).balanced.level

section Hosted

variable (related : Level → Level → Prop) (extra : List Level)

/-- The levels around a draft and those around the draft of a larger query, which has `extra` levels
more. The lowest levels of the two are related, and the levels inside them are the same. -/
inductive Around : List Level → List Level → Prop
  | lowest (level other : Level) : related level other → Around [level] (other :: extra)
  | inner (level : Level) (outer others : List Level) : Around outer others →
      Around (level :: outer) (level :: others)

/-- A draft and the draft of a larger query that has read the same words. -/
inductive Hosted : Draft → Draft → Prop
  | lowest (level other : Level) (phase : Phase) : related level other → Begun phase →
      Hosted ⟨[], level, phase⟩ ⟨extra, other, phase⟩
  | inner (outer others : List Level) (level : Level) (phase : Phase) :
      Around related extra outer others → Hosted ⟨outer, level, phase⟩ ⟨others, level, phase⟩

/-- Words that make a query by themselves, read on the level `other` inside the levels `extra`.
Alone they make the level `final`, and here the level `reached`. -/
structure ReadsWithin (other : Level) (words : List Word) (tree : Tree) (final reached : Level) :
    Prop where
  regular : final.Regular 1
  assembled : final.assemble = .ok tree
  related : related final reached
  brackets : Word.openBehindAll words extra.length = extra.length
  runs : ∀ rest, EndsOperand rest → runOperand ⟨extra, other, .operand⟩ (words ++ rest) =
    run ⟨extra, reached, .connective⟩ rest

variable {related} {extra}

theorem length_of_around (outer others : List Level) (around : Around related extra outer others) :
    others.length = outer.length + extra.length := by
  induction around with
  | lowest => exact Nat.add_comm _ _
  | inner level outer others _ induction =>
      rw [List.length_cons, List.length_cons, induction]
      omega

theorem length_of_hosted (alone host : Draft) (hosted : Hosted related extra alone host) :
    host.outer.length = alone.outer.length + extra.length := by
  cases hosted with
  | lowest => exact (Nat.zero_add _).symm
  | inner outer others _ _ around => exact length_of_around outer others around

theorem phase_of_hosted (alone host : Draft) (hosted : Hosted related extra alone host) :
    host.phase = alone.phase := by
  cases hosted <;> rfl

theorem around_of_hosted (alone host : Draft) (hosted : Hosted related extra alone host) :
    Around related extra (alone.level :: alone.outer) (host.level :: host.outer) := by
  cases hosted with
  | lowest level other _ same => exact .lowest level other same
  | inner outer others level _ around => exact .inner level outer others around

theorem hosted_to_phase (alone host : Draft) (hosted : Hosted related extra alone host)
    (phase : Phase) (begun : Begun phase) :
    Hosted related extra (alone.toPhase phase) (host.toPhase phase) := by
  cases hosted with
  | lowest level other _ same => exact .lowest level other phase same begun
  | inner outer others level _ around => exact .inner outer others level phase around

theorem hosted_push (carries : Carries related) (alone host : Draft)
    (hosted : Hosted related extra alone host) (operand : Tree) :
    Hosted related extra (alone.push operand) (host.push operand) := by
  cases hosted with
  | lowest level other _ same =>
      exact .lowest _ _ .connective (carries.push level other operand same) trivial
  | inner outer others level _ around => exact .inner outer others _ .connective around

theorem begun_of_step (phase next : Phase) (word : Word) (step : phase.Step word next) :
    Begun next := by
  cases step <;> trivial

theorem hosted_begins (carries : Carries related) (alone host : Draft) (word : Word)
    (level : Level) (hosted : Hosted related extra alone host)
    (begins : alone.phase.Begins alone.level word level) :
    ∃ other, host.phase.Begins host.level word other ∧
      ∀ phase, Begun phase → Hosted related extra ⟨alone.outer, level, phase⟩
        ⟨host.outer, other, phase⟩ := by
  cases hosted with
  | inner outer others level phase around =>
      exact ⟨_, begins, fun phase _ => .inner outer others _ phase around⟩
  | lowest level other phase same begun =>
      cases begins with
      | operand => exact begun.elim
      | leadingNot => exact begun.elim
      | afterConnective connective _ plain =>
          exact ⟨_, .afterConnective connective word plain, fun phase begun =>
            .lowest _ _ phase (carries.connective level other connective same) begun⟩

theorem hosted_move (carries : Carries related) (alone next host : Draft) (word : Word)
    (move : alone.Move word next) (hosted : Hosted related extra alone host)
    (fits : extra = [] ∨ word.openBehind host.opened ≤ maxBracketDepth) :
    ∃ other, host.Move word other ∧ Hosted related extra next other := by
  induction move generalizing host with
  | phase alone word next step =>
      rw [← phase_of_hosted alone host hosted] at step
      exact ⟨_, .phase host word next step,
        hosted_to_phase alone host hosted next (begun_of_step _ next word step)⟩
  | leadingNot outer level word first not =>
      cases hosted with
      | lowest _ _ _ _ begun => exact begun.elim
      | inner _ others _ _ around =>
          exact ⟨_, .leadingNot others level word first not, .inner outer others _ _ around⟩
  | opening alone word level begins opening room =>
      obtain ⟨other, here, reaches⟩ := hosted_begins carries alone host word level hosted begins
      have enough : host.outer.length < maxBracketDepth := by
        have length := length_of_hosted alone host hosted
        rcases fits with rfl | fits
        · rw [length, List.length_nil]
          exact room
        · rw [word.open_behind_opening _ opening, opened] at fits
          omega
      exact ⟨_, .opening host word other here opening enough, .inner _ _ .empty .operand
        (around_of_hosted _ _ (reaches .connective trivial))⟩
  | field alone word level begins opening closing =>
      obtain ⟨other, here, reaches⟩ := hosted_begins carries alone host word level hosted begins
      exact ⟨_, .field host word other here opening closing, reaches _ trivial⟩
  | connective outer level junction word joins =>
      cases hosted with
      | lowest _ other _ same begun =>
          exact ⟨_, .connective extra other junction word joins, .lowest _ _ _ same trivial⟩
      | inner _ others _ _ around =>
          exact ⟨_, .connective others level junction word joins, .inner outer others _ _ around⟩
  | negation outer level junction word not =>
      cases hosted with
      | lowest _ other _ same begun =>
          exact ⟨_, .negation extra other junction word not, .lowest _ _ _ same trivial⟩
      | inner _ others _ _ around =>
          exact ⟨_, .negation others level junction word not, .inner outer others _ _ around⟩
  | closing outer parent level tree word assembled closing =>
      cases hosted with
      | inner _ others _ _ around =>
          cases around with
          | lowest _ other same =>
              exact ⟨_, .closing extra other level tree word assembled closing,
                .lowest _ _ _ (carries.push parent other tree same) trivial⟩
          | inner _ _ others around =>
              exact ⟨_, .closing others parent level tree word assembled closing,
                .inner outer others _ _ around⟩
  | completion alone condition word next ends behind _ induction =>
      have phase := phase_of_hosted alone host hosted
      rw [← phase] at ends
      have whole : (host.push (.condition condition)).opened = host.opened := by
        rw [opened, opened, host.phase.opened_of_ends condition ends]
        rfl
      obtain ⟨other, move, reaches⟩ := induction (host.push (.condition condition))
        (hosted_push carries alone host hosted _) (by rwa [whole])
      exact ⟨other, .completion host condition word other ends behind move, reaches⟩

theorem hosted_moves (carries : Carries related) (alone last host : Draft) (words : List Word)
    (moves : alone.Moves words last) (hosted : Hosted related extra alone host)
    (inside : host.phase.Inside)
    (fits : extra = [] ∨ Word.nesting host.opened words ≤ maxBracketDepth) :
    ∃ other, host.Moves words other ∧ Hosted related extra last other := by
  induction moves generalizing host with
  | nil alone => exact ⟨host, .nil host, hosted⟩
  | cons alone next last word rest move _ induction =>
      have later : extra = [] ∨
          Word.nesting (word.openBehind host.opened) rest ≤ maxBracketDepth :=
        fits.imp_right fun bounded => (Nat.le_max_right _ _).trans bounded
      obtain ⟨between, first, reached⟩ := hosted_move carries alone next host word move hosted
        (later.imp_right (Word.le_nesting _ rest).trans)
      have opened := opened_of_move host between word first inside
      obtain ⟨other, moves, reaches⟩ := induction between reached opened.1 (by rwa [opened.2])
      exact ⟨other, .cons host between other word rest first moves, reaches⟩

theorem hosted_completes (carries : Carries related) (alone host : Draft) (level : Level)
    (hosted : Hosted related extra alone host) (lowest : alone.outer = [])
    (completes : alone.Completes level) :
    ∃ other, host.Completes other ∧ related level other ∧ host.outer = extra := by
  cases hosted with
  | lowest before other phase same =>
      cases completes with
      | operand => exact ⟨other, .operand extra other, same, rfl⟩
      | condition _ condition ends =>
          exact ⟨_, .condition ⟨extra, other, phase⟩ condition ends,
            carries.push before other _ same, rfl⟩
  | inner outer others _ _ around =>
      obtain rfl : outer = [] := lowest
      cases around

theorem hosted_operand (level other : Level) (same : related level other) (word : Word)
    (next : Draft) (reads : readOperand ⟨[], level, .operand⟩ word = .ok next)
    (fits : extra = [] ∨ word.openBehind extra.length ≤ maxBracketDepth) :
    ∃ host, readOperand ⟨extra, other, .operand⟩ word = .ok host ∧
      Hosted related extra next host ∧ host.phase.Inside ∧
        host.opened = word.openBehind extra.length := by
  rw [readOperand] at reads
  split at reads
  · next opening =>
      cases reads
      have room : ¬ maxBracketDepth ≤ extra.length := by
        rcases fits with rfl | fits
        · decide
        · rw [word.open_behind_opening _ opening] at fits
          omega
      refine ⟨⟨other :: extra, .empty, .operand⟩, ?_,
        .inner _ _ _ _ (.lowest level other same), trivial, ?_⟩
      · rw [readOperand, if_pos opening, if_neg room]
      · exact (word.open_behind_opening _ opening).symm
  · next bracket =>
      have opening := Bool.eq_false_iff.mpr bracket
      split at reads
      · split at reads <;> cases reads
      · next bracket =>
          have closing := Bool.eq_false_iff.mpr bracket
          cases reads
          refine ⟨⟨extra, other, .comparator word⟩, ?_, .lowest _ _ _ same trivial, trivial, ?_⟩
          · rw [readOperand, opening, closing]
            rfl
          · exact (word.open_behind_other _ opening closing).symm

/-- The operands of a query are read in a larger one as they are read alone. -/
theorem reads_within (carries : Carries related) (level other : Level) (same : related level other)
    (regular : level.Regular 0) (words : List Word) (tree : Tree)
    (accepted : runOperand ⟨[], level, .operand⟩ words = .ok tree)
    (fits : extra = [] ∨ Word.nesting extra.length words ≤ maxBracketDepth) :
    ∃ final reached, ReadsWithin related extra other words tree final reached := by
  cases words with
  | nil => cases accepted
  | cons word words =>
      have later : extra = [] ∨
          Word.nesting (word.openBehind extra.length) words ≤ maxBracketDepth :=
        fits.imp_right fun bounded => (Nat.le_max_right _ _).trans bounded
      rw [runOperand] at accepted
      cases reads : readOperand ⟨[], level, .operand⟩ word with
      | error error =>
          rw [reads] at accepted
          cases accepted
      | ok next =>
          have begun := operand_reads ⟨[], level, .operand⟩ ⟨List.forall_mem_nil _, regular⟩ word
          rw [reads] at accepted begun
          obtain ⟨host, begins, hosted, inside, brackets⟩ :=
            hosted_operand level other same word next reads
              (later.imp_right (Word.le_nesting _ words).trans)
          obtain ⟨last, moves, finishes⟩ := moves_of_run next words tree accepted
          obtain ⟨alone, final, completes, assembled⟩ := completes_of_finish last tree finishes
          rw [← brackets] at later
          obtain ⟨hostLast, hostMoves, ended⟩ := hosted_moves carries next last host words moves
            hosted inside later
          obtain ⟨reached, hostCompletes, matched, around⟩ :=
            hosted_completes carries last hostLast final ended alone completes
          refine ⟨final, reached, ?_, assembled, matched, ?_, ?_⟩
          · exact regular_of_completes last final (regular_of_moves next last words moves begun.1)
              completes
          · have whole := (opened_of_moves host hostLast words hostMoves inside).2
            rw [opened, opened_of_completes hostLast reached hostCompletes, around,
              Nat.add_zero] at whole
            rw [Word.openBehindAll, List.foldl_cons, ← brackets]
            exact whole.symm
          · intro rest ends
            rw [List.cons_append, runOperand, begins]
            change host.run (words ++ rest) = _
            rw [run_of_moves host hostLast words hostMoves,
              run_completed hostLast reached hostCompletes rest ends, around]

end Hosted

end FilterQuery.Draft
