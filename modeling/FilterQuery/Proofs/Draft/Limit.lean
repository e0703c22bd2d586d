import FilterQuery.Proofs.Draft.Move

/-!
The limit of nested groups. A reader without it opens a group at every bracket that stands where an
operand may begin. Words are refused for the depth of their brackets exactly if this reader has more
groups open at one time than the limit allows, however many groups the words have side by side.
-/

set_option autoImplicit false

namespace FilterQuery

namespace Draft

/-- The level on which the word opens a group. Only a bracket where an operand may begin does. -/
def groupOpened? (draft : Draft) (word : Word) : Option Level :=
  if word.isToken "(".toList then
    match draft.phase with
    | .operand => some draft.level
    | .leadingNot _ => some { draft.level with negated := true }
    | .afterConnective connective =>
        some { draft.level with connectives := draft.level.connectives ++ [connective] }
    | _ => none
  else none

/-- Reads one more word without the limit. -/
def readFreely (draft : Draft) (word : Word) : Except SyntaxError Draft :=
  match draft.groupOpened? word with
  | some level => .ok ⟨level :: draft.outer, .empty, .operand⟩
  | none => draft.read word

/-- The greatest number of groups that are open at one time while words are read without the
limit. -/
def groupNesting (draft : Draft) : List Word → Nat
  | [] => draft.outer.length
  | word :: rest =>
      match draft.readFreely word with
      | .ok next => max draft.outer.length (groupNesting next rest)
      | .error _ => draft.outer.length

theorem begins_of_group_opened (draft : Draft) (word : Word) (level : Level)
    (opened : draft.groupOpened? word = some level) :
    word.isToken "(".toList = true ∧ draft.phase.Begins draft.level word level := by
  rw [groupOpened?] at opened
  split at opened
  · next opening =>
      have plain := word.is_other_token _ "not".toList opening (by decide)
      obtain ⟨outer, before, phase⟩ := draft
      refine ⟨opening, ?_⟩
      cases phase <;> cases opened
      · exact .operand word (by rw [plain, Bool.and_false])
      · exact .leadingNot _ word
      · exact .afterConnective _ word (by rw [plain, Bool.and_false])
  · cases opened

theorem group_opened_of_begins (draft : Draft) (word : Word) (level : Level)
    (opening : word.isToken "(".toList = true)
    (begins : draft.phase.Begins draft.level word level) :
    draft.groupOpened? word = some level := by
  obtain ⟨outer, before, phase⟩ := draft
  rw [groupOpened?, if_pos opening]
  cases begins <;> rfl

section Cause

variable (draft : Draft) (word : Word)

theorem operand_within_limit (other : word.isToken "(".toList = false) :
    ¬ TooDeep (draft.readOperand word) := by
  rintro ⟨understood, refused⟩
  rw [readOperand, other, if_neg Bool.false_ne_true] at refused
  split at refused
  · split at refused <;> cases refused
  · cases refused

theorem value_within_limit (condition : Condition) (depth : Nat) :
    ¬ TooDeep (draft.readValue condition depth word) := by
  rintro ⟨understood, refused⟩
  unfold readValue at refused
  split at refused
  · cases refused
  · split at refused
    · split at refused <;> cases refused
    · split at refused <;> cases refused

theorem continuation_within_limit (field : Word) (comparator : Text) (quoted : Bool) :
    ¬ TooDeep (draft.readContinuation field comparator quoted word) := by
  rw [readContinuation]
  split
  · rintro ⟨understood, refused⟩
    cases refused
  · exact draft.value_within_limit word _ 0

theorem assemble_within_limit (level : Level) : ¬ TooDeep level.assemble := by
  rintro ⟨understood, refused⟩
  unfold Level.assemble Tree.assemble at refused
  split at refused
  · cases refused
  · split at refused <;> cases refused

theorem connective_within_limit : ¬ TooDeep (draft.readConnective word) := by
  rintro ⟨understood, refused⟩
  rw [readConnective] at refused
  split at refused
  · split at refused
    · cases refused
    · dsimp only at refused
      split at refused
      · cases refused
      · next error failed =>
          have deep : error.cause = .bracketsTooDeep :=
            congrArg SyntaxError.cause (Except.error.inj refused)
          exact assemble_within_limit draft.level ⟨error.understood, by rw [failed, ← deep]⟩
  · split at refused
    · cases refused
    · split at refused <;> cases refused

theorem after_value_within_limit (condition : Condition) (value : Word) (depth : Nat) :
    ¬ TooDeep (draft.readAfterValue condition value depth word) := by
  rw [readAfterValue]
  split
  · rintro ⟨understood, refused⟩
    cases refused
  · dsimp only
    split
    · split
      · rintro ⟨understood, refused⟩
        cases refused
      · exact connective_within_limit _ word
    · exact draft.value_within_limit word _ _

theorem call_within_limit (condition : Condition) (value : Word) (opened depth : Nat) :
    ¬ TooDeep (draft.readCall condition value opened depth word) := by
  rintro ⟨understood, refused⟩
  unfold readCall at refused
  dsimp only at refused
  split at refused
  · cases refused
  · split at refused
    · split at refused
      · cases depth <;> cases refused
      · cases refused
    · cases refused

theorem after_list_within_limit (condition : Condition) :
    ¬ TooDeep (draft.readAfterList condition word) := by
  rw [readAfterList]
  split
  · rintro ⟨understood, refused⟩
    cases refused
  · split
    · rintro ⟨understood, refused⟩
      cases refused
    · exact connective_within_limit _ word

/-- Only a bracket that opens a group is refused for its depth. -/
theorem read_within_limit (unopened : draft.groupOpened? word = none) :
    ¬ TooDeep (draft.read word) := by
  obtain ⟨outer, level, phase⟩ := draft
  have other : (∃ level', phase.Begins level word level') → word.isToken "(".toList = false := by
    rintro ⟨level', begins⟩
    refine Bool.eq_false_iff.mpr fun opening => ?_
    have opened := group_opened_of_begins ⟨outer, level, phase⟩ word level' opening begins
    rw [unopened] at opened
    cases opened
  cases phase with
  | operand =>
      change ¬ TooDeep (if _ then _ else _)
      split
      · rintro ⟨understood, refused⟩
        cases refused
      · next plain =>
          exact operand_within_limit _ word (other ⟨_, .operand word (Bool.eq_false_iff.mpr plain)⟩)
  | leadingNot leading =>
      exact operand_within_limit _ word (other ⟨_, .leadingNot leading word⟩)
  | comparator field =>
      change ¬ TooDeep (if _ then _ else _)
      split <;>
      · rintro ⟨understood, refused⟩
        cases refused
  | continuation field comparator quoted => exact continuation_within_limit _ word _ _ _
  | extended field comparator => exact continuation_within_limit _ word _ _ _
  | value condition depth => exact value_within_limit _ word _ _
  | afterValue condition value depth => exact after_value_within_limit _ word _ _ _
  | call condition value opened depth => exact call_within_limit _ word _ _ _ _
  | afterList condition => exact after_list_within_limit _ word _
  | connective => exact connective_within_limit _ word
  | afterConnective connective =>
      change ¬ TooDeep (if _ then _ else _)
      split
      · rintro ⟨understood, refused⟩
        cases refused
      · next plain =>
          exact operand_within_limit _ word
            (other ⟨_, .afterConnective connective word (Bool.eq_false_iff.mpr plain)⟩)

theorem finish_level_within_limit : ¬ TooDeep draft.finishLevel := by
  rw [finishLevel]
  split
  · exact assemble_within_limit draft.level
  · rintro ⟨understood, refused⟩
    cases refused

theorem finish_within_limit : ¬ TooDeep draft.finish := by
  have failing : ∀ cause unfinished, cause ≠ .bracketsTooDeep →
      ¬ TooDeep (draft.fail cause unfinished : Except SyntaxError Tree) := by
    rintro cause unfinished other ⟨understood, refused⟩
    exact other (congrArg SyntaxError.cause (Except.error.inj refused))
  rw [finish]
  split
  · split <;> exact failing _ _ nofun
  · exact failing _ _ nofun
  · exact failing _ _ nofun
  · exact failing _ _ nofun
  · exact failing _ _ nofun
  · exact failing _ _ nofun
  · exact failing _ _ nofun
  · dsimp only
    split
    · exact finish_level_within_limit _
    · exact failing _ _ nofun
  · exact failing _ _ nofun
  · split
    · exact failing _ _ nofun
    · exact finish_level_within_limit _
  · exact finish_level_within_limit draft
  · exact failing _ _ nofun

end Cause

/-- No other word opens a group. -/
theorem outer_of_move (draft next : Draft) (word : Word) (move : draft.Move word next)
    (unopened : draft.groupOpened? word = none) : next.outer.length ≤ draft.outer.length := by
  induction move with
  | phase | leadingNot | field | connective | negation => exact Nat.le_refl _
  | opening draft word level begins opening =>
      rw [group_opened_of_begins draft word level opening begins] at unopened
      cases unopened
  | closing outer parent => exact Nat.le_succ outer.length
  | completion draft condition word next _ behind _ induction =>
      have other := (behind word rfl).1
      refine induction ?_
      rw [groupOpened?, other]
      rfl

theorem le_group_nesting (draft : Draft) (words : List Word) :
    draft.outer.length ≤ draft.groupNesting words := by
  cases words with
  | nil => exact Nat.le_refl _
  | cons word rest =>
      rw [groupNesting]
      split
      · exact Nat.le_max_left _ _
      · exact Nat.le_refl _

/-- A group that is opened where the limit is reached is refused. -/
theorem read_full (draft : Draft) (word : Word) (level : Level)
    (opened : draft.groupOpened? word = some level) (full : maxBracketDepth ≤ draft.outer.length) :
    TooDeep (draft.read word) := by
  obtain ⟨opening, begins⟩ := draft.begins_of_group_opened word level opened
  rw [read_begins draft word level begins, readOperand, if_pos opening, if_pos full]
  exact ⟨_, rfl⟩

/-- With room for one more group the limit changes nothing. -/
theorem read_freely_eq_read (draft : Draft) (word : Word)
    (room : draft.outer.length < maxBracketDepth) : draft.readFreely word = draft.read word := by
  rw [readFreely]
  split
  · next level opened =>
      obtain ⟨opening, begins⟩ := draft.begins_of_group_opened word level opened
      rw [read_begins draft word level begins, readOperand, if_pos opening,
        if_neg (Nat.not_le_of_lt room)]
  · rfl

theorem too_deep_of_read (draft : Draft) (word : Word) (rest : List Word)
    (refused : TooDeep (draft.read word)) : TooDeep (draft.run (word :: rest)) := by
  obtain ⟨understood, refused⟩ := refused
  rw [run_of_error draft _ word rest refused]
  exact ⟨understood, rfl⟩

/-- Words are refused for the depth of their brackets exactly if more groups than the limit are open
at one time. -/
theorem run_too_deep_iff (draft : Draft) (within : draft.outer.length ≤ maxBracketDepth)
    (words : List Word) :
    TooDeep (draft.run words) ↔ maxBracketDepth < draft.groupNesting words := by
  induction words generalizing draft with
  | nil => exact iff_of_false draft.finish_within_limit (Nat.not_lt.mpr within)
  | cons word rest induction =>
      have deeper : ∀ next, draft.readFreely word = .ok next →
          (maxBracketDepth < draft.groupNesting (word :: rest) ↔
            maxBracketDepth < next.groupNesting rest) := by
        intro next reads
        rw [groupNesting, reads, lt_max_iff]
        exact or_iff_right (Nat.not_lt.mpr within)
      cases opened : draft.groupOpened? word with
      | some level =>
          have freely : draft.readFreely word = .ok ⟨level :: draft.outer, .empty, .operand⟩ := by
            rw [readFreely, opened]
          rw [deeper _ freely]
          rcases Nat.lt_or_ge draft.outer.length maxBracketDepth with room | limit
          · rw [draft.read_freely_eq_read word room] at freely
            rw [run_of_read draft _ word rest freely]
            exact induction _ room
          · have full := draft.read_full word level opened limit
            have refused := draft.too_deep_of_read word rest full
            have longer := le_group_nesting ⟨level :: draft.outer, .empty, .operand⟩ rest
            exact iff_of_true refused ((Nat.lt_succ_of_le limit).trans_le longer)
      | none =>
          have freely : draft.readFreely word = draft.read word := by rw [readFreely, opened]
          have shallow := draft.read_within_limit word opened
          cases reads : draft.read word with
          | error error =>
              rw [run_of_error draft error word rest reads, groupNesting, freely, reads]
              refine iff_of_false ?_ (Nat.not_lt.mpr within)
              rintro ⟨understood, refused⟩
              exact shallow ⟨understood, reads.trans (congrArg Except.error
                (Except.error.inj refused))⟩
          | ok next =>
              have move := move_of_read draft word next reads
              have fewer := outer_of_move draft next word move opened
              rw [deeper next (freely.trans reads), run_of_read draft next word rest reads]
              exact induction next (fewer.trans within)

end Draft

end FilterQuery
