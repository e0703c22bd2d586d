import FilterQuery.Proofs.Composition
import FilterQuery.Proofs.Descent.Condition

/-!
Reading a group at one stretch. A bracket that opens a group is a call, which counts how many groups
are open and returns behind the bracket that closes the group. The count and every assembly of a
tree are kept in a state that a failing call leaves behind too. The descent gives the query or the
error that the words give one after another.
-/

set_option autoImplicit false

namespace FilterQuery

/-- One assembly of a tree, by the numbers of its operands and connectives. -/
structure Assembly where
  operands : Nat
  connectives : Nat
deriving DecidableEq

namespace Descent

structure State where
  /-- The words that are not read yet. -/
  rest : List Word
  /-- How many groups have been entered and not left. -/
  depth : Nat
  assemblies : List Assembly

abbrev Outcome : Type := Except SyntaxError Tree × State

def assemble (operands : List Tree) (connectives : List Connective) (state : State) : Outcome :=
  (Tree.assemble operands connectives,
    { state with assemblies := state.assemblies ++ [⟨operands.length, connectives.length⟩] })

/-- What remains of a level. Where it has no operand there is nothing to assemble. -/
def recover (level : Level) (unfinished : Option Tree) (state : State) : Option Tree × State :=
  let operands := level.operands ++ (unfinished.map (Tree.negateIf level.negated)).toList
  if operands.isEmpty then (none, state)
  else
    (assemble operands (level.connectives.take (operands.length - 1)) state).map Except.toOption id

def fail (cause : SyntaxError.Cause) (level : Level) (unfinished : Option Tree) (state : State) :
    Outcome :=
  (recover level unfinished state).map (fun understood => .error ⟨cause, understood⟩) id

/-- The group behind an opening bracket. It counts as open while it is read. -/
def nested (group : State → Outcome) (state : State) : Outcome :=
  if maxBracketDepth ≤ state.depth then (.error ⟨.bracketsTooDeep, none⟩, state)
  else
    (group { state with depth := state.depth + 1 }).map id fun after =>
      { after with depth := after.depth - 1 }

def operand (group : State → Outcome) (closed : SyntaxError.Cause) (word : Word) (state : State) :
    Outcome :=
  if word.isToken "(".toList then nested group state
  else if word.isToken ")".toList then (.error ⟨closed, none⟩, state)
  else
    match condition word state.rest with
    | (.ok leaf, rest) => (.ok (.condition leaf), { state with rest })
    | (.error (cause, leaf), rest) => (.error ⟨cause, some (.condition leaf)⟩, { state with rest })

def junction? (word : Word) : Option Junction :=
  if word.isToken "and".toList then some .and
  else if word.isToken "or".toList then some .or
  else none

/-- The `not` behind a connective. Some word has to follow. -/
def joined (junction : Junction) (rest : List Word) :
    Except SyntaxError.Cause Connective × List Word :=
  let negated := Word.nextIs "not".toList rest
  let later := if negated then rest.tail else rest
  (if later.isEmpty then .error (.operandExpected ⟨junction, negated⟩) else .ok ⟨junction, negated⟩,
    later)

def connective (word : Word) (rest : List Word) :
    Except SyntaxError.Cause Connective × List Word :=
  match junction? word with
  | none => (.error (.notAConnective word.text), rest)
  | some junction => joined junction rest

def finish (inside : Bool) (level : Level) (state : State) : Outcome :=
  if inside then fail .unclosedBracket level none state
  else assemble level.operands level.connectives state

def behindOperand (further : Level → State → Outcome) (inside : Bool) (level : Level)
    (state : State) : Outcome :=
  match state.rest with
  | [] => finish inside level state
  | word :: rest =>
      if word.isToken ")".toList then
        if inside then assemble level.operands level.connectives { state with rest }
        else fail .unexpectedClose level none { state with rest }
      else
        match connective word rest with
        | (.error cause, rest) => fail cause level none { state with rest }
        | (.ok connective, rest) =>
            further { level with connectives := level.connectives ++ [connective] }
              { state with rest }

def afterOperand (further : Level → State → Outcome) (inside : Bool) (level : Level) :
    Outcome → Outcome
  | (.error error, after) => fail error.cause level error.understood after
  | (.ok tree, after) => behindOperand further inside (level.push tree) after

/-- The `not` in front of the first operand, if a word follows it. -/
def leading (level : Level) (word : Word) : List Word → Level × Word × List Word
  | [] => (level, word, [])
  | next :: rest =>
      if level.operands.isEmpty && word.isToken "not".toList then
        ({ level with negated := true }, next, rest)
      else (level, word, next :: rest)

def closedEarly (inside : Bool) (level : Level) : SyntaxError.Cause :=
  if level.operands.isEmpty && inside then .emptyBrackets else .unexpectedClose

/-- Reads operands up to the bracket that closes the group, or up to the end of the words outside
of all brackets. There is at most one step for each word. -/
def group : Nat → Bool → Level → State → Outcome
  | 0, _, _, state => (.error ⟨.emptyQuery, none⟩, state)
  | fuel + 1, inside, level, state =>
      match state.rest with
      | [] => finish inside level state
      | word :: rest =>
          let (level, word, rest) := leading level word rest
          afterOperand (group fuel inside) inside level
            (operand (group fuel true .empty) (closedEarly inside level) word { state with rest })

def ofWords (words : List Word) : Outcome :=
  if words.isEmpty then (.error ⟨.emptyQuery, none⟩, ⟨words, 0, []⟩)
  else group (words.length + 1) false .empty ⟨words, 0, []⟩

/-- What a call does to the state whether it fails or not: the groups it has entered are left, and
it reads on where it began. -/
structure Onward (before after : State) : Prop where
  depth : after.depth = before.depth
  rest : after.rest <:+ before.rest

namespace Onward

theorem refl (state : State) : Onward state state := ⟨rfl, List.suffix_rfl⟩

theorem trans {first second third : State} (before : Onward first second)
    (after : Onward second third) : Onward first third :=
  ⟨after.depth.trans before.depth, after.rest.trans before.rest⟩

theorem of_rest (state : State) (rest : List Word) (suffix : rest <:+ state.rest) :
    Onward state { state with rest } := ⟨rfl, suffix⟩

end Onward

/-- Behind a connective that is on the level: there is an operand in front of it, and some word
follows. -/
structure Follows (level : Level) (before later : State) : Prop extends Onward before later where
  filled : level.operands ≠ []
  nonempty : later.rest ≠ []

theorem recover_onward (level : Level) (unfinished : Option Tree) (state : State) :
    Onward state (recover level unfinished state).2 := by
  rw [recover]
  split
  · exact .refl state
  · exact ⟨rfl, List.suffix_rfl⟩

theorem finish_onward (inside : Bool) (level : Level) (state : State) :
    Onward state (finish inside level state).2 := by
  rw [finish]
  split
  · exact recover_onward level none state
  · exact ⟨rfl, List.suffix_rfl⟩

theorem nested_onward (group : State → Outcome)
    (onward : ∀ state, Onward state (group state).2) (state : State) :
    Onward state (nested group state).2 := by
  rw [nested]
  split
  · exact .refl state
  · have inner := onward { state with depth := state.depth + 1 }
    refine ⟨?_, inner.rest⟩
    change _ - 1 = _
    rw [inner.depth]
    exact Nat.add_sub_cancel _ _

theorem operand_onward (group : State → Outcome)
    (onward : ∀ state, Onward state (group state).2) (closed : SyntaxError.Cause) (word : Word)
    (state : State) : Onward state (operand group closed word state).2 := by
  have suffix := condition_suffix word state.rest
  rw [operand]
  split
  · exact nested_onward group onward state
  · split
    · exact .refl state
    · generalize condition word state.rest = reading at suffix
      obtain ⟨⟨cause, leaf⟩ | leaf, rest⟩ := reading <;> exact .of_rest state rest suffix

theorem connective_suffix (word : Word) (rest : List Word) :
    (connective word rest).2 <:+ rest := by
  rw [connective]
  split
  · exact List.suffix_rfl
  · change (if _ then rest.tail else rest) <:+ rest
    split
    · exact List.tail_suffix rest
    · exact List.suffix_rfl

theorem word_behind_connective (word : Word) (rest later : List Word) (connective : Connective)
    (read : Descent.connective word rest = (.ok connective, later)) : later ≠ [] := by
  rw [Descent.connective] at read
  split at read
  · cases read
  · rw [joined] at read
    obtain ⟨result, rfl⟩ := Prod.mk.inj read
    intro none
    rw [if_pos (List.isEmpty_iff.mpr none)] at result
    cases result

theorem behind_operand_onward (further : Level → State → Outcome)
    (onward : ∀ level state, Onward state (further level state).2) (inside : Bool) (level : Level)
    (state : State) : Onward state (behindOperand further inside level state).2 := by
  rw [behindOperand]
  split
  · exact finish_onward inside level state
  · next word rest same =>
      have suffix : rest <:+ state.rest := same ▸ List.suffix_cons word rest
      split
      · split
        · exact ⟨rfl, suffix⟩
        · exact (Onward.of_rest state rest suffix).trans (recover_onward level none _)
      · have later := (connective_suffix word rest).trans suffix
        generalize connective word rest = joined at later
        obtain ⟨cause | connective, rest⟩ := joined
        · exact (Onward.of_rest state rest later).trans (recover_onward level none _)
        · exact (Onward.of_rest state rest later).trans (onward _ _)

theorem after_operand_onward (further : Level → State → Outcome)
    (onward : ∀ level state, Onward state (further level state).2) (inside : Bool) (level : Level)
    (outcome : Outcome) : Onward outcome.2 (afterOperand further inside level outcome).2 := by
  obtain ⟨error | tree, after⟩ := outcome
  · exact recover_onward level error.understood after
  · exact behind_operand_onward further onward inside (level.push tree) after

theorem leading_suffix (level : Level) (word : Word) (rest : List Word) :
    (leading level word rest).2.2 <:+ rest := by
  cases rest with
  | nil => exact List.suffix_rfl
  | cons next rest =>
      rw [leading]
      split
      · exact List.suffix_cons next rest
      · exact List.suffix_rfl

theorem leading_shorter (level : Level) (word : Word) (rest : List Word) (fuel : Nat)
    (enough : (word :: rest).length < fuel + 1) :
    (leading level word rest).2.2.length < fuel := by
  have suffix := (leading_suffix level word rest).length_le
  rw [List.length_cons] at enough
  omega

theorem group_onward (fuel : Nat) (inside : Bool) (level : Level) (state : State) :
    Onward state (group fuel inside level state).2 := by
  induction fuel generalizing inside level state with
  | zero => exact .refl state
  | succ fuel induction =>
      rw [group]
      split
      · exact finish_onward inside level state
      · next word rest same =>
          have suffix := leading_suffix level word rest
          generalize leading level word rest = begun at suffix
          obtain ⟨level, word, rest⟩ := begun
          have first := operand_onward (group fuel true .empty) (induction true .empty)
            (closedEarly inside level) word { state with rest }
          have behind : Onward state { state with rest } := by
            refine .of_rest state rest ?_
            rw [same]
            exact suffix.trans (List.suffix_cons _ _)
          exact (behind.trans first).trans
            (after_operand_onward (group fuel inside) (induction inside) inside level _)

theorem tree_of_recover (level : Level) (unfinished : Option Tree) (state : State) :
    (recover level unfinished state).1 = level.recover unfinished := by
  rw [recover, Level.recover, Tree.recover]
  split
  · next none =>
      rw [List.isEmpty_iff.mp none]
      rfl
  · rfl

end Descent

namespace Draft

/-- What becomes of the levels around a group that was read at one stretch. -/
def resume : List Level → Descent.Outcome → Except SyntaxError Tree
  | [], (result, _) => result
  | parent :: outer, (.ok tree, after) => run (push ⟨outer, parent, .operand⟩ tree) after.rest
  | parent :: outer, (.error error, _) =>
      .error ⟨error.cause, recover ⟨outer, parent, .operand⟩ error.understood⟩

theorem resume_fail (outer : List Level) (level : Level) (phase : Phase)
    (cause : SyntaxError.Cause) (unfinished : Option Tree) (state : Descent.State) :
    resume outer (Descent.fail cause level unfinished state) =
      fail ⟨outer, level, phase⟩ cause unfinished := by
  have tree := Descent.tree_of_recover level unfinished state
  rw [Descent.fail]
  generalize Descent.recover level unfinished state = recovered at tree
  obtain ⟨understood, after⟩ := recovered
  obtain rfl : understood = level.recover unfinished := tree
  cases outer <;> rfl

theorem resume_assemble (parent level : Level) (outer : List Level) (state : Descent.State) :
    resume (parent :: outer) (Descent.assemble level.operands level.connectives state) =
      match level.assemble with
      | .ok tree => run (push ⟨outer, parent, .operand⟩ tree) state.rest
      | .error error => fail ⟨outer, parent, .operand⟩ error.cause error.understood := by
  rw [Descent.assemble, Level.assemble]
  cases Tree.assemble level.operands level.connectives <;> rfl

theorem resume_finish (outer : List Level) (level : Level) (state : Descent.State) :
    resume outer (Descent.finish (!outer.isEmpty) level state) =
      finishLevel ⟨outer, level, .connective⟩ := by
  cases outer with
  | nil => rfl
  | cons parent outer => exact resume_fail (parent :: outer) level _ .unclosedBracket none state

theorem run_operand_of_leading (outer : List Level) (level : Level) (word : Word)
    (rest : List Word) :
    run ⟨outer, level, .operand⟩ (word :: rest) =
      runOperand ⟨outer, (Descent.leading level word rest).1, .operand⟩
        ((Descent.leading level word rest).2.1 :: (Descent.leading level word rest).2.2) := by
  have plain : (level.operands.isEmpty && word.isToken "not".toList) = false →
      run ⟨outer, level, .operand⟩ (word :: rest) =
        runOperand ⟨outer, level, .operand⟩ (word :: rest) := by
    intro other
    rw [run_cons]
    change (if _ then _ else _) >>= _ = _
    rw [other, if_neg Bool.false_ne_true]
    rfl
  cases rest with
  | nil =>
      cases leads : level.operands.isEmpty && word.isToken "not".toList with
      | false => exact plain leads
      | true =>
          -- Where the words end a `not` is a field.
          have not := (Bool.and_eq_true_iff.mp leads).2
          rw [run_cons]
          change (if _ then _ else _) >>= _ = readOperand _ word >>= _
          rw [leads, if_pos rfl, readOperand, word.is_other_token _ _ not (by decide),
            word.is_other_token _ _ not (by decide)]
          rfl
  | cons next rest =>
      rw [Descent.leading]
      split
      · next leads =>
          rw [run_cons]
          change (if _ then _ else _) >>= _ = _
          rw [if_pos leads]
          exact run_cons _ next rest
      · next other => exact plain (Bool.eq_false_iff.mpr other)

theorem run_later_operand (outer : List Level) (level : Level) (filled : level.operands ≠ [])
    (words : List Word) (nonempty : words ≠ []) :
    run ⟨outer, level, .operand⟩ words = runOperand ⟨outer, level, .operand⟩ words := by
  obtain ⟨word, rest, rfl⟩ := List.exists_cons_of_ne_nil nonempty
  rw [run_operand_of_leading]
  cases rest with
  | nil => rfl
  | cons next rest =>
      have some : level.operands.isEmpty = false := List.isEmpty_eq_false_iff.mpr filled
      rw [Descent.leading, some, Bool.false_and, if_neg Bool.false_ne_true]

theorem run_joined (outer : List Level) (level : Level) (junction : Junction)
    (words : List Word) :
    run ⟨outer, level, .afterConnective ⟨junction, false⟩⟩ words =
      match Descent.joined junction words with
      | (.error cause, _) => fail ⟨outer, level, .connective⟩ cause none
      | (.ok connective, later) =>
          runOperand ⟨outer, { level with connectives := level.connectives ++ [connective] },
            .operand⟩ later := by
  cases words with
  | nil => rfl
  | cons word rest =>
      cases not : word.isToken "not".toList with
      | false =>
          have leads : Leads (word :: rest) false (word :: rest) := .plain word rest not
          have runs := run_behind_connective _ _ _ leads outer level junction []
          rw [List.append_nil] at runs
          rw [Descent.joined, show Word.nextIs "not".toList (word :: rest) = false from not]
          exact runs
      | true =>
          rw [Descent.joined, show Word.nextIs "not".toList (word :: rest) = true from not]
          cases rest with
          | nil =>
              rw [run_cons]
              change readAfterConnective _ _ word >>= _ = _
              rw [readAfterConnective, not]
              rfl
          | cons next rest =>
              have leads : Leads (word :: next :: rest) true (next :: rest) :=
                .negated word next rest not
              have runs := run_behind_connective _ _ _ leads outer level junction []
              rw [List.append_nil, List.append_nil] at runs
              exact runs

theorem run_connective (outer : List Level) (level : Level) (word : Word) (rest : List Word)
    (unclosed : word.isToken ")".toList = false) :
    run ⟨outer, level, .connective⟩ (word :: rest) =
      match Descent.connective word rest with
      | (.error cause, _) => fail ⟨outer, level, .connective⟩ cause none
      | (.ok connective, later) =>
          runOperand ⟨outer, { level with connectives := level.connectives ++ [connective] },
            .operand⟩ later := by
  rw [run_cons]
  change readConnective _ word >>= _ = _
  rw [readConnective, unclosed, if_neg Bool.false_ne_true, Descent.connective, Descent.junction?]
  split
  · exact run_joined outer level .and rest
  · split
    · exact run_joined outer level .or rest
    · rfl

theorem run_operand_at_once (outer : List Level) (level : Level)
    (group : Descent.State → Descent.Outcome) (word : Word) (state : Descent.State)
    (depth : state.depth = outer.length)
    (goes : run ⟨level :: outer, .empty, .operand⟩ state.rest =
      resume (level :: outer) (group { state with depth := state.depth + 1 })) :
    runOperand ⟨outer, level, .operand⟩ (word :: state.rest) =
      resume (level :: outer)
        (Descent.operand group (Descent.closedEarly (!outer.isEmpty) level) word state) := by
  rw [runOperand, readOperand, Descent.operand]
  split
  · rw [Descent.nested, depth]
    split
    · rfl
    · rw [← depth]
      refine goes.trans ?_
      generalize group _ = outcome
      obtain ⟨error | tree, after⟩ := outcome <;> rfl
  · split
    · rw [Descent.closedEarly]
      split <;> rfl
    · refine (run_condition ⟨outer, level, .operand⟩ word state.rest).trans ?_
      generalize Descent.condition word state.rest = reading
      obtain ⟨⟨cause, leaf⟩ | leaf, rest⟩ := reading <;> rfl

theorem run_behind_operand_at_once (outer : List Level) (level : Level)
    (filled : level.operands ≠ [])
    (further : Level → Descent.State → Descent.Outcome) (state : Descent.State)
    (goes : ∀ joined later, Descent.Follows joined state later →
      run ⟨outer, joined, .operand⟩ later.rest = resume outer (further joined later)) :
    run ⟨outer, level, .connective⟩ state.rest =
      resume outer (Descent.behindOperand further (!outer.isEmpty) level state) := by
  rw [Descent.behindOperand]
  split
  · next ended =>
      rw [ended]
      exact (resume_finish outer level state).symm
  · next word rest same =>
      rw [same]
      split
      · next closing =>
          rw [run_cons]
          change readConnective _ word >>= _ = _
          rw [readConnective, if_pos closing]
          cases outer with
          | nil => exact (resume_fail [] level _ .unexpectedClose none _).symm
          | cons parent outer =>
              refine Eq.trans ?_ (resume_assemble parent level outer { state with rest }).symm
              dsimp only
              cases level.assemble <;> rfl
      · next unclosed =>
          have suffix := Descent.connective_suffix word rest
          have follows := Descent.word_behind_connective word rest
          rw [run_connective outer level word rest (Bool.eq_false_iff.mpr unclosed)]
          generalize Descent.connective word rest = joined at suffix follows
          obtain ⟨cause | connective, later⟩ := joined
          · exact (resume_fail outer level _ cause none _).symm
          · have nonempty := follows later connective rfl
            have shorter : later <:+ state.rest :=
              same ▸ List.IsSuffix.trans suffix (List.suffix_cons word rest)
            refine (run_later_operand outer _ ?_ later nonempty).symm.trans ?_
            · exact filled
            · exact goes _ { state with rest := later } ⟨⟨rfl, shorter⟩, filled, nonempty⟩

theorem run_after_operand_at_once (outer : List Level) (level : Level)
    (further : Level → Descent.State → Descent.Outcome) (outcome : Descent.Outcome)
    (goes : ∀ joined later, Descent.Follows joined outcome.2 later →
      run ⟨outer, joined, .operand⟩ later.rest = resume outer (further joined later)) :
    resume (level :: outer) outcome =
      resume outer (Descent.afterOperand further (!outer.isEmpty) level outcome) := by
  obtain ⟨error | tree, after⟩ := outcome
  · exact (resume_fail outer level .operand error.cause error.understood after).symm
  · have filled : (level.push tree).operands ≠ [] := by simp [Level.push]
    exact run_behind_operand_at_once outer (level.push tree) filled further after goes

/-- Reading a group at one stretch is reading its words one after another. -/
theorem run_group_at_once (fuel : Nat) (outer : List Level) (level : Level) (state : Descent.State)
    (enough : state.rest.length < fuel) (depth : state.depth = outer.length)
    (inside : state.rest = [] → outer ≠ []) :
    run ⟨outer, level, .operand⟩ state.rest =
      resume outer (Descent.group fuel (!outer.isEmpty) level state) := by
  induction fuel generalizing outer level state with
  | zero => contradiction
  | succ fuel induction =>
      rw [Descent.group]
      split
      · next ended =>
          rw [ended]
          obtain ⟨parent, further, rfl⟩ := List.exists_cons_of_ne_nil (inside ended)
          exact (resume_finish (parent :: further) level state).symm
      · next word rest same =>
          rw [same] at enough
          have shorter := Descent.leading_shorter level word rest fuel enough
          rw [same, run_operand_of_leading]
          generalize Descent.leading level word rest = begun at shorter
          obtain ⟨level, word, rest⟩ := begun
          -- The group of a bracket suspends the level: the induction is for all levels around it.
          have runs := run_operand_at_once outer level (Descent.group fuel true .empty) word
            { state with rest } depth (induction (level :: outer) .empty
              ⟨rest, state.depth + 1, state.assemblies⟩ shorter (congrArg Nat.succ depth)
              (fun _ => List.cons_ne_nil _ _))
          have onward := Descent.operand_onward (Descent.group fuel true .empty)
            (Descent.group_onward fuel true .empty) (Descent.closedEarly (!outer.isEmpty) level)
            word { state with rest }
          refine runs.trans (run_after_operand_at_once outer level _ _ ?_)
          intro joined later follows
          have behind := onward.trans follows.toOnward
          refine induction outer joined later ?_ ?_ (fun ended => absurd ended follows.nonempty)
          · exact behind.rest.length_le.trans_lt shorter
          · exact behind.depth.trans depth

end Draft

theorem Descent.of_words (words : List Word) :
    (Descent.ofWords words).1 = Tree.ofWords words := by
  rw [Descent.ofWords]
  split
  · next none =>
      rw [List.isEmpty_iff.mp none]
      rfl
  · next some =>
      have runs := Draft.run_group_at_once (words.length + 1) [] .empty ⟨words, 0, []⟩
        (Nat.lt_succ_self _) rfl (fun none => absurd (List.isEmpty_iff.mpr none) some)
      exact runs.symm

end FilterQuery
