import FilterQuery.Proofs.Descent.Group
import FilterQuery.Proofs.Message

/-!
An error keeps what was read before it. However words are read, every tree is assembled from
operands with one connective between any two, so assembling never fails. No tree is left of words
only where they stop before the first field.
-/

set_option autoImplicit false

namespace FilterQuery

def Assembly.Chained (assembly : Assembly) : Prop :=
  1 ≤ assembly.operands ∧ assembly.connectives + 1 = assembly.operands

/-- The first word is `token`, or the second is behind a `not`; and the words behind it. -/
inductive Led (token : Text) : List Word → List Word → Prop
  | plain (word : Word) (rest : List Word) : word.isToken token = true →
      Led token (word :: rest) rest
  | negated (not word : Word) (rest : List Word) : not.isToken "not".toList = true →
      word.isToken token = true → Led token (not :: word :: rest) rest

/-- The words begin with as many opening brackets, each with its `not` if it has one. -/
inductive Openings : Nat → List Word → List Word → Prop
  | none (words : List Word) : Openings 0 words words
  | more (count : Nat) (words inner rest : List Word) : Led "(".toList words inner →
      Openings count inner rest → Openings (count + 1) words rest

/-- The words stop in front of the first field when read inside `depth` brackets. -/
def Fieldless (depth : Nat) (words : List Word) : Prop :=
  ∃ count rest, Openings count words rest ∧
    (rest = [] ∨ (∃ later, Led ")".toList rest later) ∨ maxBracketDepth < depth + count)

section Led

variable (words : List Word)

theorem fieldless_nil (depth : Nat) : Fieldless depth [] := ⟨0, [], .none [], .inl rfl⟩

theorem fieldless_of_closing (depth : Nat) (rest : List Word) (closes : Led ")".toList words rest) :
    Fieldless depth words :=
  ⟨0, words, .none words, .inr (.inl ⟨rest, closes⟩)⟩

theorem fieldless_of_deep (depth : Nat) (deep : maxBracketDepth < depth) : Fieldless depth words :=
  ⟨0, words, .none words, .inr (.inr deep)⟩

theorem fieldless_iff (depth : Nat) (within : depth ≤ maxBracketDepth) :
    Fieldless depth words ↔ words = [] ∨ (∃ rest, Led ")".toList words rest) ∨
      ∃ inner, Led "(".toList words inner ∧ Fieldless (depth + 1) inner := by
  constructor
  · rintro ⟨count, rest, opened, stops⟩
    cases opened with
    | none =>
        rcases stops with ended | closes | deep
        · exact .inl ended
        · exact .inr (.inl closes)
        · exact absurd deep (Nat.not_lt.mpr within)
    | more count _ inner _ led opened =>
        have depths : depth + 1 + count = depth + (count + 1) := by omega
        exact .inr (.inr ⟨inner, led, count, rest, opened, depths ▸ stops⟩)
  · rintro (rfl | ⟨rest, closes⟩ | ⟨inner, led, count, rest, opened, stops⟩)
    · exact fieldless_nil depth
    · exact fieldless_of_closing words depth rest closes
    · have depths : depth + 1 + count = depth + (count + 1) := by omega
      exact ⟨count + 1, rest, .more count words inner rest led opened, depths ▸ stops⟩

end Led

namespace Descent

section Cause

def Reading.isMismatch (reading : Reading) : Bool :=
  match reading.1 with
  | .ok _ => false
  | .error (cause, _) => cause.isMismatch

theorem end_of_values_matched (condition : Condition) (depth : Nat) :
    (endOfValues condition depth).isMismatch = false := by
  cases depth <;> rfl

theorem behind_value_matched (values : Condition → Nat → List Word → Reading)
    (matched : ∀ condition depth words, (values condition depth words).isMismatch = false)
    (condition : Condition) (depth : Nat) (words : List Word) :
    (behindValue values condition depth words).isMismatch = false := by
  cases depth with
  | succ depth => exact matched condition (depth + 1) words
  | zero =>
      rw [behindValue]
      split
      · exact matched _ _ _
      · split <;> rfl

theorem values_matched (fuel : Nat) (condition : Condition) (depth : Nat) (words : List Word) :
    (values fuel condition depth words).isMismatch = false := by
  induction fuel generalizing condition depth words with
  | zero => exact end_of_values_matched condition depth
  | succ fuel induction =>
      have behind := behind_value_matched (values fuel) induction
      cases words with
      | nil => exact end_of_values_matched condition depth
      | cons word rest =>
          rw [values]
          split
          · exact induction _ _ _
          · split
            · cases depth with
              | zero => rfl
              | succ depth => exact behind _ _ _
            · split
              · exact induction _ _ _
              · split
                · exact behind _ _ _
                · rfl

theorem condition_matched (field : Word) (words : List Word) :
    (condition field words).isMismatch = false := by
  cases words with
  | nil => rfl
  | cons word rest =>
      rw [condition]
      split
      · rfl
      · split
        · rfl
        · exact values_matched _ _ _ _

theorem connective_matched (word : Word) (rest later : List Word) (cause : SyntaxError.Cause)
    (refused : connective word rest = (.error cause, later)) : cause.isMismatch = false := by
  rw [connective] at refused
  split at refused
  · cases refused
    rfl
  · rw [joined] at refused
    obtain ⟨result, same⟩ := Prod.mk.inj refused
    rw [same] at result
    split at result
    · cases result
      rfl
    · cases result

end Cause

def State.Chained (state : State) : Prop := ∀ assembly ∈ state.assemblies, assembly.Chained

structure Sound (outcome : Outcome) : Prop where
  chained : outcome.2.Chained
  matched : ∀ error, outcome.1 = .error error → error.cause.isMismatch = false

/-- A call fails with no tree. -/
def Barren (outcome : Outcome) : Prop := ∃ cause, outcome.1 = .error ⟨cause, none⟩

theorem assemble_chained (operands : List Tree) (connectives : List Connective) (state : State)
    (count : operands.length = connectives.length + 1)
    (chained : state.Chained) :
    ∃ tree, (assemble operands connectives state).1 = .ok tree ∧
      (assemble operands connectives state).2.Chained := by
  obtain ⟨first, rest, rfl⟩ := List.exists_cons_of_length_eq_add_one count
  have same : rest.length = connectives.length := Nat.succ.inj count
  refine ⟨Tree.ofChain first (connectives.zip rest), if_pos same, ?_⟩
  intro assembly member
  rcases List.mem_append.mp member with before | added
  · exact chained assembly before
  · rw [List.mem_singleton.mp added]
    exact ⟨Nat.succ_le_succ (Nat.zero_le _), count.symm⟩

theorem recover_chained (level : Level) (unfinished : Option Tree) (state : State)
    (enough : level.operands.length + unfinished.toList.length ≤ level.connectives.length + 1)
    (chained : state.Chained) :
    (recover level unfinished state).2.Chained ∧
      ((recover level unfinished state).1 = none ↔ level.operands = [] ∧ unfinished = none) := by
  have length : (level.operands ++ (unfinished.map (Tree.negateIf level.negated)).toList).length =
      level.operands.length + unfinished.toList.length := by
    cases unfinished <;> simp
  have empty : level.operands ++ (unfinished.map (Tree.negateIf level.negated)).toList = [] ↔
      level.operands = [] ∧ unfinished = none := by
    cases unfinished <;> simp
  rw [recover, ← empty]
  generalize level.operands ++ (unfinished.map (Tree.negateIf level.negated)).toList = operands
    at length
  split
  · next none => exact ⟨chained, iff_of_true rfl (List.isEmpty_iff.mp none)⟩
  · next some =>
      have nonempty : operands ≠ [] := fun none => some (List.isEmpty_iff.mpr none)
      have positive := List.length_pos_of_ne_nil nonempty
      have count : operands.length = (level.connectives.take (operands.length - 1)).length + 1 := by
        rw [List.length_take]
        omega
      obtain ⟨tree, assembled, all⟩ := assemble_chained operands _ state count chained
      refine ⟨all, iff_of_false ?_ nonempty⟩
      change (assemble _ _ state).1.toOption ≠ none
      rw [assembled]
      exact Option.some_ne_none tree

theorem fail_sound (cause : SyntaxError.Cause) (matched : cause.isMismatch = false)
    (level : Level) (unfinished : Option Tree) (state : State)
    (enough : level.operands.length + unfinished.toList.length ≤ level.connectives.length + 1)
    (chained : state.Chained) :
    Sound (fail cause level unfinished state) ∧
      (Barren (fail cause level unfinished state) ↔ level.operands = [] ∧ unfinished = none) := by
  have recovered := recover_chained level unfinished state enough chained
  have failed : (fail cause level unfinished state).1 =
      .error ⟨cause, (recover level unfinished state).1⟩ := rfl
  refine ⟨⟨recovered.1, ?_⟩, ?_⟩
  · intro error same
    rw [← Except.error.inj (failed.symm.trans same)]
    exact matched
  · rw [← recovered.2, Barren, failed]
    constructor
    · rintro ⟨other, same⟩
      exact congrArg SyntaxError.understood (Except.error.inj same)
    · intro none
      exact ⟨cause, by rw [none]⟩

theorem assemble_sound (level : Level) (state : State)
    (count : level.operands.length = level.connectives.length + 1)
    (chained : state.Chained) :
    Sound (assemble level.operands level.connectives state) ∧
      ¬ Barren (assemble level.operands level.connectives state) := by
  obtain ⟨tree, assembled, all⟩ := assemble_chained _ _ state count chained
  constructor
  · refine ⟨all, fun error failed => ?_⟩
    cases assembled.symm.trans failed
  · rintro ⟨cause, failed⟩
    cases assembled.symm.trans failed

theorem behind_operand_sound (further : Level → State → Outcome) (inside : Bool) (level : Level)
    (state : State) (count : level.operands.length = level.connectives.length + 1)
    (chained : state.Chained)
    (goes : ∀ joined later, Follows joined state later → later.Chained →
      joined.operands.length = joined.connectives.length →
        Sound (further joined later) ∧ ¬ Barren (further joined later)) :
    Sound (behindOperand further inside level state) ∧
      ¬ Barren (behindOperand further inside level state) := by
  have filled : level.operands ≠ [] := by
    intro none
    rw [none] at count
    contradiction
  have failing : ∀ cause state, cause.isMismatch = false →
      state.Chained →
        Sound (fail cause level none state) ∧ ¬ Barren (fail cause level none state) := by
    intro cause state matched chained
    obtain ⟨sound, barren⟩ := fail_sound cause matched level none state count.le chained
    exact ⟨sound, fun none => filled (barren.mp none).1⟩
  rw [behindOperand]
  split
  · rw [finish]
    split
    · exact failing .unclosedBracket state rfl chained
    · exact assemble_sound level state count chained
  · next word rest same =>
      split
      · split
        · exact assemble_sound level _ count chained
        · exact failing .unexpectedClose _ rfl chained
      · have suffix := connective_suffix word rest
        have follows := word_behind_connective word rest
        have matched := connective_matched word rest
        generalize connective word rest = joined at suffix follows matched
        obtain ⟨cause | connective, later⟩ := joined
        · exact failing cause _ (matched later cause rfl) chained
        · have shorter : later <:+ state.rest :=
            same ▸ List.IsSuffix.trans suffix (List.suffix_cons word rest)
          have even : level.operands.length = (level.connectives ++ [connective]).length := by
            rw [List.length_append, List.length_singleton, count]
          have nonempty := follows later connective rfl
          exact goes _ _ ⟨⟨rfl, shorter⟩, filled, nonempty⟩ chained even

theorem after_operand_sound (further : Level → State → Outcome) (inside : Bool) (level : Level)
    (outcome : Outcome) (count : level.operands.length = level.connectives.length)
    (sound : Sound outcome)
    (goes : ∀ joined later, Follows joined outcome.2 later → later.Chained →
      joined.operands.length = joined.connectives.length →
        Sound (further joined later) ∧ ¬ Barren (further joined later)) :
    Sound (afterOperand further inside level outcome) ∧
      (Barren (afterOperand further inside level outcome) ↔
        level.operands = [] ∧ Barren outcome) := by
  obtain ⟨error | tree, after⟩ := outcome
  · have enough : level.operands.length + error.understood.toList.length ≤
        level.connectives.length + 1 := by
      rw [count]
      exact Nat.add_le_add_left (by cases error.understood <;> simp) _
    obtain ⟨failing, left⟩ := fail_sound error.cause (sound.matched error rfl) level
      error.understood after enough sound.chained
    refine ⟨failing, left.trans (and_congr_right fun _ => ?_)⟩
    constructor
    · intro unread
      exact ⟨error.cause, by rw [← unread]⟩
    · rintro ⟨cause, failed⟩
      rw [Except.error.inj failed]
  · have ahead : (level.push tree).operands.length = (level.push tree).connectives.length + 1 := by
      simp [Level.push, count]
    obtain ⟨behind, left⟩ := behind_operand_sound further inside (level.push tree) after ahead
      sound.chained goes
    refine ⟨behind, iff_of_false left ?_⟩
    rintro ⟨_, cause, failed⟩
    cases failed

theorem operand_sound (group : State → Outcome) (closed : SyntaxError.Cause) (word : Word)
    (state : State) (matched : closed.isMismatch = false)
    (chained : state.Chained)
    (sound : state.depth < maxBracketDepth →
      Sound (group { state with depth := state.depth + 1 })) :
    Sound (operand group closed word state) := by
  rw [operand]
  split
  · rw [nested]
    split
    · exact ⟨chained, fun error failed => Except.error.inj failed ▸ rfl⟩
    · next shallow =>
        have inner := sound (Nat.not_le.mp shallow)
        exact ⟨inner.chained, inner.matched⟩
  · split
    · exact ⟨chained, fun error failed => Except.error.inj failed ▸ matched⟩
    · have inner := condition_matched word state.rest
      generalize condition word state.rest = reading at inner
      obtain ⟨⟨cause, leaf⟩ | leaf, rest⟩ := reading
      · exact ⟨chained, fun error failed => Except.error.inj failed ▸ inner⟩
      · refine ⟨chained, ?_⟩
        rintro error ⟨⟩

theorem operand_barren_iff (group : State → Outcome) (closed : SyntaxError.Cause) (word : Word)
    (state : State) (words : List Word) (nonempty : words ≠ [])
    (within : state.depth ≤ maxBracketDepth)
    (leads : ∀ token, token ≠ "not".toList → ∀ later,
      Led token words later ↔ word.isToken token = true ∧ later = state.rest)
    (inner : state.depth < maxBracketDepth →
      (Barren (group { state with depth := state.depth + 1 }) ↔
        Fieldless (state.depth + 1) state.rest)) :
    Barren (operand group closed word state) ↔ Fieldless state.depth words := by
  have fieldless : Fieldless state.depth words ↔ word.isToken ")".toList = true ∨
      word.isToken "(".toList = true ∧ Fieldless (state.depth + 1) state.rest := by
    rw [fieldless_iff words state.depth within]
    constructor
    · rintro (none | ⟨rest, led⟩ | ⟨inner, led, further⟩)
      · exact absurd none nonempty
      · exact .inl ((leads _ (by decide) rest).mp led).1
      · obtain ⟨opening, rfl⟩ := (leads _ (by decide) inner).mp led
        exact .inr ⟨opening, further⟩
    · rintro (closing | ⟨opening, further⟩)
      · exact .inr (.inl ⟨state.rest, (leads _ (by decide) _).mpr ⟨closing, rfl⟩⟩)
      · exact .inr (.inr ⟨state.rest, (leads _ (by decide) _).mpr ⟨opening, rfl⟩, further⟩)
  rw [fieldless, operand]
  split
  · next opening =>
      rw [word.is_other_token _ _ opening (by decide), opening, nested]
      split
      · next deep =>
          exact iff_of_true ⟨_, rfl⟩ (.inr ⟨rfl, fieldless_of_deep _ _ (Nat.lt_succ_of_le deep)⟩)
      · next shallow =>
          refine (inner (Nat.not_le.mp shallow)).trans ?_
          simp only [Bool.false_eq_true, false_or, true_and]
  · next unopened =>
      split
      · next closing => exact iff_of_true ⟨_, rfl⟩ (.inl closing)
      · next unclosed =>
          refine iff_of_false ?_ (by rintro (closing | ⟨opening, _⟩) <;> contradiction)
          rintro ⟨cause, failed⟩
          generalize condition word state.rest = reading at failed
          obtain ⟨⟨cause, leaf⟩ | leaf, rest⟩ := reading <;> cases failed

theorem closed_early_matched (inside : Bool) (level : Level) :
    (closedEarly inside level).isMismatch = false := by
  rw [closedEarly]
  split <;> rfl

theorem leading_counts (level : Level) (word : Word) (rest : List Word) :
    (leading level word rest).1.operands = level.operands ∧
      (leading level word rest).1.connectives = level.connectives := by
  cases rest with
  | nil => exact ⟨rfl, rfl⟩
  | cons next rest =>
      rw [leading]
      split <;> exact ⟨rfl, rfl⟩

theorem led_iff_leading (level : Level) (none : level.operands = []) (word : Word)
    (rest : List Word) (token : Text) (other : token ≠ "not".toList) (later : List Word) :
    Led token (word :: rest) later ↔
      (leading level word rest).2.1.isToken token = true ∧
        later = (leading level word rest).2.2 := by
  have empty : level.operands.isEmpty = true := List.isEmpty_iff.mpr none
  cases rest with
  | nil =>
      constructor
      · rintro ⟨⟩
        exact ⟨‹_›, rfl⟩
      · rintro ⟨is, rfl⟩
        exact .plain word [] is
  | cons next rest =>
      rw [leading, empty, Bool.true_and]
      split
      · next not =>
          constructor
          · rintro (⟨_, _, is⟩ | ⟨_, _, _, _, is⟩)
            · rw [word.is_other_token _ _ not (Ne.symm other)] at is
              cases is
            · exact ⟨is, rfl⟩
          · rintro ⟨is, rfl⟩
            exact .negated word next _ not is
      · next plain =>
          constructor
          · rintro (⟨_, _, is⟩ | ⟨_, _, _, not, _⟩)
            · exact ⟨is, rfl⟩
            · exact absurd not plain
          · rintro ⟨is, rfl⟩
            exact .plain word _ is

theorem group_sound (fuel : Nat) (inside : Bool) (level : Level) (state : State)
    (enough : state.rest.length < fuel) (inner : state.rest = [] → inside = true)
    (within : state.depth ≤ maxBracketDepth)
    (count : level.operands.length = level.connectives.length)
    (chained : state.Chained) :
    Sound (group fuel inside level state) ∧
      (Barren (group fuel inside level state) ↔
        level.operands = [] ∧ Fieldless state.depth state.rest) := by
  induction fuel generalizing inside level state with
  | zero => contradiction
  | succ fuel induction =>
      rw [group]
      split
      · next ended =>
          obtain ⟨sound, barren⟩ := fail_sound .unclosedBracket rfl level none state
            (count.le.trans (Nat.le_succ _)) chained
          rw [finish, if_pos (inner ended), barren, ended]
          exact ⟨sound, and_congr_right fun _ => iff_of_true rfl (fieldless_nil _)⟩
      · next word rest same =>
          rw [same] at enough
          have shorter := leading_shorter level word rest fuel enough
          have counts := leading_counts level word rest
          have leads := fun none => led_iff_leading level none word rest
          generalize leading level word rest = begun at shorter counts leads
          obtain ⟨begun, first, later⟩ := begun
          have counted : begun.operands.length = begun.connectives.length := by
            rw [counts.1, counts.2, count]
          have nested := fun shallow : state.depth < maxBracketDepth =>
            induction true .empty ⟨later, state.depth + 1, state.assemblies⟩ shorter (fun _ => rfl)
              shallow rfl chained
          have sound := operand_sound (group fuel true .empty) (closedEarly inside begun) first
            { state with rest := later } (closed_early_matched inside begun) chained
            (fun shallow => (nested shallow).1)
          have barren := fun none => operand_barren_iff (group fuel true .empty)
            (closedEarly inside begun) first { state with rest := later } (word :: rest)
            (List.cons_ne_nil _ _) within (leads none)
            (fun shallow => (nested shallow).2.trans (and_iff_right rfl))
          have onward := operand_onward (group fuel true .empty) (group_onward fuel true .empty)
            (closedEarly inside begun) first { state with rest := later }
          dsimp only
          generalize operand _ _ _ _ = outcome at sound barren onward ⊢
          -- With an operand in front of them, no words that follow leave the level without a tree.
          have goes : ∀ joined further, Follows joined outcome.2 further → further.Chained →
              joined.operands.length = joined.connectives.length →
                Sound (group fuel inside joined further) ∧
                  ¬ Barren (group fuel inside joined further) := by
            intro joined further follows chained even
            have behind := onward.trans follows.toOnward
            obtain ⟨deeper, unread⟩ := induction inside joined further
              (behind.rest.length_le.trans_lt shorter)
              (fun ended => absurd ended follows.nonempty) (behind.depth.le.trans within) even
              chained
            exact ⟨deeper, fun none => follows.filled (unread.mp none).1⟩
          obtain ⟨behind, left⟩ := after_operand_sound (group fuel inside) inside begun outcome
            counted sound goes
          refine ⟨behind, left.trans ?_⟩
          rw [counts.1, same]
          exact and_congr_right barren

end Descent

namespace Tree

/-- Every tree is assembled from operands with one connective between any two, wherever the words
stop, and no error says otherwise. The words leave no tree exactly where they stop in front of the
first field: at once or behind some opening brackets, at the end, at a closing bracket, or because
there are too many of them. -/
theorem recovery_keeps_what_was_read (words : List Word) :
    (Descent.ofWords words).1 = ofWords words ∧
    (∀ assembly ∈ (Descent.ofWords words).2.assemblies,
      1 ≤ assembly.operands ∧ assembly.connectives + 1 = assembly.operands) ∧
    (∀ error, ofWords words = .error error →
      ¬ "Number of search conditions ".toList <+: error.message) ∧
    ((∃ cause, ofWords words = .error ⟨cause, none⟩) ↔ words = [] ∨
      ∃ count rest, Openings count words rest ∧
        (rest = [] ∨ (∃ later, Led ")".toList rest later) ∨ maxBracketDepth < count)) := by
  have started : Descent.Sound (Descent.ofWords words) ∧
      (Descent.Barren (Descent.ofWords words) ↔ words = [] ∨ Fieldless 0 words) := by
    rw [Descent.ofWords]
    split
    · next ended =>
        refine ⟨⟨List.forall_mem_nil _, fun error failed => ?_⟩, ?_⟩
        · rw [← Except.error.inj failed]
          rfl
        · exact iff_of_true ⟨_, rfl⟩ (.inl (List.isEmpty_iff.mp ended))
    · next some =>
        have nonempty : words ≠ [] := fun none => some (List.isEmpty_iff.mpr none)
        obtain ⟨sound, barren⟩ := Descent.group_sound (words.length + 1) false .empty
          ⟨words, 0, []⟩ (Nat.lt_succ_self _) (fun ended => absurd ended nonempty)
          (Nat.zero_le _) rfl (List.forall_mem_nil _)
        refine ⟨sound, barren.trans ?_⟩
        rw [or_iff_right nonempty]
        exact and_iff_right rfl
  obtain ⟨sound, barren⟩ := started
  have same := Descent.of_words words
  refine ⟨same, sound.chained, ?_, ?_⟩
  · intro error failed
    exact error.cause.matched_of_message (sound.matched error (same.trans failed))
  · rw [Descent.Barren, same, Fieldless] at barren
    simpa only [Nat.zero_add] using barren

theorem recovery_keeps_what_was_read_opened :
    ∃ cause, ofWords [.plain "not".toList, .plain "(".toList] = .error ⟨cause, none⟩ :=
  (recovery_keeps_what_was_read _).2.2.2.mpr
    (.inr ⟨1, [], .more 0 _ [] _ (.negated _ _ _ rfl rfl) (.none _), .inl rfl⟩)

end Tree

end FilterQuery
