import FilterQuery.Proofs.Draft.Progress
import FilterQuery.Proofs.Tree.Normal

/-!
The invariant of reading. Every operand of a draft is normal, and on every level operands and
connectives alternate. Each word therefore makes a step of the conditions, and where reading ends,
whether with a query or with an error, the tree that remains is normal and holds them all.
-/

set_option autoImplicit false

namespace FilterQuery

/-- A normal tree with exactly the given conditions, or no tree where there is no condition. -/
inductive Keeps : Option Tree → List Condition → Prop
  | none : Keeps none []
  | some (tree : Tree) : tree.Normal → Keeps (some tree) tree.conditions

/-- What an error leaves of the conditions: all of them, or all without a leading `not`. -/
inductive Progress.Leaves : Progress → Option Tree → Prop
  | all (progress : Progress) (understood : Option Tree) :
      Keeps understood progress.conditions → Leaves progress understood
  | negation (finished : List Condition) (leading : Word) (understood : Option Tree) :
      leading.isToken "not".toList = true → Keeps understood finished →
        Leaves ⟨finished, some ⟨leading, none, []⟩⟩ understood

namespace Level

def conditions (level : Level) : List Condition := level.operands.flatMap Tree.conditions

/-- The operands are normal, and `ahead` of them have no connective behind them. -/
structure Regular (level : Level) (ahead : Nat) : Prop where
  normal : ∀ operand ∈ level.operands, operand.Normal
  count : level.operands.length = level.connectives.length + ahead

end Level

namespace Phase

/-- How many operands are complete with no connective behind them. -/
def ahead : Phase → Nat
  | .connective | .afterConnective _ => 1
  | _ => 0

def condition : Phase → Option Condition
  | .operand | .connective | .afterConnective _ => none
  | .leadingNot word | .comparator word => some ⟨word, none, []⟩
  | .continuation field text _ | .extended field text => some ⟨field, some text, []⟩
  | .value condition _ | .afterList condition => some condition
  | .afterValue condition word _ | .call condition word _ _ => some (condition.addValue word)

/-- What the phase has read before: a leading `not`, or the comparator where values stand. -/
def Consistent : Phase → Prop
  | .leadingNot word => word.isToken "not".toList = true
  | .value condition _ | .afterList condition | .afterValue condition _ _
  | .call condition _ _ _ => condition.comparator.isSome = true
  | _ => True

end Phase

namespace Draft

def finished (draft : Draft) : List Condition :=
  draft.outer.reverse.flatMap Level.conditions ++ draft.level.conditions

def progress (draft : Draft) : Progress := ⟨draft.finished, draft.phase.condition⟩

structure Balanced (draft : Draft) (ahead : Nat) : Prop where
  outer : ∀ level ∈ draft.outer, level.Regular 0
  level : draft.level.Regular ahead

structure Regular (draft : Draft) : Prop where
  balanced : draft.Balanced draft.phase.ahead
  consistent : draft.phase.Consistent

/-- What reading a word does to a draft that has made this progress. -/
def Reads (progress : Progress) (word : Word) : Except SyntaxError Draft → Prop
  | .ok next => next.Regular ∧ progress.Step word next.progress
  | .error error => progress.Leaves error.understood

end Draft

namespace Level

@[simp] theorem conditions_push (level : Level) (operand : Tree) :
    (level.push operand).conditions = level.conditions ++ operand.conditions := by
  rw [conditions, push, List.flatMap_append, List.flatMap_singleton, Tree.conditions_negate_if]
  rfl

theorem regular_empty : empty.Regular 0 := ⟨List.forall_mem_nil _, rfl⟩

theorem regular_push (level : Level) (operand : Tree) (regular : level.Regular 0)
    (normal : operand.Normal) : (level.push operand).Regular 1 := by
  constructor
  · intro other member
    rcases List.mem_append.mp member with earlier | here
    · exact regular.normal other earlier
    · rw [List.mem_singleton.mp here]
      exact Tree.normal_negate_if level.negated operand normal
  · have count := regular.count
    simp only [push, List.length_append, List.length_singleton]
    omega

theorem normal_chain_operands (first : Tree) (rest : List Tree) (connectives : List Connective)
    (normal : ∀ operand ∈ first :: rest, operand.Normal) :
    ∀ operand ∈ Tree.chainOperands first (connectives.zip rest), operand.Normal := by
  intro operand member
  rcases List.mem_cons.mp member with rfl | later
  · exact normal operand (by simp)
  · obtain ⟨⟨connective, other⟩, listed, rfl⟩ := List.mem_map.mp later
    apply Tree.normal_negate_if
    exact normal other (List.mem_cons_of_mem _ (List.of_mem_zip listed).2)

theorem assemble_operands (operands : List Tree) (connectives : List Connective)
    (normal : ∀ operand ∈ operands, operand.Normal)
    (count : operands.length = connectives.length + 1) :
    ∃ tree, Tree.assemble operands connectives = .ok tree ∧ tree.Normal ∧
      tree.conditions = operands.flatMap Tree.conditions := by
  match operands with
  | [] => contradiction
  | first :: rest =>
      have same : rest.length = connectives.length := Nat.succ.inj count
      refine ⟨Tree.ofChain first (connectives.zip rest), if_pos same, ?_, ?_⟩
      · exact Tree.normal_of_chain first _ (normal_chain_operands first rest connectives normal)
      · have behind : (connectives.zip rest).flatMap (fun link => link.2.conditions) =
            rest.flatMap Tree.conditions := by
          rw [← List.flatMap_map Prod.snd Tree.conditions, List.map_snd_zip same.le]
        rw [Tree.conditions_of_chain, behind, List.flatMap_cons]

theorem assemble_regular (level : Level) (regular : level.Regular 1) :
    ∃ tree, level.assemble = .ok tree ∧ tree.Normal ∧ tree.conditions = level.conditions :=
  assemble_operands level.operands level.connectives regular.normal regular.count

theorem keeps_recover_operands (operands : List Tree) (connectives : List Connective)
    (normal : ∀ operand ∈ operands, operand.Normal)
    (count : operands.length ≤ connectives.length + 1) :
    Keeps (Tree.recover operands connectives) (operands.flatMap Tree.conditions) := by
  match operands with
  | [] => exact Keeps.none
  | first :: rest =>
      obtain ⟨tree, assembled, whole, conditions⟩ := assemble_operands (first :: rest)
        (connectives.take ((first :: rest).length - 1)) normal (by
          rw [List.length_take]
          rw [List.length_cons] at count ⊢
          omega)
      rw [Tree.recover, assembled, ← conditions]
      exact Keeps.some tree whole

theorem keeps_recover (level : Level) (ahead : Nat) (regular : level.Regular ahead)
    (unfinished : Option Tree) (inner : List Condition) (keeps : Keeps unfinished inner)
    (room : ahead + unfinished.toList.length ≤ 1) :
    Keeps (level.recover unfinished) (level.conditions ++ inner) := by
  have count := regular.count
  cases keeps with
  | none =>
      rw [List.append_nil, recover, Option.map_none, Option.toList_none, List.append_nil]
      apply keeps_recover_operands _ _ regular.normal
      rw [Option.toList_none, List.length_nil] at room
      omega
  | some tree normal =>
      have together : level.conditions ++ tree.conditions =
          (level.operands ++ [Tree.negateIf level.negated tree]).flatMap Tree.conditions := by
        rw [List.flatMap_append, List.flatMap_singleton, Tree.conditions_negate_if]
        rfl
      rw [together]
      apply keeps_recover_operands
      · intro operand member
        rcases List.mem_append.mp member with earlier | here
        · exact regular.normal operand earlier
        · rw [List.mem_singleton.mp here]
          exact Tree.normal_negate_if level.negated tree normal
      · rw [Option.toList_some, List.length_singleton] at room
        change (level.operands ++ [Tree.negateIf level.negated tree]).length ≤ _
        rw [List.length_append, List.length_singleton]
        omega

end Level

namespace Draft

/-- Recovery loses nothing on any level. -/
theorem keeps_recover (draft : Draft) (ahead : Nat) (balanced : draft.Balanced ahead)
    (unfinished : Option Tree) (inner : List Condition) (keeps : Keeps unfinished inner)
    (room : ahead + unfinished.toList.length ≤ 1) :
    Keeps (draft.recover unfinished) (draft.finished ++ inner) := by
  -- Each level around adds its conditions in front of what remains of the levels inside it.
  have outward : ∀ (outer : List Level) (understood : Option Tree) (conditions : List Condition),
      (∀ level ∈ outer, level.Regular 0) → Keeps understood conditions →
        Keeps (outer.foldl (fun inner level => level.recover inner) understood)
          (outer.reverse.flatMap Level.conditions ++ conditions) := by
    intro outer
    induction outer with
    | nil => exact fun _ _ _ understood => understood
    | cons level outer induction =>
        intro understood conditions regular here
        have single : 0 + understood.toList.length ≤ 1 := by cases understood <;> simp
        have next := level.keeps_recover 0 (regular level (by simp)) understood conditions here
          single
        rw [List.reverse_cons, List.flatMap_append, List.flatMap_singleton, List.append_assoc]
        exact induction _ _ (fun other member => regular other (List.mem_cons_of_mem _ member)) next
  rw [finished, List.append_assoc]
  exact outward draft.outer _ _ balanced.outer
    (draft.level.keeps_recover ahead balanced.level unfinished inner keeps room)

theorem keeps_recover_none (draft : Draft) (ahead : Nat) (balanced : draft.Balanced ahead)
    (single : ahead ≤ 1) : Keeps (draft.recover none) draft.finished := by
  have keeps := draft.keeps_recover ahead balanced none [] Keeps.none single
  rwa [List.append_nil] at keeps

theorem keeps_recover_condition (draft : Draft) (balanced : draft.Balanced 0)
    (condition : Condition) :
    Keeps (draft.recover (some (.condition condition))) (draft.finished ++ [condition]) :=
  draft.keeps_recover 0 balanced _ _ (Keeps.some _ (Tree.Normal.condition condition))
    (Nat.le_refl 1)

theorem balanced_push (draft : Draft) (balanced : draft.Balanced 0) (operand : Tree)
    (normal : operand.Normal) : (draft.push operand).Balanced 1 :=
  ⟨balanced.outer, Level.regular_push draft.level operand balanced.level normal⟩

@[simp] theorem finished_push (draft : Draft) (operand : Tree) :
    (draft.push operand).finished = draft.finished ++ operand.conditions := by
  rw [finished, push, Level.conditions_push, ← List.append_assoc]
  rfl

@[simp] theorem finished_opening (outer : List Level) (level : Level) :
    finished ⟨level :: outer, .empty, .operand⟩ = finished ⟨outer, level, .operand⟩ := by
  rw [finished, List.reverse_cons, List.flatMap_append, List.flatMap_singleton]
  exact List.append_nil _

/-- A level that is closed is the last operand of its parent, so the order stays. -/
theorem finished_closing (outer : List Level) (parent level : Level) (tree : Tree)
    (conditions : tree.conditions = level.conditions) :
    (push ⟨outer, parent, .operand⟩ tree).finished =
      finished ⟨parent :: outer, level, .connective⟩ := by
  rw [finished_push, conditions, finished, finished, List.reverse_cons, List.flatMap_append,
    List.flatMap_singleton]

theorem regular_to_phase (draft : Draft) (phase : Phase) (balanced : draft.Balanced phase.ahead)
    (consistent : phase.Consistent) : (draft.toPhase phase).Regular :=
  ⟨⟨balanced.outer, balanced.level⟩, consistent⟩

theorem reads_structural (draft : Draft) (phase : Phase)
    (balanced : draft.Balanced phase.ahead) (consistent : phase.Consistent) (word : Word)
    (token : Text) (is : word.isToken token = true)
    (listed : token ∈ ["(".toList, ")".toList, ",".toList, "and".toList, "or".toList,
      "not".toList]) :
    Reads ⟨draft.finished, phase.condition⟩ word (.ok (draft.toPhase phase)) :=
  ⟨draft.regular_to_phase phase balanced consistent,
    .structural _ _ (word.structural_of_token token is listed)⟩

theorem reads_negation (finished : List Condition) (leading word : Word)
    (not : leading.isToken "not".toList = true) (result : Except SyntaxError Draft)
    (reads : Reads ⟨finished, none⟩ word result) :
    Reads ⟨finished, some ⟨leading, none, []⟩⟩ word result := by
  cases result with
  | ok next => exact ⟨reads.1, .negation finished leading word _ not reads.2⟩
  | error error =>
      cases reads with
      | all _ _ keeps =>
          rw [Progress.conditions, Option.toList_none, List.append_nil] at keeps
          exact .negation finished leading _ not keeps

theorem reads_completion (finished : List Condition) (condition : Condition) (word : Word)
    (complete : condition.Complete) (result : Except SyntaxError Draft)
    (reads : Reads ⟨finished ++ [condition], none⟩ word result) :
    Reads ⟨finished, some condition⟩ word result := by
  cases result with
  | ok next => exact ⟨reads.1, .completion finished condition word _ complete reads.2⟩
  | error error =>
      cases reads with
      | all _ _ keeps =>
          rw [Progress.conditions_completion] at keeps
          exact .all _ _ keeps

theorem leaves_finished (finished : List Condition) (understood : Option Tree)
    (keeps : Keeps understood finished) : Progress.Leaves ⟨finished, none⟩ understood := by
  apply Progress.Leaves.all
  rwa [Progress.conditions, Option.toList_none, List.append_nil]

theorem operand_reads (draft : Draft) (balanced : draft.Balanced 0) (word : Word) :
    Reads ⟨draft.finished, none⟩ word (draft.readOperand word) := by
  have fails := leaves_finished _ _ (draft.keeps_recover_none 0 balanced (by omega))
  rw [readOperand]
  split
  · next opening =>
      split
      · exact fails
      · refine ⟨⟨⟨?_, Level.regular_empty⟩, trivial⟩, ?_⟩
        · intro level member
          rcases List.mem_cons.mp member with rfl | outer
          · exact balanced.level
          · exact balanced.outer level outer
        · rw [progress, finished_opening]
          exact .structural _ _ (word.structural_of_token _ opening (by simp))
  · split
    · split <;> exact fails
    · exact ⟨draft.regular_to_phase _ balanced trivial, .field draft.finished word⟩

theorem comparator_reads (draft : Draft) (balanced : draft.Balanced 0) (field word : Word) :
    Reads ⟨draft.finished, some ⟨field, none, []⟩⟩ word (draft.readComparator field word) := by
  rw [readComparator]
  split
  · exact .all _ _ (draft.keeps_recover_condition balanced _)
  · exact ⟨draft.regular_to_phase _ balanced trivial,
      .condition _ _ word _ (.comparator field word)⟩

theorem value_reads (draft : Draft) (balanced : draft.Balanced 0) (condition : Condition)
    (given : condition.comparator.isSome = true) (depth : Nat) (word : Word) :
    Reads ⟨draft.finished, some condition⟩ word (draft.readValue condition depth word) := by
  unfold readValue
  split
  · next opening =>
      exact draft.reads_structural (.value condition (depth + 1)) balanced given word _ opening
        (by simp)
  · split
    · next closing =>
        split
        · exact .all _ _ (draft.keeps_recover_condition balanced condition)
        · exact draft.reads_structural (.afterList condition) balanced given word _ closing
            (by simp)
        · next depth =>
            exact draft.reads_structural (.value condition (depth + 1)) balanced given word _
              closing (by simp)
    · split
      · next comma =>
          exact draft.reads_structural (.value condition depth) balanced given word _ comma
            (by simp)
      · exact ⟨draft.regular_to_phase _ balanced given,
          .condition _ _ word _ (.value condition word given)⟩

theorem continuation_reads (draft : Draft) (balanced : draft.Balanced 0) (field : Word)
    (comparator : Text) (quoted : Bool) (word : Word) :
    Reads ⟨draft.finished, some ⟨field, some comparator, []⟩⟩ word
      (draft.readContinuation field comparator quoted word) := by
  rw [readContinuation]
  split
  · next longer extended =>
      have continues : Comparator.extend comparator word = some longer := by
        cases quoted with
        | true => cases extended
        | false => exact extended
      exact ⟨draft.regular_to_phase _ balanced trivial,
        .condition _ _ word _ (.continuation field comparator longer word continues)⟩
  · exact draft.value_reads balanced _ rfl 0 word

theorem connective_reads (draft : Draft) (balanced : draft.Balanced 1) (word : Word) :
    Reads ⟨draft.finished, none⟩ word (draft.readConnective word) := by
  have fails := leaves_finished _ _ (draft.keeps_recover_none 1 balanced (by omega))
  rw [readConnective]
  split
  · next closing =>
      split
      · exact fails
      · next level outer around =>
          obtain ⟨tree, assembled, normal, conditions⟩ :=
            draft.level.assemble_regular balanced.level
          have levels := balanced.outer
          rw [around] at levels
          have parent : Balanced ⟨outer, level, .operand⟩ 0 :=
            ⟨fun other member => levels other (List.mem_cons_of_mem _ member),
              levels level (by simp)⟩
          have same : (push ⟨outer, level, .operand⟩ tree).finished = draft.finished := by
            rw [finished_closing outer level draft.level tree conditions, finished, finished,
              around]
          rw [assembled]
          refine ⟨⟨balanced_push _ parent tree normal, trivial⟩, ?_⟩
          rw [progress, same]
          exact .structural _ _ (word.structural_of_token _ closing (by simp))
  · split
    · next token =>
        exact draft.reads_structural (.afterConnective _) balanced trivial word _ token (by simp)
    · split
      · next token =>
          exact draft.reads_structural (.afterConnective _) balanced trivial word _ token (by simp)
      · exact fails

theorem operand_end_reads (draft : Draft) (balanced : draft.Balanced 0) (condition : Condition)
    (complete : condition.Complete) (word : Word) :
    Reads ⟨draft.finished, some condition⟩ word
      ((draft.push (.condition condition)).readConnective word) := by
  apply reads_completion _ condition word complete
  have pushed := draft.balanced_push balanced _ (Tree.Normal.condition condition)
  have reads := connective_reads _ pushed word
  rwa [finished_push] at reads

theorem complete_add_value (condition : Condition) (value : Word)
    (given : condition.comparator.isSome = true) : (condition.addValue value).Complete :=
  ⟨given, List.append_ne_nil_of_right_ne_nil _ (List.cons_ne_nil value [])⟩

theorem after_value_reads (draft : Draft) (balanced : draft.Balanced 0) (condition : Condition)
    (given : condition.comparator.isSome = true) (value : Word) (depth : Nat) (word : Word) :
    Reads ⟨draft.finished, some (condition.addValue value)⟩ word
      (draft.readAfterValue condition value depth word) := by
  rw [readAfterValue]
  split
  · exact ⟨draft.regular_to_phase _ balanced given,
      .condition _ _ word _ (.call condition value word)⟩
  · dsimp only
    split
    · split
      · next comma =>
          exact draft.reads_structural (.value (condition.addValue value) 0) balanced given word _
            comma (by simp)
      · exact draft.operand_end_reads balanced _ (complete_add_value condition value given) word
    · exact draft.value_reads balanced (condition.addValue value) given _ word

theorem call_reads (draft : Draft) (balanced : draft.Balanced 0) (condition : Condition)
    (given : condition.comparator.isSome = true) (value : Word) (opened depth : Nat)
    (word : Word) :
    Reads ⟨draft.finished, some (condition.addValue value)⟩ word
      (draft.readCall condition value opened depth word) := by
  have glued : ∀ phase : Phase, phase.ahead = 0 → phase.Consistent →
      phase.condition = some (condition.addValue (value.glue word)) →
        Reads ⟨draft.finished, some (condition.addValue value)⟩ word
          (.ok (draft.toPhase phase)) := by
    intro phase ahead consistent same
    refine ⟨draft.regular_to_phase phase ?_ consistent, ?_⟩
    · rwa [ahead]
    · change Progress.Step _ _ ⟨draft.finished, phase.condition⟩
      rw [same]
      exact .condition _ _ word _ (.call condition value word)
  unfold readCall
  dsimp only
  split
  · exact glued _ rfl given rfl
  · split
    · split
      · split <;> exact glued _ rfl given rfl
      · exact glued _ rfl given rfl
    · exact glued _ rfl given rfl

theorem after_list_reads (draft : Draft) (balanced : draft.Balanced 0) (condition : Condition)
    (given : condition.comparator.isSome = true) (word : Word) :
    Reads ⟨draft.finished, some condition⟩ word (draft.readAfterList condition word) := by
  rw [readAfterList]
  split
  · next comma =>
      exact draft.reads_structural (.value condition 0) balanced given word _ comma (by simp)
  · split
    · exact .all _ _ (draft.keeps_recover_condition balanced condition)
    · next some =>
        have written : condition.values ≠ [] := by
          intro empty
          exact some (List.isEmpty_iff.mpr empty)
        exact draft.operand_end_reads balanced condition ⟨given, written⟩ word

theorem after_connective_reads (draft : Draft) (balanced : draft.Balanced 1)
    (connective : Connective) (word : Word) :
    Reads ⟨draft.finished, none⟩ word (draft.readAfterConnective connective word) := by
  rw [readAfterConnective]
  split
  · next negation =>
      exact draft.reads_structural (.afterConnective _) balanced trivial word _
        (Bool.and_eq_true_iff.mp negation).2 (by simp)
  · have linked : Balanced { draft with level :=
        { draft.level with connectives := draft.level.connectives ++ [connective] } } 0 := by
      refine ⟨balanced.outer, balanced.level.normal, ?_⟩
      rw [List.length_append, List.length_singleton]
      exact balanced.level.count
    exact operand_reads _ linked word

theorem read_reads (draft : Draft) (regular : draft.Regular) (word : Word) :
    Reads draft.progress word (draft.read word) := by
  obtain ⟨outer, level, phase⟩ := draft
  obtain ⟨balanced, consistent⟩ := regular
  have here : ∀ other, Balanced ⟨outer, level, other⟩ phase.ahead :=
    fun _ => ⟨balanced.outer, balanced.level⟩
  cases phase with
  | operand =>
      rw [read]
      dsimp only
      split
      · next leading =>
          exact ⟨⟨here _, (Bool.and_eq_true_iff.mp leading).2⟩, .field _ word⟩
      · exact operand_reads _ (here _) word
  | leadingNot leading =>
      apply reads_negation _ leading word consistent
      have negated : Balanced ⟨outer, { level with negated := true }, .leadingNot leading⟩ 0 :=
        ⟨balanced.outer, balanced.level.normal, balanced.level.count⟩
      exact operand_reads _ negated word
  | comparator field => exact comparator_reads _ (here _) field word
  | continuation field comparator quoted =>
      exact continuation_reads _ (here _) field comparator quoted word
  | extended field comparator => exact continuation_reads _ (here _) field comparator false word
  | value condition depth => exact value_reads _ (here _) condition consistent depth word
  | afterValue condition value depth =>
      exact after_value_reads _ (here _) condition consistent value depth word
  | call condition value opened depth =>
      exact call_reads _ (here _) condition consistent value opened depth word
  | afterList condition => exact after_list_reads _ (here _) condition consistent word
  | connective => exact connective_reads _ (here _) word
  | afterConnective connective => exact after_connective_reads _ (here _) connective word

end Draft

end FilterQuery
