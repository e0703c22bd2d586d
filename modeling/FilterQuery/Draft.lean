import FilterQuery.Comparator
import FilterQuery.Tree.Assemble
import FilterQuery.Word.Scan

/-!
A draft is a query as far as its words were read. It takes one word at a time, so what is read
later never reaches back, and a word that fits nowhere ends the reading with everything that was
understood before it.
-/

set_option autoImplicit false

namespace FilterQuery

/-- The operands and connectives between two brackets, and whether a leading `not` negates the
operand that is being read. -/
structure Level where
  operands : List Tree
  connectives : List Connective
  negated : Bool

namespace Level

def empty : Level := ⟨[], [], false⟩

def push (level : Level) (operand : Tree) : Level :=
  { level with
    operands := level.operands ++ [Tree.negateIf level.negated operand], negated := false }

def assemble (level : Level) : Except SyntaxError Tree :=
  Tree.assemble level.operands level.connectives

/-- What remains of a level on which reading ends, with the unfinished operand if there is one. -/
def recover (level : Level) (unfinished : Option Tree) : Option Tree :=
  Tree.recover
    (level.operands ++ (unfinished.map (Tree.negateIf level.negated)).toList) level.connectives

end Level

/-- What the next word has to be. -/
inductive Phase where
  | operand
  /-- Behind `not` in front of the first operand. -/
  | leadingNot (word : Word)
  /-- Behind a field. -/
  | comparator (field : Word)
  /-- Behind the first word of a comparator. -/
  | continuation (field : Word) (comparator : Text) (quoted : Bool)
  /-- Behind a comparator of several words. -/
  | extended (field : Word) (comparator : Text)
  /-- Where a value may stand, inside `depth` brackets of a list. -/
  | value (condition : Condition) (depth : Nat)
  /-- Behind a value that becomes a call if a bracket follows. -/
  | afterValue (condition : Condition) (value : Word) (depth : Nat)
  /-- Inside `opened` brackets of a call. -/
  | call (condition : Condition) (value : Word) (opened : Nat) (depth : Nat)
  /-- Behind the last bracket of a list or a call. -/
  | afterList (condition : Condition)
  | connective
  | afterConnective (connective : Connective)

structure Draft where
  /-- The levels around the one being read, the innermost first. -/
  outer : List Level
  level : Level
  phase : Phase

def Word.glue (value next : Word) : Word :=
  { value with
    text := value.text ++ next.text
    cursor := match next.cursor with
      | some offset => some (value.length + offset)
      | none => value.cursor }

def Condition.addValue (condition : Condition) (value : Word) : Condition :=
  { condition with values := condition.values ++ [value] }

namespace Draft

def start : Draft := ⟨[], .empty, .operand⟩

def toPhase (draft : Draft) (phase : Phase) : Draft := { draft with phase }

def recover (draft : Draft) (unfinished : Option Tree) : Option Tree :=
  draft.outer.foldl (fun inner level => level.recover inner) (draft.level.recover unfinished)

def fail {Result : Type} (draft : Draft) (cause : SyntaxError.Cause)
    (unfinished : Option Tree) : Except SyntaxError Result :=
  .error ⟨cause, draft.recover unfinished⟩

def failIn {Result : Type} (draft : Draft) (cause : SyntaxError.Cause)
    (condition : Condition) : Except SyntaxError Result :=
  draft.fail cause (some (.condition condition))

def push (draft : Draft) (operand : Tree) : Draft :=
  { draft with level := draft.level.push operand, phase := .connective }

def readOperand (draft : Draft) (word : Word) : Except SyntaxError Draft :=
  if word.isToken "(".toList then
    if maxBracketDepth ≤ draft.outer.length then draft.fail .bracketsTooDeep none
    else .ok ⟨draft.level :: draft.outer, .empty, .operand⟩
  else if word.isToken ")".toList then
    if draft.level.operands.isEmpty && !draft.outer.isEmpty then draft.fail .emptyBrackets none
    else draft.fail .unexpectedClose none
  else .ok (draft.toPhase (.comparator word))

def readComparator (draft : Draft) (field word : Word) : Except SyntaxError Draft :=
  if word.isToken "(".toList || word.isToken ")".toList then
    draft.failIn (.bracketAsComparator word.text) ⟨field, none, []⟩
  else .ok (draft.toPhase (.continuation field word.text word.quoted))

def readValue (draft : Draft) (condition : Condition) (depth : Nat) (word : Word) :
    Except SyntaxError Draft :=
  if word.isToken "(".toList then .ok (draft.toPhase (.value condition (depth + 1)))
  else if word.isToken ")".toList then
    match depth with
    | 0 => draft.failIn (.unexpectedCloseAfter condition) condition
    | 1 => .ok (draft.toPhase (.afterList condition))
    | depth + 2 => .ok (draft.toPhase (.value condition (depth + 1)))
  else if word.isToken ",".toList then .ok (draft.toPhase (.value condition depth))
  else .ok (draft.toPhase (.afterValue condition word depth))

/-- A word behind the comparator read so far: it extends the comparator, or it is where a value
may stand. A quoted comparator is not extended. -/
def readContinuation (draft : Draft) (field : Word) (comparator : Text) (quoted : Bool)
    (word : Word) : Except SyntaxError Draft :=
  match if quoted then none else Comparator.extend comparator word with
  | some longer => .ok (draft.toPhase (.extended field longer))
  | none => draft.readValue ⟨field, some comparator, []⟩ 0 word

def readConnective (draft : Draft) (word : Word) : Except SyntaxError Draft :=
  if word.isToken ")".toList then
    match draft.outer with
    | [] => draft.fail .unexpectedClose none
    | level :: outer =>
        let parent : Draft := ⟨outer, level, .operand⟩
        match draft.level.assemble with
        | .ok tree => .ok (parent.push tree)
        | .error error => parent.fail error.cause error.understood
  else if word.isToken "and".toList then .ok (draft.toPhase (.afterConnective ⟨.and, false⟩))
  else if word.isToken "or".toList then .ok (draft.toPhase (.afterConnective ⟨.or, false⟩))
  else draft.fail (.notAConnective word.text) none

def readAfterValue (draft : Draft) (condition : Condition) (value : Word) (depth : Nat)
    (word : Word) : Except SyntaxError Draft :=
  if word.isToken "(".toList then
    .ok (draft.toPhase (.call condition (value.glue word) 1 depth))
  else
    let condition := condition.addValue value
    match depth with
    | 0 =>
        if word.isToken ",".toList then .ok (draft.toPhase (.value condition 0))
        else (draft.push (.condition condition)).readConnective word
    | depth => draft.readValue condition depth word

/-- A word inside the brackets of a call. The bracket that closes the call completes the value. -/
def readCall (draft : Draft) (condition : Condition) (value : Word) (opened depth : Nat)
    (word : Word) : Except SyntaxError Draft :=
  let value := value.glue word
  if word.isToken "(".toList then .ok (draft.toPhase (.call condition value (opened + 1) depth))
  else if word.isToken ")".toList then
    if opened ≤ 1 then
      match depth with
      | 0 => .ok (draft.toPhase (.afterList (condition.addValue value)))
      | depth => .ok (draft.toPhase (.value (condition.addValue value) depth))
    else .ok (draft.toPhase (.call condition value (opened - 1) depth))
  else .ok (draft.toPhase (.call condition value opened depth))

def readAfterList (draft : Draft) (condition : Condition) (word : Word) :
    Except SyntaxError Draft :=
  if word.isToken ",".toList then .ok (draft.toPhase (.value condition 0))
  else if condition.values.isEmpty then draft.failIn (.valueExpected condition) condition
  else (draft.push (.condition condition)).readConnective word

def readAfterConnective (draft : Draft) (connective : Connective) (word : Word) :
    Except SyntaxError Draft :=
  if !connective.negated && word.isToken "not".toList then
    .ok (draft.toPhase (.afterConnective { connective with negated := true }))
  else
    let level := { draft.level with connectives := draft.level.connectives ++ [connective] }
    { draft with level }.readOperand word

def read (draft : Draft) (word : Word) : Except SyntaxError Draft :=
  match draft.phase with
  | .operand =>
      if draft.level.operands.isEmpty && word.isToken "not".toList then
        .ok (draft.toPhase (.leadingNot word))
      else draft.readOperand word
  | .leadingNot _ => { draft with level := { draft.level with negated := true } }.readOperand word
  | .comparator field => draft.readComparator field word
  | .continuation field comparator quoted => draft.readContinuation field comparator quoted word
  | .extended field comparator => draft.readContinuation field comparator false word
  | .value condition depth => draft.readValue condition depth word
  | .afterValue condition value depth => draft.readAfterValue condition value depth word
  | .call condition value opened depth => draft.readCall condition value opened depth word
  | .afterList condition => draft.readAfterList condition word
  | .connective => draft.readConnective word
  | .afterConnective connective => draft.readAfterConnective connective word

def finishLevel (draft : Draft) : Except SyntaxError Tree :=
  match draft.outer with
  | [] => draft.level.assemble
  | _ :: _ => draft.fail .unclosedBracket none

def finish (draft : Draft) : Except SyntaxError Tree :=
  match draft.phase with
  | .operand =>
      match draft.outer with
      | [] => draft.fail .emptyQuery none
      | _ :: _ => draft.fail .unclosedBracket none
  | .leadingNot word => draft.failIn (.comparatorExpected word.text) ⟨word, none, []⟩
  | .comparator field => draft.failIn (.comparatorExpected field.text) ⟨field, none, []⟩
  | .continuation field comparator _ =>
      draft.failIn (.continuationExpected field.text comparator) ⟨field, some comparator, []⟩
  | .extended field comparator =>
      let condition : Condition := ⟨field, some comparator, []⟩
      draft.failIn (.valueExpected condition) condition
  | .value condition 0 => draft.failIn (.valueExpected condition) condition
  | .value condition _ => draft.failIn (.unclosedList condition) condition
  | .afterValue condition value depth =>
      let condition := condition.addValue value
      match depth with
      | 0 => (draft.push (.condition condition)).finishLevel
      | _ => draft.failIn (.unclosedList condition) condition
  | .call condition value _ _ =>
      draft.failIn (.unclosedCall value.text) (condition.addValue value)
  | .afterList condition =>
      if condition.values.isEmpty then draft.failIn (.valueExpected condition) condition
      else (draft.push (.condition condition)).finishLevel
  | .connective => draft.finishLevel
  | .afterConnective connective => draft.fail (.operandExpected connective) none

end Draft

namespace Tree

def ofWords (words : List Word) : Except SyntaxError Tree := do
  (← words.foldlM Draft.read Draft.start).finish

/-- The query written in an input. -/
def ofText (input : Text) (cursor : Option Nat) : Except SyntaxError Tree :=
  ofWords (Word.scan input cursor)

end Tree

end FilterQuery
