import FilterQuery.Proofs.Tree.Conditions
import FilterQuery.Proofs.Word.Piece

/-!
A tree as the pieces it is written in. From the pieces follows that a written tree scans to the
tokens of the tree, and how deep its brackets are nested.
-/

set_option autoImplicit false

namespace FilterQuery

namespace Piece

def join (separator : List Piece) : List (List Piece) → List Piece
  | [] => []
  | [part] => part
  | part :: rest => part ++ separator ++ join separator rest

def bracketed (inner : List Piece) : List Piece :=
  [.punctuation '('] ++ inner ++ [.punctuation ')']

@[simp] theorem join_cons (separator first : List Piece) (rest : List (List Piece)) :
    join separator (first :: rest) = first ++ rest.flatMap (separator ++ ·) := by
  induction rest generalizing first with
  | nil => simp [join]
  | cons second rest induction =>
      rw [join, induction, List.flatMap_cons]
      · simp only [List.append_assoc]
      · simp

theorem print_join (separator : List Piece) (text : Text) (written : print separator = .plain text)
    (parts : List (List Piece)) :
    print (join separator parts) = Printed.join text (parts.map print) := by
  match parts with
  | [] => rfl
  | [part] => rfl
  | first :: second :: rest =>
      have later := print_join separator text written (second :: rest)
      rw [join, print_append, print_append, written, later]
      · rfl
      · simp

@[simp] theorem print_bracketed (inner : List Piece) :
    print (bracketed inner) = (print inner).bracketed := by
  rw [bracketed, print_append, print_append]
  rfl

@[simp] theorem print_plain (text : Text) : print [.plain (.plain text)] = .plain text :=
  Printed.append_plain_nil _

@[simp] theorem print_quoted (word : Word) : print [.quoted word] = word.printQuoted :=
  Printed.append_plain_nil _

end Piece

namespace Comparator

/-- A comparator of several words is written as these words. -/
def pieces (comparator : Text) : List Piece :=
  if phrases.contains comparator then
    Piece.join [.blank] ((comparator.splitOn ' ').map fun word => [.plain (.plain word)])
  else if signs.contains comparator || !comparator.needsQuotes then [.plain (.plain comparator)]
  else [.quoted (.quote comparator)]

@[simp]
theorem print_pieces (comparator : Text) : Piece.print (pieces comparator) = print comparator := by
  rw [pieces, print]
  by_cases phrase : phrases.contains comparator = true
  · rw [if_pos phrase, if_pos (by rw [phrase, Bool.or_true, Bool.true_or])]
    have known := List.contains_iff_mem.mp phrase
    simp only [phrases, List.mem_cons, List.not_mem_nil, or_false] at known
    rcases known with rfl | rfl | rfl | rfl | rfl | rfl | rfl <;> rfl
  · rw [if_neg phrase]
    simp only [phrase, Bool.or_false]
    split
    · exact Piece.print_plain comparator
    · exact Piece.print_quoted _

end Comparator

namespace Word

def fieldPiece (field : Word) : Piece :=
  if field.text.needsQuotes then .quoted field else .plain field

def valuePieces : List Word → List Piece
  | [] => []
  | [value] => [.blank, .quoted value]
  | values => .blank ::
      Piece.bracketed (Piece.join [.punctuation ','] (values.map fun value => [.quoted value]))

@[simp] theorem print_value_pieces (values : List Word) :
    Piece.print (valuePieces values) = printValues values := by
  match values with
  | [] => rfl
  | [value] => exact congrArg (Printed.plain [' '] ++ ·) (Piece.print_quoted value)
  | first :: second :: rest =>
      have parts : (first :: second :: rest).map printQuoted =
          ((first :: second :: rest).map fun value => [Piece.quoted value]).map Piece.print := by
        rw [List.map_map]
        apply List.map_congr_left
        intro value _
        exact (Piece.print_quoted value).symm
      rw [valuePieces, printValues, Piece.print_cons, Piece.print_bracketed,
        Piece.print_join [.punctuation ','] [','] rfl, parts]
      · rfl
      all_goals simp

end Word

def Condition.pieces (condition : Condition) : List Piece :=
  match condition.comparator with
  | none => [condition.field.fieldPiece]
  | some comparator =>
      condition.field.fieldPiece :: .blank :: Comparator.pieces comparator ++
        Word.valuePieces condition.values

@[simp] theorem Condition.print_pieces (condition : Condition) :
    Piece.print condition.pieces = condition.print := by
  have field : condition.field.fieldPiece.printed =
      if condition.field.text.needsQuotes then condition.field.printQuoted
      else condition.field.printPlain := by
    rw [Word.fieldPiece]
    split <;> rfl
  rw [pieces, print]
  cases condition.comparator with
  | none =>
      rw [← field]
      exact Printed.append_plain_nil _
  | some comparator =>
      dsimp only
      rw [← field, Piece.print_append, Piece.print_cons, Piece.print_cons,
        Comparator.print_pieces, Word.print_value_pieces, ← Printed.append_assoc]
      rfl

namespace Operation

def opening : Operation → List Piece
  | .not => [.plain (.plain "not".toList), .blank]
  | _ => []

def separator : Operation → List Piece
  | .not => []
  | operation => [.blank, .plain (.plain operation.text), .blank]

end Operation

namespace Tree

/-- Whether a tree stands in brackets as an operand of the operation. -/
def isBracketed (outer : Operation) : Tree → Bool
  | .condition _ => false
  | .group .not _ => outer == .not
  | .group _ _ => true

mutual

def pieces : Tree → List Piece
  | .condition leaf => leaf.pieces
  | .group operation children =>
      operation.opening ++ Piece.join operation.separator (piecesAmong operation children)

def piecesAmong (outer : Operation) : List Tree → List (List Piece)
  | [] => []
  | child :: rest =>
      (if child.isBracketed outer then Piece.bracketed (pieces child) else pieces child) ::
        piecesAmong outer rest

end

mutual

/-- How deep the brackets around groups are nested where the tree is written. -/
def bracketDepth : Tree → Nat
  | .condition _ => 0
  | .group operation children => bracketDepthAmong operation children

def bracketDepthAmong (outer : Operation) : List Tree → Nat
  | [] => 0
  | child :: rest =>
      max (bracketDepth child + if child.isBracketed outer then 1 else 0)
        (bracketDepthAmong outer rest)

end

def operandPieces (outer : Operation) (tree : Tree) : List Piece :=
  if tree.isBracketed outer then Piece.bracketed tree.pieces else tree.pieces

def operandDepth (outer : Operation) (tree : Tree) : Nat :=
  tree.bracketDepth + if tree.isBracketed outer then 1 else 0

@[simp] theorem pieces_among_eq_map (outer : Operation) (trees : List Tree) :
    piecesAmong outer trees = trees.map (operandPieces outer) := by
  induction trees with
  | nil => rfl
  | cons tree rest induction => rw [piecesAmong, induction, List.map_cons, operandPieces]

theorem pieces_group (operation : Operation) (children : List Tree) :
    (group operation children).pieces =
      operation.opening ++ Piece.join operation.separator
        (children.map (operandPieces operation)) := by
  rw [pieces, pieces_among_eq_map]

theorem bracket_depth_among_le_iff (outer : Operation) (trees : List Tree) (bound : Nat) :
    bracketDepthAmong outer trees ≤ bound ↔ ∀ tree ∈ trees, tree.operandDepth outer ≤ bound := by
  induction trees with
  | nil => simp [bracketDepthAmong]
  | cons tree rest induction =>
      rw [bracketDepthAmong, Nat.max_le, induction, List.forall_mem_cons, operandDepth]

theorem bracket_depth_group_le_iff (operation : Operation) (children : List Tree) (bound : Nat) :
    (group operation children).bracketDepth ≤ bound ↔
      ∀ child ∈ children, child.operandDepth operation ≤ bound := by
  rw [bracketDepth, bracket_depth_among_le_iff]

theorem operand_depth_le (operation : Operation) (children : List Tree) (child : Tree)
    (member : child ∈ children) :
    child.operandDepth operation ≤ (group operation children).bracketDepth :=
  (bracket_depth_group_le_iff operation children _).mp (Nat.le_refl _) child member

theorem print_joined_eq_map (operation : Operation) (joins : operation ≠ .not)
    (trees : List Tree)
    (each : ∀ tree ∈ trees, Piece.print tree.pieces = tree.print) :
    printJoined trees = (trees.map (operandPieces operation)).map Piece.print := by
  induction trees with
  | nil => rfl
  | cons tree rest induction =>
      have later := induction fun other member => each other (List.mem_cons_of_mem _ member)
      have here := each tree (by simp)
      have not : (operation == Operation.not) = false := beq_eq_false_iff_ne.mpr joins
      rw [List.map_cons, List.map_cons, operandPieces, ← later]
      cases tree with
      | condition leaf => simp [printJoined, isBracketed, here]
      | group inner children =>
          cases inner <;> simp [printJoined, isBracketed, not, here]

theorem print_negated_eq_map (trees : List Tree)
    (each : ∀ tree ∈ trees, Piece.print tree.pieces = tree.print) :
    printNegated trees = (trees.map (operandPieces .not)).map Piece.print := by
  induction trees with
  | nil => rfl
  | cons tree rest induction =>
      have later := induction fun other member => each other (List.mem_cons_of_mem _ member)
      have here := each tree (by simp)
      rw [List.map_cons, List.map_cons, operandPieces, ← later]
      cases tree with
      | condition leaf => simp [printNegated, isBracketed, here]
      | group inner children =>
          cases inner <;> simp [printNegated, isBracketed, here]

@[simp] theorem print_pieces (tree : Tree) : Piece.print tree.pieces = tree.print := by
  induction tree using induct with
  | condition leaf => exact leaf.print_pieces
  | group operation children induction =>
      rw [pieces_group, Piece.print_append]
      cases operation with
      | and =>
          rw [Piece.print_join _ " and ".toList rfl, ← print_joined_eq_map .and (by simp) children
            induction]
          exact Printed.plain_nil_append _
      | or =>
          rw [Piece.print_join _ " or ".toList rfl, ← print_joined_eq_map .or (by simp) children
            induction]
          exact Printed.plain_nil_append _
      | not =>
          rw [Piece.print_join _ [] rfl, ← print_negated_eq_map children induction]
          rfl

end Tree

end FilterQuery
