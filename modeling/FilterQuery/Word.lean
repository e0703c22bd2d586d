import FilterQuery.Text

/-!
A word is the unit the query language is read in. It may carry the text cursor, as an offset
counted from its own first character, and it knows whether it was written between quotes.
-/

set_option autoImplicit false

namespace FilterQuery

structure Word where
  text : Text
  /-- Where the text cursor stands inside this word; `none` when it stands elsewhere. -/
  cursor : Option Nat
  quoted : Bool
deriving DecidableEq

namespace Word

def plain (text : Text) : Word := ⟨text, none, false⟩

def quote (text : Text) : Word := ⟨text, none, true⟩

def withCursor (word : Word) (offset : Nat) : Word := { word with cursor := some offset }

def unmarked (word : Word) : Word := { word with cursor := none }

def bare (word : Word) : Word := plain word.text

def length (word : Word) : Nat := word.text.length

/-- The text before the cursor, or the whole text when the cursor stands elsewhere. -/
def typed (word : Word) : Text :=
  match word.cursor with
  | some offset => word.text.take offset
  | none => word.text

/-- A word acts as punctuation or as a keyword only when it is written without quotes. -/
def isToken (word : Word) (token : Text) : Bool := !word.quoted && word.text == token

/-- The cursor stands behind at least one character of the word. -/
def isTyped (word : Word) : Bool :=
  match word.cursor with
  | some offset => 0 < offset
  | none => false

theorem is_token_iff (word : Word) (token : Text) :
    word.isToken token = true ↔ word.quoted = false ∧ word.text = token := by
  simp [isToken]

@[simp] theorem is_token_quote (text token : Text) : (quote text).isToken token = false := rfl

end Word

end FilterQuery
