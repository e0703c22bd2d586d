import FilterQuery.Comparator

/-!
Reading an input as words. Every character of the input is kept as a part of a word, ends a word,
or both; the kept characters between two boundaries form a span, and an unquoted span is divided
at its comparator signs. Reading never fails: an open quote and a last backslash are accepted.
-/

set_option autoImplicit false

namespace FilterQuery.Word

/-- Whether the next character is taken as it is, and whether an open quote encloses it. -/
structure Mode where
  escaped : Bool
  quoting : Bool
deriving DecidableEq

/-- An input character as it is read: a part of a word, together with whether the cursor stands
right behind it, or the end of what was read as one span. -/
inductive Reading where
  | kept (char : Char) (typed : Bool)
  | boundary (quoted : Bool)
deriving DecidableEq

def isBlank (char : Char) : Bool := char ∈ [' ', '\t', '\n', '\r']

def isPunctuation (char : Char) : Bool := char ∈ [',', '(', ')']

namespace Mode

def start : Mode := ⟨false, false⟩

def after (mode : Mode) (char : Char) : Mode :=
  if mode.escaped then { mode with escaped := false }
  else if char = '\\' then { mode with escaped := true }
  else if char = '"' then { mode with quoting := !mode.quoting }
  else mode

/-- A backslash only changes how the next character is taken, a quote ends a span, a blank ends
one outside quotes, and punctuation outside quotes is a span of its own. -/
def read (mode : Mode) (char : Char) (typed : Bool) : List Reading :=
  if mode.escaped then [.kept char typed]
  else if char = '\\' then []
  else if char = '"' then [.boundary mode.quoting]
  else if mode.quoting then [.kept char typed]
  else if isBlank char then [.boundary false]
  else if isPunctuation char then [.boundary false, .kept char typed, .boundary false]
  else [.kept char typed]

end Mode

/-- Pairs each character with whether the cursor stands right behind it. -/
def markCursor (cursor : Option Nat) (input : Text) : List (Char × Bool) :=
  input.zipIdx.map fun (char, index) => (char, cursor == some (index + 1))

def readings (mode : Mode) : List (Char × Bool) → List Reading
  | [] => [.boundary mode.quoting]
  | (char, typed) :: rest => mode.read char typed ++ readings (mode.after char) rest

def Mode.afterText (mode : Mode) (text : List (Char × Bool)) : Mode :=
  text.foldl (fun mode (char, _) => mode.after char) mode

theorem readings_ne_nil (mode : Mode) (text : List (Char × Bool)) : readings mode text ≠ [] := by
  induction text generalizing mode with
  | nil => simp [readings]
  | cons marked rest induction => simp [readings, induction]

theorem readings_append (mode : Mode) (text rest : List (Char × Bool)) :
    readings mode (text ++ rest) =
      (readings mode text).dropLast ++ readings (mode.afterText text) rest := by
  induction text generalizing mode with
  | nil => rfl
  | cons marked text induction =>
      rw [List.cons_append, readings, readings, induction,
        List.dropLast_append_of_ne_nil (readings_ne_nil _ _), List.append_assoc]
      rfl

structure Span where
  characters : List (Char × Bool)
  quoted : Bool

def spans : List Reading → List Span
  | [] => []
  | .boundary quoted :: rest => ⟨[], quoted⟩ :: spans rest
  | .kept char typed :: rest =>
      match spans rest with
      | [] => []
      | span :: later => { span with characters := (char, typed) :: span.characters } :: later

/-- Gives the cursor to the first piece that reaches it: behind a sign it belongs to the sign, not
to the piece that follows. -/
def placeCursor : Option Nat → List Text → List Word
  | _, [] => []
  | none, piece :: rest => plain piece :: placeCursor none rest
  | some offset, piece :: rest =>
      if offset ≤ piece.length then (plain piece).withCursor offset :: placeCursor none rest
      else plain piece :: placeCursor (some (offset - piece.length)) rest

@[simp]
theorem place_cursor_none (pieces : List Text) : placeCursor none pieces = pieces.map plain := by
  induction pieces with
  | nil => rfl
  | cons piece rest induction => rw [placeCursor, induction, List.map_cons]

@[simp] theorem text_place_cursor (cursor : Option Nat) (pieces : List Text) :
    (placeCursor cursor pieces).map text = pieces := by
  induction pieces generalizing cursor with
  | nil => simp [placeCursor]
  | cons piece rest induction =>
      cases cursor with
      | none => rw [placeCursor, List.map_cons, induction, plain]
      | some offset =>
          rw [placeCursor]
          split <;> rw [List.map_cons, induction] <;> rfl

namespace Span

def text (span : Span) : Text := span.characters.map Prod.fst

def cursor (span : Span) : Option Nat := (span.characters.findIdx? Prod.snd).map (· + 1)

/-- A quoted span is one word; between empty quotes there is none. -/
def words (span : Span) : List Word :=
  if span.characters.isEmpty then []
  else if span.quoted then [⟨span.text, span.cursor, true⟩]
  else placeCursor span.cursor (Comparator.cutSigns span.text)

end Span

@[simp]
theorem Span.flatten_words (span : Span) : (span.words.map Word.text).flatten = span.text := by
  rw [words]
  split
  · next empty => simp [text, List.isEmpty_iff.mp empty]
  · split
    · simp
    · rw [text_place_cursor, Comparator.flatten_cut_signs]

/-- The words of an input. The word that holds the character right before the cursor carries the
cursor. -/
def scan (input : Text) (cursor : Option Nat) : List Word :=
  (spans (readings .start (markCursor cursor input))).flatMap Span.words

end FilterQuery.Word
