import FilterQuery.Proofs.Word.Cursor
import FilterQuery.Proofs.Word.Piece
import Mathlib

/-!
Which characters of an input are parts of words. An unescaped backslash, an unescaped quote and an
unescaped blank outside quotes are dropped; everything else is kept, and the spans of an input hold
exactly what is kept, in order.
-/

set_option autoImplicit false

namespace FilterQuery.Word

/-- A part of the parts of a list belongs to one member of it. -/
theorem flat_map_split {Item Part : Type} (parts : Item → List Part) (items : List Item)
    (before after : List Part) (part : Part)
    (split : items.flatMap parts = before ++ part :: after) :
    ∃ earlier item later inner outer, items = earlier ++ item :: later ∧
      parts item = inner ++ part :: outer ∧ before = earlier.flatMap parts ++ inner ∧
        after = outer ++ later.flatMap parts := by
  induction items generalizing before with
  | nil => simp at split
  | cons item rest induction =>
      rw [List.flatMap_cons] at split
      -- The part belongs to a later member, or to this one.
      have later : ∀ skipped, before = parts item ++ skipped →
          rest.flatMap parts = skipped ++ part :: after →
            ∃ earlier member later inner outer, item :: rest = earlier ++ member :: later ∧
              parts member = inner ++ part :: outer ∧ before = earlier.flatMap parts ++ inner ∧
                after = outer ++ later.flatMap parts := by
        rintro skipped rfl behind
        obtain ⟨earlier, member, later, inner, outer, rfl, here, rfl, rfl⟩ :=
          induction skipped behind
        refine ⟨item :: earlier, member, later, inner, outer, rfl, here, ?_, rfl⟩
        rw [List.flatMap_cons, List.append_assoc]
      rcases List.append_eq_append_iff.mp split with
        ⟨skipped, front, behind⟩ | ⟨inner, here, back⟩
      · exact later skipped front behind
      · cases inner with
        | nil => exact later [] (by rw [here, List.append_nil, List.append_nil]) back.symm
        | cons first inner =>
            obtain ⟨rfl, rfl⟩ := List.cons.inj back
            exact ⟨[], item, rest, before, inner, rfl, here, rfl, rfl⟩

theorem punctuation_cases (char : Char) (punctuation : isPunctuation char = true) :
    char = ',' ∨ char = '(' ∨ char = ')' := by
  simpa [isPunctuation] using punctuation

def Reading.isKept : Reading → Bool
  | .kept _ _ => true
  | .boundary _ => false

namespace Mode

def inQuotes : Mode := ⟨false, true⟩

/-- Whether a character is a part of a word where it stands. -/
def keeps (mode : Mode) (char : Char) : Bool :=
  mode.escaped || !(char == '\\' || char == '"' || (!mode.quoting && isBlank char))

/-- How the characters behind a text are taken. -/
def behind (mode : Mode) (text : Text) : Mode := text.foldl after mode

/-- All that a character can be read as, with the mode behind it. -/
inductive Takes (typed : Bool) : Mode → Char → List Reading → Mode → Prop
  | escaped (quoting : Bool) (char : Char) :
      Takes typed ⟨true, quoting⟩ char [.kept char typed] ⟨false, quoting⟩
  | backslash (quoting : Bool) : Takes typed ⟨false, quoting⟩ '\\' [] ⟨true, quoting⟩
  | quote (quoting : Bool) :
      Takes typed ⟨false, quoting⟩ '"' [.boundary quoting] ⟨false, !quoting⟩
  | quoted (char : Char) : char ≠ '\\' → char ≠ '"' →
      Takes typed inQuotes char [.kept char typed] inQuotes
  | blank (char : Char) : isBlank char = true →
      Takes typed start char [.boundary false] start
  | punctuation (char : Char) : isPunctuation char = true →
      Takes typed start char [.boundary false, .kept char typed, .boundary false] start
  | ordinary (char : Char) : isOrdinary char = true →
      Takes typed start char [.kept char typed] start

theorem takes (mode : Mode) (char : Char) (typed : Bool) :
    Takes typed mode char (mode.read char typed) (mode.after char) := by
  obtain ⟨escaped, quoting⟩ := mode
  cases escaped with
  | true => exact .escaped quoting char
  | false =>
      by_cases backslash : char = '\\'
      · subst backslash
        exact .backslash quoting
      · by_cases quote : char = '"'
        · subst quote
          exact .quote quoting
        · have stays : after ⟨false, quoting⟩ char = ⟨false, quoting⟩ := by
            simp [after, backslash, quote]
          rw [stays, read, if_neg Bool.false_ne_true, if_neg backslash, if_neg quote]
          cases quoting with
          | true => exact .quoted char backslash quote
          | false =>
              rw [if_neg Bool.false_ne_true]
              split
              · next blank => exact .blank char blank
              · next blank =>
                  split
                  · next punctuation => exact .punctuation char punctuation
                  · next punctuation =>
                      apply Takes.ordinary
                      simp [isOrdinary, backslash, quote, blank, punctuation]

/-- A character is kept exactly if it is read as a part of a word. -/
theorem keeps_eq (mode : Mode) (char : Char) (typed : Bool) :
    mode.keeps char = (mode.read char typed).any Reading.isKept := by
  have takes := mode.takes char typed
  generalize mode.read char typed = first, mode.after char = next at takes ⊢
  cases takes with
  | escaped | backslash | quote => rfl
  | quoted _ backslash quote => simp [keeps, inQuotes, backslash, quote, Reading.isKept]
  | blank _ blank => simp [keeps, start, blank, Reading.isKept]
  | punctuation _ punctuation =>
      rcases punctuation_cases char punctuation with rfl | rfl | rfl <;> rfl
  | ordinary _ ordinary =>
      simp only [isOrdinary, Bool.and_eq_true, bne_iff_ne, Bool.not_eq_true'] at ordinary
      simp [keeps, start, ordinary, Reading.isKept]

end Mode

/-- The characters of a text that are parts of words, in order. -/
def kept (mode : Mode) : Text → Text
  | [] => []
  | char :: rest =>
      if mode.keeps char then char :: kept (mode.after char) rest else kept (mode.after char) rest

def keptMarked (mode : Mode) : List (Char × Bool) → List (Char × Bool)
  | [] => []
  | (char, typed) :: rest =>
      if mode.keeps char then (char, typed) :: keptMarked (mode.after char) rest
      else keptMarked (mode.after char) rest

theorem kept_append (mode : Mode) (front rest : Text) :
    kept mode (front ++ rest) = kept mode front ++ kept (mode.behind front) rest := by
  induction front generalizing mode with
  | nil => rfl
  | cons char front induction =>
      rw [List.cons_append, kept, kept, induction]
      split <;> rfl

theorem kept_singleton (mode : Mode) (char : Char) (keeps : mode.keeps char = true) :
    kept mode [char] = [char] := if_pos keeps

theorem kept_marked_append (mode : Mode) (front rest : List (Char × Bool)) :
    keptMarked mode (front ++ rest) =
      keptMarked mode front ++ keptMarked (mode.behind (front.map Prod.fst)) rest := by
  induction front generalizing mode with
  | nil => rfl
  | cons marked front induction =>
      rw [List.cons_append, keptMarked, keptMarked, induction]
      split <;> rfl

@[simp] theorem text_kept_marked (mode : Mode) (text : List (Char × Bool)) :
    (keptMarked mode text).map Prod.fst = kept mode (text.map Prod.fst) := by
  induction text generalizing mode with
  | nil => rfl
  | cons marked text induction =>
      rw [keptMarked, List.map_cons, kept, ← induction]
      split <;> rfl

theorem kept_marked_sublist (mode : Mode) (text : List (Char × Bool)) :
    (keptMarked mode text).Sublist text := by
  induction text generalizing mode with
  | nil => exact List.Sublist.refl []
  | cons marked text induction =>
      rw [keptMarked]
      split
      · exact (induction _).cons_cons marked
      · exact (induction _).cons marked

theorem spans_nonempty (mode : Mode) (text : List (Char × Bool)) :
    spans (readings mode text) ≠ [] := by
  induction text generalizing mode with
  | nil => exact List.cons_ne_nil _ _
  | cons marked text induction =>
      obtain ⟨char, typed⟩ := marked
      rw [readings]
      have takes := mode.takes char typed
      generalize mode.read char typed = first, mode.after char = next at takes ⊢
      have later := induction next
      cases takes with
      | backslash => exact later
      | quote | blank | punctuation => exact List.cons_ne_nil _ _
      | escaped | quoted | ordinary =>
          obtain ⟨span, rest, same⟩ := List.exists_cons_of_ne_nil later
          rw [List.singleton_append, spans, same]
          exact List.cons_ne_nil _ _

theorem spans_kept (mode : Mode) (text : List (Char × Bool)) (char : Char) (typed : Bool) :
    ∃ span later, spans (readings mode text) = span :: later ∧
      spans (.kept char typed :: readings mode text) =
        { span with characters := (char, typed) :: span.characters } :: later := by
  obtain ⟨span, later, same⟩ := List.exists_cons_of_ne_nil (spans_nonempty mode text)
  refine ⟨span, later, same, ?_⟩
  rw [spans, same]

/-- The spans of an input hold what is kept of it. -/
@[simp] theorem characters_spans (mode : Mode) (text : List (Char × Bool)) :
    (spans (readings mode text)).flatMap Span.characters = keptMarked mode text := by
  induction text generalizing mode with
  | nil => rfl
  | cons marked text induction =>
      obtain ⟨char, typed⟩ := marked
      rw [readings, keptMarked, mode.keeps_eq char typed]
      have takes := mode.takes char typed
      generalize mode.read char typed = first, mode.after char = next at takes ⊢
      have later := induction next
      have first : (spans (.kept char typed :: readings next text)).flatMap Span.characters =
          (char, typed) :: keptMarked next text := by
        obtain ⟨span, rest, same, spans⟩ := spans_kept next text char typed
        rw [spans, List.flatMap_cons, ← later, same]
        rfl
      cases takes with
      | escaped | quoted | ordinary => exact first
      | backslash | quote | blank => exact later
      | punctuation => exact congrArg (List.cons (char, typed)) later

end FilterQuery.Word
