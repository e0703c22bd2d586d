import FilterQuery.Proofs.Word.Kept

/-!
Where the spans of an input come from. A quote, a blank or punctuation outside quotes divides an
input, and what stands on either side is read by itself. Each span is one stretch of the input in
which nothing is dropped but backslashes, and a quoted span is a stretch between quotes.
-/

set_option autoImplicit false

namespace FilterQuery.Word

/-- Nothing is dropped from the text but backslashes. -/
def Unbroken (mode : Mode) (text : Text) : Prop :=
  ∀ front char rest, text = front ++ char :: rest → (mode.behind front).keeps char = false →
    char = '\\'

theorem unbroken_nil (mode : Mode) : Unbroken mode [] := by
  intro front char rest whole
  exact absurd whole (by simp)

theorem unbroken_cons (mode : Mode) (char : Char) (text : Text)
    (here : mode.keeps char = false → char = '\\') (later : Unbroken (mode.after char) text) :
    Unbroken mode (char :: text) := by
  intro front other rest whole drops
  cases front with
  | nil =>
      obtain ⟨rfl, rfl⟩ := List.cons.inj whole
      exact here drops
  | cons first front =>
      obtain ⟨rfl, rfl⟩ := List.cons.inj whole
      exact later front other rest rfl drops

@[simp] theorem behind_append (mode : Mode) (front rest : Text) :
    mode.behind (front ++ rest) = (mode.behind front).behind rest := List.foldl_append

theorem unbroken_part (mode : Mode) (front text rest : Text)
    (unbroken : Unbroken mode (front ++ (text ++ rest))) : Unbroken (mode.behind front) text := by
  intro before char after whole drops
  rw [← behind_append] at drops
  refine unbroken (front ++ before) char (after ++ rest) ?_ drops
  rw [whole]
  simp

theorem exists_kept_split (mode : Mode) (text front rest : Text)
    (whole : kept mode text = front ++ rest) :
    ∃ left right, text = left ++ right ∧ kept mode left = front ∧
      kept (mode.behind left) right = rest := by
  induction text generalizing mode front with
  | nil =>
      obtain ⟨rfl, rfl⟩ := List.append_eq_nil_iff.mp whole.symm
      exact ⟨[], [], rfl, rfl, rfl⟩
  | cons char text induction =>
      cases front with
      | nil => exact ⟨[], char :: text, rfl, rfl, whole⟩
      | cons first front =>
          rw [kept] at whole
          split at whole
          · next keeps =>
              obtain ⟨rfl, behind⟩ := List.cons.inj whole
              obtain ⟨left, right, rfl, same, rfl⟩ := induction _ front behind
              refine ⟨char :: left, right, rfl, ?_, rfl⟩
              rw [kept, if_pos keeps, same]
          · next drops =>
              obtain ⟨left, right, rfl, same, rfl⟩ := induction _ (first :: front) whole
              refine ⟨char :: left, right, rfl, ?_, rfl⟩
              rw [kept, if_neg drops, same]

/-- The spans of a text without a cursor. -/
def plainSpans (mode : Mode) (text : Text) : List Span :=
  spans (readings mode (markCursor none text))

def spansText (spans : List Span) : Text := spans.flatMap Span.text

@[simp] theorem spans_text_plain (mode : Mode) (text : Text) :
    spansText (plainSpans mode text) = kept mode text := by
  have characters := congrArg (List.map Prod.fst) (characters_spans mode (markCursor none text))
  rwa [text_kept_marked, text_mark_cursor, List.map_flatMap] at characters

/-- Where one span of a text stands in it: behind `left`, with `right` behind it. -/
structure Stretch (mode : Mode) (text : Text) (before : List Span) (span : Span)
    (after : List Span) (left middle right : Text) : Prop where
  whole : text = left ++ (middle ++ right)
  earlier : spansText before = kept mode left
  kept : span.text = kept (mode.behind left) middle
  later : spansText after = Word.kept (mode.behind (left ++ middle)) right
  unbroken : Unbroken (mode.behind left) middle
  first : before = [] → left = []
  opens : span.quoted = true → before = [] ∧ mode.quoting = true ∨
    ∃ outside, left = outside ++ ['"'] ∧ mode.behind outside = .start
  closes : span.quoted = true → right = [] ∨
    ∃ outside, right = '"' :: outside ∧ mode.behind (left ++ middle) = .inQuotes

@[simp] theorem spans_text_cons (span : Span) (later : List Span) :
    spansText (span :: later) = span.text ++ spansText later := List.flatMap_cons

namespace Stretch

variable {mode : Mode} {char : Char} {text : Text} {before wider : List Span} {span longer : Span}
  {after : List Span} {left middle right : Text}

theorem extend_left (stretch : Stretch (mode.after char) text before span after left middle right)
    (texts : spansText wider =
      if mode.keeps char then char :: spansText before else spansText before)
    (nonempty : wider ≠ [])
    (quote : before = [] → (mode.after char).quoting = true → char = '"' ∧ mode = .start) :
    Stretch mode (char :: text) wider span after (char :: left) middle right where
  whole := congrArg (List.cons char) stretch.whole
  earlier := by rw [texts, Word.kept, stretch.earlier]
  kept := stretch.kept
  later := stretch.later
  unbroken := stretch.unbroken
  first := fun empty => absurd empty nonempty
  opens := by
    intro quoted
    right
    rcases stretch.opens quoted with ⟨alone, quoting⟩ | ⟨outside, rfl, closed⟩
    · obtain rfl := stretch.first alone
      obtain ⟨rfl, rfl⟩ := quote alone quoting
      exact ⟨[], rfl, rfl⟩
    · exact ⟨char :: outside, rfl, closed⟩
  closes := stretch.closes

theorem extend_middle (stretch : Stretch (mode.after char) text [] span after left middle right)
    (texts : longer.text = if mode.keeps char then char :: span.text else span.text)
    (quoted : longer.quoted = span.quoted)
    (backslash : mode.keeps char = false → char = '\\')
    (stays : (mode.after char).quoting = mode.quoting) :
    Stretch mode (char :: text) [] longer after [] (char :: middle) right := by
  obtain rfl : left = [] := stretch.first rfl
  refine ⟨congrArg (List.cons char) stretch.whole, rfl, ?_, stretch.later,
    unbroken_cons mode char middle backslash stretch.unbroken, fun _ => rfl, ?_, ?_⟩
  · rw [texts, stretch.kept]
    rfl
  · rw [quoted, ← stays]
    intro here
    left
    rcases stretch.opens here with inside | ⟨outside, absent, _⟩
    · exact inside
    · exact absurd absent.symm (by simp)
  · rw [quoted]
    exact stretch.closes

end Stretch

theorem plain_spans_cons (mode : Mode) (char : Char) (text : Text) (first : List Reading)
    (reads : mode.read char false = first) :
    plainSpans mode (char :: text) =
      spans (first ++ readings (mode.after char) (markCursor none text)) := by
  rw [← reads, plainSpans, mark_cursor_cons]
  rfl

theorem stretch_start (mode : Mode) (text : Text) (span : Span) (after : List Span)
    (empty : span.text = []) (later : spansText after = kept mode text)
    (closes : span.quoted = true → mode = .inQuotes ∧ ∃ outside, text = '"' :: outside) :
    Stretch mode text [] span after [] [] text where
  whole := rfl
  earlier := rfl
  kept := empty
  later := later
  unbroken := unbroken_nil mode
  first := fun _ => rfl
  opens := fun quoted => .inl ⟨rfl, congrArg Mode.quoting (closes quoted).1⟩
  closes := fun quoted => .inr ⟨_, (closes quoted).2.choose_spec, (closes quoted).1⟩

section FirstCharacter

variable (mode : Mode) (char : Char) (text : Text)
  (stretches : ∀ (before : List Span) (span : Span) (after : List Span),
    plainSpans (mode.after char) text = before ++ span :: after →
      ∃ left middle right, Stretch (mode.after char) text before span after left middle right)
  (before : List Span) (span : Span) (after : List Span)
  (split : plainSpans mode (char :: text) = before ++ span :: after)

include stretches split

theorem stretch_behind_kept (reads : mode.read char false = [.kept char false])
    (stays : (mode.after char).quoting = mode.quoting) :
    ∃ left middle right, Stretch mode (char :: text) before span after left middle right := by
  have keeps : mode.keeps char = true := by rw [mode.keeps_eq char false, reads]; rfl
  obtain ⟨first, later, same, spans⟩ :=
    spans_kept (mode.after char) (markCursor none text) char false
  rw [plain_spans_cons mode char text _ reads, List.singleton_append, spans] at split
  cases before with
  | nil =>
      obtain ⟨rfl, rfl⟩ := List.cons.inj split
      obtain ⟨left, middle, right, stretch⟩ := stretches [] first later same
      refine ⟨_, _, _, stretch.extend_middle ?_ rfl ?_ stays⟩
      · rw [if_pos keeps]
        rfl
      · rw [keeps]
        exact fun drops => absurd drops (by decide)
  | cons longer before =>
      obtain ⟨rfl, rfl⟩ := List.cons.inj split
      obtain ⟨left, middle, right, stretch⟩ := stretches (first :: before) span after same
      refine ⟨_, _, _, stretch.extend_left ?_ (List.cons_ne_nil _ _) ?_⟩
      · rw [if_pos keeps]
        rfl
      · exact fun empty => absurd empty (List.cons_ne_nil _ _)

theorem stretch_behind_backslash (reads : mode.read char false = [])
    (backslash : char = '\\') (stays : (mode.after char).quoting = mode.quoting) :
    ∃ left middle right, Stretch mode (char :: text) before span after left middle right := by
  have drops : mode.keeps char = false := by rw [mode.keeps_eq char false, reads]; rfl
  rw [plain_spans_cons mode char text _ reads] at split
  obtain ⟨left, middle, right, stretch⟩ := stretches before span after split
  cases before with
  | nil =>
      refine ⟨_, _, _, stretch.extend_middle ?_ rfl (fun _ => backslash) stays⟩
      rw [drops]
      rfl
  | cons first before =>
      refine ⟨_, _, _, stretch.extend_left ?_ (List.cons_ne_nil _ _) ?_⟩
      · rw [drops]
        rfl
      · exact fun empty => absurd empty (List.cons_ne_nil _ _)

theorem stretch_behind_boundary (quoted : Bool)
    (reads : mode.read char false = [.boundary quoted])
    (closes : quoted = true → mode = .inQuotes ∧ char = '"')
    (opens : (mode.after char).quoting = true → char = '"' ∧ mode = .start) :
    ∃ left middle right, Stretch mode (char :: text) before span after left middle right := by
  have drops : mode.keeps char = false := by rw [mode.keeps_eq char false, reads]; rfl
  rw [plain_spans_cons mode char text _ reads] at split
  change ⟨[], quoted⟩ :: plainSpans (mode.after char) text = _ at split
  cases before with
  | nil =>
      obtain ⟨rfl, rfl⟩ := List.cons.inj split
      refine ⟨_, _, _, stretch_start mode _ _ _ rfl ?_ ?_⟩
      · rw [spans_text_plain, kept, drops]
        rfl
      · intro quote
        obtain ⟨inside, rfl⟩ := closes quote
        exact ⟨inside, text, rfl⟩
  | cons first before =>
      obtain ⟨rfl, behind⟩ := List.cons.inj split
      obtain ⟨left, middle, right, stretch⟩ := stretches before span after behind
      refine ⟨_, _, _, stretch.extend_left ?_ (List.cons_ne_nil _ _) fun _ => opens⟩
      rw [drops]
      rfl

end FirstCharacter

theorem stretch_behind_punctuation (char : Char) (text : Text)
    (punctuation : isPunctuation char = true)
    (stretches : ∀ (before : List Span) (span : Span) (after : List Span),
      plainSpans .start text = before ++ span :: after →
        ∃ left middle right, Stretch .start text before span after left middle right)
    (before : List Span) (span : Span) (after : List Span)
    (split : plainSpans .start (char :: text) = before ++ span :: after) :
    ∃ left middle right, Stretch .start (char :: text) before span after left middle right := by
  obtain ⟨keeps, stays, reads⟩ : Mode.start.keeps char = true ∧ Mode.start.after char = .start ∧
      Mode.start.read char false = [.boundary false, .kept char false, .boundary false] := by
    rcases punctuation_cases char punctuation with rfl | rfl | rfl <;> exact ⟨rfl, rfl, rfl⟩
  rw [plain_spans_cons .start char text _ reads, stays] at split
  change ⟨[], false⟩ :: ⟨[(char, false)], false⟩ :: plainSpans .start text = _ at split
  have unbroken : Unbroken .start [char] :=
    unbroken_cons .start char [] (fun drops => by rw [keeps] at drops; cases drops)
      (unbroken_nil _)
  match before with
  | [] =>
      obtain ⟨rfl, rfl⟩ := List.cons.inj split
      refine ⟨_, _, _, stretch_start .start _ _ _ rfl ?_ fun quoted =>
        absurd quoted Bool.false_ne_true⟩
      rw [spans_text_cons, spans_text_plain, kept, if_pos keeps, stays]
      rfl
  | [first] =>
      obtain ⟨rfl, behind⟩ := List.cons.inj split
      obtain ⟨rfl, rfl⟩ := List.cons.inj behind
      refine ⟨[], [char], text, rfl, rfl, (kept_singleton _ char keeps).symm, ?_, unbroken,
        fun _ => rfl, fun quoted => absurd quoted Bool.false_ne_true,
        fun quoted => absurd quoted Bool.false_ne_true⟩
      rw [spans_text_plain]
      exact congrArg (fun mode => kept mode text) stays.symm
  | first :: second :: before =>
      obtain ⟨rfl, behind⟩ := List.cons.inj split
      obtain ⟨rfl, further⟩ := List.cons.inj behind
      obtain ⟨left, middle, right, stretch⟩ := stretches before span after further
      rw [← stays] at stretch
      refine ⟨_, _, _, stretch.extend_left ?_ (List.cons_ne_nil _ _) ?_⟩
      · rw [if_pos keeps]
        rfl
      · rw [stays]
        exact fun _ quoting => absurd quoting (by decide)

/-- Each span of a text is a stretch of it. -/
theorem exists_stretch (mode : Mode) (text : Text) (before : List Span) (span : Span)
    (after : List Span) (split : plainSpans mode text = before ++ span :: after) :
    ∃ left middle right, Stretch mode text before span after left middle right := by
  induction text generalizing mode before span after with
  | nil =>
      change [Span.mk [] mode.quoting] = _ at split
      obtain ⟨rfl, rfl, rfl⟩ : before = [] ∧ span = ⟨[], mode.quoting⟩ ∧ after = [] := by
        cases before with
        | nil =>
            obtain ⟨same, behind⟩ := List.cons.inj split
            exact ⟨rfl, same.symm, behind.symm⟩
        | cons first before => exact absurd (List.cons.inj split).2 (by simp)
      exact ⟨[], [], [], rfl, rfl, rfl, rfl, unbroken_nil mode, fun _ => rfl,
        fun quoting => .inl ⟨rfl, quoting⟩, fun _ => .inl rfl⟩
  | cons char text induction =>
      have stretches := induction (mode.after char)
      have takes := mode.takes char false
      generalize reads : mode.read char false = first at takes
      generalize same : mode.after char = next at takes
      cases takes with
      | escaped | quoted | ordinary =>
          exact stretch_behind_kept _ char text stretches before span after split reads
            (by rw [same])
      | backslash =>
          exact stretch_behind_backslash _ _ text stretches before span after split reads rfl
            (by rw [same])
      | quote quoting =>
          apply stretch_behind_boundary _ _ text stretches before span after split quoting reads
          · rintro rfl
            exact ⟨rfl, rfl⟩
          · intro opened
            rw [same] at opened
            cases quoting with
            | true => cases opened
            | false => exact ⟨rfl, rfl⟩
      | blank _ blank =>
          apply stretch_behind_boundary _ _ text stretches before span after split false reads
          · exact fun quoted => absurd quoted Bool.false_ne_true
          · rw [same]
            exact fun opened => absurd opened (by decide)
      | punctuation _ punctuation =>
          rw [same] at stretches
          exact stretch_behind_punctuation char text punctuation stretches before span after split

theorem spans_split (front : List Reading) (quoted : Bool) (rest : List Reading) :
    spans (front ++ .boundary quoted :: rest) =
      spans (front ++ [.boundary quoted]) ++ spans rest := by
  -- A character is read into the first span, so there has to be one.
  have parts : ∃ span later, spans (front ++ [.boundary quoted]) = span :: later ∧
      spans (front ++ .boundary quoted :: rest) = span :: (later ++ spans rest) := by
    induction front with
    | nil => exact ⟨⟨[], quoted⟩, [], rfl, rfl⟩
    | cons reading front induction =>
        obtain ⟨span, later, same, whole⟩ := induction
        cases reading with
        | boundary other =>
            refine ⟨⟨[], other⟩, span :: later, ?_, ?_⟩
            · rw [List.cons_append, spans, same]
            · rw [List.cons_append, spans, whole, List.cons_append]
        | kept char typed =>
            refine ⟨{ span with characters := (char, typed) :: span.characters }, later, ?_, ?_⟩
            · rw [List.cons_append, spans, same]
            · rw [List.cons_append, spans, whole]
  obtain ⟨span, later, same, whole⟩ := parts
  rw [whole, same]
  rfl

@[simp] theorem behind_marked (mode : Mode) (cursor : Option Nat) (text : Text) :
    mode.afterText (markCursor cursor text) = mode.behind text := by
  have folded : ∀ marked : List (Char × Bool),
      mode.afterText marked = mode.behind (marked.map Prod.fst) := by
    intro marked
    rw [Mode.behind, List.foldl_map]
    rfl
  rw [folded, text_mark_cursor]

/-- What stands in front of a boundary and behind it is read apart, wherever the cursor stands. -/
theorem spans_divided (mode : Mode) (cursor : Option Nat) (left right : Text) (char : Char)
    (more : List Reading)
    (reads : (mode.behind left).read char (cursor == some (left.length + 1)) =
      .boundary (mode.behind left).quoting :: more) :
    spans (readings mode (markCursor cursor (left ++ char :: right))) =
      spans (readings mode (markCursor cursor left)) ++
        spans (more ++ readings ((mode.behind left).after char)
          (markCursor (cursor.map (· - (left.length + 1))) right)) := by
  let front := (readings mode (markCursor cursor left)).dropLast
  have last : readings mode (markCursor cursor left) =
      front ++ [.boundary (mode.behind left).quoting] := by
    have whole := readings_append mode (markCursor cursor left) []
    rwa [List.append_nil, behind_marked] at whole
  have whole : readings mode (markCursor cursor (left ++ char :: right)) =
      front ++ .boundary (mode.behind left).quoting ::
        (more ++ readings ((mode.behind left).after char)
          (markCursor (cursor.map (· - (left.length + 1))) right)) := by
    rw [mark_cursor_append_cons, readings_append, behind_marked, readings, reads]
    rfl
  rw [whole, spans_split, ← last]

theorem plain_spans_divided (mode : Mode) (left right : Text) (char : Char) (more : List Reading)
    (reads : (mode.behind left).read char false = .boundary (mode.behind left).quoting :: more) :
    plainSpans mode (left ++ char :: right) = plainSpans mode left ++
      spans (more ++ readings ((mode.behind left).after char) (markCursor none right)) :=
  spans_divided mode none left right char more reads

theorem plain_spans_at_quote (mode : Mode) (left right : Text) (quoting : Bool)
    (here : mode.behind left = ⟨false, quoting⟩) :
    plainSpans mode (left ++ '"' :: right) =
      plainSpans mode left ++ plainSpans ⟨false, !quoting⟩ right := by
  have divided := plain_spans_divided mode left right '"' [] (by rw [here]; rfl)
  rw [here] at divided
  exact divided

theorem plain_spans_quoted (mode : Mode) (text : Text) (quoting : mode.quoting = true)
    (unbroken : Unbroken mode text) :
    plainSpans mode text = [⟨markCursor none (kept mode text), true⟩] := by
  induction text generalizing mode with
  | nil => rw [← quoting]; rfl
  | cons char text induction =>
      have later : Unbroken (mode.after char) text := by
        apply unbroken_part mode [char] text []
        rwa [List.append_nil]
      have inside := fun stays => induction (mode.after char) stays later
      obtain ⟨span, rest, found, spans⟩ :=
        spans_kept (mode.after char) (markCursor none text) char false
      have keeps := mode.keeps_eq char false
      have takes := mode.takes char false
      generalize reads : mode.read char false = first at takes keeps
      generalize same : mode.after char = next at takes
      cases takes with
      | escaped | quoted =>
          replace inside := inside (by rw [same]; exact quoting)
          rw [plainSpans, found] at inside
          obtain ⟨rfl, rfl⟩ := List.cons.inj inside
          replace keeps : _ = true := keeps
          rw [plain_spans_cons _ char text _ reads, List.singleton_append, spans, kept,
            if_pos keeps, same, mark_cursor_cons]
          rfl
      | backslash =>
          rw [plain_spans_cons _ _ text _ reads, kept, keeps]
          exact inside (by rw [same]; exact quoting)
      | quote => exact absurd (unbroken [] _ text rfl keeps) (by decide)
      | blank | ordinary | punctuation => cases quoting

end FilterQuery.Word
