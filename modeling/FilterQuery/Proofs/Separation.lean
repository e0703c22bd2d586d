import FilterQuery.Proofs.Word.Stretch
import FilterQuery.Proofs.Word.Unmarked

/-!
Scanning on both sides of a separator. Outside quotes a blank or punctuation divides an input into
two parts that are scanned as if each of them were the whole input, and the cursor stays with the
part in which it stands.
-/

set_option autoImplicit false

namespace FilterQuery.Word

/-- The words that a separator outside quotes is read as: a blank is none, punctuation is one. -/
inductive Separates (separator : Char) : List Word → Prop
  | blank : isBlank separator = true → Separates separator []
  | punctuation : isPunctuation separator = true → Separates separator [plain [separator]]

theorem blank_cases (char : Char) (blank : isBlank char = true) :
    char = ' ' ∨ char = '\t' ∨ char = '\n' ∨ char = '\r' := by
  simpa [isBlank] using blank

theorem read_separator (separator : Char) (between : List Word)
    (separates : Separates separator between) (typed : Bool) :
    Mode.start.after separator = .start ∧ ∃ more,
      Mode.start.read separator typed = .boundary false :: more ∧
        ∀ rest, wordsOf (more ++ rest) =
          (if typed then between.map (withCursor · 1) else between) ++ wordsOf rest := by
  cases separates with
  | blank blank =>
      have known := blank_cases separator blank
      refine ⟨?_, [], ?_, fun rest => ?_⟩
      · rcases known with rfl | rfl | rfl | rfl <;> rfl
      · rcases known with rfl | rfl | rfl | rfl <;> rfl
      · cases typed <;> rfl
  | punctuation punctuation =>
      have known := punctuation_cases separator punctuation
      have alone : Span.words ⟨[(separator, typed)], false⟩ =
          if typed then [(plain [separator]).withCursor 1] else [plain [separator]] := by
        rcases known with rfl | rfl | rfl <;> cases typed <;> rfl
      refine ⟨?_, [.kept separator typed, .boundary false], ?_, fun rest => ?_⟩
      · rcases known with rfl | rfl | rfl <;> rfl
      · rcases known with rfl | rfl | rfl <;> rfl
      · have span := words_of_keep [(separator, typed)] false rest
        rw [alone] at span
        cases typed <;> exact span

theorem scan_divided (cursor : Option Nat) (front back : Text) (separator : Char)
    (between : List Word) (separates : Separates separator between)
    (outside : Mode.start.behind front = .start) :
    scan (front ++ separator :: back) cursor =
      scan front cursor ++
        ((if cursor == some (front.length + 1) then between.map (withCursor · 1) else between) ++
          scan back (cursor.map (· - (front.length + 1)))) := by
  obtain ⟨stays, more, reads, words⟩ := read_separator separator between separates
    (cursor == some (front.length + 1))
  have divided := spans_divided .start cursor front back separator more
    (by rw [outside]; exact reads)
  rw [outside, stays] at divided
  rw [scan, divided, List.flatMap_append]
  exact congrArg (scan front cursor ++ ·) (words _)

/-- A cursor in front of all characters of an input or behind the end of it marks none of its
words. -/
theorem scan_outside (input : Text) (offset : Nat) (outside : offset = 0 ∨ input.length < offset) :
    scan input (some offset) = scan input none := by
  rw [scan, mark_cursor_outside input offset outside]
  rfl

theorem unmarked_without_cursor (input : Text) : ∀ word ∈ scan input none, word.cursor = none := by
  intro word member
  rw [← scan_unmarked input none] at member
  obtain ⟨source, _, rfl⟩ := List.mem_map.mp member
  rfl

/-- Outside quotes, and not behind a backslash, a separator divides an input: its words are those of
the part in front of the separator, those of the separator and those of the part behind it. A cursor
up to the separator stands in the first part, one right behind the separator in the separator, and
one further behind in the second part; nothing else is marked. -/
theorem scan_at_separator (front back : Text) (separator : Char) (between : List Word)
    (separates : Separates separator between) (outside : Mode.start.behind front = .start) :
    scan (front ++ separator :: back) none = scan front none ++ between ++ scan back none ∧
      (∀ word ∈ scan front none ++ between ++ scan back none, word.cursor = none) ∧
      (∀ cursor, cursor ≤ front.length →
        scan (front ++ separator :: back) (some cursor) =
          scan front (some cursor) ++ between ++ scan back none) ∧
      scan (front ++ separator :: back) (some (front.length + 1)) =
        scan front none ++ between.map (withCursor · 1) ++ scan back none ∧
      ∀ cursor, front.length + 1 < cursor →
        scan (front ++ separator :: back) (some cursor) =
          scan front none ++ between ++ scan back (some (cursor - front.length - 1)) := by
  have divided := fun cursor => scan_divided cursor front back separator between separates outside
  have elsewhere : ∀ cursor, cursor ≠ front.length + 1 →
      (some cursor == some (front.length + 1)) = false := by
    intro cursor apart
    rw [beq_eq_false_iff_ne, ne_eq, Option.some.injEq]
    exact apart
  refine ⟨?_, ?_, fun cursor inFront => ?_, ?_, fun cursor behind => ?_⟩
  · rw [divided, ← List.append_assoc]
    rfl
  · have inside : ∀ word ∈ between, word.cursor = none := by
      cases separates with
      | blank => exact List.forall_mem_nil _
      | punctuation => exact List.forall_mem_singleton.mpr rfl
    rw [List.forall_mem_append, List.forall_mem_append]
    exact ⟨⟨unmarked_without_cursor front, inside⟩, unmarked_without_cursor back⟩
  · rw [divided, elsewhere cursor (by omega), Option.map_some,
      Nat.sub_eq_zero_of_le (by omega), scan_outside back 0 (.inl rfl), ← List.append_assoc]
    rfl
  · rw [divided, beq_self_eq_true, Option.map_some, Nat.sub_self, scan_outside back 0 (.inl rfl),
      scan_outside front _ (.inr (Nat.lt_succ_self _)), ← List.append_assoc]
    rfl
  · rw [divided, elsewhere cursor (by omega), Option.map_some,
      scan_outside front cursor (.inr (by omega)), ← List.append_assoc, Nat.sub_sub]
    rfl

theorem scan_at_separator_quoted :
    Separates '(' [plain ['(']] ∧ Mode.start.behind "n<=\"a, b\"\"\"\\)".toList = .start ∧
      scan "n<=\"a, b\"\"\"\\)(x \"y (".toList (some 18) =
        scan "n<=\"a, b\"\"\"\\)".toList none ++ [plain ['(']] ++
          scan "x \"y (".toList (some 4) ∧
      scan "n<=\"a, b\"\"\"\\)(x \"y (".toList (some 18) =
        [plain "n".toList, plain "<=".toList, quote "a, b".toList, plain [')'], plain ['('],
          plain ['x'], (quote "y (".toList).withCursor 1] := by
  have separates : Separates '(' [plain ['(']] := .punctuation rfl
  have outside : Mode.start.behind "n<=\"a, b\"\"\"\\)".toList = .start := by decide
  obtain ⟨_, _, _, _, behind⟩ := scan_at_separator "n<=\"a, b\"\"\"\\)".toList
    "x \"y (".toList '(' [plain ['(']] separates outside
  exact ⟨separates, outside, behind 18 (by decide), by decide⟩

end FilterQuery.Word
