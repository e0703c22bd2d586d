import FilterQuery.Tree.Print
import FilterQuery.Word.Scan
import Mathlib

/-!
Where the cursor stands in a text that is read, and that writing a text between quotes moves it
together with the character in front of it.
-/

set_option autoImplicit false

namespace FilterQuery.Word

/-- A word as reading makes it: not empty, and a cursor in it stands behind one of its
characters. -/
structure Sound (word : Word) : Prop where
  nonempty : word.text ≠ []
  cursor : ∀ offset, word.cursor = some offset → 0 < offset ∧ offset ≤ word.length

theorem sound_of_unmarked (word : Word) (written : word.text ≠ []) (unmarked : word.cursor = none) :
    word.Sound := by
  refine ⟨written, ?_⟩
  intro offset here
  rw [unmarked] at here
  cases here

@[simp] theorem mark_cursor_cons (cursor : Option Nat) (char : Char) (rest : Text) :
    markCursor cursor (char :: rest) =
      (char, cursor == some 1) :: markCursor (cursor.map (· - 1)) rest := by
  have shifted : ∀ index : Nat,
      (cursor == some (index + 1 + 1)) = (cursor.map (· - 1) == some (index + 1)) := by
    intro index
    cases cursor with
    | none => rfl
    | some offset =>
        rw [Option.map_some, Bool.eq_iff_iff, beq_iff_eq, beq_iff_eq, Option.some.injEq,
          Option.some.injEq]
        omega
  simp only [markCursor, List.zipIdx_cons', List.map_cons, List.map_map, Function.comp_def,
    Prod.map, id, shifted, Nat.zero_add]

@[simp] theorem text_mark_cursor (cursor : Option Nat) (text : Text) :
    (markCursor cursor text).map Prod.fst = text := by
  induction text generalizing cursor with
  | nil => rfl
  | cons char rest induction => rw [mark_cursor_cons, List.map_cons, induction]

@[simp]
theorem mark_cursor_zero (text : Text) : markCursor (some 0) text = markCursor none text := by
  induction text with
  | nil => rfl
  | cons char rest induction =>
      rw [mark_cursor_cons, mark_cursor_cons, Option.map_some, Nat.zero_sub, induction]
      rfl

theorem mark_cursor_beyond (text : Text) (offset : Nat) (positive : 0 < offset) :
    markCursor (some (text.length + offset)) text = markCursor none text := by
  induction text with
  | nil => rfl
  | cons char rest induction =>
      have elsewhere : (some ((char :: rest).length + offset) == some 1) = false := by
        rw [beq_eq_false_iff_ne, ne_eq, Option.some.injEq, List.length_cons]
        omega
      have shifted : (char :: rest).length + offset - 1 = rest.length + offset := by
        rw [List.length_cons]
        omega
      rw [mark_cursor_cons, mark_cursor_cons, Option.map_some, elsewhere, shifted, induction]
      rfl

theorem mark_cursor_outside (text : Text) (offset : Nat)
    (outside : offset = 0 ∨ text.length < offset) :
    markCursor (some offset) text = markCursor none text := by
  rcases outside with rfl | beyond
  · exact mark_cursor_zero text
  · obtain ⟨more, rfl⟩ := Nat.exists_eq_add_of_lt beyond
    exact mark_cursor_beyond text (more + 1) (Nat.succ_pos more)

theorem mark_cursor_append (cursor : Option Nat) (left right : Text) :
    markCursor cursor (left ++ right) =
      markCursor cursor left ++ markCursor (cursor.map (· - left.length)) right := by
  induction left generalizing cursor with
  | nil => cases cursor <;> rfl
  | cons char rest induction =>
      rw [List.cons_append, mark_cursor_cons, mark_cursor_cons, induction, List.cons_append,
        Option.map_map]
      congr 4
      funext offset
      simp only [Function.comp, List.length_cons]
      omega

theorem mark_cursor_append_cons (cursor : Option Nat) (left right : Text) (char : Char) :
    markCursor cursor (left ++ char :: right) =
      markCursor cursor left ++ (char, cursor == some (left.length + 1)) ::
        markCursor (cursor.map (· - (left.length + 1))) right := by
  have here : (cursor.map (· - left.length) == some 1) = (cursor == some (left.length + 1)) := by
    cases cursor with
    | none => rfl
    | some offset =>
        rw [Option.map_some, Bool.eq_iff_iff, beq_iff_eq, beq_iff_eq, Option.some.injEq,
          Option.some.injEq]
        omega
  rw [mark_cursor_append, mark_cursor_cons, here, Option.map_map]
  rfl

theorem count_mark_cursor (cursor : Option Nat) (text : Text) :
    (markCursor cursor text).countP Prod.snd ≤ 1 := by
  have unmarked : ∀ rest : Text, (markCursor none rest).countP Prod.snd = 0 := by
    intro rest
    induction rest with
    | nil => rfl
    | cons char rest induction => simpa using induction
  induction text generalizing cursor with
  | nil => exact Nat.zero_le 1
  | cons char rest induction =>
      rw [mark_cursor_cons, List.countP_cons]
      split
      · next here =>
          obtain rfl : cursor = some 1 := by simpa using here
          have behind := unmarked rest
          rw [Option.map_some, mark_cursor_zero]
          omega
      · exact induction _

theorem find_mark_cursor (cursor : Option Nat) (text : Text)
    (inside : ∀ offset, cursor = some offset → 0 < offset ∧ offset ≤ text.length) :
    ((markCursor cursor text).findIdx? Prod.snd).map (· + 1) = cursor := by
  induction text generalizing cursor with
  | nil =>
      cases cursor with
      | none => rfl
      | some offset =>
          have bounds := inside offset rfl
          simp only [List.length_nil] at bounds
          omega
  | cons char rest induction =>
      rw [mark_cursor_cons, List.findIdx?_cons]
      cases cursor with
      | none => simpa [Function.comp_def] using induction none (by simp)
      | some offset =>
          have bounds := inside offset rfl
          by_cases here : offset = 1
          · subst here
            rfl
          · have later := induction (some (offset - 1)) (by
              intro other same
              rw [← Option.some.inj same]
              simp only [List.length_cons] at bounds
              omega)
            have elsewhere : (some offset == some 1) = false := by simpa using here
            rw [elsewhere, if_neg Bool.false_ne_true, Option.map_some]
            generalize List.findIdx? Prod.snd (markCursor (some (offset - 1)) rest) = found at later
            cases found with
            | none => cases later
            | some index =>
                have same : index + 1 = offset - 1 := Option.some.inj later
                simp only [Option.map_some, Option.some.injEq]
                omega

/-- The characters of a marked text as they stand between quotes. -/
def escapeMarked (text : List (Char × Bool)) : List (Char × Bool) :=
  text.flatMap fun (char, typed) =>
    if char = '"' ∨ char = '\\' then [('\\', false), (char, typed)] else [(char, typed)]

theorem escape_marked_cons (char : Char) (typed : Bool) (rest : List (Char × Bool)) :
    escapeMarked ((char, typed) :: rest) =
      (if char = '"' ∨ char = '\\' then [('\\', false), (char, typed)] else [(char, typed)]) ++
        escapeMarked rest := rfl

theorem escape_cons (char : Char) (rest : Text) :
    Text.escape (char :: rest) =
      (if char = '"' ∨ char = '\\' then ['\\', char] else [char]) ++ Text.escape rest := rfl

theorem length_escape_ge (text : Text) : text.length ≤ (Text.escape text).length := by
  induction text with
  | nil => exact Nat.le_refl 0
  | cons char rest induction =>
      rw [escape_cons]
      split <;> simp only [List.length_append, List.length_cons, List.length_nil] <;> omega

theorem length_escape_take_le (text : Text) (offset : Nat) :
    (Text.escape (text.take offset)).length ≤ (Text.escape text).length := by
  have whole : Text.escape text =
      Text.escape (text.take offset) ++ Text.escape (text.drop offset) := by
    rw [Text.escape, Text.escape, Text.escape, ← List.flatMap_append, List.take_append_drop]
  rw [whole, List.length_append]
  exact Nat.le_add_right _ _

theorem mark_cursor_escape_none (text : Text) :
    markCursor none (Text.escape text) = escapeMarked (markCursor none text) := by
  induction text with
  | nil => rfl
  | cons char rest induction =>
      rw [escape_cons, mark_cursor_append, Option.map_none, induction, mark_cursor_cons,
        escape_marked_cons]
      split <;> rfl

/-- The cursor behind the escaped text in front of it stands behind the same character. -/
theorem mark_cursor_escape (text : Text) (offset : Nat) (inside : offset ≤ text.length) :
    markCursor (some (Text.escape (text.take offset)).length) (Text.escape text) =
      escapeMarked (markCursor (some offset) text) := by
  induction text generalizing offset with
  | nil => rfl
  | cons char rest induction =>
      cases offset with
      | zero =>
          rw [List.take_zero]
          change markCursor (some 0) (Text.escape (char :: rest)) = _
          rw [mark_cursor_zero, mark_cursor_zero, mark_cursor_escape_none]
      | succ offset =>
          simp only [List.length_cons] at inside
          have later := induction offset (by omega)
          have start : ((Text.escape (rest.take offset)).length == 0) = (offset == 0) := by
            have lower := length_escape_ge (rest.take offset)
            rw [List.length_take, Nat.min_eq_left (by omega)] at lower
            rw [Bool.eq_iff_iff, beq_iff_eq, beq_iff_eq]
            constructor
            · omega
            · rintro rfl
              rfl
          rw [mark_cursor_cons, escape_marked_cons, Option.map_some, Nat.add_sub_cancel, ← later,
            List.take_succ_cons, escape_cons, escape_cons, List.length_append]
          generalize (Text.escape (rest.take offset)).length = size at start
          split
          · simp [← start]
            omega
          · simp [← start, Nat.add_comm 1 size]

end FilterQuery.Word
