import FilterQuery.DateCall
import Mathlib

/-!
What is proposed for a date. A call typed up to its offset, or up to the unit behind it, is
completed with every unit. Any other text is completed to the functions that begin with it, and
these hold no bracket.
-/

set_option autoImplicit false

namespace FilterQuery.DateCall

def Digits (text : Text) : Prop := text ≠ [] ∧ ∀ digit ∈ text, '0' ≤ digit ∧ digit ≤ '9'

inductive Offset : Text → Prop
  | plain (digits : Text) : Digits digits → Offset digits
  | minus (digits : Text) : Digits digits → Offset ('-' :: digits)

/-- The beginnings of a call that go as far as its offset or one unit further. -/
inductive Begun (function offset : Text) : Text → Prop
  | offset : function ∈ functions → Offset offset →
      Begun function offset (function ++ '(' :: offset)
  | unit (unit : Char) : function ∈ functions → Offset offset → unit ∈ units →
      Begun function offset (function ++ '(' :: (offset ++ [unit]))

theorem no_digits_behind_minus (text : Text) : ¬ Digits ('-' :: text) := by
  intro digits
  exact absurd (digits.2 '-' (by simp)).1 (by decide)

theorem is_offset_iff (text : Text) : isOffset text = true ↔ Offset text := by
  have digits : ∀ digits : Text, (!digits.isEmpty && digits.all fun digit =>
      '0' ≤ digit && digit ≤ '9') = true ↔ Digits digits := by
    intro digits
    simp [Digits]
  unfold isOffset
  split
  · next rest =>
      rw [digits]
      refine ⟨.minus rest, ?_⟩
      rintro (⟨_, signed⟩ | ⟨_, behind⟩)
      · exact absurd signed (no_digits_behind_minus rest)
      · exact behind
  · next unsigned =>
      rw [digits]
      refine ⟨.plain text, ?_⟩
      rintro (⟨_, plain⟩ | ⟨rest, _⟩)
      · exact plain
      · exact absurd rfl (unsigned rest)

theorem function_without_bracket : ∀ function ∈ functions, '(' ∉ function := by
  simp [functions]

theorem drop_unit_cases (text : Text) :
    dropUnit text = text ∨ ∃ unit ∈ units, text = dropUnit text ++ [unit] := by
  rw [dropUnit]
  split
  · next last ends =>
    split
    · next known => 
      obtain ⟨front, rfl⟩ := List.getLast?_eq_some_iff.mp ends
      exact .inr ⟨last, known, by rw [List.dropLast_concat]⟩
    · exact .inl rfl
  · exact .inl rfl

theorem drop_unit_concat (text : Text) (unit : Char) (known : unit ∈ units) :
    dropUnit (text ++ [unit]) = text := by
  rw [dropUnit, List.getLast?_concat]
  simp [known]

theorem last_of_offset (text : Text) (offset : Offset text) :
    ∃ front digit, text = front ++ [digit] ∧ digit ≤ '9' := by
  have last : ∀ digits, Digits digits → ∃ front digit, digits = front ++ [digit] ∧ digit ≤ '9' := by
    intro digits within
    obtain ⟨front, digit, rfl⟩ := (List.eq_nil_or_concat digits).resolve_left within.1
    rw [List.concat_eq_append] at within ⊢
    exact ⟨front, digit, rfl, (within.2 digit (by simp)).2⟩
  cases offset with
  | plain _ digits => exact last text digits
  | minus rest digits =>
      obtain ⟨front, digit, rfl, atMost⟩ := last rest digits
      exact ⟨'-' :: front, digit, rfl, atMost⟩

theorem drop_unit_offset (text : Text) (offset : Offset text) : dropUnit text = text := by
  obtain ⟨front, digit, rfl, atMost⟩ := last_of_offset text offset
  have other : digit ∉ units := by
    intro known
    have above : ∀ unit ∈ units, '9' < unit := by simp [units]
    exact absurd (above digit known) (not_lt_of_ge atMost)
  rw [dropUnit, List.getLast?_concat]
  exact if_neg other

theorem split_at_bracket (function argument : Text) (outside : '(' ∉ function) :
    split (function ++ '(' :: argument) =
      if functions.contains function && isOffset (dropUnit argument) then
        some (function, dropUnit argument)
      else none := by
  have other : ∀ char ∈ function, (char != '(') = true := by
    intro char member
    rw [bne_iff_ne]
    rintro rfl
    exact outside member
  have front : (function ++ '(' :: argument).takeWhile (· != '(') = function := by
    rw [List.takeWhile_append_of_pos other]
    simp
  have behind : (function ++ '(' :: argument).dropWhile (· != '(') = '(' :: argument := by
    rw [List.dropWhile_append_of_pos other]
    simp
  simp only [split, front, behind]

theorem split_without_bracket (typed : Text) (absent : '(' ∉ typed) : split typed = none := by
  have other : ∀ char ∈ typed, (char != '(') = true := by
    intro char member
    rw [bne_iff_ne]
    rintro rfl
    exact absent member
  simp only [split, List.dropWhile_eq_nil_iff.mpr other]

theorem split_eq_some_iff (typed function offset : Text) :
    split typed = some (function, offset) ↔ Begun function offset typed := by
  constructor
  · intro found
    by_cases bracket : '(' ∈ typed
    · obtain ⟨front, argument, rfl, outside⟩ := List.eq_append_cons_of_mem bracket
      rw [split_at_bracket front argument outside] at found
      split at found
      · next accepted =>
          obtain ⟨known, digits⟩ := Bool.and_eq_true_iff.mp accepted
          obtain ⟨rfl, rfl⟩ := Prod.mk.inj (Option.some.inj found)
          have listed := List.contains_iff_mem.mp known
          have offset := (is_offset_iff _).mp digits
          rcases drop_unit_cases argument with same | ⟨unit, ends, whole⟩
          · have begun := Begun.offset listed offset
            rwa [same] at begun ⊢
          · have begun := Begun.unit unit listed offset ends
            rwa [← whole] at begun
      · cases found
    · rw [split_without_bracket typed bracket] at found
      cases found
  · intro begun
    cases begun with
    | offset known digits =>
        rw [split_at_bracket function offset (function_without_bracket function known),
          drop_unit_offset offset digits, List.contains_iff_mem.mpr known,
          (is_offset_iff offset).mpr digits]
        rfl
    | unit unit known digits listed =>
        rw [split_at_bracket function _ (function_without_bracket function known),
          drop_unit_concat offset unit listed, List.contains_iff_mem.mpr known,
          (is_offset_iff offset).mpr digits]
        rfl

theorem candidates_of_begun (function offset typed : Text) (begun : Begun function offset typed) :
    candidates typed = units.map fun unit => function ++ '(' :: offset ++ [unit, ')'] := by
  rw [candidates, (split_eq_some_iff typed function offset).mpr begun]

theorem candidates_otherwise (typed : Text)
    (otherwise : ¬ ∃ function offset, Begun function offset typed) :
    candidates typed = (functions.filter (typed <+: ·)).map (· ++ ['(']) := by
  have undivided : split typed = none := by
    rw [Option.eq_none_iff_forall_ne_some]
    rintro ⟨function, offset⟩ found
    exact otherwise ⟨function, offset, (split_eq_some_iff typed function offset).mp found⟩
  have prefixes : functions.filter (typed.isPrefixOf ·) = functions.filter (typed <+: ·) := by
    apply List.filter_congr
    intro function _
    rw [Bool.eq_iff_iff, List.isPrefixOf_iff_prefix, decide_eq_true_iff]
  rw [candidates, undivided, ← prefixes]

/-- A proposed call without its closing bracket has been begun up to its unit. -/
theorem begun_of_proposed (function offset typed : Text) (unit : Char)
    (begun : Begun function offset typed) (listed : unit ∈ units) :
    Begun function offset (function ++ '(' :: offset ++ [unit, ')']).dropLast := by
  have shorter : (function ++ '(' :: offset ++ [unit, ')']).dropLast =
      function ++ '(' :: (offset ++ [unit]) := by
    rw [List.dropLast_append_of_ne_nil (List.cons_ne_nil _ _), List.append_assoc]
    rfl
  rw [shorter]
  cases begun with
  | offset known digits => exact .unit unit known digits listed
  | unit _ known digits _ => exact .unit unit known digits listed

/-- A call typed up to its offset or its unit is proposed with every unit, and so is each proposal
without its closing bracket. Any other text is completed to the functions that begin with it, which
are none as soon as a bracket was typed. -/
theorem candidates_exact (typed : Text) :
    (∀ function offset, Begun function offset typed →
      candidates typed = units.map (fun unit => function ++ '(' :: offset ++ [unit, ')']) ∧
        ∀ proposed ∈ candidates typed, candidates proposed.dropLast = candidates typed) ∧
    ((¬ ∃ function offset, Begun function offset typed) →
      candidates typed = (functions.filter (typed <+: ·)).map (· ++ ['(']) ∧
        ('(' ∈ typed → candidates typed = [])) := by
  constructor
  · intro function offset begun
    have proposed := candidates_of_begun function offset typed begun
    refine ⟨proposed, ?_⟩
    rw [proposed, List.forall_mem_map]
    intro unit listed
    exact candidates_of_begun function offset _ (begun_of_proposed function offset typed unit begun
      listed)
  · intro otherwise
    have completed := candidates_otherwise typed otherwise
    refine ⟨completed, fun bracket => ?_⟩
    rw [completed, List.map_eq_nil_iff, List.filter_eq_nil_iff]
    intro function known begins
    exact function_without_bracket function known ((of_decide_eq_true begins).subset bracket)

theorem candidates_exact_units :
    Begun "now".toList "-5".toList "now(-5d".toList ∧
      candidates "now(-5d".toList =
        ["now(-5y)", "now(-5M)", "now(-5w)", "now(-5d)", "now(-5H)", "now(-5m)"].map
          String.toList ∧
      candidates "now(-5H".toList = candidates "now(-5d".toList ∧
      (¬ ∃ function offset, Begun function offset "now(5dd".toList) ∧
      candidates "now(5dd".toList = [] := by
  have begun : Begun "now".toList "-5".toList "now(-5d".toList :=
    .unit 'd' (by decide) ((is_offset_iff _).mp (by decide)) (by decide)
  have other : ¬ ∃ function offset, Begun function offset "now(5dd".toList := by
    rintro ⟨function, offset, begun⟩
    have divided := (split_eq_some_iff _ function offset).mpr begun
    cases divided
  obtain ⟨proposed, again⟩ := (candidates_exact "now(-5d".toList).1 _ _ begun
  have listed : "now(-5H)".toList ∈ candidates "now(-5d".toList := by
    rw [proposed]
    decide
  exact ⟨begun, proposed, again _ listed, other,
    ((candidates_exact "now(5dd".toList).2 other).2 (by decide)⟩

end FilterQuery.DateCall
