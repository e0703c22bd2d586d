import FilterQuery.Json.Numeral
import FilterQuery.Json.Writer
import Mathlib

/-!
A 64-bit integer that is written is read as the same integer.
-/

set_option autoImplicit false

namespace FilterQuery

namespace Text

theorem digit_of_mem_of_nat (number : Nat) (char : Char) (member : char ∈ ofNat number) :
    Json.Numeral.isDigit char = true := by
  have digit := Nat.isDigit_of_mem_toDigits (by decide) (Nat.le_refl 10) member
  rw [Char.isDigit, ← Bool.decide_and, decide_eq_true_iff] at digit
  unfold Json.Numeral.isDigit
  rw [← Bool.decide_and, decide_eq_true_iff]
  exact digit

/-- Only zero begins with a zero. -/
theorem head_of_nat (number : Nat) (positive : 0 < number) : (ofNat number).head? ≠ some '0' := by
  induction number using Nat.strong_induction_on with
  | h number induction =>
      unfold ofNat
      by_cases small : number < 10
      · rw [Nat.toDigits_of_lt_base small, List.head?_cons, ne_eq, Option.some.injEq,
          Nat.digitChar_eq_zero]
        omega
      · have front := induction (number / 10) (by omega) (by omega)
        rw [Nat.toDigits_of_base_le (by decide) (by omega),
          List.head?_append_of_ne_nil _ Nat.toDigits_ne_nil]
        exact front

end Text

namespace Json.Numeral

@[simp] theorem value_of_nat (number : Nat) : value (Text.ofNat number) = number := by
  have digits := Nat.ofDigitChars_ten_toDigits (n := number)
  rwa [Nat.ofDigitChars_eq_foldl] at digits

theorem read_magnitude_of_nat (number : Nat) :
    readMagnitude (Text.ofNat number) = some ⟨Text.ofNat number, none, none⟩ := by
  have digits := Text.digit_of_mem_of_nat number
  have all : (Text.ofNat number).takeWhile isDigit = Text.ofNat number :=
    List.takeWhile_eq_self_iff.mpr digits
  have behind : (Text.ofNat number).dropWhile isDigit = [] := List.dropWhile_eq_nil_iff.mpr digits
  have some : someDigits (Text.ofNat number) = some (Text.ofNat number, []) := by
    obtain ⟨first, rest, same⟩ := List.exists_cons_of_ne_nil
      (Nat.toDigits_ne_nil (n := number) (b := 10))
    unfold someDigits
    rw [all, behind, show Text.ofNat number = first :: rest from same]
  have whole : readWhole (Text.ofNat number) = Option.some (Text.ofNat number, []) := by
    unfold readWhole
    rw [some]
    apply if_neg
    rintro ⟨long, zero⟩
    rcases Nat.eq_zero_or_pos number with rfl | positive
    · exact absurd long (by decide)
    · exact Text.head_of_nat number positive zero
  unfold readMagnitude
  rw [whole]
  rfl

theorem read_of_nat (number : Nat) :
    read (Text.ofNat number) = some ((Magnitude.mk (Text.ofNat number) none none).toJson false) ∧
      read ('-' :: Text.ofNat number) =
        some ((Magnitude.mk (Text.ofNat number) none none).toJson true) := by
  have magnitude := read_magnitude_of_nat number
  constructor
  · unfold read
    split
    · next text same =>
        have digit := Text.digit_of_mem_of_nat number '-' (by rw [same]; simp)
        cases digit
    · rw [magnitude, Option.map_some]
  · rw [read, magnitude, Option.map_some]

theorem read_write_integer (number : Int) (lower : -(signedLimit : Int) ≤ number)
    (upper : number < unsignedLimit) : read (writeInteger number) = some (.integer number) := by
  obtain ⟨natural, negative⟩ := read_of_nat number.natAbs
  unfold writeInteger
  split
  · next below =>
      have size : 0 < number.natAbs ∧ number.natAbs ≤ signedLimit := by omega
      have whole : -(number.natAbs : Int) = number := by omega
      rw [negative, Magnitude.toJson, value_of_nat]
      simp only [Option.isSome_none, Bool.or_self, Bool.false_eq_true, if_false, if_true,
        if_pos size, whole]
  · next above =>
      have size : number.natAbs < unsignedLimit := by omega
      have whole : (number.natAbs : Int) = number := by omega
      rw [natural, Magnitude.toJson, value_of_nat]
      simp only [Option.isSome_none, Bool.or_self, Bool.false_eq_true, if_false, if_pos size, whole]

theorem write_integer_cons (number : Int) :
    ∃ first rest, writeInteger number = first :: rest ∧ (first = '-' ∨ isDigit first = true) ∧
      ∀ char ∈ rest, isDigit char = true := by
  have digits := Text.digit_of_mem_of_nat number.natAbs
  unfold writeInteger
  split
  · exact ⟨'-', _, rfl, .inl rfl, digits⟩
  · obtain ⟨first, rest, same⟩ := List.exists_cons_of_ne_nil
      (Nat.toDigits_ne_nil (n := number.natAbs) (b := 10))
    have same : Text.ofNat number.natAbs = first :: rest := same
    rw [same] at digits ⊢
    exact ⟨first, rest, rfl, .inr (digits first (by simp)),
      fun char member => digits char (List.mem_cons_of_mem first member)⟩

end Json.Numeral

end FilterQuery
