import FilterQuery.Json

/-!
Which decimals have a value as a double. The digits and the power of ten are each rounded to the
nearest double, and their product has to be finite. The main statement bounds what rounding a
natural number changes.
-/

set_option autoImplicit false

namespace FilterQuery.Json.Double

/-- The distance between doubles of the size of a natural number. Smaller distances than one do
not matter among natural numbers. -/
def spacing (number : Nat) : Nat := Nat.pow 2 (Nat.log2 number - 52)

/-- The double nearest to a natural number; halfway between two of them, the one that is an even
multiple of their distance. -/
def nearest (number : Nat) : Nat :=
  let below := number / spacing number
  let rest := number % spacing number
  if spacing number < 2 * rest || spacing number == 2 * rest && below % 2 == 1 then
    (below + 1) * spacing number
  else below * spacing number

theorem spacing_pos (number : Nat) : 0 < spacing number := Nat.pow_pos (by decide)

theorem nearest_near (number : Nat) :
    2 * nearest number ≤ 2 * number + spacing number ∧
      2 * number ≤ 2 * nearest number + spacing number := by
  have whole : spacing number * (number / spacing number) + number % spacing number = number :=
    Nat.div_add_mod number (spacing number)
  have small : number % spacing number < spacing number := Nat.mod_lt _ (spacing_pos number)
  have next : (number / spacing number + 1) * spacing number =
      spacing number * (number / spacing number) + spacing number := by
    rw [Nat.add_mul, Nat.mul_comm, Nat.one_mul]
  have same : number / spacing number * spacing number =
      spacing number * (number / spacing number) := Nat.mul_comm _ _
  simp only [nearest]
  split
  · next up =>
      simp only [Bool.or_eq_true, Bool.and_eq_true, decide_eq_true_eq, beq_iff_eq] at up
      omega
  · next down =>
      simp only [Bool.or_eq_true, decide_eq_true_eq] at down
      omega

/-- The smallest natural number that rounds to no double. -/
def limit : Nat := Nat.pow 2 1024 - Nat.pow 2 970

def maxExponent : Nat := 308

def isFinite (digits exponent : Nat) : Bool :=
  digits == 0 || decide (exponent ≤ maxExponent) &&
    decide (nearest digits * nearest (Nat.pow 10 exponent) < limit)

end FilterQuery.Json.Double
