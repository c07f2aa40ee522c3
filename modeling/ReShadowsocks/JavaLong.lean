/-
Arithmetic of `int` and `long` where it does not overflow.

The results of the machine operations are reduced into the range of the type; as long as the exact
result is in that range, they are the exact ones.
-/
import Mathlib.Algebra.Group.Int.Defs
import Mathlib.Algebra.Group.Nat.Defs

namespace JavaLong

/-- The numbers that a `long` holds. -/
def IsLong (n : Int) : Prop := -2 ^ 63 ≤ n ∧ n < 2 ^ 63

instance (n : Int) : Decidable (IsLong n) := inferInstanceAs (Decidable (_ ∧ _))

/-- The `long` that a result is reduced to. -/
def toLong (n : Int) : Int := n.bmod (2 ^ 64)

theorem toLong_of_isLong {n : Int} (h : IsLong n) : toLong n = n := by
  obtain ⟨hlo, hhi⟩ := h
  exact Int.bmod_eq_of_le (by omega) (by omega)

section

variable {a b : Int64}

theorem toInt_add (h : IsLong (a.toInt + b.toInt)) : (a + b).toInt = a.toInt + b.toInt := by
  rw [Int64.toInt_add]
  exact toLong_of_isLong h

theorem toInt_sub (h : IsLong (a.toInt - b.toInt)) : (a - b).toInt = a.toInt - b.toInt := by
  rw [Int64.toInt_sub]
  exact toLong_of_isLong h

theorem toInt_mul (h : IsLong (a.toInt * b.toInt)) : (a * b).toInt = a.toInt * b.toInt := by
  rw [Int64.toInt_mul]
  exact toLong_of_isLong h

/-- A quotient of numbers that are not negative. -/
theorem toInt_div (ha : 0 ≤ a.toInt) (hb : 0 ≤ b.toInt) : (a / b).toInt = a.toInt / b.toInt := by
  have hle : a.toInt / b.toInt ≤ a.toInt := Int.ediv_le_self _ ha
  have hnonneg : 0 ≤ a.toInt / b.toInt := Int.ediv_nonneg ha hb
  have hhi := a.toInt_lt
  rw [Int64.toInt_div, Int.tdiv_eq_ediv_of_nonneg ha]
  exact toLong_of_isLong ⟨by omega, by omega⟩

/-- A `long` in the range of an `int`. -/
theorem toInt_toInt32 (hlo : -2 ^ 31 ≤ a.toInt) (hhi : a.toInt < 2 ^ 31) :
    a.toInt32.toInt = a.toInt := by
  rw [Int64.toInt_toInt32]
  exact Int.bmod_eq_of_le (by omega) (by omega)

end

end JavaLong
