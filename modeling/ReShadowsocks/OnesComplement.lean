/-
Ones' complement sums.

The sum of `w`-bit words in ones' complement is taken with the carry of each addition added in
again at the low end.  There are two zeros, `0` and `2 ^ w - 1`; a sum is `0` only if all of its
terms are.  `residue w n` is the value that stands for the number `n`.

* `sum_eq_residue` — the sum of words stands for their sum as numbers;
* `residue_split` — so does a number whose high part was added to its low part;
* `residue_add_eq_top` — which words complete a sum to `2 ^ w - 1`.
-/
import Mathlib.Algebra.Group.Nat.Defs
import Mathlib.Algebra.GroupWithZero.Nat
import Mathlib.Data.List.Basic
import Mathlib.Tactic.Common

namespace OnesComplement

variable {w : Nat}

/-- Addition with end-around carry. -/
def add (w a b : Nat) : Nat := if a + b < 2 ^ w then a + b else a + b - (2 ^ w - 1)

/-- The sum of words. -/
def sum (w : Nat) (words : List Nat) : Nat := words.foldl (add w) 0

/-- `0` for `0`, otherwise the number from `1` to `2 ^ w - 1` congruent to `n` modulo
`2 ^ w - 1`. -/
def residue (w n : Nat) : Nat := if n = 0 then 0 else (n - 1) % (2 ^ w - 1) + 1

@[simp] theorem residue_zero : residue w 0 = 0 := rfl

theorem residue_eq_zero {n : Nat} : residue w n = 0 ↔ n = 0 := by
  unfold residue
  split
  · simp_all
  · simp_all

theorem two_le_pow (hw : 0 < w) : 2 ≤ 2 ^ w := by
  obtain ⟨k, rfl⟩ : ∃ k, w = k + 1 := ⟨w - 1, by omega⟩
  have hk : 1 ≤ 2 ^ k := Nat.one_le_two_pow
  rw [Nat.pow_succ]
  omega

theorem residue_lt (hw : 0 < w) (n : Nat) : residue w n < 2 ^ w := by
  have htwo := two_le_pow hw
  unfold residue
  split
  · omega
  · have hlt : (n - 1) % (2 ^ w - 1) < 2 ^ w - 1 := Nat.mod_lt _ (by omega)
    omega

/-- A word stands for itself. -/
theorem residue_of_lt {n : Nat} (h : n < 2 ^ w) : residue w n = n := by
  unfold residue
  split
  · omega
  · rw [Nat.mod_eq_of_lt (by omega)]
    omega

/-- Numbers that differ by a multiple of `2 ^ w - 1` stand for the same, unless one is `0`. -/
theorem residue_add_mul {n : Nat} (hn : n ≠ 0) (k : Nat) :
    residue w (n + (2 ^ w - 1) * k) = residue w n := by
  have hsub : n + (2 ^ w - 1) * k - 1 = n - 1 + (2 ^ w - 1) * k := by omega
  rw [residue, residue, if_neg (by omega), if_neg hn, hsub, Nat.add_mul_mod_self_left]

/-- **The high part added to the low part.** -/
theorem residue_split (hw : 0 < w) (n : Nat) : residue w (n % 2 ^ w + n / 2 ^ w) = residue w n := by
  have htwo := two_le_pow hw
  by_cases hn : n = 0
  · subst hn
    rw [Nat.zero_mod, Nat.zero_div]
  · have hdiv := Nat.mod_add_div n (2 ^ w)
    have hmul : 2 ^ w * (n / 2 ^ w) = (2 ^ w - 1) * (n / 2 ^ w) + n / 2 ^ w := by
      rw [Nat.sub_mul, Nat.one_mul]
      have hle : 1 * (n / 2 ^ w) ≤ 2 ^ w * (n / 2 ^ w) := Nat.mul_le_mul_right _ (by omega)
      omega
    have hpos : n % 2 ^ w + n / 2 ^ w ≠ 0 := by
      intro hzero
      obtain ⟨hlow, hhigh⟩ := Nat.add_eq_zero_iff.mp hzero
      rw [hlow, hhigh] at hdiv
      exact hn hdiv.symm
    have hsum : n = n % 2 ^ w + n / 2 ^ w + (2 ^ w - 1) * (n / 2 ^ w) := by omega
    exact (residue_add_mul hpos (n / 2 ^ w)).symm.trans (congrArg (residue w) hsum.symm)

/-- A term may be replaced by what it stands for. -/
theorem residue_add_residue (a b : Nat) : residue w (residue w a + b) = residue w (a + b) := by
  by_cases ha : a = 0
  · subst ha
    rfl
  · have hres : residue w a = (a - 1) % (2 ^ w - 1) + 1 := if_neg ha
    have hdiv := Nat.mod_add_div (a - 1) (2 ^ w - 1)
    have hsum : a + b = residue w a + b + (2 ^ w - 1) * ((a - 1) / (2 ^ w - 1)) := by
      rw [hres]
      omega
    have hpos : residue w a + b ≠ 0 := by
      rw [hres]
      omega
    exact (residue_add_mul hpos _).symm.trans (congrArg (residue w) hsum.symm)

theorem add_eq_residue {a b : Nat} (ha : a < 2 ^ w) (hb : b < 2 ^ w) :
    add w a b = residue w (a + b) := by
  unfold add
  split
  · rename_i hlt
    exact (residue_of_lt hlt).symm
  · rename_i hge
    have hsum : a + b = a + b - (2 ^ w - 1) + (2 ^ w - 1) * 1 := by omega
    have hres := residue_add_mul (w := w) (n := a + b - (2 ^ w - 1)) (by omega) 1
    rw [← hsum] at hres
    rw [hres, residue_of_lt (by omega)]

/-- **A sum of words stands for their sum as numbers.** -/
theorem sum_eq_residue (hw : 0 < w) {words : List Nat} (h : ∀ x ∈ words, x < 2 ^ w) :
    sum w words = residue w words.sum := by
  -- the partial sums stand for the sums of what was added so far
  have hfold : ∀ (words : List Nat) (n : Nat), (∀ x ∈ words, x < 2 ^ w) →
      words.foldl (add w) (residue w n) = residue w (n + words.sum) := by
    intro words
    induction words with
    | nil => exact fun n _ => by simp
    | cons x words ih =>
      intro n hwords
      have hx := hwords x List.mem_cons_self
      have hrest : ∀ y ∈ words, y < 2 ^ w := fun y hy => hwords y (List.mem_cons_of_mem x hy)
      rw [List.foldl_cons, add_eq_residue (residue_lt hw n) hx, residue_add_residue, ih _ hrest,
        List.sum_cons, Nat.add_assoc]
  have hzero := hfold words 0 h
  rw [residue_zero, Nat.zero_add] at hzero
  exact hzero

/-- **The words that complete a sum to `2 ^ w - 1`**: its complement, and the other zero if the sum
is a zero already. -/
theorem residue_add_eq_top (hw : 0 < w) {n c : Nat} (hn : n ≠ 0) (hlt : c < 2 ^ w) :
    residue w (n + c) = 2 ^ w - 1 ↔
      c = 2 ^ w - 1 - residue w n ∨ residue w n = 2 ^ w - 1 ∧ c = 2 ^ w - 1 := by
  have htwo := two_le_pow hw
  have hnlt := residue_lt hw n
  have hnpos : residue w n ≠ 0 := fun h => hn (residue_eq_zero.mp h)
  rw [← residue_add_residue, ← add_eq_residue hnlt hlt, add]
  split
  · omega
  · omega

end OnesComplement
