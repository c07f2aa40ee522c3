/-
`java.util.Arrays.binarySearch`.

The loop halves the part of the array from `low` on and before `high` (one more than the
variable of the library, so that the part may be empty).

* `loop_nonneg_iff` — the key lies in the part that is left, if anywhere;
* `binarySearch_nonneg_iff` — in a sorted array the result tells whether the key is there.
-/
import Mathlib.Data.List.Basic

namespace BinarySearch

variable {α : Type*}

/-- The key is only in the part from `low` on and before `high`. -/
def Within (a : List α) (key : α) (low high : Nat) : Prop :=
  ∀ i, a[i]? = some key → low ≤ i ∧ i < high

theorem Within.empty {a : List α} {key : α} {low high : Nat} (h : Within a key low high)
    (hle : high ≤ low) : key ∉ a := by
  intro hmem
  obtain ⟨i, hi⟩ := List.mem_iff_getElem?.mp hmem
  have := h i hi
  omega

variable [LT α] [DecidableLT α]

def loop (a : List α) (key : α) : Nat → Nat → Nat → Int
  | 0, low, _ => -((low : Int) + 1)
  | fuel + 1, low, high =>
    if low < high then
      let mid := (low + (high - 1)) / 2
      match a[mid]? with
      | none => -((low : Int) + 1)
      | some x =>
        if x < key then loop a key fuel (mid + 1) high
        else if key < x then loop a key fuel low mid
        else mid
    else -((low : Int) + 1)

/-- A place of the key, or a negative number. -/
def binarySearch (a : List α) (key : α) : Int := loop a key a.length 0 a.length

section

variable {a : List α} {key : α} (hirrefl : ∀ x : α, ¬ x < x)
  (htri : ∀ x y : α, ¬ x < y → ¬ y < x → x = y) (hsorted : a.Pairwise fun x y => ¬ y < x)

omit [DecidableLT α] in
include hsorted in
/-- Earlier places do not hold greater values. -/
theorem not_lt_of_getElem? {i j : Nat} {x y : α} (hij : i < j) (hx : a[i]? = some x)
    (hy : a[j]? = some y) : ¬ y < x := by
  obtain ⟨hi, rfl⟩ := List.getElem?_eq_some_iff.mp hx
  obtain ⟨hj, rfl⟩ := List.getElem?_eq_some_iff.mp hy
  exact List.pairwise_iff_getElem.mp hsorted i j hi hj hij

omit [DecidableLT α] in
include hirrefl hsorted in
theorem Within.right {low high mid : Nat} {x : α} (h : Within a key low high)
    (hx : a[mid]? = some x) (hlt : x < key) : Within a key (mid + 1) high := by
  intro i hi
  refine ⟨?_, (h i hi).2⟩
  by_contra hle
  rcases Nat.lt_or_ge i mid with himid | himid
  · exact not_lt_of_getElem? hsorted himid hi hx hlt
  · obtain rfl : i = mid := by omega
    rw [Option.some.inj (hi.symm.trans hx)] at hlt
    exact hirrefl x hlt

omit [DecidableLT α] in
include hirrefl hsorted in
theorem Within.left {low high mid : Nat} {x : α} (h : Within a key low high)
    (hx : a[mid]? = some x) (hlt : key < x) : Within a key low mid := by
  intro i hi
  refine ⟨(h i hi).1, ?_⟩
  by_contra hge
  rcases Nat.lt_or_ge mid i with himid | himid
  · exact not_lt_of_getElem? hsorted himid hx hi hlt
  · obtain rfl : i = mid := by omega
    rw [Option.some.inj (hi.symm.trans hx)] at hlt
    exact hirrefl x hlt

include hirrefl htri hsorted

/-- The key lies in the part that is left, if anywhere. -/
theorem loop_nonneg_iff {fuel low high : Nat} (hhigh : high ≤ a.length)
    (hfuel : high - low ≤ fuel) (h : Within a key low high) :
    0 ≤ loop a key fuel low high ↔ key ∈ a := by
  induction fuel generalizing low high with
  | zero =>
    have habsent := h.empty (by omega)
    have hneg : ¬ (0 : Int) ≤ -((low : Int) + 1) := by omega
    exact iff_of_false hneg habsent
  | succ fuel ih =>
    unfold loop
    split
    · rename_i hlt
      have hmid : (low + (high - 1)) / 2 < a.length := by omega
      have hx := List.getElem?_eq_getElem hmid
      simp only [hx]
      split
      · rename_i hless
        exact ih hhigh (by omega) (h.right hirrefl hsorted hx hless)
      · split
        · rename_i hgreater
          exact ih (by omega) (by omega) (h.left hirrefl hsorted hx hgreater)
        · rename_i hless hgreater
          have heq := htri _ _ hless hgreater
          exact iff_of_true (by omega) (heq ▸ List.getElem_mem hmid)
    · have habsent := h.empty (by omega)
      have hneg : ¬ (0 : Int) ≤ -((low : Int) + 1) := by omega
      exact iff_of_false hneg habsent

/-- **In a sorted array the result tells whether the key is there.** -/
theorem binarySearch_nonneg_iff : 0 ≤ binarySearch a key ↔ key ∈ a := by
  refine loop_nonneg_iff hirrefl htri hsorted (Nat.le_refl _) (Nat.sub_le _ _) fun i hi => ?_
  obtain ⟨hlt, -⟩ := List.getElem?_eq_some_iff.mp hi
  exact ⟨Nat.zero_le i, hlt⟩

end

end BinarySearch
