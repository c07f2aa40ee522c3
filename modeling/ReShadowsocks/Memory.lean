/-
A block of memory as the list of its cells.

* `readAt`, `writeAt` — read and overwrite a range of cells;
* `readAt_writeAt_self`, `readAt_writeAt_of_disjoint` — a range just written reads back, and a
  range apart from it reads as before;
* `leBytes`, `leNat` — a number as its bytes, the lowest one first.
-/
import Mathlib.Algebra.Group.Nat.Defs
import Mathlib.Data.List.Basic
import Mathlib.Tactic.Common

namespace Memory

variable {β : Type*} {mem data : List β} {p q n : Nat}

/-- The `n` cells from `p` on. -/
def readAt (mem : List β) (p n : Nat) : List β := (mem.drop p).take n

/-- `mem` with `data` in the cells from `p` on. -/
def writeAt (mem : List β) (p : Nat) (data : List β) : List β :=
  mem.take p ++ (data ++ mem.drop (p + data.length))

theorem length_writeAt (h : p + data.length ≤ mem.length) :
    (writeAt mem p data).length = mem.length := by
  simp only [writeAt, List.length_append, List.length_take, List.length_drop]
  omega

theorem length_readAt (h : p + n ≤ mem.length) : (readAt mem p n).length = n := by
  simp only [readAt, List.length_take, List.length_drop]
  omega

theorem readAt_writeAt_self (h : p ≤ mem.length) :
    readAt (writeAt mem p data) p data.length = data := by
  have hp : (mem.take p).length = p := by
    rw [List.length_take]
    omega
  rw [readAt, writeAt, List.drop_append_of_le_length (Nat.le_of_eq hp.symm),
    List.drop_eq_nil_of_le (Nat.le_of_eq hp), List.nil_append, List.take_left]

theorem getElem?_readAt (mem : List β) (p n i : Nat) :
    (readAt mem p n)[i]? = if i < n then mem[p + i]? else none := by
  rw [readAt, List.getElem?_take]
  split
  · rw [List.getElem?_drop]
  · rfl

theorem getElem?_writeAt_of_outside {i : Nat} (h : p + data.length ≤ mem.length)
    (hi : i < p ∨ p + data.length ≤ i) : (writeAt mem p data)[i]? = mem[i]? := by
  have hp : (mem.take p).length = p := by
    rw [List.length_take]
    omega
  rw [writeAt]
  rcases hi with hlt | hge
  · rw [List.getElem?_append_left (by omega), List.getElem?_take, if_pos hlt]
  · rw [List.getElem?_append_right (by omega), List.getElem?_append_right (by omega),
      List.getElem?_drop, hp]
    congr 1
    omega

theorem readAt_writeAt_of_disjoint (h : p + data.length ≤ mem.length)
    (hpq : q + n ≤ p ∨ p + data.length ≤ q) :
    readAt (writeAt mem p data) q n = readAt mem q n := by
  refine List.ext_getElem? fun i => ?_
  rw [getElem?_readAt, getElem?_readAt]
  split
  · exact getElem?_writeAt_of_outside h (by omega)
  · rfl

/-- The `k` lowest bytes of `n`, the lowest one first. -/
def leBytes : Nat → Nat → List UInt8
  | 0, _ => []
  | k + 1, n => UInt8.ofNat n :: leBytes k (n / 256)

/-- The number that the bytes stand for, the lowest one first. -/
def leNat : List UInt8 → Nat
  | [] => 0
  | b :: bs => b.toNat + 256 * leNat bs

@[simp] theorem length_leBytes (k n : Nat) : (leBytes k n).length = k := by
  induction k generalizing n with
  | zero => rfl
  | succ k ih => rw [leBytes, List.length_cons, ih]

theorem leNat_leBytes {k n : Nat} (h : n < 256 ^ k) : leNat (leBytes k n) = n := by
  induction k generalizing n with
  | zero =>
    rw [pow_zero] at h
    rw [leBytes, leNat]
    omega
  | succ k ih =>
    rw [pow_succ] at h
    rw [leBytes, leNat, ih (by omega), UInt8.toNat_ofNat']
    omega

end Memory
