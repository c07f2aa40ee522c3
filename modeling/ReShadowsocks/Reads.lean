/-
Computations that read a memory, with the offsets they read.

A `Reading β α` gets the memory as a function of the offset and returns a value together with the
offsets it has read, in order.  What a computation reads may depend on what it has read before, so
`Within` is stated for one memory at a time.

* `Within.bind`, `within_ite`, `within_read`, `within_readMany` — where a computation reads, from its parts;
* `slice_append`, `drop_slice`, `take_slice` — the parts of a range of the memory.
-/
import Mathlib.Data.List.Basic

namespace Reads

universe u v

variable {β : Type v} {α γ : Type u}

/-- A computation over a memory: its value, and the offsets that were read. -/
def Reading (β : Type v) (α : Type u) : Type (max u v) := (Nat → β) → α × List Nat

namespace Reading

def value (x : Reading β α) (m : Nat → β) : α := (x m).1

def offsets (x : Reading β α) (m : Nat → β) : List Nat := (x m).2

instance : Monad (Reading β) where
  pure a := fun _ => (a, [])
  bind x f := fun m => ((f (x.value m)).value m, x.offsets m ++ (f (x.value m)).offsets m)

end Reading

open Reading

/-! ### Ranges of the memory -/

/-- The `len` cells from `start` on. -/
def slice (m : Nat → β) : Nat → Nat → List β
  | _, 0 => []
  | start, len + 1 => m start :: slice m (start + 1) len

def read (i : Nat) : Reading β β := fun m => (m i, [i])

/-- All cells of a range, as `memcpy` reads them. -/
def readMany (start len : Nat) : Reading β (List β) :=
  fun m => (slice m start len, List.range' start len)

@[simp] theorem length_slice (m : Nat → β) (start len : Nat) :
    (slice m start len).length = len := by
  induction len generalizing start with
  | zero => rfl
  | succ len ih => rw [slice, List.length_cons, ih]

theorem slice_append (m : Nat → β) (start k len : Nat) :
    slice m start (k + len) = slice m start k ++ slice m (start + k) len := by
  induction k generalizing start with
  | zero => rw [Nat.zero_add, Nat.add_zero, slice, List.nil_append]
  | succ k ih =>
    have hstart : start + 1 + k = start + (k + 1) := by omega
    rw [Nat.succ_add, slice, slice, ih, hstart, List.cons_append]

theorem drop_slice (m : Nat → β) (start : Nat) {k len : Nat} (h : k ≤ len) :
    (slice m start len).drop k = slice m (start + k) (len - k) := by
  obtain ⟨rest, rfl⟩ := Nat.exists_eq_add_of_le h
  rw [slice_append, List.drop_left' (length_slice m start k), Nat.add_sub_cancel_left]

theorem take_slice (m : Nat → β) (start : Nat) {k len : Nat} (h : k ≤ len) :
    (slice m start len).take k = slice m start k := by
  obtain ⟨rest, rfl⟩ := Nat.exists_eq_add_of_le h
  rw [slice_append, List.take_left' (length_slice m start k)]

theorem getElem?_slice (m : Nat → β) (start : Nat) {i len : Nat} (h : i < len) :
    (slice m start len)[i]? = some (m (start + i)) := by
  obtain ⟨rest, rfl⟩ : ∃ rest, len = i + (rest + 1) := ⟨len - i - 1, by omega⟩
  rw [slice_append, List.getElem?_append_right (Nat.le_of_eq (length_slice m start i)),
    length_slice, Nat.sub_self]
  rfl

/-! ### Values -/

variable (m : Nat → β)

@[simp] theorem value_pure (a : α) : (pure a : Reading β α).value m = a := rfl

@[simp] theorem value_bind (x : Reading β α) (f : α → Reading β γ) :
    (x >>= f).value m = (f (x.value m)).value m := rfl

@[simp] theorem value_read (i : Nat) : (read i).value m = m i := rfl

@[simp] theorem value_readMany (start len : Nat) :
    (readMany start len).value m = slice m start len := rfl

/-! ### Offsets -/

/-- All offsets that are read lie in a range. -/
def Within (lo hi : Nat) (x : Reading β α) : Prop := ∀ i ∈ x.offsets m, lo ≤ i ∧ i < hi

variable {m} {lo hi : Nat}

theorem within_pure (a : α) : Within m lo hi (pure a : Reading β α) :=
  fun _ h => absurd h List.not_mem_nil

theorem Within.bind {x : Reading β α} {f : α → Reading β γ} (hx : Within m lo hi x)
    (hf : Within m lo hi (f (x.value m))) : Within m lo hi (x >>= f) := by
  intro i hi
  rcases List.mem_append.mp hi with hi | hi
  · exact hx i hi
  · exact hf i hi

theorem within_read {i : Nat} (hlo : lo ≤ i) (hhi : i < hi) : Within m lo hi (read i) := by
  intro j hj
  rw [List.mem_singleton.mp hj]
  exact ⟨hlo, hhi⟩

theorem within_readMany {start len : Nat} (hlo : lo ≤ start) (hhi : start + len ≤ hi) :
    Within m lo hi (readMany start len) := by
  intro i hi
  obtain ⟨hstart, hlen⟩ := List.mem_range'_1.mp hi
  omega

/-- A computation that may stop before it reads. -/
theorem within_ite {c : Prop} [Decidable c] {a : α} {x : Reading β α}
    (h : ¬ c → Within m lo hi x) : Within m lo hi (if c then pure a else x) := by
  by_cases hc : c
  · rw [if_pos hc]
    exact within_pure a
  · rw [if_neg hc]
    exact h hc

theorem Within.mono {x : Reading β α} {lo' hi' : Nat} (h : Within m lo hi x) (hlo : lo' ≤ lo)
    (hhi : hi ≤ hi') : Within m lo' hi' x := by
  intro i hi
  have := h i hi
  omega

end Reads
