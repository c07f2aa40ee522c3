/-
Blocks of addresses.

A block is an address with the number of its leading bits that count.  An
address belongs to the block if it has the same leading bits.

* `Block.ends_of_contains` — which of its addresses are the two ends, read off
  the bits behind the leading ones;
* `Block.contains_cons` — membership, bit by bit;
* `slash8_contains`, `slash16_contains` — membership in the blocks written
  `a.0.0.0/8` and `a.b.0.0/16`, by the leading octets;
* `countP_contains_of_tiles` — blocks that follow each other without a gap hold every
  address between the two ends exactly once.
-/
import Mathlib.Algebra.Group.Nat.Defs
import Mathlib.Algebra.GroupWithZero.Nat
import Mathlib.Data.List.Basic
import Mathlib.Tactic.Common

namespace Cidr

/-- `addr/len` over addresses of `w` bits. -/
structure Block (w : Nat) where
  addr : BitVec w
  len : Nat
  len_le : len ≤ w
  deriving DecidableEq, Repr

namespace Block

variable {w : Nat} {b : Block w} {p : BitVec w}

/-- The number of addresses of the block. -/
def size (b : Block w) : Nat := 2 ^ (w - b.len)

/-- The leading bits of `p` are those of the block. -/
def contains (b : Block w) (p : BitVec w) : Prop :=
  p.toNat / b.size = b.addr.toNat / b.size

instance (b : Block w) (p : BitVec w) : Decidable (b.contains p) :=
  inferInstanceAs (Decidable (_ = _))

/-- The network address: all bits behind the leading ones are 0. -/
def first (b : Block w) : BitVec w := BitVec.ofNat w (b.addr.toNat / b.size * b.size)

/-- The broadcast address: all bits behind the leading ones are 1. -/
def last (b : Block w) : BitVec w :=
  BitVec.ofNat w (b.addr.toNat / b.size * b.size + (b.size - 1))

theorem size_pos (b : Block w) : 0 < b.size := Nat.two_pow_pos _

theorem two_pow_eq (b : Block w) : 2 ^ w = 2 ^ b.len * b.size := by
  rw [size, ← Nat.pow_add]
  congr 1
  have hle := b.len_le
  omega

/-- There are `2 ^ b.len` blocks of the size of `b`. -/
theorem div_size_lt (b : Block w) (p : BitVec w) : p.toNat / b.size < 2 ^ b.len := by
  rw [Nat.div_lt_iff_lt_mul b.size_pos, ← b.two_pow_eq]
  exact p.isLt

/-- The end of the block is within the address space. -/
theorem end_le (b : Block w) : b.addr.toNat / b.size * b.size + b.size ≤ 2 ^ w := by
  calc b.addr.toNat / b.size * b.size + b.size
      = (b.addr.toNat / b.size + 1) * b.size := by rw [Nat.add_mul, Nat.one_mul]
    _ ≤ 2 ^ b.len * b.size := Nat.mul_le_mul_right _ (b.div_size_lt b.addr)
    _ = 2 ^ w := b.two_pow_eq.symm

theorem first_toNat (b : Block w) : b.first.toNat = b.addr.toNat / b.size * b.size := by
  have hend := b.end_le
  have hpos := b.size_pos
  rw [first, BitVec.toNat_ofNat, Nat.mod_eq_of_lt (by omega)]

theorem first_toNat_div (b : Block w) : b.first.toNat / b.size = b.addr.toNat / b.size := by
  rw [first_toNat, Nat.mul_div_cancel _ b.size_pos]

theorem last_toNat (b : Block w) :
    b.last.toNat = b.addr.toNat / b.size * b.size + (b.size - 1) := by
  have hend := b.end_le
  have hpos := b.size_pos
  rw [last, BitVec.toNat_ofNat, Nat.mod_eq_of_lt (by omega)]

/-- In its block, an address is told by the bits behind the leading ones. -/
theorem ends_of_contains (h : b.contains p) :
    (p = b.first ↔ p.toNat % b.size = 0) ∧ (p = b.last ↔ p.toNat % b.size = b.size - 1) := by
  have hpos := b.size_pos
  have hdiv := Nat.div_add_mod p.toNat b.size
  have hcomm : b.size * (p.toNat / b.size) = b.addr.toNat / b.size * b.size := by
    rw [h, Nat.mul_comm]
  constructor
  · rw [← BitVec.toNat_inj, first_toNat]
    omega
  · rw [← BitVec.toNat_inj, last_toNat]
    omega

/-- A block is an interval of addresses. -/
theorem contains_iff_between (b : Block w) (p : BitVec w) :
    b.contains p ↔ b.first.toNat ≤ p.toNat ∧ p.toNat < b.first.toNat + b.size := by
  have hpos := b.size_pos
  rw [contains, first_toNat]
  constructor
  · intro h
    have hdiv := Nat.div_add_mod p.toNat b.size
    have hlt := Nat.mod_lt p.toNat hpos
    rw [h, Nat.mul_comm] at hdiv
    omega
  · rintro ⟨hle, hlt⟩
    refine Nat.div_eq_of_lt_le hle ?_
    rw [Nat.add_mul, Nat.one_mul]
    exact hlt

theorem contains_of_len_eq_zero (h : b.len = 0) (p : BitVec w) : b.contains p := by
  rw [contains, size, h, Nat.sub_zero, Nat.div_eq_of_lt p.isLt, Nat.div_eq_of_lt b.addr.isLt]

/-- The block with one more bit in front. -/
def cons (bit : Bool) (b : Block w) : Block (w + 1) :=
  ⟨b.addr.cons bit, b.len + 1, Nat.succ_le_succ b.len_le⟩

theorem size_cons (bit : Bool) (b : Block w) : (b.cons bit).size = b.size := by
  rw [size, size, cons, Nat.add_sub_add_right]

/-- Behind the first bit, a block of the longer addresses is one of the shorter ones. -/
theorem contains_cons (b : Block w) (bit bit' : Bool) (p : BitVec w) :
    (b.cons bit).contains (p.cons bit') ↔ bit' = bit ∧ b.contains p := by
  have hdiv : ∀ (c : Bool) (q : BitVec w),
      (q.cons c).toNat / b.size = c.toNat * 2 ^ b.len + q.toNat / b.size := by
    intro c q
    rw [BitVec.toNat_cons', Nat.shiftLeft_eq, b.two_pow_eq, ← Nat.mul_assoc, Nat.add_comm,
      Nat.add_mul_div_right _ _ b.size_pos, Nat.add_comm]
  have hp := b.div_size_lt p
  have haddr := b.div_size_lt b.addr
  rw [contains, size_cons, hdiv, cons, hdiv, contains]
  generalize p.toNat / b.size = x at hp ⊢
  generalize b.addr.toNat / b.size = y at haddr ⊢
  by_cases hbit : bit' = bit
  · rw [hbit, Nat.add_left_cancel_iff, and_iff_right rfl]
  · refine iff_of_false (fun heq => ?_) fun h => hbit h.1
    -- the two halves do not meet
    cases bit with
    | false =>
      obtain rfl : bit' = true := eq_true_of_ne_false hbit
      rw [Bool.toNat_true, Bool.toNat_false] at heq
      omega
    | true =>
      obtain rfl : bit' = false := eq_false_of_ne_true hbit
      rw [Bool.toNat_true, Bool.toNat_false] at heq
      omega

end Block

/-! ### Tilings -/

section Tilings

variable {w : Nat}

/-- The blocks follow each other, from address `lo` up to `hi`. -/
def Tiles : Nat → List (Block w) → Nat → Prop
  | lo, [], hi => lo = hi
  | lo, b :: bs, hi => b.first.toNat = lo ∧ Tiles (lo + b.size) bs hi

instance Tiles.decidable : ∀ lo (bs : List (Block w)) hi, Decidable (Tiles lo bs hi)
  | lo, [], hi => inferInstanceAs (Decidable (lo = hi))
  | lo, b :: bs, hi =>
    have := Tiles.decidable (lo + b.size) bs hi
    inferInstanceAs (Decidable (_ ∧ _))

theorem Tiles.le {bs : List (Block w)} {lo hi : Nat} (h : Tiles lo bs hi) : lo ≤ hi := by
  induction bs generalizing lo with
  | nil => exact Nat.le_of_eq h
  | cons b bs ih =>
    have hle := ih h.2
    omega

/-- **A tiling holds every address between its ends exactly once.** -/
theorem countP_contains_of_tiles {bs : List (Block w)} {lo hi : Nat} (h : Tiles lo bs hi)
    (p : BitVec w) :
    bs.countP (fun b => decide (b.contains p)) =
      if lo ≤ p.toNat ∧ p.toNat < hi then 1 else 0 := by
  induction bs generalizing lo with
  | nil =>
    have heq : lo = hi := h
    rw [List.countP_nil, if_neg (by omega)]
  | cons b bs ih =>
    obtain ⟨hfirst, hrest⟩ := h
    have hle := hrest.le
    have hpos := b.size_pos
    have hiff := b.contains_iff_between p
    rw [hfirst] at hiff
    rw [List.countP_cons, ih hrest]
    -- the address is in the first block, behind it, or outside
    by_cases hb : b.contains p
    · have hin := hiff.mp hb
      rw [if_neg (by omega), if_pos (by simpa using hb), if_pos (by omega)]
    · have hout := mt hiff.mpr hb
      rw [if_neg (show ¬ decide (b.contains p) = true by simpa using hb), Nat.add_zero]
      congr 1
      rw [eq_iff_iff]
      omega

end Tilings

/-! ### Dotted quads -/

/-- The address written `a.b.c.d`. -/
def ipv4 (a b c d : Nat) : BitVec 32 := BitVec.ofNat 32 (a * 2 ^ 24 + b * 2 ^ 16 + c * 2 ^ 8 + d)

/-- Lengths are written as numerals. -/
instance neZero33 : NeZero 33 := ⟨by decide⟩

/-- `a.b.c.d/len` -/
def cidr (a b c d : Nat) (len : Fin 33) : Block 32 := ⟨ipv4 a b c d, len, by omega⟩

/-- `a.0.0.0/8` -/
def slash8 (a : Nat) : Block 32 := ⟨ipv4 a 0 0 0, 8, by omega⟩

/-- `a.b.0.0/16` -/
def slash16 (a b : Nat) : Block 32 := ⟨ipv4 a b 0 0, 16, by omega⟩

theorem size_slash8 (a : Nat) : (slash8 a).size = 2 ^ 24 := rfl

theorem size_slash16 (a b : Nat) : (slash16 a b).size = 2 ^ 16 := rfl

/-- The first octet. -/
def octet1 (p : BitVec 32) : Nat := p.toNat / 2 ^ 24

/-- The second octet. -/
def octet2 (p : BitVec 32) : Nat := p.toNat / 2 ^ 16 % 2 ^ 8

theorem octet1_lt (p : BitVec 32) : octet1 p < 256 := by
  have hlt := p.isLt
  rw [octet1]
  omega

theorem octet2_lt (p : BitVec 32) : octet2 p < 256 := by
  rw [octet2]
  omega

theorem slash8_contains {a : Nat} {p : BitVec 32} (ha : a < 256) :
    (slash8 a).contains p ↔ octet1 p = a := by
  rw [Block.contains, size_slash8, octet1, slash8, ipv4, BitVec.toNat_ofNat]
  omega

theorem slash16_contains {a b : Nat} {p : BitVec 32} (ha : a < 256) (hb : b < 256) :
    (slash16 a b).contains p ↔ octet1 p = a ∧ octet2 p = b := by
  rw [Block.contains, size_slash16, octet1, octet2, slash16, ipv4, BitVec.toNat_ofNat]
  omega

end Cidr
