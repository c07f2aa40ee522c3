/-
Sets of addresses, kept as blocks.

A set of addresses of `h` bits is a binary tree that branches on the leading bit; a subtree that
is full or empty is a leaf.  So the blocks of the set are the full leaves, and two halves that are
both in the set are one block.

* `mem_add`, `mem_discard` — a block is added to a set or taken out of it;
* `mem_addAll`, `mem_discardAll` — the same for one block after the other;
* `mem_iff_exists_blocks` — the blocks of a set cover it, and no more.
-/
import ReShadowsocks.Cidr

open Cidr

/-- A set of addresses of `h` bits. -/
inductive AddressSet : Nat → Type
  | empty {h : Nat} : AddressSet h
  | full {h : Nat} : AddressSet h
  | node {h : Nat} (zero one : AddressSet h) : AddressSet (h + 1)

namespace AddressSet

variable {h : Nat}

def mem : {h : Nat} → AddressSet h → BitVec h → Bool
  | _, .empty, _ => false
  | _, .full, _ => true
  | h + 1, .node zero one, p => if p.msb then one.mem (p.setWidth h) else zero.mem (p.setWidth h)

/-- The addresses that start with a given bit. -/
def half (b : Bool) : AddressSet (h + 1) → AddressSet h
  | .empty => .empty
  | .full => .full
  | .node zero one => if b then one else zero

/-- Two halves; equal leaves are one leaf. -/
def join : AddressSet h → AddressSet h → AddressSet (h + 1)
  | .empty, .empty => .empty
  | .full, .full => .full
  | zero, one => .node zero one

def leaf (v : Bool) : AddressSet h := if v then .full else .empty

/-- All addresses that share `len` leading bits with `a` come in, or go out. -/
def put (v : Bool) : {h : Nat} → AddressSet h → BitVec h → Nat → AddressSet h
  | _, _, _, 0 => leaf v
  | 0, s, _, _ + 1 => s
  | h + 1, s, a, len + 1 =>
    if a.msb then join (s.half false) (put v (s.half true) (a.setWidth h) len)
    else join (put v (s.half false) (a.setWidth h) len) (s.half true)

def add (s : AddressSet h) (b : Block h) : AddressSet h := s.put true b.addr b.len

def discard (s : AddressSet h) (b : Block h) : AddressSet h := s.put false b.addr b.len

def addAll (s : AddressSet h) (bs : List (Block h)) : AddressSet h := bs.foldl add s

def discardAll (s : AddressSet h) (bs : List (Block h)) : AddressSet h := bs.foldl discard s

/-- The blocks of a set, in order. -/
def blocks : {h : Nat} → AddressSet h → List (Block h)
  | _, .empty => []
  | h, .full => [⟨0, 0, Nat.zero_le h⟩]
  | _, .node zero one => zero.blocks.map (·.cons false) ++ one.blocks.map (·.cons true)

/-! ### Membership -/

@[simp] theorem mem_empty (p : BitVec h) : mem .empty p = false := by
  cases h <;> rfl

@[simp] theorem mem_full (p : BitVec h) : mem .full p = true := by
  cases h <;> rfl

@[simp] theorem mem_leaf (v : Bool) (p : BitVec h) : (leaf v).mem p = v := by
  cases v with
  | false => exact mem_empty p
  | true => exact mem_full p

theorem mem_node_cons (zero one : AddressSet h) (bit : Bool) (p : BitVec h) :
    (node zero one).mem (p.cons bit) = if bit then one.mem p else zero.mem p := by
  rw [mem, BitVec.msb_cons, BitVec.setWidth_cons]

theorem mem_join_cons (zero one : AddressSet h) (bit : Bool) (p : BitVec h) :
    (join zero one).mem (p.cons bit) = if bit then one.mem p else zero.mem p := by
  unfold join
  split
  · simp
  · simp
  · exact mem_node_cons zero one bit p

theorem mem_half (s : AddressSet (h + 1)) (bit : Bool) (p : BitVec h) :
    (s.half bit).mem p = s.mem (p.cons bit) := by
  cases s with
  | empty => rw [half, mem_empty, mem_empty]
  | full => rw [half, mem_full, mem_full]
  | node zero one =>
    rw [mem_node_cons, half]
    split <;> rfl

theorem exists_cons (p : BitVec (h + 1)) : ∃ (bit : Bool) (q : BitVec h), p = q.cons bit :=
  ⟨p.msb, p.setWidth h, p.cons_msb_setWidth.symm⟩

/-- Of the two halves only one changes. -/
theorem mem_put_cons (v : Bool) (s : AddressSet (h + 1)) (a p : BitVec h) (bit bit' : Bool)
    (len : Nat) : (s.put v (a.cons bit) (len + 1)).mem (p.cons bit') =
      if bit' = bit then ((s.half bit).put v a len).mem p else s.mem (p.cons bit') := by
  rw [put, BitVec.msb_cons, BitVec.setWidth_cons]
  cases bit with
  | false =>
    rw [if_neg Bool.false_ne_true, mem_join_cons, mem_half]
    cases bit' <;> rfl
  | true =>
    rw [if_pos rfl, mem_join_cons, mem_half]
    cases bit' <;> rfl

theorem mem_put (v : Bool) (s : AddressSet h) (b : Block h) (p : BitVec h) :
    (s.put v b.addr b.len).mem p = if b.contains p then v else s.mem p := by
  obtain ⟨a, len, hlen⟩ := b
  induction h generalizing len with
  | zero =>
    obtain rfl : len = 0 := Nat.le_zero.mp hlen
    rw [put, mem_leaf, if_pos (Block.contains_of_len_eq_zero rfl p)]
  | succ h ih =>
    cases len with
    | zero =>
      rw [put, mem_leaf, if_pos (Block.contains_of_len_eq_zero rfl p)]
    | succ len =>
      obtain ⟨bit, a, rfl⟩ := exists_cons a
      obtain ⟨bit', p, rfl⟩ := exists_cons p
      have hle : len ≤ h := Nat.le_of_succ_le_succ hlen
      have hiff := Block.contains_cons ⟨a, len, hle⟩ bit bit' p
      rw [mem_put_cons]
      by_cases hbit : bit' = bit
      · subst hbit
        rw [if_pos rfl, ih _ p a len hle, mem_half]
        exact if_congr (hiff.trans (and_iff_right rfl)).symm rfl rfl
      · rw [if_neg hbit]
        exact (if_neg (mt hiff.mp fun hin => hbit hin.1)).symm

theorem mem_add (s : AddressSet h) (b : Block h) (p : BitVec h) :
    (s.add b).mem p = true ↔ b.contains p ∨ s.mem p = true := by
  rw [add, mem_put]
  split <;> simp [*]

theorem mem_discard (s : AddressSet h) (b : Block h) (p : BitVec h) :
    (s.discard b).mem p = true ↔ ¬ b.contains p ∧ s.mem p = true := by
  rw [discard, mem_put]
  split <;> simp [*]

theorem mem_addAll (s : AddressSet h) (bs : List (Block h)) (p : BitVec h) :
    (s.addAll bs).mem p = true ↔ (∃ b ∈ bs, b.contains p) ∨ s.mem p = true := by
  induction bs generalizing s with
  | nil => simp [addAll]
  | cons b bs ih =>
    have hcons : s.addAll (b :: bs) = (s.add b).addAll bs := rfl
    rw [hcons, ih, mem_add, List.exists_mem_cons_iff, or_left_comm, or_assoc]

theorem mem_discardAll (s : AddressSet h) (bs : List (Block h)) (p : BitVec h) :
    (s.discardAll bs).mem p = true ↔ (∀ b ∈ bs, ¬ b.contains p) ∧ s.mem p = true := by
  induction bs generalizing s with
  | nil => simp [discardAll]
  | cons b bs ih =>
    have hcons : s.discardAll (b :: bs) = (s.discard b).discardAll bs := rfl
    rw [hcons, ih, mem_discard, List.forall_mem_cons, and_left_comm, and_assoc]

/-! ### The blocks -/

/-- **The blocks of a set cover it, and no more.** -/
theorem mem_iff_exists_blocks (s : AddressSet h) (p : BitVec h) :
    s.mem p = true ↔ ∃ b ∈ s.blocks, b.contains p := by
  induction s with
  | empty => simp [blocks]
  | full =>
    exact iff_of_true (mem_full p)
      ⟨_, List.mem_singleton_self _, Block.contains_of_len_eq_zero rfl p⟩
  | node zero one hzero hone =>
    obtain ⟨bit, p, rfl⟩ := exists_cons p
    have hhalf : ∀ (c : Bool) (bs : List (Block _)),
        (∃ b ∈ bs.map (Block.cons c), b.contains (p.cons bit)) ↔
          bit = c ∧ ∃ b ∈ bs, b.contains p := by
      intro c bs
      constructor
      · rintro ⟨_, hmem, hin⟩
        obtain ⟨b, hb, rfl⟩ := List.mem_map.mp hmem
        obtain ⟨hbit, hb'⟩ := (b.contains_cons c bit p).mp hin
        exact ⟨hbit, b, hb, hb'⟩
      · rintro ⟨hbit, b, hb, hin⟩
        exact ⟨_, List.mem_map_of_mem hb, (b.contains_cons c bit p).mpr ⟨hbit, hin⟩⟩
    rw [mem_node_cons, blocks]
    simp only [List.mem_append, or_and_right, exists_or, hhalf]
    cases bit with
    | false => simpa using hzero p
    | true => simpa using hone p

end AddressSet
