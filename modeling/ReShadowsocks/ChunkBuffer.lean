/-
`ChunkBuffer2` of `tun2socks`: a circular buffer of packets.

The memory is an array of blocks of four bytes.  A packet is a block with its length and behind it
the blocks of its data, always in one piece.  Where no packet of MTU length can begin any more the
buffer is cut off (`wrap`) and goes on at its front.

* `Laid` — packets that stand one behind the other in memory;
* `Holds` — the packets that a buffer holds, the oldest one first;
* `returns_submitPacket`, `returns_consumePacket` — no assertion fails and no access leaves the
  memory, a packet is added behind all others and the oldest one is removed;
* `InputKept` — the place where the next packet goes stays the same when a packet is removed;
* `Queue.room` — with fewer than `num` packets there is room for one more.
-/
import Mathlib.Algebra.Group.Int.Defs
import ReShadowsocks.Memory
import ReShadowsocks.Program

namespace ChunkBuffer

open Memory Program

abbrev Bytes := List UInt8

/-- `sizeof(struct ChunkBuffer2_block)`. -/
def blockSize : Nat := 4

def intMax : Nat := 2 ^ 31 - 1

/-- What becomes of a `size_t` that is stored in an `int`. -/
def toInt (n : Int) : Int := n.bmod (2 ^ 32)

def bdivideUp (a b : Nat) : Nat := if a % b > 0 then a / b + 1 else a / b

inductive Fault
  /-- An `ASSERT` fails. -/
  | assertion
  /-- A block outside of the array is accessed. -/
  | outOfBounds
  deriving DecidableEq

/-- `int`s that the source asserts not to be negative are numbers; pointers into the array are
block indices, `none` for `NULL`. -/
structure ChunkBuffer2 where
  buffer : Bytes
  size : Nat
  wrap : Nat
  start : Nat
  used : Nat
  mtu : Nat
  inputDest : Option Nat
  inputAvail : Int
  outputDest : Option Nat
  outputAvail : Int
  deriving DecidableEq

abbrev Op := StateT ChunkBuffer2 (Except Fault)

namespace ChunkBuffer2

variable (b : ChunkBuffer2)

/-- `_ChunkBuffer2_end`. -/
def endOf : Nat :=
  if (b.used : Int) ≥ b.wrap - b.start then b.used - (b.wrap - b.start) else b.start + b.used

/-- The number of free blocks, as `_ChunkBuffer2_update_input` calculates it. -/
def free : Int :=
  if (b.used : Int) ≥ b.wrap - b.start then (b.start : Int) - b.endOf else b.size - b.endOf

/-- Where the next packet goes and how much of it. -/
def input : Option Nat × Int :=
  if (b.size : Int) - b.endOf - 1 < b.mtu then
    -- it will never be possible to write a MTU long packet here
    (none, -1)
  else if b.free > 0 then
    (some (b.endOf + 1), toInt ((b.free - 1) * blockSize))
  else
    (none, -1)

/-- The assertions of `_ChunkBuffer2_assert_buffer`. -/
def BufferOk : Prop :=
  0 < b.size ∧ 0 < b.wrap ∧ b.wrap ≤ b.size ∧ b.start < b.wrap ∧ b.used ≤ b.wrap ∧
    (b.wrap = b.size ∨ b.used ≥ b.wrap - b.start)

instance decidableBufferOk : Decidable b.BufferOk := instDecidableAnd

end ChunkBuffer2

/-- `buf->buffer[i].len`. -/
def readLen (i : Nat) : Op Int := do
  let b ← get
  require (blockSize * i + blockSize ≤ b.buffer.length) .outOfBounds
  return toInt (leNat (readAt b.buffer (blockSize * i) blockSize))

/-- `buf->buffer[i].len = len`. -/
def writeLen (i len : Nat) : Op PUnit := do
  let b ← get
  require (blockSize * i + blockSize ≤ b.buffer.length) .outOfBounds
  modify fun b => { b with buffer := writeAt b.buffer (blockSize * i) (leBytes blockSize len) }

def assertBuffer : Op PUnit := do
  let b ← get
  require b.BufferOk .assertion

/-- What `_ChunkBuffer2_update_output` and `_ChunkBuffer2_assert_io` find in the first packet. -/
def output : Op (Option Nat × Int) := do
  let b ← get
  if b.used > 0 then
    let datalen ← readLen b.start
    require (0 ≤ datalen) .assertion
    let blocklen := bdivideUp datalen.toNat blockSize
    require ((blocklen : Int) ≤ b.used - 1) .assertion
    require ((blocklen : Int) ≤ b.wrap - b.start - 1) .assertion
    return (some (b.start + 1), datalen)
  else
    return (none, -1)

def assertIo : Op PUnit := do
  let b ← get
  require ((b.inputDest, b.inputAvail) = b.input) .assertion
  let out ← output
  require ((b.outputDest, b.outputAvail) = out) .assertion

def updateInput : Op PUnit :=
  modify fun b => { b with inputDest := b.input.1, inputAvail := b.input.2 }

def updateOutput : Op PUnit := do
  let out ← output
  modify fun b => { b with outputDest := out.1, outputAvail := out.2 }

/-- `ChunkBuffer2_calc_blocks`, `none` for -1. -/
def calcBlocks (chunkLen num : Nat) : Option Nat :=
  let chunkDataBlocks := bdivideUp chunkLen blockSize
  if chunkDataBlocks > intMax - 1 then none
  else
    let chunkBlocks := 1 + chunkDataBlocks
    if num > intMax - 1 then none
    else
      let numChunks := num + 1
      if chunkBlocks > intMax / numChunks then none
      else some (chunkBlocks * numChunks)

/-- The fields that `ChunkBuffer2_Init` sets before it calls the update functions. -/
def initial (buffer : Bytes) (blocks mtu : Nat) : ChunkBuffer2 where
  buffer
  size := blocks
  wrap := blocks
  start := 0
  used := 0
  mtu := bdivideUp mtu blockSize
  inputDest := none
  inputAvail := -1
  outputDest := none
  outputAvail := -1

/-- `ChunkBuffer2_Init`. -/
def init (buffer : Bytes) (blocks mtu : Nat) : Op PUnit := do
  require (blocks > 0) .assertion
  modify fun _ => initial buffer blocks mtu
  assertBuffer
  updateInput
  updateOutput
  assertIo

/-- The fields that `SubmitPacket` changes by itself. -/
def ChunkBuffer2.submitted (b : ChunkBuffer2) (e blocklen : Nat) : ChunkBuffer2 :=
  let used := b.used + (1 + blocklen)
  { b with
    used
    wrap :=
      if (used : Int) ≤ b.wrap - b.start ∧ (b.mtu : Int) > b.size - (e + 1 + blocklen) - 1 then
        e + 1 + blocklen
      else b.wrap }

/-- `ChunkBuffer2_SubmitPacket`. -/
def submitPacket (len : Nat) : Op PUnit := do
  let b ← get
  require (b.inputDest.isSome = true) .assertion
  require ((len : Int) ≤ b.inputAvail) .assertion
  assertBuffer
  assertIo
  let e := b.endOf
  let blocklen := bdivideUp len blockSize
  require ((blocklen : Int) ≤ b.size - e - 1) .assertion
  require ((b.used : Int) < b.wrap - b.start ∨ (blocklen : Int) ≤ b.start - e - 1) .assertion
  writeLen e len
  modify fun b => b.submitted e blocklen
  assertBuffer
  updateInput
  -- update output
  if b.used + (1 + blocklen) = 1 + blocklen then updateOutput else pure ⟨⟩
  assertIo

/-- The fields that `ConsumePacket` changes by itself. -/
def ChunkBuffer2.consumed (b : ChunkBuffer2) (blocklen : Nat) : ChunkBuffer2 :=
  let start := b.start + (1 + blocklen)
  let used := b.used - (1 + blocklen)
  if start = b.wrap then { b with used, start := 0, wrap := b.size } else { b with used, start }

/-- `ChunkBuffer2_ConsumePacket`. -/
def consumePacket : Op PUnit := do
  let b ← get
  require (b.outputDest.isSome = true) .assertion
  assertBuffer
  assertIo
  require ((1 : Int) ≤ b.wrap - b.start) .assertion
  require (1 ≤ b.used) .assertion
  let len ← readLen b.start
  let blocklen := bdivideUp len.toNat blockSize
  require ((blocklen : Int) ≤ b.wrap - b.start - 1) .assertion
  require ((blocklen : Int) ≤ b.used - 1) .assertion
  let dataWrapped := (b.used : Int) ≥ b.wrap - b.start
  modify fun b => b.consumed blocklen
  assertBuffer
  -- update input
  if dataWrapped then updateInput else pure ⟨⟩
  -- update output
  updateOutput
  assertIo

/-! ### Packets in memory -/

theorem toInt_of_lt {n : Int} (h0 : 0 ≤ n) (h : n < 2 ^ 31) : toInt n = n := by
  rw [toInt, Int.bmod_def]
  omega

theorem bdivideUp_le_iff {n k : Nat} : bdivideUp n blockSize ≤ k ↔ n ≤ blockSize * k := by
  unfold bdivideUp blockSize
  split
  all_goals omega

/-- The blocks that a packet takes. -/
def blocks (p : Bytes) : Nat := 1 + bdivideUp p.length blockSize

variable {mem data : Bytes} {bound pos q at' : Nat} {p : Bytes} {ps : List Bytes}

/-- At block `pos`, which is before `bound`, stands the packet `p`. -/
structure Stored (mem : Bytes) (bound pos : Nat) (p : Bytes) : Prop where
  early : pos < bound
  short : p.length < 2 ^ 31
  header : readAt mem (blockSize * pos) blockSize = leBytes blockSize p.length
  data : readAt mem (blockSize * (pos + 1)) p.length = p

/-- The packets `ps` stand one behind the other from block `pos` up to block `q`. -/
inductive Laid (mem : Bytes) (bound : Nat) : Nat → List Bytes → Nat → Prop
  | nil {pos : Nat} : Laid mem bound pos [] pos
  | cons {pos q : Nat} {p : Bytes} {ps : List Bytes} : Stored mem bound pos p →
      Laid mem bound (pos + blocks p) ps q → Laid mem bound pos (p :: ps) q

theorem Stored.len (h : Stored mem bound pos p) :
    toInt (leNat (readAt mem (blockSize * pos) blockSize)) = p.length := by
  have hshort := h.short
  rw [h.header, leNat_leBytes (by rw [blockSize]; omega), toInt_of_lt (by omega) (by omega)]

theorem length_le_blocks (p : Bytes) : blockSize + p.length ≤ blockSize * blocks p := by
  have := bdivideUp_le_iff.mp (Nat.le_refl (bdivideUp p.length blockSize))
  rw [blocks, Nat.mul_add]
  omega

/-- A packet is not touched by a write to blocks that are not its own. -/
theorem Stored.write (h : Stored mem bound pos p) (hin : at' + data.length ≤ mem.length)
    (hapart : blockSize * (pos + blocks p) ≤ at' ∨ at' + data.length ≤ blockSize * pos) :
    Stored (writeAt mem at' data) bound pos p := by
  have hlen := length_le_blocks p
  rw [Nat.mul_add] at hapart
  refine ⟨h.early, h.short, ?_, ?_⟩
  · rw [readAt_writeAt_of_disjoint hin (by omega), h.header]
  · rw [readAt_writeAt_of_disjoint hin (by rw [Nat.mul_add]; omega), h.data]

theorem laid_nil (h : Laid mem bound pos [] q) : pos = q := by
  cases h
  rfl

theorem Laid.le (h : Laid mem bound pos ps q) : pos ≤ q := by
  induction h with
  | nil => exact Nat.le_refl _
  | cons _ _ ih => omega

theorem Laid.write (h : Laid mem bound pos ps q) (hin : at' + data.length ≤ mem.length)
    (hapart : blockSize * q ≤ at' ∨ at' + data.length ≤ blockSize * pos) :
    Laid (writeAt mem at' data) bound pos ps q := by
  induction h with
  | nil => exact .nil
  | @cons pos q p ps hp hps ih =>
    have hle : blockSize * (pos + blocks p) ≤ blockSize * q := Nat.mul_le_mul_left _ hps.le
    have hadd : blockSize * (pos + blocks p) = blockSize * pos + blockSize * blocks p :=
      Nat.mul_add ..
    exact .cons (hp.write hin (by omega)) (ih (by omega))

theorem Laid.concat (h : Laid mem bound pos ps q) (hp : Stored mem bound q p) :
    Laid mem bound pos (ps ++ [p]) (q + blocks p) := by
  induction h with
  | nil => exact .cons hp .nil
  | cons hp' _ ih => exact .cons hp' (ih hp)

/-- Packets that take at most `n` blocks each take at most `n` times their number. -/
theorem Laid.le_mul {n : Nat} (h : Laid mem bound pos ps q) (hn : ∀ p ∈ ps, blocks p ≤ n) :
    q ≤ pos + ps.length * n := by
  induction h with
  | nil => simp
  | @cons pos q p ps _ _ ih =>
    have hp := hn p List.mem_cons_self
    have hq := ih fun p hp => hn p (List.mem_cons_of_mem _ hp)
    rw [List.length_cons, Nat.succ_mul]
    omega

/-! ### The packets of a buffer -/

/-- The packets `ps`, the oldest one first, stand in one piece, behind which a packet of MTU length
can begin, or from `start` to `wrap` and then from the front of the memory. -/
inductive Layout (mem : Bytes) (size wrap start used mtu : Nat) : List Bytes → Prop
  | plain {ps : List Bytes} : wrap = size → start + used + mtu < size →
      Laid mem (size - mtu) start ps (start + used) → Layout mem size wrap start used mtu ps
  | wrapped {p : Bytes} {front back : List Bytes} {e : Nat} : wrap ≤ size →
      size ≤ wrap + mtu → start + used = wrap + e → e ≤ start →
      Laid mem (size - mtu) start (p :: front) wrap → Laid mem (size - mtu) 0 back e →
      Layout mem size wrap start used mtu (p :: (front ++ back))

/-- The buffer holds the packets `ps`. -/
abbrev Holds (b : ChunkBuffer2) (ps : List Bytes) : Prop :=
  Layout b.buffer b.size b.wrap b.start b.used b.mtu ps

variable {b : ChunkBuffer2} {e : Nat}

theorem blocks_pos (p : Bytes) : 0 < blocks p := by
  unfold blocks
  omega

theorem endOf_plain (hwrap : b.wrap = b.size) (h : b.start + b.used < b.size) :
    b.endOf = b.start + b.used := by
  rw [ChunkBuffer2.endOf, if_neg (by omega)]

theorem endOf_wrapped (hstart : b.start ≤ b.wrap) (h : b.start + b.used = b.wrap + e) :
    b.endOf = e := by
  rw [ChunkBuffer2.endOf, if_pos (by omega)]
  omega

theorem free_plain (hwrap : b.wrap = b.size) (h : b.start + b.used < b.size) :
    b.free = b.size - (b.start + b.used : Nat) := by
  rw [ChunkBuffer2.free, if_neg (by omega), endOf_plain hwrap h]

theorem free_wrapped (hstart : b.start ≤ b.wrap) (h : b.start + b.used = b.wrap + e) :
    b.free = b.start - e := by
  rw [ChunkBuffer2.free, if_pos (by omega), endOf_wrapped hstart h]

/-- What is known of the first packet. -/
theorem Layout.first (h : Holds b (p :: ps)) :
    Stored b.buffer (b.size - b.mtu) b.start p ∧ blocks p ≤ b.used ∧
      b.start + blocks p ≤ b.wrap := by
  cases h with
  | plain hwrap hend hlaid =>
    cases hlaid with
    | cons hp hps =>
      have := hps.le
      exact ⟨hp, by omega, by omega⟩
  | wrapped _ _ hused _ hfront _ =>
    cases hfront with
    | cons hp hps =>
      have := hps.le
      exact ⟨hp, by omega, this⟩

theorem Layout.used_eq_zero_iff (h : Holds b ps) : b.used = 0 ↔ ps = [] := by
  cases ps with
  | nil =>
    cases h with
    | plain _ _ hlaid =>
      have := laid_nil hlaid
      simp only [iff_true]
      omega
  | cons p ps =>
    have hused := h.first.2.1
    have hpos := blocks_pos p
    refine iff_of_false (by omega) (List.cons_ne_nil _ _)

theorem Layout.bufferOk (h : Holds b ps) : b.BufferOk := by
  cases h with
  | plain hwrap hend _ =>
    refine ⟨by omega, by omega, by omega, by omega, by omega, .inl hwrap⟩
  | @wrapped p front back e hle _ hused he hfront _ =>
    have hlt : b.start < b.wrap := by
      cases hfront with
      | cons _ hps =>
        have := hps.le
        have := blocks_pos p
        omega
    refine ⟨by omega, by omega, by omega, hlt, by omega, .inr (by omega)⟩

/-- The next packet can always begin where the buffer ends now. -/
theorem Layout.endOf_lt (h : Holds b ps) : b.endOf + b.mtu < b.size := by
  cases h with
  | plain hwrap hend _ =>
    rw [endOf_plain hwrap (by omega)]
    exact hend
  | wrapped _ _ hused he hfront _ =>
    have hstart := hfront.le
    cases hfront with
    | cons hp _ =>
      have := hp.early
      rw [endOf_wrapped hstart hused]
      omega

/-- What is free lies in the memory. -/
theorem Layout.free_le (h : Holds b ps) : b.endOf + b.free ≤ b.size := by
  cases h with
  | plain hwrap hend _ =>
    rw [endOf_plain hwrap (by omega), free_plain hwrap (by omega)]
    omega
  | wrapped hwrap _ hused _ hfront _ =>
    have hstart := hfront.le
    rw [endOf_wrapped hstart hused, free_wrapped hstart hused]
    omega

/-- Where the first packet is. -/
def firstOutput (start : Nat) : List Bytes → Option Nat × Int
  | [] => (none, -1)
  | p :: _ => (some (start + 1), p.length)

/-- A buffer between two calls: it holds the packets `ps`, and its input and output are up to
date. -/
structure Queue (b : ChunkBuffer2) (ps : List Bytes) : Prop where
  length : b.buffer.length = blockSize * b.size
  small : blockSize * b.size < 2 ^ 31
  holds : Holds b ps
  input : (b.inputDest, b.inputAvail) = b.input
  output : (b.outputDest, b.outputAvail) = firstOutput b.start ps

theorem returns_readLen {i : Nat} {Q : Int → ChunkBuffer2 → Prop} (hp : Stored b.buffer bound i p)
    (hlen : b.buffer.length = blockSize * b.size) (hbound : bound ≤ b.size) (hQ : Q p.length b) :
    Returns (readLen i) b Q := by
  have hi : blockSize * (i + 1) ≤ blockSize * b.size :=
    Nat.mul_le_mul_left _ (by have := hp.early; omega)
  simp only [readLen, returns_bind, returns_get, returns_require, returns_pure]
  refine ⟨by rw [hlen, ← Nat.mul_succ]; exact hi, ?_⟩
  rw [hp.len]
  exact hQ

theorem returns_output {Q : Option Nat × Int → ChunkBuffer2 → Prop} (h : Holds b ps)
    (hlen : b.buffer.length = blockSize * b.size) (hQ : Q (firstOutput b.start ps) b) :
    Returns output b Q := by
  simp only [output, returns_bind, returns_get]
  cases ps with
  | nil =>
    rw [if_neg (by rw [h.used_eq_zero_iff.mpr rfl]; exact Nat.lt_irrefl 0), returns_pure]
    exact hQ
  | cons p ps =>
    obtain ⟨hp, hused, hwrap⟩ := h.first
    have hpos := blocks_pos p
    rw [if_pos (by omega), returns_bind]
    refine returns_readLen hp hlen (Nat.sub_le _ _) ?_
    simp only [returns_bind, returns_require, returns_pure, Int.toNat_natCast]
    rw [blocks] at hused hwrap
    exact ⟨by omega, by omega, by omega, hQ⟩

theorem returns_updateOutput {Q : PUnit → ChunkBuffer2 → Prop} (h : Holds b ps)
    (hlen : b.buffer.length = blockSize * b.size)
    (hQ : Q ⟨⟩ { b with
      outputDest := (firstOutput b.start ps).1, outputAvail := (firstOutput b.start ps).2 }) :
    Returns updateOutput b Q := by
  rw [updateOutput, returns_bind]
  refine returns_output h hlen ?_
  rw [returns_modify]
  exact hQ

theorem returns_assertIo {Q : PUnit → ChunkBuffer2 → Prop} (h : Queue b ps) (hQ : Q ⟨⟩ b) :
    Returns assertIo b Q := by
  simp only [assertIo, returns_bind, returns_get, returns_require]
  refine ⟨h.input, returns_output h.holds h.length ⟨?_, hQ⟩⟩
  exact h.output

theorem returns_assertBuffer {Q : PUnit → ChunkBuffer2 → Prop} (h : Holds b ps) (hQ : Q ⟨⟩ b) :
    Returns assertBuffer b Q := by
  simp only [assertBuffer, returns_bind, returns_get, returns_require]
  exact ⟨h.bufferOk, hQ⟩

/-- The input of a buffer: it ends where `inputDest` begins, and what is free can be written. -/
theorem Queue.input_some (h : Queue b ps) (hdest : b.inputDest.isSome = true) :
    b.inputDest = some (b.endOf + 1) ∧ b.inputAvail = (b.free - 1) * blockSize ∧ 0 < b.free := by
  have hinput := h.input
  have hend := h.holds.endOf_lt
  rw [ChunkBuffer2.input, if_neg (by omega)] at hinput
  split at hinput
  · rename_i hfree
    obtain ⟨hd, havail⟩ := Prod.mk.inj hinput
    refine ⟨hd, ?_, hfree⟩
    have hsmall := h.small
    have hle := h.holds.free_le
    have hmul : (b.free - 1) * blockSize < (2 ^ 31 : Int) := by
      rw [blockSize] at hsmall ⊢
      omega
    rw [havail, toInt_of_lt (by rw [blockSize]; omega) hmul]
  · rw [(Prod.mk.inj hinput).1] at hdest
    cases hdest

theorem Queue.input_none (h : Queue b ps) (hdest : b.inputDest = none) :
    b.inputAvail = -1 ∧ b.free ≤ 0 := by
  have hinput := h.input
  have hend := h.holds.endOf_lt
  rw [ChunkBuffer2.input, if_neg (by omega)] at hinput
  split at hinput
  · rw [hdest] at hinput
    cases (Prod.mk.inj hinput).1
  · rename_i hfree
    exact ⟨(Prod.mk.inj hinput).2, by omega⟩

/-- A header in front of the data makes a packet of it. -/
theorem stored_writeAt (hpos : pos < bound) (hin : blockSize * pos + blockSize ≤ mem.length)
    (hshort : p.length < 2 ^ 31) (hdata : readAt mem (blockSize * (pos + 1)) p.length = p) :
    Stored (writeAt mem (blockSize * pos) (leBytes blockSize p.length)) bound pos p := by
  refine ⟨hpos, hshort, ?_, ?_⟩
  · have h : readAt (writeAt mem (blockSize * pos) (leBytes blockSize p.length)) (blockSize * pos)
        (leBytes blockSize p.length).length = leBytes blockSize p.length :=
      readAt_writeAt_self (by omega)
    rwa [length_leBytes] at h
  · rw [readAt_writeAt_of_disjoint (by rw [length_leBytes]; exact hin)
      (.inr (by rw [length_leBytes]; exact Nat.le_refl _)), hdata]

/-- Packets up to `wrap`, where no packet of MTU length can follow. -/
theorem Layout.of_front {size wrap start used mtu : Nat} (hwrap : wrap ≤ size)
    (hrest : size ≤ wrap + mtu) (hused : start + used = wrap)
    (hlaid : Laid mem (size - mtu) start (ps ++ [p]) wrap) :
    Layout mem size wrap start used mtu (ps ++ [p]) := by
  obtain ⟨p', front, hcons⟩ : ∃ p' front, ps ++ [p] = p' :: front := by
    cases ps with
    | nil => exact ⟨p, [], rfl⟩
    | cons p' ps => exact ⟨p', ps ++ [p], rfl⟩
  rw [hcons] at hlaid ⊢
  have h : Layout mem size wrap start used mtu (p' :: (front ++ [])) :=
    .wrapped hwrap hrest (by omega) (Nat.zero_le _) hlaid .nil
  rwa [List.append_nil] at h

/-- The packet whose data was written behind the end is added. -/
theorem Layout.submitted (h : Holds b ps) (hlen : b.buffer.length = blockSize * b.size)
    (hfree : ((bdivideUp p.length blockSize : Nat) : Int) < b.free) (hshort : p.length < 2 ^ 31)
    (hdata : readAt b.buffer (blockSize * (b.endOf + 1)) p.length = p) :
    Holds ({ b with
        buffer := writeAt b.buffer (blockSize * b.endOf) (leBytes blockSize p.length) }.submitted
      b.endOf (bdivideUp p.length blockSize)) (ps ++ [p]) := by
  have hend := h.endOf_lt
  have hin : blockSize * b.endOf + blockSize ≤ b.buffer.length := by
    rw [hlen, ← Nat.mul_succ]
    exact Nat.mul_le_mul_left _ (by omega)
  have hearly : b.endOf < b.size - b.mtu := by omega
  have hp := stored_writeAt hearly hin hshort hdata
  have hin' : blockSize * b.endOf + (leBytes blockSize p.length).length ≤ b.buffer.length := by
    rw [length_leBytes]
    exact hin
  cases h with
  | plain hwrap hroom hlaid =>
    have he := endOf_plain hwrap (by omega)
    rw [free_plain hwrap (by omega)] at hfree
    rw [he] at hp hin' ⊢
    have hnew := (hlaid.write hin' (.inl (Nat.le_refl _))).concat hp
    rw [blocks] at hnew
    simp only [Holds, ChunkBuffer2.submitted]
    split
    · -- no packet of MTU length can follow: the buffer goes on at its front
      refine .of_front (by omega) (by omega) (by omega) ?_
      rwa [Nat.add_assoc (b.start + b.used)]
    · refine .plain hwrap (by omega) ?_
      rwa [← Nat.add_assoc b.start]
  | @wrapped p' front back e hwrap hrest hused hle hfront hback =>
    have he := endOf_wrapped hfront.le hused
    have hstart := hfront.le
    rw [free_wrapped hstart hused] at hfree
    rw [he] at hp hin' ⊢
    have happend : p' :: (front ++ back) ++ [p] = p' :: (front ++ (back ++ [p])) := by simp
    have hbefore : blockSize * e + blockSize ≤ blockSize * b.start := by
      rw [← Nat.mul_succ]
      exact Nat.mul_le_mul_left _ (by omega)
    simp only [Holds, ChunkBuffer2.submitted, happend]
    rw [if_neg (by omega)]
    refine .wrapped (e := e + blocks p) hwrap hrest ?_ ?_ ?_ ?_
    · rw [blocks]
      omega
    · rw [blocks]
      omega
    · exact hfront.write hin' (.inr (by rw [length_leBytes]; exact hbefore))
    · exact (hback.write hin' (.inl (Nat.le_refl _))).concat hp

/-- The buffer after its first packet: it ends where it did, and more of it is free, if it went on
at its front. -/
structure Consumed (b b' : ChunkBuffer2) (ps : List Bytes) : Prop where
  holds : Holds b' ps
  ends : b'.endOf = b.endOf
  more : b.free ≤ b'.free
  same : (b.used : Int) < b.wrap - b.start → b'.free = b.free

/-- The first packet is removed. -/
theorem Layout.consumed (h : Holds b (p :: ps)) :
    Consumed b (b.consumed (bdivideUp p.length blockSize)) ps := by
  have hok := h.bufferOk
  have hend := h.endOf_lt
  generalize hb : b.consumed (bdivideUp p.length blockSize) = b'
  rw [ChunkBuffer2.consumed] at hb
  cases h with
  | plain hwrap hroom hlaid =>
    cases hlaid with
    | cons hp hps =>
      have hle := hps.le
      rw [blocks] at hle hps
      rw [if_neg (by omega)] at hb
      have hsum : b'.start + b'.used = b.start + b.used := by
        rw [← hb]
        dsimp only
        omega
      have hsize : b'.size = b.size := by rw [← hb]
      have hwrap' : b'.wrap = b'.size := by rw [← hb]; exact hwrap
      have hfree : b'.free = b.free := by
        rw [free_plain hwrap' (by omega), free_plain hwrap (by omega), hsum, hsize]
      refine ⟨.plain hwrap' ?_ ?_, ?_, Int.le_of_eq hfree.symm, fun _ => hfree⟩
      · rw [hsum, ← hb]
        exact hroom
      · rw [hsum, ← hb]
        exact hps
      · rw [endOf_plain hwrap' (by omega), endOf_plain hwrap (by omega), hsum]
  | @wrapped _ front back e hwrap hrest hused hle hfront hback =>
    have hstart := hfront.le
    have hends := endOf_wrapped hstart hused
    have hfree := free_wrapped hstart hused
    rw [hends] at hend
    have hnot : ¬ (b.used : Int) < b.wrap - b.start := by omega
    cases hfront with
    | cons hp hps =>
      have hlefront := hps.le
      rw [blocks] at hlefront hps
      cases front with
      | nil =>
        -- the last packet before `wrap`: the rest stands at the front
        rw [if_pos (laid_nil hps)] at hb
        have hlast := laid_nil hps
        have hsum : b'.start + b'.used = e := by
          rw [← hb]
          dsimp only
          omega
        have hsize : b'.size = b.size := by rw [← hb]
        have hwrap' : b'.wrap = b'.size := by rw [← hb]
        refine ⟨.plain hwrap' ?_ ?_, ?_, ?_, fun h => absurd h hnot⟩
        · rw [hsum, ← hb]
          exact hend
        · rw [hsum, ← hb]
          exact hback
        · rw [endOf_plain hwrap' (by omega), hsum, hends]
        · rw [free_plain hwrap' (by omega), hsum, hsize, hfree]
          omega
      | cons p' front =>
        have hlt : b.start + (1 + bdivideUp p.length blockSize) < b.wrap := by
          cases hps with
          | cons _ hps =>
            have := hps.le
            have := blocks_pos p'
            omega
        rw [if_neg (by omega)] at hb
        have hused' : b'.start + b'.used = b'.wrap + e := by
          rw [← hb]
          dsimp only
          omega
        have hstart' : b'.start ≤ b'.wrap ∧ b.start ≤ b'.start := by
          rw [← hb]
          dsimp only
          omega
        refine ⟨?_, ?_, ?_, fun h => absurd h hnot⟩
        · rw [← hb] at hused' ⊢
          exact .wrapped hwrap hrest hused' (by dsimp only; omega) hps hback
        · rw [endOf_wrapped hstart'.1 hused', hends]
        · rw [free_wrapped hstart'.1 hused', hfree]
          omega

/-! ### The operations -/

theorem firstOutput_append (start : Nat) (hps : ps ≠ []) (p : Bytes) :
    firstOutput start (ps ++ [p]) = firstOutput start ps := by
  cases ps with
  | nil => exact absurd rfl hps
  | cons p' ps => rfl

/-- `ChunkBuffer2_SubmitPacket` adds the packet that was written to the input. -/
theorem returns_submitPacket (h : Queue b ps) (hdest : b.inputDest.isSome = true)
    (hlen : (p.length : Int) ≤ b.inputAvail)
    (hdata : readAt b.buffer (blockSize * (b.endOf + 1)) p.length = p) :
    Returns (submitPacket p.length) b fun _ b' => Queue b' (ps ++ [p]) ∧ b'.size = b.size ∧
      b'.mtu = b.mtu ∧ b'.start = b.start := by
  obtain ⟨hd, havail, hpos⟩ := h.input_some hdest
  have hfree : ((bdivideUp p.length blockSize : Nat) : Int) < b.free := by
    rw [havail] at hlen
    have hle : bdivideUp p.length blockSize ≤ (b.free - 1).toNat := by
      rw [bdivideUp_le_iff, blockSize]
      rw [blockSize] at hlen
      omega
    omega
  have hshort : p.length < 2 ^ 31 := by
    have hsmall := h.small
    have hle := h.holds.free_le
    rw [blockSize] at hsmall havail
    omega
  have hend := h.holds.endOf_lt
  have hnew := h.holds.submitted h.length hfree hshort hdata
  have hin : blockSize * b.endOf + blockSize ≤ b.buffer.length := by
    rw [h.length, ← Nat.mul_succ]
    exact Nat.mul_le_mul_left _ (by omega)
  have hlength : (writeAt b.buffer (blockSize * b.endOf) (leBytes blockSize p.length)).length =
      blockSize * b.size := by
    rw [length_writeAt (by rw [length_leBytes]; exact hin), h.length]
  have hle := h.holds.free_le
  simp only [submitPacket, returns_bind, returns_get, returns_require]
  refine ⟨hdest, hlen, returns_assertBuffer h.holds (returns_assertIo h ?_)⟩
  refine ⟨by omega, ?_, ?_⟩
  · by_cases hwrapped : (b.used : Int) < b.wrap - b.start
    · exact .inl hwrapped
    · rw [ChunkBuffer2.free, if_pos (by omega)] at hfree
      exact .inr (by omega)
  simp only [writeLen, updateInput, returns_bind, returns_get, returns_require, returns_modify]
  refine ⟨hin, returns_assertBuffer hnew ?_⟩
  have hout := h.output
  -- only these fields of the new buffer matter from here on
  generalize hb : ChunkBuffer2.submitted _ b.endOf (bdivideUp p.length blockSize) = b' at hnew ⊢
  have hlength' : b'.buffer.length = blockSize * b'.size := by
    rw [← hb]
    exact hlength
  have hsmall : blockSize * b'.size < 2 ^ 31 := by
    rw [← hb]
    exact h.small
  have hsame : b'.size = b.size ∧ b'.mtu = b.mtu ∧ b'.start = b.start := by
    rw [← hb]
    exact ⟨rfl, rfl, rfl⟩
  split
  · -- the first packet of the buffer
    rw [returns_bind]
    refine returns_updateOutput hnew hlength' ?_
    have hqueue : Queue { b' with
        inputDest := b'.input.1, inputAvail := b'.input.2
        outputDest := (firstOutput b'.start (ps ++ [p])).1
        outputAvail := (firstOutput b'.start (ps ++ [p])).2 } (ps ++ [p]) :=
      ⟨hlength', hsmall, hnew, rfl, rfl⟩
    exact returns_assertIo hqueue ⟨hqueue, hsame⟩
  · rename_i hused
    have hps : ps ≠ [] := by
      intro hnil
      have := h.holds.used_eq_zero_iff.mpr hnil
      omega
    rw [← firstOutput_append _ hps p, ← hsame.2.2] at hout
    have hkept : (b'.outputDest, b'.outputAvail) = (b.outputDest, b.outputAvail) := by
      rw [← hb]
      rfl
    have hqueue : Queue { b' with inputDest := b'.input.1, inputAvail := b'.input.2 }
        (ps ++ [p]) :=
      ⟨hlength', hsmall, hnew, rfl, hkept.trans hout⟩
    exact returns_assertIo hqueue ⟨hqueue, hsame⟩

/-- The place of the next packet is not touched when a packet is removed. -/
def InputKept (b b' : ChunkBuffer2) : Prop :=
  ∀ d, b.inputDest = some d → b'.inputDest = some d ∧ b.inputAvail ≤ b'.inputAvail

theorem Queue.inputKept {b' : ChunkBuffer2} {ps' : List Bytes} (h : Queue b ps)
    (h' : Queue b' ps') (hend : b'.endOf = b.endOf) (hfree : b.free ≤ b'.free) :
    InputKept b b' := by
  intro d hd
  obtain ⟨hdest, havail, hpos⟩ := h.input_some (by rw [hd]; rfl)
  have hsome : b'.inputDest.isSome = true := by
    cases hnone : b'.inputDest with
    | some _ => rfl
    | none =>
      have := (h'.input_none hnone).2
      omega
  obtain ⟨hdest', havail', -⟩ := h'.input_some hsome
  refine ⟨?_, ?_⟩
  · rw [hdest', hend, ← hdest, hd]
  · rw [havail, havail', blockSize]
    omega

/-- `ChunkBuffer2_ConsumePacket` removes the first packet. -/
theorem returns_consumePacket (h : Queue b (p :: ps)) :
    Returns consumePacket b fun _ b' => Queue b' ps ∧ b'.size = b.size ∧ b'.mtu = b.mtu ∧
      b'.buffer = b.buffer ∧ InputKept b b' := by
  obtain ⟨hp, hused, hwrap⟩ := h.holds.first
  have hpos := blocks_pos p
  have hout := (Prod.mk.inj h.output).1
  have hnew := h.holds.consumed
  have hin := h.input
  simp only [consumePacket, returns_bind, returns_get, returns_require]
  refine ⟨by rw [hout]; rfl, returns_assertBuffer h.holds (returns_assertIo h ?_)⟩
  rw [blocks] at hused hwrap
  refine ⟨by omega, by omega, returns_readLen hp h.length (Nat.sub_le _ _) ?_⟩
  simp only [Int.toNat_natCast, returns_modify]
  refine ⟨by omega, by omega, returns_assertBuffer hnew.holds ?_⟩
  -- only these fields of the new buffer matter from here on
  generalize hb : b.consumed (bdivideUp p.length blockSize) = b' at hnew ⊢
  have hsame : b'.size = b.size ∧ b'.mtu = b.mtu ∧ b'.buffer = b.buffer := by
    rw [← hb, ChunkBuffer2.consumed]
    split
    all_goals exact ⟨rfl, rfl, rfl⟩
  have hlength : b'.buffer.length = blockSize * b'.size := by
    rw [hsame.2.2, hsame.1, h.length]
  have hsmall : blockSize * b'.size < 2 ^ 31 := by
    rw [hsame.1]
    exact h.small
  split
  · simp only [updateInput, returns_bind, returns_modify]
    refine returns_updateOutput hnew.holds hlength ?_
    have hqueue : Queue { b' with
        inputDest := b'.input.1, inputAvail := b'.input.2
        outputDest := (firstOutput b'.start ps).1, outputAvail := (firstOutput b'.start ps).2 }
        ps :=
      ⟨hlength, hsmall, hnew.holds, rfl, rfl⟩
    exact returns_assertIo hqueue
      ⟨hqueue, hsame.1, hsame.2.1, hsame.2.2, h.inputKept hqueue hnew.ends hnew.more⟩
  · rename_i hplain
    have hkept : (b'.inputDest, b'.inputAvail) = b'.input := by
      have hfree := hnew.same (by omega)
      have hold : (b'.inputDest, b'.inputAvail) = (b.inputDest, b.inputAvail) := by
        rw [← hb, ChunkBuffer2.consumed]
        split
        all_goals rfl
      rw [hold, hin, ChunkBuffer2.input, ChunkBuffer2.input, hnew.ends, hfree, hsame.1, hsame.2.1]
    rw [returns_bind]
    refine returns_updateOutput hnew.holds hlength ?_
    have hqueue : Queue { b' with
        outputDest := (firstOutput b'.start ps).1, outputAvail := (firstOutput b'.start ps).2 }
        ps :=
      ⟨hlength, hsmall, hnew.holds, hkept, rfl⟩
    exact returns_assertIo hqueue
      ⟨hqueue, hsame.1, hsame.2.1, hsame.2.2, h.inputKept hqueue hnew.ends hnew.more⟩

/-- `ChunkBuffer2_Init`, in memory in which a packet of MTU length fits. -/
theorem returns_init {buffer : Bytes} {blocks mtu : Nat} (b : ChunkBuffer2)
    (hlen : buffer.length = blockSize * blocks) (hsmall : blockSize * blocks < 2 ^ 31)
    (hroom : bdivideUp mtu blockSize < blocks) :
    Returns (init buffer blocks mtu) b fun _ b => Queue b [] ∧ b.size = blocks ∧
      b.mtu = bdivideUp mtu blockSize := by
  have hlaid : Holds (initial buffer blocks mtu) [] :=
    .plain rfl (by dsimp only [initial]; omega) .nil
  simp only [init, updateInput, returns_bind, returns_require, returns_modify]
  refine ⟨by omega, returns_assertBuffer hlaid (returns_updateOutput hlaid hlen ?_)⟩
  have hqueue : Queue { initial buffer blocks mtu with
      inputDest := (initial buffer blocks mtu).input.1
      inputAvail := (initial buffer blocks mtu).input.2
      outputDest := (firstOutput 0 []).1, outputAvail := (firstOutput 0 []).2 } [] :=
    ⟨hlen, hsmall, hlaid, rfl, rfl⟩
  exact returns_assertIo hqueue ⟨hqueue, rfl, rfl⟩

/-- Packets are not touched by a write to what is free. -/
theorem Layout.write (h : Holds b ps) (hlen : b.buffer.length = blockSize * b.size)
    (hfrom : blockSize * b.endOf ≤ at')
    (hto : ((at' + data.length : Nat) : Int) ≤ blockSize * (b.endOf + b.free)) :
    Holds { b with buffer := writeAt b.buffer at' data } ps := by
  have hfree := h.free_le
  have hin : at' + data.length ≤ b.buffer.length := by
    rw [hlen]
    rw [blockSize] at hto ⊢
    omega
  cases h with
  | plain hwrap hroom hlaid =>
    rw [endOf_plain hwrap (by omega)] at hfrom
    exact .plain hwrap hroom (hlaid.write hin (.inl hfrom))
  | wrapped hwrap hrest hused hle hfront hback =>
    have hstart := hfront.le
    rw [endOf_wrapped hstart hused] at hfrom hto
    rw [free_wrapped hstart hused] at hto
    refine .wrapped hwrap hrest hused hle (hfront.write hin (.inr ?_))
      (hback.write hin (.inl hfrom))
    rw [blockSize] at hto ⊢
    omega

/-- What may be written to the input lies between the end of the buffer and its free part. -/
theorem Queue.input_bounds {d n : Nat} (h : Queue b ps) (hd : b.inputDest = some d)
    (hn : (n : Int) ≤ b.inputAvail) :
    blockSize * b.endOf ≤ blockSize * d ∧
      ((blockSize * d + n : Nat) : Int) ≤ blockSize * (b.endOf + b.free) := by
  obtain ⟨hdest, havail, -⟩ := h.input_some (by rw [hd]; rfl)
  obtain rfl : d = b.endOf + 1 := Option.some.inj (hd.symm.trans hdest)
  rw [havail] at hn
  rw [blockSize] at hn ⊢
  omega

theorem Queue.input_in_bounds {d n : Nat} (h : Queue b ps) (hd : b.inputDest = some d)
    (hn : (n : Int) ≤ b.inputAvail) : blockSize * d + n ≤ b.buffer.length := by
  have hto := (h.input_bounds hd hn).2
  have hfree := h.holds.free_le
  rw [h.length]
  rw [blockSize] at hto ⊢
  omega

/-- Whoever was given the input may write to it, as much as it was told. -/
theorem Queue.write {d : Nat} (h : Queue b ps) (hd : b.inputDest = some d)
    (hlen : (data.length : Int) ≤ b.inputAvail) :
    Queue { b with buffer := writeAt b.buffer (blockSize * d) data } ps := by
  obtain ⟨hfrom, hto⟩ := h.input_bounds hd hlen
  refine ⟨?_, h.small, h.holds.write h.length hfrom hto, h.input, h.output⟩
  exact (length_writeAt (h.input_in_bounds hd hlen)).trans h.length

/-- Whoever was given the output reads the first packet. -/
theorem Queue.first (h : Queue b (p :: ps)) :
    b.outputDest = some (b.start + 1) ∧ b.outputAvail = p.length ∧
      readAt b.buffer (blockSize * (b.start + 1)) p.length = p ∧
      blockSize * (b.start + 1) + p.length ≤ b.buffer.length := by
  obtain ⟨hp, -, hwrap⟩ := h.holds.first
  obtain ⟨hdest, havail⟩ := Prod.mk.inj h.output
  have hlen := length_le_blocks p
  have hle := h.holds.bufferOk.2.2.1
  refine ⟨hdest, havail, hp.data, ?_⟩
  rw [h.length]
  rw [blockSize] at hlen ⊢
  omega

/-- In memory for `num + 1` packets of MTU length there is room for one more packet, as long as
there are fewer than `num`. -/
theorem Queue.room {num : Nat} (h : Queue b ps) (hsize : b.size = (1 + b.mtu) * (num + 1))
    (hps : ∀ p ∈ ps, blocks p ≤ 1 + b.mtu) (hnum : ps.length < num) :
    b.inputDest.isSome = true ∧ (blockSize * b.mtu : Nat) ≤ b.inputAvail := by
  have hfree : b.mtu < b.free := by
    have hholds := h.holds
    cases hholds with
    | plain hwrap hroom _ =>
      rw [free_plain hwrap (by omega)]
      omega
    | @wrapped p front back e hwrap hrest hused hle hfront hback =>
      have hstart := hfront.le
      rw [free_wrapped hstart hused]
      have hf := hfront.le_mul fun q hq => hps q (List.mem_append_left back hq)
      have hb := hback.le_mul fun q hq =>
        hps q (List.mem_cons_of_mem _ (List.mem_append_right _ hq))
      -- at most `num - 1` packets, and at most `mtu` blocks behind `wrap`
      have hcount : (p :: front).length + back.length + 2 ≤ num + 1 := by
        rw [List.length_cons, List.length_append] at hnum
        rw [List.length_cons]
        omega
      have hmul := Nat.mul_le_mul_left (1 + b.mtu) hcount
      rw [← hsize, Nat.mul_add, Nat.mul_add, Nat.mul_comm _ (p :: front).length,
        Nat.mul_comm _ back.length] at hmul
      omega
  have hsome : b.inputDest.isSome = true := by
    cases hnone : b.inputDest with
    | some _ => rfl
    | none =>
      have := (h.input_none hnone).2
      omega
  refine ⟨hsome, ?_⟩
  rw [(h.input_some hsome).2.1, blockSize]
  omega

end ChunkBuffer
