/-
The list of foreign routes, as `gfwlist/gen.py` makes it.

The script reads the lines of an address registry, collects the blocks of China and those of
internal networks, and takes them out of the address space.  Then it goes over the blocks that are
left while it changes the set: a small one is taken out and its `/16` network is added.  Which
blocks it comes across depends on how the set keeps them while it is changed, so `main` gets them
as a parameter (`visits`), and the results hold for all of them.

`IPy.IPSet` is `AddressSet`.  The texts of addresses and of numbers are read by `IPy` and by
Python, which are parameters as well (`Readers`).

* `mem_filterLoop` — a replacement never loses an address: the network holds the block;
* `mem_chinaListSet` — the set of China, from lines with aligned blocks;
* `item_injective` — a printed item tells its block;
* `covered_main_iff` — what the printed items cover;
* `routed_of_foreign` — what becomes of a foreign address in the VPN that uses the list;
* `foreign_covered` — the items cover every foreign address.
-/
import Mathlib.Data.Int.Log
import Mathlib.Data.Rat.Floor
import ReShadowsocks.AddressSet
import ReShadowsocks.Iptables
import ReShadowsocks.Routes

namespace Gfwlist

open Json JavaString Cidr

/-! ### The program -/

/-- What reads the texts; `none` is an exception.  A `float` that is not a number or infinite makes
`math.log` or `int` raise one. -/
structure Readers where
  /-- The part of an `IPy.IP` in front of the slash. -/
  address : JString → Option (BitVec 32)
  /-- A finite `float`. -/
  float : JString → Option ℚ

def slash : UInt16 := 0x2F

/-- The address and the length of a line that is not skipped. -/
def cnFields (line : JString) : Option (JString × JString) :=
  match pieces [bar] line with
  | _ :: country :: type :: ipAddr :: ipLength :: _ =>
    if type ≠ lit "ipv4" ∨ country ≠ lit "CN" then none else some (ipAddr, ipLength)
  | _ => none

/-- `32 - int(math.ceil(math.log(ip_length, 2)))` -/
def ipMask (ipLength : ℚ) : Option Int :=
  if 0 < ipLength then some (32 - Int.clog 2 ipLength) else none

/-- `IPy.IP("%s/%d" % (ip_addr, ip_mask))`; the bits behind the mask must be 0. -/
def ip (r : Readers) (ipAddr : JString) (ipMask : Int) : Option (Block 32) := do
  let addr ← r.address ipAddr
  if h : 0 ≤ ipMask ∧ ipMask ≤ 32 then
    let block : Block 32 := ⟨addr, ipMask.toNat, by omega⟩
    if block.first = addr then some block else none
  else none

def addLine (r : Readers) (chinaListSet : AddressSet 32) (line : JString) :
    Option (AddressSet 32) :=
  match cnFields line with
  | none => some chinaListSet
  | some fields => do
    let ipLength ← r.float fields.2
    let mask ← ipMask ipLength
    let block ← ip r fields.1 mask
    return chinaListSet.add block

def chinaListSet (r : Readers) (input : List JString) : Option (AddressSet 32) :=
  input.foldlM (addLine r) .empty

def internalBlocks : List (Block 32) :=
  [cidr 0 0 0 0 8, cidr 10 0 0 0 8, cidr 100 64 0 0 10, cidr 127 0 0 0 8, cidr 169 254 0 0 16,
    cidr 172 16 0 0 12, cidr 192 0 0 0 29, cidr 192 0 2 0 24, cidr 192 88 99 0 24,
    cidr 192 168 0 0 16, cidr 198 18 0 0 15, cidr 198 51 100 0 24, cidr 203 0 113 0 24,
    cidr 224 0 0 0 4, cidr 240 0 0 0 4]

def internalList : AddressSet 32 := AddressSet.empty.addAll internalBlocks

/-- The block of a given mask around an address, as `make_net` cuts it off. -/
def makeNet (addr : BitVec 32) (len : Fin 33) : Block 32 :=
  let net : Block 32 := ⟨addr, len, len.is_le⟩
  ⟨net.first, net.len, net.len_le⟩

/-- `IPy.IP(ip.strNormal(0)).make_net('255.255.0.0')` -/
def enclosing (ip : Block 32) : Block 32 := makeNet ip.first 16

def filterStep (all : AddressSet 32) (ip : Block 32) : AddressSet 32 :=
  if ip.size ≤ 65536 then (all.discard ip).add (enclosing ip) else all

def filterLoop (all : AddressSet 32) (visits : List (Block 32)) : AddressSet 32 :=
  visits.foldl filterStep all

/-- The octets of an address. -/
def octets (p : BitVec 32) : Iptables.Ip4 :=
  ⟨UInt8.ofNat (p.toNat / 2 ^ 24), UInt8.ofNat (p.toNat / 2 ^ 16), UInt8.ofNat (p.toNat / 2 ^ 8),
    UInt8.ofNat p.toNat⟩

/-- `str(ip)`; single addresses have no mask. -/
def str (ip : Block 32) : JString :=
  if ip.len = 32 then (octets ip.addr).text
  else (octets ip.addr).text ++ slash :: decimalNat ip.len

def item (ip : Block 32) : JString := lit "<item>" ++ str ip ++ lit "</item>"

/-- The blocks that are left, and that are printed. -/
def all (chinaListSet : AddressSet 32) (visits : List (Block 32)) : AddressSet 32 :=
  let chinaListSet := chinaListSet.addAll internalList.blocks
  let all := (AddressSet.empty.add (cidr 0 0 0 0 0)).discardAll chinaListSet.blocks
  filterLoop all visits

def main (r : Readers) (input : List JString) (visits : List (Block 32)) :
    Option (List JString) := do
  let chinaListSet ← chinaListSet r input
  return (all chinaListSet visits).blocks.map item

/-! ### Replaced blocks -/

theorem makeNet_contains (addr : BitVec 32) (len : Fin 33) (p : BitVec 32) :
    (makeNet addr len).contains p ↔
      p.toNat / 2 ^ (32 - len.val) = addr.toNat / 2 ^ (32 - len.val) := by
  let net : Block 32 := ⟨addr, len, len.is_le⟩
  show p.toNat / net.size = net.first.toNat / net.size ↔ _
  rw [net.first_toNat_div]
  rfl

/-- A block of at most 65536 addresses lies in one `/16` network. -/
theorem contains_enclosing {ip : Block 32} {p : BitVec 32} (hsize : ip.size ≤ 65536)
    (hp : ip.contains p) : (enclosing ip).contains p := by
  have hlen : 16 ≤ ip.len := by
    by_contra hlt
    have hpow : 2 ^ 17 ≤ 2 ^ (32 - ip.len) := Nat.pow_le_pow_right (by decide) (by omega)
    have : 2 ^ 17 ≤ 65536 := hpow.trans hsize
    omega
  have hsplit : 2 ^ 16 = ip.size * 2 ^ (ip.len - 16) := by
    rw [Block.size, ← Nat.pow_add]
    congr 1
    have := ip.len_le
    omega
  refine (makeNet_contains ip.first 16 p).mpr ?_
  show p.toNat / 2 ^ 16 = ip.first.toNat / 2 ^ 16
  rw [hsplit, ← Nat.div_div_eq_div_mul, ← Nat.div_div_eq_div_mul, ip.first_toNat_div,
    hp]

theorem mem_filterStep (all : AddressSet 32) (ip : Block 32) (p : BitVec 32) :
    (filterStep all ip).mem p = true ↔
      (ip.size ≤ 65536 ∧ (enclosing ip).contains p) ∨ all.mem p = true := by
  unfold filterStep
  split
  · rename_i hsize
    rw [AddressSet.mem_add, AddressSet.mem_discard]
    constructor
    · rintro (hnet | ⟨-, hall⟩)
      · exact .inl ⟨hsize, hnet⟩
      · exact .inr hall
    · rintro (⟨-, hnet⟩ | hall)
      · exact .inl hnet
      · by_cases hip : ip.contains p
        · exact .inl (contains_enclosing hsize hip)
        · exact .inr ⟨hip, hall⟩
  · rename_i hsize
    rw [or_iff_right fun h => hsize h.1]

/-- **The loop loses no address**, whatever it comes across. -/
theorem mem_filterLoop (all : AddressSet 32) (visits : List (Block 32)) (p : BitVec 32) :
    (filterLoop all visits).mem p = true ↔
      (∃ ip ∈ visits, ip.size ≤ 65536 ∧ (enclosing ip).contains p) ∨ all.mem p = true := by
  induction visits generalizing all with
  | nil => simp [filterLoop]
  | cons ip visits ih =>
    have hcons : filterLoop all (ip :: visits) = filterLoop (filterStep all ip) visits := rfl
    rw [hcons, ih, mem_filterStep, List.exists_mem_cons_iff, or_left_comm, or_assoc]

/-! ### The blocks of China -/

/-- The address is in the block of the line. -/
def InChina (r : Readers) (p : BitVec 32) (line : JString) : Prop :=
  ∃ fields addr len, cnFields line = some fields ∧ r.address fields.1 = some addr ∧
    r.float fields.2 = some len ∧ addr.toNat ≤ p.toNat ∧ (p.toNat : ℚ) < addr.toNat + len

/-- If the line is one of China, its block has `2 ^ k` addresses, and starts at a multiple of
that. -/
def Aligned (r : Readers) (line : JString) : Prop :=
  ∀ fields, cnFields line = some fields → ∃ addr k, r.address fields.1 = some addr ∧
    r.float fields.2 = some (2 ^ k) ∧ k ≤ 32 ∧ 2 ^ k ∣ addr.toNat

theorem ipMask_two_pow (k : Nat) : ipMask (2 ^ k) = some (32 - (k : Int)) := by
  have hlog : Int.clog 2 ((2 : ℚ) ^ k) = k := by
    have := Int.clog_zpow (R := ℚ) (b := 2) (by decide) k
    simpa using this
  rw [ipMask, if_pos (by positivity), hlog]

theorem ip_aligned {r : Readers} {ipAddr : JString} {addr : BitVec 32} {k : Nat}
    (haddr : r.address ipAddr = some addr) (hk : k ≤ 32) (hdvd : 2 ^ k ∣ addr.toNat) :
    ∃ block, ip r ipAddr (32 - k) = some block ∧ ∀ p,
      block.contains p ↔ addr.toNat ≤ p.toNat ∧ p.toNat < addr.toNat + 2 ^ k := by
  have hmask : (0 : Int) ≤ 32 - k ∧ (32 - k : Int) ≤ 32 := by omega
  have hlen : (32 - k : Int).toNat = 32 - k := by omega
  let block : Block 32 := ⟨addr, (32 - k : Int).toNat, by omega⟩
  have hsize : block.size = 2 ^ k := by
    show 2 ^ (32 - (32 - k : Int).toNat) = 2 ^ k
    congr 1
    omega
  have hfirst : block.first = addr := by
    rw [← BitVec.toNat_inj, Block.first_toNat, hsize]
    exact Nat.div_mul_cancel hdvd
  refine ⟨block, ?_, fun p => ?_⟩
  · rw [ip, haddr, Option.bind_eq_bind, Option.bind_some, dif_pos hmask]
    exact if_pos hfirst
  · rw [Block.contains_iff_between, hfirst, hsize]

theorem addLine_aligned {r : Readers} {line : JString} (haligned : Aligned r line)
    (chinaListSet : AddressSet 32) :
    ∃ set, addLine r chinaListSet line = some set ∧
      ∀ p, set.mem p = true ↔ InChina r p line ∨ chinaListSet.mem p = true := by
  unfold addLine
  cases hfields : cnFields line with
  | none =>
    refine ⟨chinaListSet, rfl, fun p => ?_⟩
    rw [or_iff_right]
    rintro ⟨fields, addr, len, hsome, -⟩
    rw [hfields] at hsome
    cases hsome
  | some fields =>
    obtain ⟨addr, k, haddr, hfloat, hk, hdvd⟩ := haligned fields hfields
    obtain ⟨block, hblock, hcontains⟩ := ip_aligned haddr hk hdvd
    refine ⟨chinaListSet.add block, ?_, fun p => ?_⟩
    · simp only [hfloat, ipMask_two_pow, hblock, Option.bind_eq_bind, Option.bind_some]
      rfl
    · rw [AddressSet.mem_add, hcontains]
      refine or_congr_left ?_
      constructor
      · rintro ⟨hle, hlt⟩
        exact ⟨fields, addr, 2 ^ k, hfields, haddr, hfloat, hle, by exact_mod_cast hlt⟩
      · rintro ⟨_, _, _, hf, ha, hl, hle, hlt⟩
        obtain rfl := Option.some.inj (hfields.symm.trans hf)
        obtain rfl := Option.some.inj (haddr.symm.trans ha)
        obtain rfl := Option.some.inj (hfloat.symm.trans hl)
        exact ⟨hle, by exact_mod_cast hlt⟩

theorem foldlM_addLine {r : Readers} {input : List JString}
    (haligned : ∀ line ∈ input, Aligned r line) (set₀ : AddressSet 32) :
    ∃ set, input.foldlM (addLine r) set₀ = some set ∧
      ∀ p, set.mem p = true ↔ (∃ line ∈ input, InChina r p line) ∨ set₀.mem p = true := by
  induction input generalizing set₀ with
  | nil => exact ⟨set₀, rfl, fun p => by simp⟩
  | cons line input ih =>
    obtain ⟨hline, hinput⟩ := List.forall_mem_cons.mp haligned
    obtain ⟨set₁, hset₁, hmem₁⟩ := addLine_aligned hline set₀
    obtain ⟨set, hset, hmem⟩ := ih hinput set₁
    refine ⟨set, ?_, fun p => ?_⟩
    · rw [List.foldlM_cons, hset₁]
      exact hset
    · rw [hmem, hmem₁, List.exists_mem_cons_iff, or_left_comm, or_assoc]

theorem mem_chinaListSet {r : Readers} {input : List JString}
    (haligned : ∀ line ∈ input, Aligned r line) :
    ∃ set, chinaListSet r input = some set ∧
      ∀ p, set.mem p = true ↔ ∃ line ∈ input, InChina r p line := by
  obtain ⟨set, hset, hmem⟩ := foldlM_addLine haligned .empty
  refine ⟨set, hset, fun p => ?_⟩
  rw [hmem, AddressSet.mem_empty, or_iff_left Bool.false_ne_true]

/-! ### The printed items -/

theorem octets_injective : Function.Injective octets := by
  intro p q h
  have hoctet : ∀ (f : Iptables.Ip4 → UInt8) {x y : Nat}, f (octets p) = UInt8.ofNat x →
      f (octets q) = UInt8.ofNat y → x % 2 ^ 8 = y % 2 ^ 8 := by
    intro f x y hx hy
    rw [← UInt8.toNat_ofNat', ← UInt8.toNat_ofNat', ← hx, ← hy, h]
  have ha := hoctet (·.a) rfl rfl
  have hb := hoctet (·.b) rfl rfl
  have hc := hoctet (·.c) rfl rfl
  have hd := hoctet (·.d) rfl rfl
  have hp := p.isLt
  have hq := q.isLt
  refine BitVec.eq_of_toNat_eq ?_
  omega

theorem text_injective : Function.Injective Iptables.Ip4.text := by
  intro ip ip' h
  have hparse := Iptables.Ip4.parse_text ip
  rw [h, Iptables.Ip4.parse_text] at hparse
  exact (Option.some.inj hparse).symm

theorem pieces_str (ip : Block 32) :
    pieces [slash] (str ip) =
      (octets ip.addr).text :: if ip.len = 32 then [] else [decimalNat ip.len] := by
  have hdecimal (n : Nat) : slash ∉ decimalNat n := not_mem_decimalNat (by decide) n
  have htext : slash ∉ (octets ip.addr).text :=
    Iptables.Ip4.not_mem_text (by decide) (by decide) _
  unfold str
  split
  · exact pieces_singleton_of_not_mem htext
  · rw [pieces_singleton_joined htext, pieces_singleton_of_not_mem (hdecimal _)]

theorem str_injective : Function.Injective str := by
  rintro ⟨addr, len, hlen⟩ ⟨addr', len', hlen'⟩ h
  have hpieces := congrArg (pieces [slash]) h
  rw [pieces_str, pieces_str] at hpieces
  obtain ⟨htext, hmask⟩ := List.cons.inj hpieces
  obtain rfl : addr = addr' := octets_injective (text_injective htext)
  obtain rfl : len = len' := by
    dsimp only at hmask
    split_ifs at hmask with h32 h32' h32'
    · rw [h32, h32']
    · rw [← natOf_decimalNat len, (List.cons.inj hmask).1, natOf_decimalNat]
  rfl

/-- **An item tells its block.** -/
theorem item_injective : Function.Injective item := by
  intro ip ip' h
  have hstr := (List.append_left_inj _).mp h
  exact str_injective ((List.append_right_inj _).mp hstr)

/-- Some item is the one of a block with the address. -/
def Covered (items : List JString) (p : BitVec 32) : Prop :=
  ∃ ip : Block 32, item ip ∈ items ∧ ip.contains p

theorem covered_blocks_iff (s : AddressSet 32) (p : BitVec 32) :
    Covered (s.blocks.map item) p ↔ s.mem p = true := by
  rw [AddressSet.mem_iff_exists_blocks]
  constructor
  · rintro ⟨ip, hitem, hp⟩
    exact ⟨ip, (List.mem_map_of_injective item_injective).mp hitem, hp⟩
  · rintro ⟨ip, hip, hp⟩
    exact ⟨ip, List.mem_map_of_mem hip, hp⟩

theorem mem_internalList (p : BitVec 32) :
    internalList.mem p = true ↔ ∃ b ∈ internalBlocks, b.contains p := by
  rw [internalList, AddressSet.mem_addAll, AddressSet.mem_empty, or_iff_left Bool.false_ne_true]

theorem mem_all (chinaListSet : AddressSet 32) (visits : List (Block 32)) (p : BitVec 32) :
    (all chinaListSet visits).mem p = true ↔
      (∃ ip ∈ visits, ip.size ≤ 65536 ∧ (enclosing ip).contains p) ∨
        ¬ chinaListSet.mem p = true ∧ ∀ b ∈ internalBlocks, ¬ b.contains p := by
  have hspace : (AddressSet.empty.add (cidr 0 0 0 0 0)).mem p = true :=
    (AddressSet.mem_add _ _ _).mpr (.inl (Block.contains_of_len_eq_zero rfl p))
  have hnone : ∀ s : AddressSet 32, (∀ b ∈ s.blocks, ¬ b.contains p) ↔ ¬ s.mem p = true := by
    intro s
    simp only [AddressSet.mem_iff_exists_blocks, not_exists, not_and]
  rw [all, mem_filterLoop, AddressSet.mem_discardAll, and_iff_left hspace, hnone,
    AddressSet.mem_addAll, ← AddressSet.mem_iff_exists_blocks, mem_internalList, not_or, and_comm]
  simp only [not_exists, not_and]

/-- The address is in no block of China and in no internal one. -/
structure Foreign (r : Readers) (input : List JString) (p : BitVec 32) : Prop where
  china : ∀ line ∈ input, ¬ InChina r p line
  internal : ∀ b ∈ internalBlocks, ¬ b.contains p

section

variable {r : Readers} {input : List JString} (haligned : ∀ line ∈ input, Aligned r line)
  (visits : List (Block 32))

include haligned

theorem mem_all_iff {set : AddressSet 32} (hset : chinaListSet r input = some set)
    (p : BitVec 32) : (all set visits).mem p = true ↔
      (∃ ip ∈ visits, ip.size ≤ 65536 ∧ (enclosing ip).contains p) ∨ Foreign r input p := by
  obtain ⟨_, hset', hmem⟩ := mem_chinaListSet haligned
  obtain rfl := Option.some.inj (hset.symm.trans hset')
  rw [mem_all, hmem]
  refine or_congr_right ⟨fun h => ⟨fun line hline hin => h.1 ⟨line, hline, hin⟩, h.2⟩, fun h => ?_⟩
  refine ⟨?_, h.internal⟩
  rintro ⟨line, hline, hin⟩
  exact h.china line hline hin

/-- What is printed: the foreign addresses, and the networks of the small blocks that the loop
comes across. -/
theorem covered_main_iff :
    ∃ items, main r input visits = some items ∧ ∀ p, Covered items p ↔
      (∃ ip ∈ visits, ip.size ≤ 65536 ∧ (enclosing ip).contains p) ∨ Foreign r input p := by
  obtain ⟨set, hset, -⟩ := mem_chinaListSet haligned
  refine ⟨_, by rw [main, hset]; rfl, fun p => ?_⟩
  rw [covered_blocks_iff, mem_all_iff haligned visits hset]

/-- The list in use: below Lollipop, in the mode that bypasses China, a foreign address is routed
unless it shares its block with the server. -/
theorem routed_of_foreign {set : AddressSet 32} (hset : chinaListSet r input = some set)
    (isInRange : Block 32 → BitVec 32 → Bool) (privateList : List (Block 32))
    (proxy : BitVec 32) {p : BitVec 32} (hp : Foreign r input p) :
    (∃ net ∈ (all set visits).blocks, net.contains p ∧ isInRange net proxy = true) ∨
      Routes.Covered (Routes.routes isInRange false (all set visits).blocks privateList
        (.ipv4 proxy) .bypassChn) p := by
  obtain ⟨net, hnet, hcontains⟩ := (AddressSet.mem_iff_exists_blocks _ p).mp
    ((mem_all_iff haligned visits hset p).mpr (.inr hp))
  by_cases hserver : isInRange net proxy = true
  · exact .inl ⟨net, hnet, hcontains, hserver⟩
  · refine .inr ⟨net, List.mem_append_left _ (List.mem_filter.mpr ⟨hnet, ?_⟩), hcontains⟩
    simpa using hserver

/-- **The list loses no foreign address.** -/
theorem foreign_covered :
    ∃ items, main r input visits = some items ∧ ∀ p, Foreign r input p → Covered items p := by
  obtain ⟨items, hmain, hcovered⟩ := covered_main_iff haligned visits
  exact ⟨items, hmain, fun p hp => (hcovered p).mpr (.inr hp)⟩

end

/-- Dotted quads and decimal numbers, as the registry writes them. -/
def registryReaders : Readers where
  address s := (Iptables.Ip4.parse s).map fun ip =>
    ipv4 ip.a.toNat ip.b.toNat ip.c.toNat ip.d.toNat
  float s := (Iptables.readNat s).map fun n : Nat => (n : ℚ)

def sampleLine : JString := lit "apnic|CN|ipv4|1.0.1.0|256|20110414|allocated"

/-- The block behind the first 256 addresses is one of China; the loop comes across these 256. -/
theorem foreign_covered_sample :
    ∃ items, main registryReaders [sampleLine] [cidr 1 0 0 0 24] = some items ∧
      Covered items (ipv4 1 0 0 1) := by
  have hfields : cnFields sampleLine = some (lit "1.0.1.0", lit "256") := by decide +kernel
  have haddr : registryReaders.address (lit "1.0.1.0") = some (ipv4 1 0 1 0) := by decide +kernel
  have hfloat : registryReaders.float (lit "256") = some (2 ^ 8) := by
    have hread : Iptables.readNat (lit "256") = some 256 := by decide +kernel
    show (Iptables.readNat (lit "256")).map (fun n : Nat => (n : ℚ)) = some (2 ^ 8)
    rw [hread]
    norm_num
  have haligned : ∀ line ∈ [sampleLine], Aligned registryReaders line := by
    refine List.forall_mem_singleton.mpr fun fields h => ?_
    obtain rfl := Option.some.inj (hfields.symm.trans h)
    exact ⟨_, 8, haddr, hfloat, by decide, by decide⟩
  obtain ⟨items, hmain, hcovered⟩ := foreign_covered haligned [cidr 1 0 0 0 24]
  refine ⟨items, hmain, hcovered _ ⟨List.forall_mem_singleton.mpr ?_, by decide⟩⟩
  rintro ⟨fields, addr, len, h, ha, -, hle, -⟩
  obtain rfl := Option.some.inj (hfields.symm.trans h)
  obtain rfl := Option.some.inj (haddr.symm.trans ha)
  exact absurd hle (by decide)

end Gfwlist
