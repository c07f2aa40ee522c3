/-
IPv4 and UDP packets as `tun2socks` reads and writes them.

The structures are those of `ipv4_proto.h` and `udp_proto.h`, with the fields in
host order; `bytes` lays them out as they stand in a packet.  `ipv4Check` and
`udpCheck` accept a packet under the conditions of the source and return its
header and payload.

* `carryAll_lt` — two rounds of the carry loop are all it ever makes;
* `ipv4Check_accepted`, `udpCheck_accepted` — what an accepted packet is known to be;
* `ipv4Check_bytes`, `udpCheck_bytes` — a header is read back from its bytes, and accepted if its
  length and its checksum are right.
-/
import Mathlib.Algebra.Group.Nat.Defs
import Mathlib.Data.List.Basic

namespace Packet

/-! ### Integers in network order -/

def be16 (hi lo : UInt8) : UInt16 := UInt16.ofNat (hi.toNat * 2 ^ 8 + lo.toNat)

def be32 (a b c d : UInt8) : UInt32 :=
  UInt32.ofNat (a.toNat * 2 ^ 24 + b.toNat * 2 ^ 16 + c.toNat * 2 ^ 8 + d.toNat)

def bytes16 (v : UInt16) : List UInt8 := [UInt8.ofNat (v.toNat / 2 ^ 8), UInt8.ofNat v.toNat]

def bytes32 (v : UInt32) : List UInt8 :=
  [UInt8.ofNat (v.toNat / 2 ^ 24), UInt8.ofNat (v.toNat / 2 ^ 16), UInt8.ofNat (v.toNat / 2 ^ 8),
    UInt8.ofNat v.toNat]

theorem be16_bytes16 (v : UInt16) :
    be16 (UInt8.ofNat (v.toNat / 2 ^ 8)) (UInt8.ofNat v.toNat) = v := by
  have hv := v.toNat_lt
  apply UInt16.toNat_inj.mp
  simp only [be16, UInt8.toNat_ofNat', UInt16.toNat_ofNat']
  omega

theorem be32_bytes32 (v : UInt32) :
    be32 (UInt8.ofNat (v.toNat / 2 ^ 24)) (UInt8.ofNat (v.toNat / 2 ^ 16))
      (UInt8.ofNat (v.toNat / 2 ^ 8)) (UInt8.ofNat v.toNat) = v := by
  have hv := v.toNat_lt
  apply UInt32.toNat_inj.mp
  simp only [be32, UInt8.toNat_ofNat', UInt32.toNat_ofNat']
  omega

/-! ### Headers -/

structure Ipv4Header where
  version4Ihl4 : UInt8
  ds : UInt8
  totalLength : UInt16
  identification : UInt16
  flags3Fragmentoffset13 : UInt16
  ttl : UInt8
  protocol : UInt8
  checksum : UInt16
  sourceAddress : UInt32
  destinationAddress : UInt32
  deriving DecidableEq, Repr

def Ipv4Header.bytes (h : Ipv4Header) : List UInt8 :=
  [h.version4Ihl4, h.ds] ++ bytes16 h.totalLength ++ bytes16 h.identification ++
    bytes16 h.flags3Fragmentoffset13 ++ [h.ttl, h.protocol] ++ bytes16 h.checksum ++
    bytes32 h.sourceAddress ++ bytes32 h.destinationAddress

/-- The first 20 bytes of a packet, as a header. -/
def Ipv4Header.read : List UInt8 → Option Ipv4Header
  | b0 :: b1 :: b2 :: b3 :: b4 :: b5 :: b6 :: b7 :: b8 :: b9 :: b10 :: b11 :: b12 :: b13 :: b14 ::
      b15 :: b16 :: b17 :: b18 :: b19 :: _ =>
    some ⟨b0, b1, be16 b2 b3, be16 b4 b5, be16 b6 b7, b8, b9, be16 b10 b11,
      be32 b12 b13 b14 b15, be32 b16 b17 b18 b19⟩
  | _ => none

def Ipv4Header.version (h : Ipv4Header) : Nat := h.version4Ihl4.toNat / 2 ^ 4

/-- The length of the header in bytes, options included. -/
def Ipv4Header.headerLen (h : Ipv4Header) : Nat := h.version4Ihl4.toNat % 2 ^ 4 * 4

structure UdpHeader where
  sourcePort : UInt16
  destPort : UInt16
  length : UInt16
  checksum : UInt16
  deriving DecidableEq, Repr

def UdpHeader.bytes (h : UdpHeader) : List UInt8 :=
  bytes16 h.sourcePort ++ bytes16 h.destPort ++ bytes16 h.length ++ bytes16 h.checksum

/-- The first 8 bytes of an IP payload, as a header, and what is behind it. -/
def UdpHeader.read : List UInt8 → Option (UdpHeader × List UInt8)
  | b0 :: b1 :: b2 :: b3 :: b4 :: b5 :: b6 :: b7 :: rest =>
    some (⟨be16 b0 b1, be16 b2 b3, be16 b4 b5, be16 b6 b7⟩, rest)
  | _ => none

def ipv4ProtocolUdp : UInt8 := 17

/-! ### Checksums -/

/-- The sum of the 16-bit words, an odd byte at the end counting as a high one. -/
def sumWords : List UInt8 → Nat
  | hi :: lo :: rest => hi.toNat * 2 ^ 8 + lo.toNat + sumWords rest
  | [hi] => hi.toNat * 2 ^ 8
  | [] => 0

/-- `while (t >> 16) t = (t & 0xFFFF) + (t >> 16)`, for `n` rounds at most. -/
def carry : Nat → Nat → Nat
  | 0, t => t
  | n + 1, t => if t / 2 ^ 16 = 0 then t else carry n (t % 2 ^ 16 + t / 2 ^ 16)

/-- Two rounds do for a sum of 32 bits. -/
def carryAll (t : Nat) : Nat := carry 2 (t % 2 ^ 32)

/-- `~t`, cut to 16 bits. -/
def not16 (t : Nat) : UInt16 := UInt16.ofNat (2 ^ 32 - 1 - t)

/-- The while loop is over after two rounds. -/
theorem carryAll_lt (t : Nat) : carryAll t < 2 ^ 16 := by
  have hlt : t % 2 ^ 32 < 2 ^ 32 := Nat.mod_lt _ (by omega)
  rw [carryAll]
  generalize t % 2 ^ 32 = u at hlt
  simp only [carry]
  split
  · omega
  · split <;> omega

def ipv4Checksum (header : Ipv4Header) (extra : List UInt8) : UInt16 :=
  not16 (carryAll (sumWords header.bytes + sumWords extra))

def udpChecksum (header : UdpHeader) (payload : List UInt8) (sourceAddr destAddr : UInt32) :
    UInt16 :=
  let t := carryAll (sumWords (bytes32 sourceAddr) + sumWords (bytes32 destAddr) +
    ipv4ProtocolUdp.toNat + (8 + payload.length) % 2 ^ 16 + sumWords header.bytes +
    sumWords payload)
  not16 (if t = 0 then 2 ^ 16 - 1 else t)

/-! ### Accepted packets -/

def ipv4Check (data : List UInt8) : Option (Ipv4Header × List UInt8) :=
  match Ipv4Header.read data with
  | none => none
  | some header =>
    let headerLen := header.headerLen
    let totalLength := header.totalLength.toNat
    if header.version ≠ 4 then none
    else if headerLen < 20 then none
    else if headerLen > data.length then none
    else if totalLength < headerLen then none
    else if totalLength > data.length then none
    else if header.checksum ≠
        ipv4Checksum { header with checksum := 0 } ((data.drop 20).take (headerLen - 20)) then none
    else some (header, (data.drop headerLen).take (totalLength - headerLen))

def udpCheck (data : List UInt8) : Option (UdpHeader × List UInt8) :=
  match UdpHeader.read data with
  | none => none
  | some (header, rest) =>
    let udpLength := header.length.toNat
    if udpLength < 8 then none
    else if udpLength > 8 + rest.length then none
    else some (header, rest.take (udpLength - 8))

/-! ### Reading what was written -/

theorem Ipv4Header.read_bytes (h : Ipv4Header) (rest : List UInt8) :
    Ipv4Header.read (h.bytes ++ rest) = some h := by
  simp only [Ipv4Header.bytes, bytes16, bytes32, List.cons_append, List.nil_append,
    Ipv4Header.read, be16_bytes16, be32_bytes32]

theorem UdpHeader.read_bytes (h : UdpHeader) (rest : List UInt8) :
    UdpHeader.read (h.bytes ++ rest) = some (h, rest) := by
  simp only [UdpHeader.bytes, bytes16, List.cons_append, List.nil_append, UdpHeader.read,
    be16_bytes16]

theorem Ipv4Header.length_bytes (h : Ipv4Header) : h.bytes.length = 20 := rfl

theorem UdpHeader.length_bytes (h : UdpHeader) : h.bytes.length = 8 := rfl

/-! A header is read from the bytes in front. -/

theorem Ipv4Header.read_append {base : List UInt8} (h : base.length = 20) (rest : List UInt8) :
    Ipv4Header.read (base ++ rest) = Ipv4Header.read base := by
  match base, h with
  | [_, _, _, _, _, _, _, _, _, _, _, _, _, _, _, _, _, _, _, _], _ => rfl

theorem UdpHeader.read_append {base : List UInt8} (h : base.length = 8) (rest : List UInt8) :
    UdpHeader.read (base ++ rest) = (UdpHeader.read base).map fun r => (r.1, rest) := by
  match base, h with
  | [_, _, _, _, _, _, _, _], _ => rfl

theorem Ipv4Header.read_eq_none {data : List UInt8} (h : data.length < 20) :
    Ipv4Header.read data = none := by
  unfold Ipv4Header.read
  split
  · simp only [List.length_cons] at h
    omega
  · rfl

theorem UdpHeader.read_eq_none {data : List UInt8} (h : data.length < 8) :
    UdpHeader.read data = none := by
  unfold UdpHeader.read
  split
  · simp only [List.length_cons] at h
    omega
  · rfl

/-- What `ipv4_check` has found out about a header that it accepts. -/
structure Ipv4Accepted (data : List UInt8) (header : Ipv4Header) (payload : List UInt8) :
    Prop where
  read : Ipv4Header.read data = some header
  version : header.version = 4
  headerLen : 20 ≤ header.headerLen
  totalLength : header.totalLength.toNat = header.headerLen + payload.length
  length : header.totalLength.toNat ≤ data.length

theorem ipv4Check_accepted {data payload : List UInt8} {header : Ipv4Header}
    (h : ipv4Check data = some (header, payload)) : Ipv4Accepted data header payload := by
  unfold ipv4Check at h
  cases hread : Ipv4Header.read data with
  | none => simp [hread] at h
  | some header' =>
    simp only [hread] at h
    split_ifs at h with hversion hlen hfits htotal hdata hsum
    obtain ⟨rfl, rfl⟩ := Prod.mk.inj (Option.some.inj h)
    refine ⟨hread, not_not.mp hversion, by omega, ?_, by omega⟩
    rw [List.length_take, List.length_drop]
    omega

/-- A header without options, in front of as many bytes as it says, is accepted. -/
theorem ipv4Check_bytes {header : Ipv4Header} {payload : List UInt8} (hversion : header.version = 4)
    (hlen : header.headerLen = 20) (htotal : header.totalLength.toNat = 20 + payload.length)
    (hsum : header.checksum = ipv4Checksum { header with checksum := 0 } []) :
    ipv4Check (header.bytes ++ payload) = some (header, payload) := by
  have hdata : (header.bytes ++ payload).length = 20 + payload.length := by
    rw [List.length_append, header.length_bytes]
  have hrest : (header.bytes ++ payload).drop 20 = payload :=
    List.drop_left' header.length_bytes
  simp only [ipv4Check, header.read_bytes, hversion, hlen, hdata, htotal, hrest, Nat.sub_self,
    List.take_zero]
  rw [if_neg (by simp), if_neg (by omega), if_neg (by omega), if_neg (by omega), if_neg (by omega),
    if_neg (by simpa using hsum), Nat.add_sub_cancel_left, List.take_length]

theorem udpCheck_accepted {data payload : List UInt8} {header : UdpHeader}
    (h : udpCheck data = some (header, payload)) :
    header.length.toNat = 8 + payload.length ∧ 8 + payload.length ≤ data.length := by
  unfold udpCheck at h
  cases hread : UdpHeader.read data with
  | none => simp [hread] at h
  | some res =>
    obtain ⟨header', rest⟩ := res
    have hdata : data.length = 8 + rest.length := by
      unfold UdpHeader.read at hread
      split at hread
      · obtain ⟨-, rfl⟩ := Prod.mk.inj (Option.some.inj hread)
        simp only [List.length_cons]
        omega
      · exact absurd hread (by simp)
    simp only [hread] at h
    split_ifs at h with hshort hlong
    obtain ⟨rfl, rfl⟩ := Prod.mk.inj (Option.some.inj h)
    rw [List.length_take]
    omega

theorem udpCheck_bytes {header : UdpHeader} {payload : List UInt8}
    (hlen : header.length.toNat = 8 + payload.length) :
    udpCheck (header.bytes ++ payload) = some (header, payload) := by
  simp only [udpCheck, header.read_bytes, hlen]
  rw [if_neg (by omega), if_neg (by omega), Nat.add_sub_cancel_left, List.take_length]

end Packet
