/-
The buffers of the DNS redirection.

`DnsNat` takes a packet as a list of bytes.  Here the same functions are written as the source has
them: they read the input at offsets, one access after the other, with lengths that are an `int` in
one comparison and a `size_t` in the next, and they write to `device_write_buf` at offsets.

* `agree_ipv4CheckAt`, `agree_udpCheckAt`, `value_udpChecksumAt` — the values are those of the
  functions on lists;
* `within_ipv4CheckAt`, `within_udpCheckAt`, `within_udpChecksumAt` — where they read;
* `value_processAt` — the program on buffers refines the one on lists;
* `dns_rewriter_in_bounds` — all reads are of the input, and all writes are in the buffer.
-/
import Mathlib.Algebra.Group.Int.Defs
import Mathlib.Algebra.Group.Nat.Defs
import ReShadowsocks.DnsNat
import ReShadowsocks.Reads

namespace DnsBuffer

open Packet DnsNat Reads Reading

/-! ### The program -/

/-- An `int`, where it is compared with a `size_t`. -/
def sizeT (i : Int) : Nat := (i % 2 ^ 32).toNat

/-- `udp_checksum_summer`, over `words` words from `data` on. -/
def checksumSummer (data : Nat) : Nat → Reading UInt8 Nat
  | 0 => pure 0
  | words + 1 => do
    let hi ← read data
    let lo ← read (data + 1)
    let t ← checksumSummer (data + 2) words
    return hi.toNat * 2 ^ 8 + lo.toNat + t

/-- The header is a copy; only the options are read from the input. -/
def ipv4ChecksumAt (header : Ipv4Header) (extra extraLen : Nat) : Reading UInt8 UInt16 := do
  let t ← checksumSummer extra (extraLen / 2)
  return not16 (carryAll (sumWords header.bytes + t))

def ipv4CheckAt (data : Nat) (dataLen : Int) :
    Reading UInt8 (Option (Ipv4Header × Nat × Int)) :=
  -- check base header
  if sizeT dataLen < 20 then pure none
  else do
    let base ← readMany data 20
    match Ipv4Header.read base with
    | none => pure none
    | some header =>
      let headerLen := header.headerLen
      let totalLength := header.totalLength.toNat
      if header.version ≠ 4 then pure none
      else if headerLen < 20 then pure none
      else if (headerLen : Int) > dataLen then pure none
      else if totalLength < headerLen then pure none
      else if (totalLength : Int) > dataLen then pure none
      else do
        let computed ←
          ipv4ChecksumAt { header with checksum := 0 } (data + 20) (headerLen - 20)
        if header.checksum ≠ computed then pure none
        else pure (some (header, data + headerLen, (totalLength : Int) - headerLen))

def udpCheckAt (data : Nat) (dataLen : Int) : Reading UInt8 (Option (UdpHeader × Nat × Int)) :=
  if sizeT dataLen < 8 then pure none
  else do
    let base ← readMany data 8
    match UdpHeader.read base with
    | none => pure none
    | some (header, _) =>
      let data := data + 8
      let dataLen := dataLen - 8
      let udpLength := header.length.toNat
      if udpLength < 8 then pure none
      else if udpLength > (8 + sizeT dataLen) % 2 ^ 32 then pure none
      -- ignore stray data
      else pure (some (header, data, (udpLength : Int) - 8))

/-- The words of the payload; a last odd byte is read by itself. -/
def payloadSummer (payload len : Nat) : Reading UInt8 Nat :=
  if len % 2 = 0 then checksumSummer payload (len / 2)
  else do
    let t ← checksumSummer payload ((len - 1) / 2)
    let last ← read (payload + (len - 1))
    return t + last.toNat * 2 ^ 8

/-- The length is passed as a `uint16_t`. -/
def udpChecksumAt (header : UdpHeader) (payload : Nat) (payloadLen : Int)
    (sourceAddr destAddr : UInt32) : Reading UInt8 UInt16 := do
  let len := (payloadLen % 2 ^ 16).toNat
  let sum ← payloadSummer payload len
  let t := carryAll (sumWords (bytes32 sourceAddr) + sumWords (bytes32 destAddr) +
    ipv4ProtocolUdp.toNat + (8 + len) % 2 ^ 16 + sumWords header.bytes + sum)
  return not16 (if t = 0 then 2 ^ 16 - 1 else t)

/-- The headers, and the table, of a packet that is forwarded. -/
def rewriteHeaders (options : Options) (dnsgw : Addr) (s : State) (ip : Ipv4Header)
    (udp : UdpHeader) : Option (Ipv4Header × UdpHeader × State) :=
  if udp.destPort = 53 then
    let table := if s.init then s.table else fun _ => none
    some ({ ip with destinationAddress := dnsgw.ip, sourceAddress := options.netifIpaddr },
      { udp with destPort := dnsgw.port },
      ⟨true, insertConnection table ⟨ip.sourceAddress, udp.sourcePort⟩
        ⟨ip.destinationAddress, udp.destPort⟩ udp.sourcePort⟩)
  else if udp.sourcePort = dnsgw.port then
    if !s.init then none
    else
      match findConnection s.table udp.destPort with
      | none => none
      | some con =>
        some ({ ip with
            sourceAddress := con.remoteAddr.ip, destinationAddress := con.localAddr.ip },
          { udp with sourcePort := con.remoteAddr.port },
          { s with table := removeConnection s.table con })
  else none

/-- The writes to `device_write_buf`, each with its offset, and the length given to `BTap_Send`. -/
structure Sent where
  writes : List (Nat × List UInt8)
  packetLength : Int
  deriving DecidableEq

/-- The part from the parsed headers on: the payload is read for the first checksum, for the second
one, and for the copy. -/
def forwardAt (options : Options) (dnsgw : Addr) (s : State) (ip : Ipv4Header) (udp : UdpHeader)
    (data : Nat) (dataLen : Int) : Reading UInt8 (Option (Sent × State)) := do
  let computed ← udpChecksumAt { udp with checksum := 0 } data dataLen ip.sourceAddress
    ip.destinationAddress
  if udp.checksum ≠ computed then pure none
  else
    match rewriteHeaders options dnsgw s ip udp with
    | none => pure none
    | some (ip, udp, s) => do
      let ip := { ip with checksum := ipv4Checksum { ip with checksum := 0 } [] }
      let checksum ← udpChecksumAt { udp with checksum := 0 } data dataLen ip.sourceAddress
        ip.destinationAddress
      let udp := { udp with checksum }
      let payload ← readMany data (sizeT dataLen)
      return some (⟨[(0, ip.bytes), (20, udp.bytes), (28, payload)], 20 + 8 + dataLen⟩, s)

def ipVersionAt (dataLen : Int) : Reading UInt8 Nat :=
  if dataLen > 0 then do
    let first ← read 0
    return first.toNat / 2 ^ 4
  else pure 0

/-- `process_device_dns_packet`; `none` if it returns 0. -/
def processAt (options : Options) (s : State) (dataLen : Int) :
    Reading UInt8 (Option (Sent × State)) :=
  match options.dnsgw with
  | none => pure none
  | some dnsgw => do
    let ipVersion ← ipVersionAt dataLen
    if ipVersion ≠ 4 then pure none
    else if sizeT dataLen < 20 then pure none
    else do
      let protocol ← read 9
      if protocol ≠ ipv4ProtocolUdp then pure none
      else do
        match ← ipv4CheckAt 0 dataLen with
        | none => pure none
        | some (ip, data, dataLen) => do
          match ← udpCheckAt data dataLen with
          | none => pure none
          | some (udp, data, dataLen) => forwardAt options dnsgw s ip udp data dataLen

/-! ### Checksums -/

variable {m : Nat → UInt8}

theorem sizeT_natCast {n : Nat} (h : n < 2 ^ 31) : sizeT n = n := by
  unfold sizeT
  omega

theorem value_checksumSummer (m : Nat → UInt8) (data words : Nat) :
    (checksumSummer data words).value m = sumWords (slice m data (2 * words)) := by
  induction words generalizing data with
  | zero => rfl
  | succ words ih =>
    have htwo : 2 * (words + 1) = 2 * words + 1 + 1 := by omega
    rw [htwo, slice, slice, sumWords, checksumSummer]
    simp only [value_bind, value_read, value_pure, ih]

theorem within_checksumSummer {lo hi data words : Nat} (hlo : lo ≤ data)
    (hhi : data + 2 * words ≤ hi) : Within m lo hi (checksumSummer data words) := by
  induction words generalizing data with
  | zero => exact within_pure 0
  | succ words ih =>
    refine (within_read hlo (by omega)).bind ((within_read (by omega) (by omega)).bind ?_)
    exact (ih (by omega) (by omega)).bind (within_pure _)

/-- A last byte by itself counts as a high one. -/
theorem sumWords_append_singleton {l : List UInt8} (h : l.length % 2 = 0) (b : UInt8) :
    sumWords (l ++ [b]) = sumWords l + b.toNat * 2 ^ 8 := by
  fun_induction sumWords l with
  | case1 hi lo rest ih =>
    have hrest : rest.length % 2 = 0 := by
      simp only [List.length_cons] at h
      omega
    rw [List.cons_append, List.cons_append, sumWords, ih hrest]
    omega
  | case2 hi => exact absurd h (by simp)
  | case3 => simp [sumWords]

theorem value_ipv4ChecksumAt (header : Ipv4Header) (extra : Nat) {extraLen : Nat}
    (h : extraLen % 2 = 0) :
    (ipv4ChecksumAt header extra extraLen).value m =
      ipv4Checksum header (slice m extra extraLen) := by
  have htwo : 2 * (extraLen / 2) = extraLen := by omega
  rw [ipv4ChecksumAt, ipv4Checksum, value_bind, value_checksumSummer, htwo]
  rfl

theorem value_payloadSummer (m : Nat → UInt8) (payload len : Nat) :
    (payloadSummer payload len).value m = sumWords (slice m payload len) := by
  unfold payloadSummer
  split
  · rename_i heven
    have htwo : 2 * (len / 2) = len := by omega
    rw [value_checksumSummer, htwo]
  · rename_i hodd
    have htwo : 2 * ((len - 1) / 2) = len - 1 := by omega
    have hlast : slice m payload len =
        slice m payload (len - 1) ++ [m (payload + (len - 1))] := by
      have hone : len = len - 1 + 1 := by omega
      calc slice m payload len = slice m payload (len - 1 + 1) := by rw [← hone]
        _ = _ := slice_append m payload (len - 1) 1
    rw [hlast, sumWords_append_singleton (by rw [length_slice]; omega)]
    simp only [value_bind, value_checksumSummer, htwo, value_pure, value_read]

theorem within_payloadSummer {payload lo hi len : Nat} (hlo : lo ≤ payload)
    (hhi : payload + len ≤ hi) : Within m lo hi (payloadSummer payload len) := by
  unfold payloadSummer
  split
  · exact within_checksumSummer hlo (by omega)
  · refine (within_checksumSummer hlo (by omega)).bind ?_
    exact (within_read (by omega) (by omega)).bind (within_pure _)

section

variable (header : UdpHeader) {payload len : Nat} (hlen : len < 2 ^ 16)
  (sourceAddr destAddr : UInt32)

include hlen

theorem value_udpChecksumAt :
    (udpChecksumAt header payload len sourceAddr destAddr).value m =
      udpChecksum header (slice m payload len) sourceAddr destAddr := by
  have hcast : ((len : Int) % 2 ^ 16).toNat = len := by omega
  unfold udpChecksumAt udpChecksum
  simp only [hcast, value_bind, value_payloadSummer, value_pure, length_slice]

theorem within_udpChecksumAt {lo hi : Nat} (hlo : lo ≤ payload) (hhi : payload + len ≤ hi) :
    Within m lo hi (udpChecksumAt header payload len sourceAddr destAddr) := by
  have hcast : ((len : Int) % 2 ^ 16).toNat = len := by omega
  unfold udpChecksumAt
  rw [hcast]
  exact (within_payloadSummer hlo hhi).bind (within_pure _)

end

/-! ### Headers -/

/-- A check of the bytes and one of the buffer: both reject, or both accept, with the same header
and a payload that lies from `lo` on and before `hi`. -/
inductive Agree {η : Type} (m : Nat → UInt8) (lo hi : Nat) :
    Option (η × List UInt8) → Option (η × Nat × Int) → Prop
  | rejected : Agree m lo hi none none
  | accepted {header : η} {start len : Nat} : lo ≤ start → start + len ≤ hi →
      Agree m lo hi (some (header, slice m start len)) (some (header, start, (len : Int)))

/-- The same test in both, before anything is read. -/
theorem Agree.ite {η : Type} {lo hi : Nat} {c c' : Prop} [Decidable c] [Decidable c']
    {x : Option (η × List UInt8)} {y : Reading UInt8 (Option (η × Nat × Int))} (hiff : c ↔ c')
    (h : ¬ c → Agree m lo hi x (y.value m)) :
    Agree m lo hi (if c then none else x) ((if c' then pure none else y).value m) := by
  by_cases hc : c
  · rw [if_pos hc, if_pos (hiff.mp hc)]
    exact .rejected
  · rw [if_neg hc, if_neg (mt hiff.mpr hc)]
    exact h hc

/-- **`ipv4_check`**, on the bytes and on the buffer. -/
theorem agree_ipv4CheckAt (m : Nat → UInt8) (data : Nat) {n : Nat} (hn : n < 2 ^ 31) :
    Agree m (data + 20) (data + n) (ipv4Check (slice m data n)) ((ipv4CheckAt data n).value m) := by
  unfold ipv4CheckAt
  rw [sizeT_natCast hn]
  by_cases hshort : n < 20
  · rw [if_pos hshort, ipv4Check, Ipv4Header.read_eq_none (by rwa [length_slice])]
    exact .rejected
  have hsplit : slice m data n = slice m data 20 ++ slice m (data + 20) (n - 20) := by
    rw [← slice_append, Nat.add_sub_cancel' (by omega)]
  have hread : Ipv4Header.read (slice m data n) = Ipv4Header.read (slice m data 20) := by
    rw [hsplit]
    exact Ipv4Header.read_append (length_slice m data 20) _
  rw [if_neg hshort, ipv4Check, hread, value_bind, value_readMany]
  cases Ipv4Header.read (slice m data 20) with
  | none => exact .rejected
  | some header =>
    have heven : (header.headerLen - 20) % 2 = 0 := by
      unfold Ipv4Header.headerLen
      omega
    dsimp only
    rw [length_slice]
    -- the tests are made in one order
    refine .ite Iff.rfl fun hversion => .ite Iff.rfl fun hmin => ?_
    refine .ite Int.ofNat_lt.symm fun hfits => .ite Iff.rfl fun htotal => ?_
    refine .ite Int.ofNat_lt.symm fun hdata => ?_
    have hoptions : ((slice m data n).drop 20).take (header.headerLen - 20) =
        slice m (data + 20) (header.headerLen - 20) := by
      rw [drop_slice m data (by omega), take_slice m _ (by omega)]
    have hpayload : ((slice m data n).drop header.headerLen).take
        (header.totalLength.toNat - header.headerLen) =
        slice m (data + header.headerLen) (header.totalLength.toNat - header.headerLen) := by
      rw [drop_slice m data (by omega), take_slice m _ (by omega)]
    have hlen : (header.totalLength.toNat : Int) - header.headerLen =
        (header.totalLength.toNat - header.headerLen : Nat) := by omega
    rw [hoptions, hpayload, hlen, value_bind, value_ipv4ChecksumAt _ _ heven]
    exact .ite Iff.rfl fun _ => .accepted (by omega) (by omega)

/-- The options end where the header does. -/
theorem within_ipv4CheckAt (m : Nat → UInt8) (data : Nat) {n : Nat} (hn : n < 2 ^ 31) :
    Within m data (data + n) (ipv4CheckAt data n) := by
  unfold ipv4CheckAt
  rw [sizeT_natCast hn]
  refine within_ite fun hshort => (within_readMany (Nat.le_refl data) (by omega)).bind ?_
  rw [value_readMany]
  split
  · exact within_pure none
  · refine within_ite fun hversion => within_ite fun hmin => within_ite fun hfits => ?_
    refine within_ite fun htotal => within_ite fun hdata => ?_
    refine Within.bind ((within_checksumSummer (by omega) (by omega)).bind (within_pure _)) ?_
    exact within_ite fun _ => within_pure _

/-- **`udp_check`**, on the bytes and on the buffer. -/
theorem agree_udpCheckAt (m : Nat → UInt8) (data : Nat) {n : Nat} (hn : n < 2 ^ 31) :
    Agree m (data + 8) (data + n) (udpCheck (slice m data n)) ((udpCheckAt data n).value m) := by
  unfold udpCheckAt
  rw [sizeT_natCast hn]
  by_cases hshort : n < 8
  · rw [if_pos hshort, udpCheck, UdpHeader.read_eq_none (by rwa [length_slice])]
    exact .rejected
  have hsplit : slice m data n = slice m data 8 ++ slice m (data + 8) (n - 8) := by
    rw [← slice_append, Nat.add_sub_cancel' (by omega)]
  have hread : UdpHeader.read (slice m data n) =
      (UdpHeader.read (slice m data 8)).map fun r => (r.1, slice m (data + 8) (n - 8)) := by
    rw [hsplit]
    exact UdpHeader.read_append (length_slice m data 8) _
  rw [if_neg hshort, udpCheck, hread, value_bind, value_readMany]
  cases UdpHeader.read (slice m data 8) with
  | none => exact .rejected
  | some res =>
    obtain ⟨header, -⟩ := res
    -- the sum of the two lengths is the length that was there before
    have hroom : (8 + sizeT ((n : Int) - 8)) % 2 ^ 32 = n := by
      unfold sizeT
      omega
    rw [Option.map_some]
    dsimp only
    rw [length_slice, hroom]
    refine .ite Iff.rfl fun hmin => .ite (by omega) fun hlong => ?_
    have hlen : (header.length.toNat : Int) - 8 = (header.length.toNat - 8 : Nat) := by omega
    rw [take_slice m _ (by omega), hlen]
    exact .accepted (Nat.le_refl _) (by omega)

theorem within_udpCheckAt (m : Nat → UInt8) (data : Nat) {n : Nat} (hn : n < 2 ^ 31) :
    Within m data (data + n) (udpCheckAt data n) := by
  unfold udpCheckAt
  rw [sizeT_natCast hn]
  refine within_ite fun hshort => (within_readMany (Nat.le_refl data) (by omega)).bind ?_
  split
  · exact within_pure none
  · exact within_ite fun _ => within_ite fun _ => within_pure _

/-- A UDP length has 16 bits. -/
theorem length_lt_of_udpCheck {bytes payload : List UInt8} {udp : UdpHeader}
    (h : udpCheck bytes = some (udp, payload)) : payload.length < 2 ^ 16 := by
  have hword := udp.length.toNat_lt
  have hlen := (udpCheck_accepted h).1
  omega

/-! ### Forwarding -/

/-- The writes of a datagram. -/
def Sent.ofDatagram (d : Datagram) : Sent where
  writes := [(0, d.ip.bytes), (20, d.udp.bytes), (28, d.payload)]
  packetLength := 20 + 8 + d.payload.length

section

variable (options : Options) (dnsgw : Addr) (s : State) (ip : Ipv4Header) (udp : UdpHeader)
  {data len : Nat}

theorem value_forwardAt (hlen : len < 2 ^ 16) :
    (forwardAt options dnsgw s ip udp data len).value m =
      if udp.checksum ≠ Datagram.checksum ⟨ip, udp, slice m data len⟩ then none
      else (rewriteHeaders options dnsgw s ip udp).map fun r =>
        (Sent.ofDatagram (Datagram.updateChecksums ⟨r.1, r.2.1, slice m data len⟩), r.2.2) := by
  unfold forwardAt
  rw [value_bind, value_udpChecksumAt _ hlen, Datagram.checksum]
  dsimp only
  split
  · rfl
  · cases rewriteHeaders options dnsgw s ip udp with
    | none => rfl
    | some r =>
      obtain ⟨ip', udp', s'⟩ := r
      dsimp only
      rw [value_bind, value_udpChecksumAt _ hlen, value_bind, value_readMany, value_pure,
        sizeT_natCast (by omega), Option.map_some, Sent.ofDatagram, Datagram.updateChecksums,
        length_slice]
      rfl

/-- The payload is read three times, and nothing else. -/
theorem within_forwardAt (hlen : len < 2 ^ 16) :
    Within m data (data + len) (forwardAt options dnsgw s ip udp data len) := by
  have hsum (header : UdpHeader) (sourceAddr destAddr : UInt32) :
      Within m data (data + len) (udpChecksumAt header data len sourceAddr destAddr) :=
    within_udpChecksumAt header hlen sourceAddr destAddr (Nat.le_refl _) (Nat.le_refl _)
  unfold forwardAt
  refine (hsum _ _ _).bind ?_
  split
  · exact within_pure none
  · cases rewriteHeaders options dnsgw s ip udp with
    | none => exact within_pure none
    | some r =>
      rw [sizeT_natCast (by omega)]
      refine (hsum _ _ _).bind ((within_readMany (Nat.le_refl _) (Nat.le_refl _)).bind ?_)
      exact within_pure _

end

/-! ### The whole program -/

variable {options : Options} {s : State}

/-- The list program, from the datagram on. -/
theorem map_process_eq {dnsgw : Addr} (hgw : options.dnsgw = some dnsgw) (data : List UInt8) :
    ((processDeviceDnsPacket options s data).map fun r => (Sent.ofDatagram r.1.output, r.2)) =
      (receive data).bind fun d => (rewriteHeaders options dnsgw s d.ip d.udp).map fun r =>
        (Sent.ofDatagram (Datagram.updateChecksums ⟨r.1, r.2.1, d.payload⟩), r.2.2) := by
  unfold processDeviceDnsPacket
  rw [hgw]
  cases receive data with
  | none => rfl
  | some d =>
    rw [Option.bind_some, rewriteHeaders]
    dsimp only
    split
    · rfl
    · split
      · split
        · rfl
        · cases findConnection s.table d.udp.destPort with
          | none => rfl
          | some con => rfl
      · rfl

theorem value_ipVersionAt (m : Nat → UInt8) (n : Nat) :
    (ipVersionAt n).value m = ((slice m 0 n).head?.getD 0).toNat / 2 ^ 4 := by
  unfold ipVersionAt
  cases n with
  | zero =>
    rw [if_neg (by simp)]
    simp [slice]
  | succ n =>
    rw [if_pos (by omega)]
    rfl

/-- **The program on buffers refines the one on lists.** -/
theorem value_processAt (options : Options) (s : State) (m : Nat → UInt8) {n : Nat}
    (hn : n < 2 ^ 31) :
    (processAt options s n).value m = (processDeviceDnsPacket options s (slice m 0 n)).map fun r =>
      (Sent.ofDatagram r.1.output, r.2) := by
  unfold processAt
  cases hgw : options.dnsgw with
  | none =>
    rw [processDeviceDnsPacket, hgw]
    rfl
  | some dnsgw =>
    rw [map_process_eq hgw, receive]
    dsimp only
    rw [value_bind, value_ipVersionAt, length_slice, sizeT_natCast hn]
    by_cases hversion : ((slice m 0 n).head?.getD 0).toNat / 2 ^ 4 ≠ 4
    · rw [if_pos hversion, if_pos hversion]
      rfl
    rw [if_neg hversion, if_neg hversion]
    by_cases hshort : n < 20
    · rw [if_pos hshort, if_pos (.inl hshort)]
      rfl
    have hprotocol : (slice m 0 n)[9]? = some (m 9) := getElem?_slice m 0 (by omega)
    rw [if_neg hshort, hprotocol, value_bind, value_read]
    by_cases hudp : m 9 ≠ ipv4ProtocolUdp
    · rw [if_pos hudp, if_pos (.inr fun h => hudp (Option.some.inj h))]
      rfl
    rw [if_neg hudp, if_neg fun h => h.elim hshort fun hne => hudp fun h => hne (congrArg some h),
      value_bind]
    have hip := agree_ipv4CheckAt m 0 hn
    generalize ipv4Check (slice m 0 n) = checked at hip ⊢
    generalize (ipv4CheckAt 0 n).value m = checkedAt at hip ⊢
    cases hip with
    | rejected => rfl
    | @accepted ip start len hstart hend =>
      dsimp only
      rw [value_bind]
      have hudp := @agree_udpCheckAt m start len (by omega)
      generalize hparsed : udpCheck (slice m start len) = parsed at hudp ⊢
      generalize (udpCheckAt start len).value m = parsedAt at hudp ⊢
      cases hudp with
      | rejected => rfl
      | @accepted udp start' len' _ _ =>
        have hlen := length_lt_of_udpCheck hparsed
        rw [length_slice] at hlen
        dsimp only
        rw [value_forwardAt options dnsgw s ip udp hlen]
        split
        · rfl
        · rfl

/-- **Where the program reads.** -/
theorem within_processAt (options : Options) (s : State) (m : Nat → UInt8) {n : Nat}
    (hn : n < 2 ^ 31) : Within m 0 n (processAt options s n) := by
  unfold processAt
  cases options.dnsgw with
  | none => exact within_pure none
  | some dnsgw =>
    have hversion : Within m 0 n (ipVersionAt n) := by
      unfold ipVersionAt
      split
      · exact (within_read (Nat.le_refl 0) (by omega)).bind (within_pure _)
      · exact within_pure 0
    refine hversion.bind (within_ite fun _ => ?_)
    rw [sizeT_natCast hn]
    refine within_ite fun hshort => (within_read (Nat.zero_le 9) (by omega)).bind ?_
    refine within_ite fun _ => ?_
    have hip := within_ipv4CheckAt m 0 hn
    rw [Nat.zero_add] at hip
    refine hip.bind ?_
    have hagree := agree_ipv4CheckAt m 0 hn
    generalize ipv4Check (slice m 0 n) = checked at hagree
    generalize (ipv4CheckAt 0 n).value m = checkedAt at hagree ⊢
    cases hagree with
    | rejected => exact within_pure none
    | @accepted ip start len hstart hend =>
      refine ((within_udpCheckAt m start (by omega)).mono (Nat.zero_le _) (by omega)).bind ?_
      have hagree := @agree_udpCheckAt m start len (by omega)
      generalize hparsed : udpCheck (slice m start len) = parsed at hagree
      generalize (udpCheckAt start len).value m = parsedAt at hagree ⊢
      cases hagree with
      | rejected => exact within_pure none
      | @accepted udp start' len' hstart' hend' =>
        have hlen := length_lt_of_udpCheck hparsed
        rw [length_slice] at hlen
        exact (within_forwardAt options dnsgw s ip udp hlen).mono (Nat.zero_le _) (by omega)

/-- The headers and the payload lie one behind the other in the packet. -/
theorem length_of_receive {data : List UInt8} {d : Datagram} (h : receive data = some d) :
    28 + d.payload.length ≤ data.length := by
  unfold receive at h
  split_ifs at h
  cases hip : ipv4Check data with
  | none =>
    rw [hip] at h
    cases h
  | some r =>
    obtain ⟨ip, rest⟩ := r
    rw [hip] at h
    dsimp only at h
    cases hudp : udpCheck rest with
    | none =>
      rw [hudp] at h
      cases h
    | some r =>
      obtain ⟨udp, payload⟩ := r
      rw [hudp] at h
      dsimp only at h
      split_ifs at h
      obtain rfl := Option.some.inj h
      have hlen := (udpCheck_accepted hudp).2
      obtain ⟨-, -, hheader, htotal, hdata⟩ := ipv4Check_accepted hip
      dsimp only
      omega

/-- **The rewriter stays inside its buffers**: it reads only the input, and the packet it sends
fits into `device_write_buf`, which has the size of the MTU. -/
theorem dns_rewriter_in_bounds (options : Options) (s : State) (m : Nat → UInt8)
    {dataLen mtu : Int} (hdata : 0 ≤ dataLen) (hmtu : dataLen ≤ mtu) (hint : mtu < 2 ^ 31) :
    (∀ i ∈ (processAt options s dataLen).offsets m, (i : Int) < dataLen) ∧
      ∀ sent s', (processAt options s dataLen).value m = some (sent, s') →
        28 ≤ sent.packetLength ∧ sent.packetLength ≤ dataLen ∧
          ∀ w ∈ sent.writes, ((w.1 + w.2.length : Nat) : Int) ≤ mtu := by
  obtain ⟨n, rfl⟩ := Int.eq_ofNat_of_zero_le hdata
  have hn : n < 2 ^ 31 := by omega
  refine ⟨fun i hi => ?_, fun sent s' hsent => ?_⟩
  · exact Int.ofNat_lt.mpr (within_processAt options s m hn i hi).2
  · rw [value_processAt options s m hn] at hsent
    cases hgw : options.dnsgw with
    | none =>
      rw [processDeviceDnsPacket, hgw] at hsent
      cases hsent
    | some dnsgw =>
      rw [map_process_eq hgw] at hsent
      obtain ⟨d, hd, hr⟩ := Option.bind_eq_some_iff.mp hsent
      obtain ⟨r, -, hr⟩ := Option.map_eq_some_iff.mp hr
      obtain ⟨rfl, -⟩ := Prod.mk.inj hr
      have hlen := length_of_receive hd
      rw [length_slice] at hlen
      refine ⟨?_, ?_, ?_⟩
      · show (28 : Int) ≤ 20 + 8 + d.payload.length
        omega
      · show (20 + 8 + d.payload.length : Int) ≤ n
        omega
      · show ∀ w ∈ [(0, _), (20, _), (28, d.payload)], _
        simp only [List.forall_mem_cons, Ipv4Header.length_bytes, UdpHeader.length_bytes]
        exact ⟨by omega, by omega, by omega, List.forall_mem_nil _⟩

/-- A query of 30 bytes, on a device with an MTU of 1500. -/
theorem dns_rewriter_in_bounds_query :
    ∃ sent s', (processAt sampleOptions Run.initial.state 30).value
        (fun i => (sampleData ⟨0x0A000001, 4000⟩ ⟨0x01010101, 53⟩).getD i 0) = some (sent, s') ∧
      28 ≤ sent.packetLength ∧ sent.packetLength ≤ 30 ∧
        ∀ w ∈ sent.writes, ((w.1 + w.2.length : Nat) : Int) ≤ 1500 := by
  have hsent : ((processAt sampleOptions Run.initial.state 30).value
      (fun i => (sampleData ⟨0x0A000001, 4000⟩ ⟨0x01010101, 53⟩).getD i 0)).isSome = true := by
    decide +kernel
  obtain ⟨⟨sent, s'⟩, hvalue⟩ := Option.isSome_iff_exists.mp hsent
  exact ⟨sent, s', hvalue,
    (dns_rewriter_in_bounds _ _ _ (by decide) (by decide) (by decide)).2 sent s' hvalue⟩

end DnsBuffer
