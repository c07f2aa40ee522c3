/-
UDP checksums, as the program computes them and as RFC 768 has them.

RFC 768 takes the ones' complement sum of a pseudo header, the UDP header and the payload; with
the checksum included a valid packet sums to `0xFFFF`.  A checksum that comes out as `0` is sent
as `0xFFFF`, since `0` means that there is none.  `udp_checksum` replaces a sum of `0` instead,
which does not occur, and leaves the checksum `0` alone.

* `carryAll_eq_residue` — the carry loop computes a ones' complement sum;
* `checksum_of_valid` — a packet with a valid checksum has the one that `udp_checksum` computes,
  unless it is `0xFFFF`;
* `valid_query_forwarded_iff` — so a valid query is forwarded exactly if its checksum is another.
-/
import ReShadowsocks.DnsPackets
import ReShadowsocks.OnesComplement

namespace Packet

/-! ### Sums of words -/

/-- The 16-bit words of a text, padded with a zero byte at the end. -/
def words : List UInt8 → List Nat
  | hi :: lo :: rest => (hi.toNat * 2 ^ 8 + lo.toNat) :: words rest
  | [hi] => [hi.toNat * 2 ^ 8]
  | [] => []

theorem sum_words (data : List UInt8) : (words data).sum = sumWords data := by
  fun_induction words data with
  | case1 hi lo rest ih => rw [List.sum_cons, ih, sumWords]
  | case2 hi => rw [List.sum_cons, List.sum_nil, sumWords, Nat.add_zero]
  | case3 => rfl

theorem words_lt (data : List UInt8) : ∀ x ∈ words data, x < 2 ^ 16 := by
  fun_induction words data with
  | case1 hi lo rest ih =>
    have hhi := hi.toNat_lt
    have hlo := lo.toNat_lt
    refine List.forall_mem_cons.mpr ⟨?_, ih⟩
    omega
  | case2 hi =>
    have hhi := hi.toNat_lt
    refine List.forall_mem_singleton.mpr ?_
    omega
  | case3 => exact fun x hx => absurd hx List.not_mem_nil

/-- Texts of an even length are summed up one after the other. -/
theorem sumWords_append {a : List UInt8} (b : List UInt8) (k : Nat) (h : a.length = 2 * k) :
    sumWords (a ++ b) = sumWords a + sumWords b := by
  fun_induction sumWords a generalizing k with
  | case1 hi lo rest ih =>
    have hrest : rest.length = 2 * (k - 1) := by
      rw [List.length_cons, List.length_cons] at h
      omega
    rw [List.cons_append, List.cons_append, sumWords, ih (k - 1) hrest]
    omega
  | case2 hi =>
    rw [List.length_singleton] at h
    omega
  | case3 => rw [List.nil_append, Nat.zero_add]

theorem sumWords_le (data : List UInt8) : 2 * sumWords data ≤ 65535 * (data.length + 1) := by
  fun_induction sumWords data with
  | case1 hi lo rest ih =>
    have hhi := hi.toNat_lt
    have hlo := lo.toNat_lt
    rw [List.length_cons, List.length_cons]
    omega
  | case2 hi =>
    have hhi := hi.toNat_lt
    rw [List.length_singleton]
    omega
  | case3 => omega

theorem sumWords_bytes16 (v : UInt16) : sumWords (bytes16 v) = v.toNat := by
  have hv := v.toNat_lt
  simp only [bytes16, sumWords, UInt8.toNat_ofNat']
  omega

/-- **The carry loop computes a ones' complement sum.** -/
theorem carryAll_eq_residue {t : Nat} (h : t < 2 ^ 32) :
    carryAll t = OnesComplement.residue 16 t := by
  have hsmall : ∀ {u : Nat}, u / 2 ^ 16 = 0 → OnesComplement.residue 16 u = u := by
    intro u hu
    exact OnesComplement.residue_of_lt (by omega)
  have hround : ∀ u : Nat, OnesComplement.residue 16 (u % 2 ^ 16 + u / 2 ^ 16) =
      OnesComplement.residue 16 u :=
    OnesComplement.residue_split (by decide)
  rw [carryAll, Nat.mod_eq_of_lt h]
  simp only [carry]
  split
  · rename_i hzero
    exact (hsmall hzero).symm
  · split
    · rename_i hzero
      rw [← hround t, hsmall hzero]
    · rw [← hround t, ← hround, hsmall (by omega)]

/-! ### RFC 768 -/

def pseudoHeader (ip : Ipv4Header) (udp : UdpHeader) : List UInt8 :=
  bytes32 ip.sourceAddress ++ bytes32 ip.destinationAddress ++ [0, ip.protocol] ++
    bytes16 udp.length

/-- The checksum is valid: with it, the packet sums to `0xFFFF`. -/
def ValidChecksum (ip : Ipv4Header) (udp : UdpHeader) (payload : List UInt8) : Prop :=
  OnesComplement.sum 16 (words (pseudoHeader ip udp ++ udp.bytes ++ payload)) = 0xFFFF

section

variable {ip : Ipv4Header} {udp : UdpHeader} {payload : List UInt8}

/-- The words that are summed up, the checksum left out. -/
def Unsummed (ip : Ipv4Header) (udp : UdpHeader) (payload : List UInt8) : List UInt8 :=
  pseudoHeader ip udp ++ ({ udp with checksum := 0 } : UdpHeader).bytes ++ payload

theorem length_pseudoHeader : (pseudoHeader ip udp).length = 12 := rfl

theorem sumWords_checksum (ip : Ipv4Header) (udp : UdpHeader) (payload : List UInt8) :
    sumWords (pseudoHeader ip udp ++ udp.bytes ++ payload) =
      sumWords (Unsummed ip udp payload) + udp.checksum.toNat := by
  have hsplit : ∀ h : UdpHeader, sumWords (pseudoHeader ip udp ++ h.bytes ++ payload) =
      sumWords (pseudoHeader ip udp) + (sumWords h.bytes + sumWords payload) := by
    intro h
    rw [List.append_assoc, sumWords_append _ 6 rfl, sumWords_append _ 4 rfl]
  have hbytes : sumWords udp.bytes =
      sumWords ({ udp with checksum := 0 } : UdpHeader).bytes + udp.checksum.toNat := by
    simp only [UdpHeader.bytes]
    rw [sumWords_append _ 3 rfl, sumWords_append (bytes16 0) 3 rfl, sumWords_bytes16,
      sumWords_bytes16, UInt16.toNat_zero, Nat.add_zero]
  rw [Unsummed, hsplit, hsplit, hbytes]
  omega

theorem sumWords_unsummed (hprotocol : ip.protocol = ipv4ProtocolUdp)
    (hlength : udp.length.toNat = 8 + payload.length) :
    sumWords (bytes32 ip.sourceAddress) + sumWords (bytes32 ip.destinationAddress) +
      ipv4ProtocolUdp.toNat + (8 + payload.length) % 2 ^ 16 +
      sumWords ({ udp with checksum := 0 } : UdpHeader).bytes + sumWords payload =
      sumWords (Unsummed ip udp payload) := by
  have hprot : sumWords [0, ip.protocol] = ipv4ProtocolUdp.toNat := by
    rw [hprotocol]
    rfl
  have hlt := udp.length.toNat_lt
  have hlen : (8 + payload.length) % 2 ^ 16 = sumWords (bytes16 udp.length) := by
    rw [sumWords_bytes16, hlength, Nat.mod_eq_of_lt]
    omega
  rw [Unsummed, pseudoHeader, sumWords_append _ 10 rfl, sumWords_append _ 6 rfl,
    sumWords_append _ 5 rfl, sumWords_append _ 4 rfl, sumWords_append _ 2 rfl, hprot, hlen]

theorem sumWords_unsummed_lt (hlength : udp.length.toNat = 8 + payload.length) :
    sumWords (Unsummed ip udp payload) < 2 ^ 32 := by
  have hle := sumWords_le (Unsummed ip udp payload)
  have hlen : (Unsummed ip udp payload).length = 20 + payload.length := by
    rw [Unsummed, List.length_append, List.length_append, length_pseudoHeader,
      UdpHeader.length_bytes]
  have hlt := udp.length.toNat_lt
  rw [hlen] at hle
  omega

instance : Decidable (ValidChecksum ip udp payload) := inferInstanceAs (Decidable (_ = _))

/-- The protocol is not 0. -/
theorem sumWords_unsummed_ne_zero (hprotocol : ip.protocol = ipv4ProtocolUdp)
    (hlength : udp.length.toNat = 8 + payload.length) :
    sumWords (Unsummed ip udp payload) ≠ 0 := by
  have hprot : ipv4ProtocolUdp.toNat = 17 := rfl
  rw [← sumWords_unsummed hprotocol hlength]
  omega

/-- What the program computes. -/
theorem toNat_checksum (hprotocol : ip.protocol = ipv4ProtocolUdp)
    (hlength : udp.length.toNat = 8 + payload.length) :
    (DnsNat.Datagram.checksum ⟨ip, udp, payload⟩).toNat =
      65535 - OnesComplement.residue 16 (sumWords (Unsummed ip udp payload)) := by
  have hlt := OnesComplement.residue_lt (w := 16) (by decide) (sumWords (Unsummed ip udp payload))
  have hne : OnesComplement.residue 16 (sumWords (Unsummed ip udp payload)) ≠ 0 := fun h =>
    sumWords_unsummed_ne_zero hprotocol hlength (OnesComplement.residue_eq_zero.mp h)
  rw [DnsNat.Datagram.checksum, udpChecksum, sumWords_unsummed hprotocol hlength,
    carryAll_eq_residue (sumWords_unsummed_lt hlength)]
  simp only [if_neg hne, not16, UInt16.toNat_ofNat']
  omega

/-- **A valid checksum is the one that the program computes**, unless it is `0xFFFF`. -/
theorem checksum_of_valid (hprotocol : ip.protocol = ipv4ProtocolUdp)
    (hlength : udp.length.toNat = 8 + payload.length) (hzero : udp.checksum ≠ 0)
    (hvalid : ValidChecksum ip udp payload) :
    udp.checksum = DnsNat.Datagram.checksum ⟨ip, udp, payload⟩ ↔ udp.checksum ≠ 0xFFFF := by
  have hcomputed := toNat_checksum hprotocol hlength
  have hne := sumWords_unsummed_ne_zero hprotocol hlength
  have hpos : OnesComplement.residue 16 (sumWords (Unsummed ip udp payload)) ≠ 0 := fun h =>
    hne (OnesComplement.residue_eq_zero.mp h)
  have hc : udp.checksum.toNat ≠ 0 := fun h => hzero (UInt16.toNat_inj.mp h)
  have htop : udp.checksum ≠ 0xFFFF ↔ udp.checksum.toNat ≠ 65535 :=
    not_congr UInt16.toNat_inj.symm
  rw [ValidChecksum, OnesComplement.sum_eq_residue (by decide) (words_lt _), sum_words,
    sumWords_checksum] at hvalid
  -- the checksum completes the sum: as its complement, or as the other zero
  have hcases := (OnesComplement.residue_add_eq_top (by decide) hne udp.checksum.toNat_lt).mp hvalid
  rw [htop, ← UInt16.toNat_inj, hcomputed]
  omega

end

end Packet

namespace DnsNat

open Packet

section

variable {options : Options} {dnsgw : Addr} {s : State} {data rest payload : List UInt8}
  {ip : Ipv4Header} {udp : UdpHeader}

/-- A packet that is well formed is taken if it has the checksum that the program computes. -/
theorem receive_checked (hip : ipv4Check data = some (ip, rest))
    (hprotocol : ip.protocol = ipv4ProtocolUdp) (hudp : udpCheck rest = some (udp, payload)) :
    receive data = if udp.checksum ≠ Datagram.checksum ⟨ip, udp, payload⟩ then none
      else some ⟨ip, udp, payload⟩ := by
  have haccepted := ipv4Check_accepted hip
  obtain ⟨hhead, hninth, hlen⟩ := protocol_of_read haccepted.read
  have hversion : ip.version4Ihl4.toNat / 2 ^ 4 = 4 := haccepted.version
  have hgood : ¬ (data.length < 20 ∨ data[9]? ≠ some ipv4ProtocolUdp) := by
    rw [hninth, hprotocol, not_or, Nat.not_lt, not_not]
    exact ⟨hlen, rfl⟩
  rw [receive, hhead, Option.getD_some, if_neg (not_not.mpr hversion), if_neg hgood, hip]
  simp only [hudp]

/-- The query is sent on to the gateway. -/
def Redirects (options : Options) (dnsgw : Addr) (s : State) (data payload : List UInt8) : Prop :=
  ∃ e s', processDeviceDnsPacket options s data = some (e, s') ∧ e.path = .query ∧
    e.output.source.ip = options.netifIpaddr ∧ e.output.dest = dnsgw ∧ e.output.payload = payload

/-- **A query with a valid checksum is forwarded exactly if the checksum is not `0xFFFF`.** -/
theorem valid_query_forwarded_iff (hgw : options.dnsgw = some dnsgw)
    (hip : ipv4Check data = some (ip, rest)) (hprotocol : ip.protocol = ipv4ProtocolUdp)
    (hudp : udpCheck rest = some (udp, payload)) (hport : udp.destPort = 53)
    (hzero : udp.checksum ≠ 0) (hvalid : ValidChecksum ip udp payload) :
    Redirects options dnsgw s data payload ↔ udp.checksum ≠ 0xFFFF := by
  have hreceive := receive_checked hip hprotocol hudp
  have hsame := checksum_of_valid hprotocol (udpCheck_accepted hudp).1 hzero hvalid
  rw [← hsame]
  constructor
  · rintro ⟨e, s', hp, -⟩
    have htaken := (process_output hp).1
    rw [hreceive] at htaken
    by_contra hne
    rw [if_pos hne] at htaken
    exact absurd htaken (by simp)
  · intro hsum
    rw [if_neg (not_not.mpr hsum)] at hreceive
    exact ⟨_, _, process_query hgw hreceive hport, rfl, rfl, rfl, rfl⟩

end

/-- A query with this payload, its UDP checksum set to `checksum`. -/
def queryWith (payload : List UInt8) (checksum : UInt16) : Datagram :=
  let d := Datagram.updateChecksums ⟨⟨0x45, 0, 30, 0, 0, 64, 17, 0, 0x0A000001, 0x01010101⟩,
    ⟨4000, 53, 10, 0⟩, payload⟩
  { d with udp.checksum := checksum }

/-- The payload `[1, 2]` has the checksum `0xE300`. -/
theorem valid_query_forwarded_sample :
    Redirects sampleOptions ⟨0x1A1A1A01, 8153⟩ Run.initial.state (queryWith [1, 2] 0xE300).bytes
      [1, 2] := by
  have hchecks : ipv4Check (queryWith [1, 2] 0xE300).bytes = some ((queryWith [1, 2] 0xE300).ip,
        (queryWith [1, 2] 0xE300).udp.bytes ++ [1, 2]) ∧
      udpCheck ((queryWith [1, 2] 0xE300).udp.bytes ++ [1, 2]) =
        some ((queryWith [1, 2] 0xE300).udp, [1, 2]) ∧
      ValidChecksum (queryWith [1, 2] 0xE300).ip (queryWith [1, 2] 0xE300).udp [1, 2] := by
    decide +kernel
  obtain ⟨hip, hudp, hvalid⟩ := hchecks
  refine (valid_query_forwarded_iff rfl hip rfl hudp rfl ?_ hvalid).mpr ?_
  · show (0xE300 : UInt16) ≠ 0
    decide
  · show (0xE300 : UInt16) ≠ 0xFFFF
    decide

/-- **A query that sums to zero is ignored**: RFC 768 makes its checksum `0xFFFF`, and the program
computes `0`. -/
theorem valid_query_ignored :
    ∃ data ip rest udp payload, ipv4Check data = some (ip, rest) ∧
      ip.protocol = ipv4ProtocolUdp ∧ udpCheck rest = some (udp, payload) ∧ udp.destPort = 53 ∧
      udp.checksum ≠ 0 ∧ ValidChecksum ip udp payload ∧
      processDeviceDnsPacket sampleOptions Run.initial.state data = none := by
  have hchecks : ipv4Check (queryWith [0xE4, 2] 0xFFFF).bytes =
        some ((queryWith [0xE4, 2] 0xFFFF).ip,
          (queryWith [0xE4, 2] 0xFFFF).udp.bytes ++ [0xE4, 2]) ∧
      udpCheck ((queryWith [0xE4, 2] 0xFFFF).udp.bytes ++ [0xE4, 2]) =
        some ((queryWith [0xE4, 2] 0xFFFF).udp, [0xE4, 2]) ∧
      ValidChecksum (queryWith [0xE4, 2] 0xFFFF).ip (queryWith [0xE4, 2] 0xFFFF).udp [0xE4, 2] ∧
      receive (queryWith [0xE4, 2] 0xFFFF).bytes = none := by
    decide +kernel
  obtain ⟨hip, hudp, hvalid, hnone⟩ := hchecks
  refine ⟨_, _, _, _, _, hip, rfl, hudp, rfl, ?_, hvalid, ?_⟩
  · show (0xFFFF : UInt16) ≠ 0
    decide
  · simp only [processDeviceDnsPacket, sampleOptions, hnone]

end DnsNat
