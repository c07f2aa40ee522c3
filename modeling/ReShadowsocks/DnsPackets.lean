/-
The packets that the DNS redirection writes.

A packet that is forwarded keeps its headers but for addresses, ports and checksums.  It is
written with a header of 20 bytes, whatever the header it came with.

* `process_output` — what is forwarded, in terms of what came in;
* `receive_bytes` — a packet whose lengths agree is read back from its bytes;
* `emitted_wellFormed_iff` — the packet written is well formed exactly if the one read had no
  options and nothing behind its UDP payload;
* `dns_round_trip_iff` — a query and its answer, seen by the client as an exchange with the server
  it asked, unless the client asks from port 53.
-/
import ReShadowsocks.DnsNat

namespace DnsNat

open Packet

/-! ### What is forwarded -/

/-- The packet between other ends. -/
def Datagram.readdress (d : Datagram) (source dest : Addr) : Datagram :=
  { d with
    ip.sourceAddress := source.ip
    ip.destinationAddress := dest.ip
    udp.sourcePort := source.port
    udp.destPort := dest.port }

/-- No IP options, and nothing behind the UDP payload. -/
def Datagram.Fits (d : Datagram) : Prop :=
  d.ip.headerLen = 20 ∧ d.ip.totalLength.toNat = 20 + d.udp.length.toNat

instance (d : Datagram) : Decidable d.Fits := inferInstanceAs (Decidable (_ ∧ _))

/-- What `receive` has found out about a packet that it takes. -/
structure Received (data : List UInt8) (d : Datagram) : Prop where
  ip : ∃ rest, Ipv4Accepted data d.ip rest ∧ 8 + d.payload.length ≤ rest.length
  protocol : d.ip.protocol = ipv4ProtocolUdp
  length : d.udp.length.toNat = 8 + d.payload.length
  checksum : d.udp.checksum = d.checksum

/-- The tenth byte is the protocol. -/
theorem protocol_of_read {data : List UInt8} {header : Ipv4Header}
    (h : Ipv4Header.read data = some header) :
    data.head? = some header.version4Ihl4 ∧ data[9]? = some header.protocol ∧
      20 ≤ data.length := by
  unfold Ipv4Header.read at h
  split at h
  · rw [← Option.some.inj h]
    refine ⟨rfl, rfl, ?_⟩
    simp only [List.length_cons]
    omega
  · exact absurd h (by simp)

theorem receive_received {data : List UInt8} {d : Datagram} (h : receive data = some d) :
    Received data d := by
  unfold receive at h
  split at h
  · exact absurd h (by simp)
  · split at h
    · exact absurd h (by simp)
    · rename_i hprotocol
      cases hip : ipv4Check data with
      | none => simp [hip] at h
      | some res =>
        obtain ⟨ip, rest⟩ := res
        cases hudp : udpCheck rest with
        | none => simp [hip, hudp] at h
        | some res =>
          obtain ⟨udp, payload⟩ := res
          simp only [hip, hudp] at h
          split at h
          · exact absurd h (by simp)
          · rename_i hsum
            rw [← Option.some.inj h]
            have haccepted := ipv4Check_accepted hip
            obtain ⟨hlength, hrest⟩ := udpCheck_accepted hudp
            refine ⟨⟨rest, haccepted, hrest⟩, ?_, hlength, not_not.mp hsum⟩
            rw [not_or, not_not, (protocol_of_read haccepted.read).2.1] at hprotocol
            exact Option.some.inj hprotocol.2

/-- **What is forwarded**: the packet that was read, between other ends, with new checksums. -/
theorem process_output {options : Options} {s s' : State} {data : List UInt8} {e : Event}
    (h : processDeviceDnsPacket options s data = some (e, s')) :
    receive data = some e.input ∧
      ∃ source dest, e.output = (e.input.readdress source dest).updateChecksums := by
  unfold processDeviceDnsPacket at h
  cases hgw : options.dnsgw with
  | none => simp [hgw] at h
  | some dnsgw =>
    cases hd : receive data with
    | none => simp [hgw, hd] at h
    | some d =>
      simp only [hgw, hd] at h
      split at h
      · obtain ⟨rfl, -⟩ := Prod.mk.inj (Option.some.inj h)
        exact ⟨rfl, ⟨options.netifIpaddr, d.udp.sourcePort⟩, dnsgw, rfl⟩
      · split at h
        · split at h
          · exact absurd h (by simp)
          · cases hcon : findConnection s.table d.udp.destPort with
            | none => simp [hcon] at h
            | some con =>
              simp only [hcon] at h
              obtain ⟨rfl, -⟩ := Prod.mk.inj (Option.some.inj h)
              exact ⟨rfl, con.remoteAddr, ⟨con.localAddr.ip, d.udp.destPort⟩, rfl⟩
        · exact absurd h (by simp)

/-! ### Well-formed packets -/

/-- The packet is accepted, says its own length and its own checksum, and carries the payload. -/
def WellFormed (packet payload : List UInt8) : Prop :=
  ∃ ip rest udp, ipv4Check packet = some (ip, rest) ∧ udpCheck rest = some (udp, payload) ∧
    udp.checksum = Datagram.checksum ⟨ip, udp, payload⟩ ∧ ip.totalLength.toNat = packet.length

theorem Datagram.length_bytes (d : Datagram) : d.bytes.length = 28 + d.payload.length := by
  rw [Datagram.bytes, List.length_append, List.length_append, d.ip.length_bytes,
    d.udp.length_bytes]

section Written

variable {d : Datagram} (hversion : d.ip.version = 4)
  (hlength : d.udp.length.toNat = 8 + d.payload.length) (hfits : d.Fits)

include hversion hlength hfits

/-- A packet whose lengths agree is taken apart again. -/
theorem check_bytes :
    ipv4Check d.updateChecksums.bytes =
        some (d.updateChecksums.ip, d.updateChecksums.udp.bytes ++ d.payload) ∧
      udpCheck (d.updateChecksums.udp.bytes ++ d.payload) =
        some (d.updateChecksums.udp, d.payload) := by
  have htotal : d.updateChecksums.ip.totalLength.toNat =
      20 + (d.updateChecksums.udp.bytes ++ d.payload).length := by
    rw [List.length_append, UdpHeader.length_bytes, ← hlength]
    exact hfits.2
  rw [Datagram.bytes, List.append_assoc]
  exact ⟨@ipv4Check_bytes d.updateChecksums.ip _ hversion hfits.1 htotal rfl,
    udpCheck_bytes hlength⟩

theorem wellFormed_bytes : WellFormed d.updateChecksums.bytes d.payload := by
  obtain ⟨hip, hudp⟩ := check_bytes hversion hlength hfits
  refine ⟨_, _, _, hip, hudp, rfl, ?_⟩
  rw [Datagram.length_bytes]
  show d.ip.totalLength.toNat = 28 + d.payload.length
  rw [hfits.2, hlength]
  omega

/-- **A packet whose lengths agree is read back from its bytes.** -/
theorem receive_bytes (hprotocol : d.ip.protocol = ipv4ProtocolUdp) :
    receive d.updateChecksums.bytes = some d.updateChecksums := by
  obtain ⟨hip, hudp⟩ := check_bytes hversion hlength hfits
  obtain ⟨hhead, hninth, hlen⟩ := protocol_of_read (ipv4Check_accepted hip).read
  have hversion' : d.updateChecksums.ip.version4Ihl4.toNat / 2 ^ 4 = 4 := hversion
  have hprotocol' : d.updateChecksums.ip.protocol = ipv4ProtocolUdp := hprotocol
  have hgood : ¬ (d.updateChecksums.bytes.length < 20 ∨
      d.updateChecksums.bytes[9]? ≠ some ipv4ProtocolUdp) := by
    rw [hninth, hprotocol', not_or, Nat.not_lt, not_not]
    exact ⟨hlen, rfl⟩
  rw [receive, hhead, Option.getD_some, if_neg (not_not.mpr hversion'), if_neg hgood, hip]
  simp only [hudp]
  exact if_neg (not_not.mpr rfl)

end Written

/-- **The packet that is written is well formed exactly if the lengths of the packet that was read
agree.** -/
theorem emitted_wellFormed_iff {options : Options} {s s' : State} {data : List UInt8} {e : Event}
    (h : processDeviceDnsPacket options s data = some (e, s')) :
    WellFormed e.output.bytes e.input.payload ↔ e.input.Fits := by
  obtain ⟨hreceive, source, dest, hout⟩ := process_output h
  have hd := receive_received hreceive
  obtain ⟨rest, hip, hrest⟩ := hd.ip
  constructor
  · -- the header says the length that the packet read had, with its options and what was behind
    rintro ⟨ip, rest', udp, hip', -, -, htotal⟩
    have hread := (ipv4Check_accepted hip').read
    rw [Datagram.bytes, List.append_assoc, Ipv4Header.read_bytes, Option.some_inj] at hread
    have hsame : ip.totalLength = e.input.ip.totalLength := by
      rw [← hread, hout]
      rfl
    have hlen : e.output.bytes.length = 28 + e.input.payload.length := by
      rw [Datagram.length_bytes, hout]
      rfl
    have hsum := hip.totalLength
    have hmin := hip.headerLen
    rw [hsame, hlen] at htotal
    exact ⟨by omega, by rw [hd.length]; omega⟩
  · intro hfits
    have hwritten := wellFormed_bytes (d := e.input.readdress source dest) hip.version hd.length
      hfits
    rw [hout]
    exact hwritten

theorem emitted_wellFormed_sample :
    ∃ e s, processDeviceDnsPacket sampleOptions Run.initial.state
        (sampleData ⟨0x0A000001, 4000⟩ ⟨0x01010101, 53⟩) = some (e, s) ∧
      WellFormed e.output.bytes e.input.payload := by
  have hrun : (processDeviceDnsPacket sampleOptions Run.initial.state
      (sampleData ⟨0x0A000001, 4000⟩ ⟨0x01010101, 53⟩)).any (fun res => decide res.1.input.Fits) =
      true := by
    decide +kernel
  obtain ⟨⟨e, s⟩, hp, hfits⟩ := (Option.any_eq_true _ _).mp hrun
  exact ⟨e, s, hp, (emitted_wellFormed_iff hp).mpr (of_decide_eq_true hfits)⟩

/-- A query with four bytes of options. -/
def optionsData : List UInt8 :=
  let ip : Ipv4Header := ⟨0x46, 0, 34, 0, 0, 64, 17, 0, 0x0A000001, 0x01010101⟩
  let udp : UdpHeader := ⟨4000, 53, 10, 0⟩
  { ip with checksum := ipv4Checksum ip [1, 1, 1, 0] }.bytes ++ [1, 1, 1, 0] ++
    { udp with checksum := Datagram.checksum ⟨ip, udp, [1, 2]⟩ }.bytes ++ [1, 2]

/-- **A query with options is forwarded as a packet that no one accepts**: its header still says
24 bytes, of which four are the ports now. -/
theorem emitted_malformed :
    ∃ e s, processDeviceDnsPacket sampleOptions Run.initial.state optionsData = some (e, s) ∧
      ipv4Check e.output.bytes = none ∧ ¬ WellFormed e.output.bytes e.input.payload := by
  have hrun : (processDeviceDnsPacket sampleOptions Run.initial.state optionsData).any (fun res =>
      (ipv4Check res.1.output.bytes).isNone) = true := by
    decide +kernel
  obtain ⟨⟨e, s⟩, hp, hnone⟩ := (Option.any_eq_true _ _).mp hrun
  have hrefused : ipv4Check e.output.bytes = none := Option.isNone_iff_eq_none.mp hnone
  refine ⟨e, s, hp, hrefused, ?_⟩
  rintro ⟨ip, rest, udp, hip, -⟩
  exact absurd (hrefused.symm.trans hip) (by simp)

/-! ### A query and its answer -/

/-- The table, which is empty until the first query. -/
def State.connections (s : State) : Table := if s.init then s.table else fun _ => none

/-- The packet that is written is one from `source` to `dest` with this payload. -/
def Emits (e : Event) (source dest : Addr) (payload : List UInt8) : Prop :=
  ∃ d, receive e.output.bytes = some d ∧ d.source = source ∧ d.dest = dest ∧ d.payload = payload

/-- The query goes on to the gateway in the name of the interface, the answer goes back in the name
of the server that was asked, and no trace is left. -/
def RoundTrip (options : Options) (dnsgw : Addr) (s : State) (query answer : List UInt8)
    (q a : Datagram) : Prop :=
  ∃ e s₁ e' s₂, processDeviceDnsPacket options s query = some (e, s₁) ∧
    Emits e ⟨options.netifIpaddr, q.udp.sourcePort⟩ dnsgw q.payload ∧
    processDeviceDnsPacket options s₁ answer = some (e', s₂) ∧
    Emits e' q.dest q.source a.payload ∧ s₂.connections = s.connections

section RoundTrip

variable {options : Options} {dnsgw : Addr} {s : State} {data : List UInt8} {d : Datagram}

/-- A packet whose lengths agree goes out between its new ends. -/
theorem emits_readdress (hreceive : receive data = some d) (hfits : d.Fits) (path : Path)
    (source dest : Addr) :
    Emits ⟨path, d, (d.readdress source dest).updateChecksums⟩ source dest d.payload := by
  have hd := receive_received hreceive
  obtain ⟨rest, hip, -⟩ := hd.ip
  exact ⟨_, receive_bytes (d := d.readdress source dest) hip.version hd.length hfits hd.protocol,
    rfl, rfl, rfl⟩

theorem process_query (hgw : options.dnsgw = some dnsgw) (hreceive : receive data = some d)
    (hport : d.udp.destPort = 53) :
    processDeviceDnsPacket options s data =
      some (⟨.query, d,
          (d.readdress ⟨options.netifIpaddr, d.udp.sourcePort⟩ dnsgw).updateChecksums⟩,
        ⟨true, insertConnection s.connections d.source d.dest d.udp.sourcePort⟩) := by
  rw [processDeviceDnsPacket, hgw]
  simp only [hreceive, if_pos hport]
  rfl

theorem process_reply {con : Connection} (hgw : options.dnsgw = some dnsgw)
    (hreceive : receive data = some d) (hport : d.udp.destPort ≠ 53)
    (hsource : d.udp.sourcePort = dnsgw.port) (hinit : s.init = true)
    (hcon : s.table d.udp.destPort = some con) :
    processDeviceDnsPacket options s data =
      some (⟨.reply, d, (d.readdress con.remoteAddr
          ⟨con.localAddr.ip, d.udp.destPort⟩).updateChecksums⟩,
        { s with table := removeConnection s.table con }) := by
  rw [processDeviceDnsPacket, hgw]
  simp only [hreceive, if_neg hport, if_pos hsource, hinit, findConnection, hcon]
  rfl

/-- The entry of a query is gone behind the first answer. -/
theorem removeConnection_insertConnection {table : Table} {l r : Addr} {port : UInt16}
    (h : table port = none) :
    removeConnection (insertConnection table l r port) ⟨l, r, port, 1⟩ = table := by
  funext port'
  by_cases hp : port' = port
  · subst hp
    exact removeConnection_self.trans h.symm
  · rw [removeConnection_other hp, insertConnection_other hp]

theorem insertConnection_ne_none {table : Table} {l r : Addr} {port port' : UInt16}
    (h : table port' ≠ none) : insertConnection table l r port port' ≠ none := by
  by_cases hp : port' = port
  · subst hp
    obtain ⟨con, hcon⟩ := Option.ne_none_iff_exists'.mp h
    rw [insertConnection_some hcon]
    exact Option.some_ne_none _
  · rw [insertConnection_other hp]
    exact h

section Exchange

variable {query answer : List UInt8} {q a : Datagram} (hgw : options.dnsgw = some dnsgw)
  (hq : receive query = some q) (hport : q.udp.destPort = 53)
  (hfree : s.connections q.udp.sourcePort = none) (ha : receive answer = some a)
  (hdest : a.dest = ⟨options.netifIpaddr, q.udp.sourcePort⟩)

include hgw hq hport hfree ha hdest

/-- An answer to port 53 is taken for another query. -/
theorem not_roundTrip (hself : q.udp.sourcePort = 53) :
    ¬ RoundTrip options dnsgw s query answer q a := by
  have haport : a.udp.destPort = q.udp.sourcePort := congrArg Addr.port hdest
  rintro ⟨e, s₁, e', s₂, hp, -, hp', -, htable⟩
  rw [process_query hgw hq hport] at hp
  obtain ⟨-, rfl⟩ := Prod.mk.inj (Option.some.inj hp)
  rw [process_query hgw ha (haport.trans hself)] at hp'
  obtain ⟨-, rfl⟩ := Prod.mk.inj (Option.some.inj hp')
  have hentry := congrFun htable q.udp.sourcePort
  rw [hfree] at hentry
  have hopened : insertConnection s.connections q.source q.dest q.udp.sourcePort
      q.udp.sourcePort ≠ none := by
    rw [insertConnection_none hfree]
    exact Option.some_ne_none _
  exact insertConnection_ne_none hopened hentry

theorem roundTrip_of_ne (hqfits : q.Fits) (hafits : a.Fits) (hsource : a.source = dnsgw)
    (hne : q.udp.sourcePort ≠ 53) : RoundTrip options dnsgw s query answer q a := by
  have haport : a.udp.destPort = q.udp.sourcePort := congrArg Addr.port hdest
  have hentry : insertConnection s.connections q.source q.dest q.udp.sourcePort a.udp.destPort =
      some ⟨q.source, q.dest, q.udp.sourcePort, 1⟩ := by
    rw [haport]
    exact insertConnection_none hfree
  have hreply := process_reply
    (s := ⟨true, insertConnection s.connections q.source q.dest q.udp.sourcePort⟩) hgw ha
    (haport ▸ hne) (congrArg Addr.port hsource) rfl hentry
  refine ⟨_, _, _, _, process_query hgw hq hport, emits_readdress hq hqfits _ _ _, hreply, ?_, ?_⟩
  · have hback := emits_readdress ha hafits .reply q.dest ⟨q.source.ip, a.udp.destPort⟩
    rw [haport] at hback
    rw [haport]
    exact hback
  · exact removeConnection_insertConnection hfree

end Exchange

/-- **A query and its answer make an exchange with the server that was asked**, exactly if the
query does not come from port 53. -/
theorem dns_round_trip_iff {query answer : List UInt8} {q a : Datagram}
    (hgw : options.dnsgw = some dnsgw) (hq : receive query = some q) (hqfits : q.Fits)
    (hport : q.udp.destPort = 53) (hfree : s.connections q.udp.sourcePort = none)
    (ha : receive answer = some a) (hafits : a.Fits) (hsource : a.source = dnsgw)
    (hdest : a.dest = ⟨options.netifIpaddr, q.udp.sourcePort⟩) :
    RoundTrip options dnsgw s query answer q a ↔ q.udp.sourcePort ≠ 53 := by
  constructor
  · intro htrip hself
    exact not_roundTrip hgw hq hport hfree ha hdest hself htrip
  · exact roundTrip_of_ne hgw hq hport hfree ha hdest hqfits hafits hsource

end RoundTrip

/-- The packets of the examples have no options. -/
theorem receive_sampleData (source dest : Addr) : ∃ d, receive (sampleData source dest) = some d ∧
    d.source = source ∧ d.dest = dest ∧ d.Fits := by
  have hversion : (0x45 : UInt8).toNat / 2 ^ 4 = 4 := by decide
  have hlen : (0x45 : UInt8).toNat % 2 ^ 4 * 4 = 20 := by decide
  have hfits : Datagram.Fits ⟨⟨0x45, 0, 30, 0, 0, 64, 17, 0, source.ip, dest.ip⟩,
      ⟨source.port, dest.port, 10, 0⟩, [1, 2]⟩ := ⟨hlen, rfl⟩
  exact ⟨_, receive_bytes hversion rfl hfits rfl, rfl, rfl, hfits⟩

/-- The gateway answers the client that asked `1.1.1.1` from port 4000. -/
theorem dns_round_trip_sample :
    ∃ q a, q.source = ⟨0x0A000001, 4000⟩ ∧ RoundTrip sampleOptions ⟨0x1A1A1A01, 8153⟩
      Run.initial.state (sampleData ⟨0x0A000001, 4000⟩ ⟨0x01010101, 53⟩)
      (sampleData ⟨0x1A1A1A01, 8153⟩ ⟨0x1A1A1A02, 4000⟩) q a := by
  obtain ⟨q, hq, hqsource, hqdest, hqfits⟩ := receive_sampleData ⟨0x0A000001, 4000⟩ ⟨0x01010101, 53⟩
  obtain ⟨a, ha, hasource, hadest, hafits⟩ :=
    receive_sampleData ⟨0x1A1A1A01, 8153⟩ ⟨0x1A1A1A02, 4000⟩
  have hsport : q.udp.sourcePort = 4000 := congrArg Addr.port hqsource
  have hdport : q.udp.destPort = 53 := congrArg Addr.port hqdest
  refine ⟨q, a, hqsource,
    (dns_round_trip_iff rfl hq hqfits hdport rfl ha hafits hasource ?_).mpr ?_⟩
  · rw [hadest, hsport]
    rfl
  · rw [hsport]
    decide

/-- **A client that asks from port 53 gets no answer**: the answer is sent on to the gateway. -/
theorem dns_round_trip_port53 :
    ∃ q a, receive (sampleData ⟨0x0A000001, 53⟩ ⟨0x01010101, 53⟩) = some q ∧ q.Fits ∧
      q.udp.destPort = 53 ∧ receive (sampleData ⟨0x1A1A1A01, 8153⟩ ⟨0x1A1A1A02, 53⟩) = some a ∧
      a.Fits ∧ a.source = ⟨0x1A1A1A01, 8153⟩ ∧ a.dest = ⟨0x1A1A1A02, q.udp.sourcePort⟩ ∧
      ¬ RoundTrip sampleOptions ⟨0x1A1A1A01, 8153⟩ Run.initial.state
        (sampleData ⟨0x0A000001, 53⟩ ⟨0x01010101, 53⟩)
        (sampleData ⟨0x1A1A1A01, 8153⟩ ⟨0x1A1A1A02, 53⟩) q a := by
  obtain ⟨q, hq, hqsource, hqdest, hqfits⟩ := receive_sampleData ⟨0x0A000001, 53⟩ ⟨0x01010101, 53⟩
  obtain ⟨a, ha, hasource, hadest, hafits⟩ :=
    receive_sampleData ⟨0x1A1A1A01, 8153⟩ ⟨0x1A1A1A02, 53⟩
  have hsport : q.udp.sourcePort = 53 := congrArg Addr.port hqsource
  have hdport : q.udp.destPort = 53 := congrArg Addr.port hqdest
  have hback : a.dest = ⟨0x1A1A1A02, q.udp.sourcePort⟩ := by
    rw [hadest, hsport]
  exact ⟨q, a, hq, hqfits, hdport, ha, hafits, hasource, hback,
    not_roundTrip rfl hq hdport rfl ha hback hsport⟩

end DnsNat
