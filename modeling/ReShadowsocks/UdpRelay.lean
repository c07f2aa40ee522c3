/-
The UDP relay of `tun2socks`, as it is built for Android.

`SocksUdpGwClient` sends every packet of an address pair `(local, remote)` to the
SOCKS server through a socket of its own, framed by a SOCKS5 UDP header that
names `remote`.  The connections stand in a tree, by address pair, and in a list,
the least recently used one first.  When `max_connections` are open the first of
the list is bound to the new pair; its socket stays.

* `submit_cases` — all that a submission can do to the client;
* `parse_named`, `parse_append` — the framing can be read back, also from a
  datagram that was cut;
* `received_of_send` — what one connection sends, as another receives it;
* `Linked`, `linked_of_reach` — the tree and the connections, in every run;
* `send_fits_iff` — when a packet fits into the buffer it is written to;
* `send_overflows` — a packet that is accepted and does not fit;
* `answer_whole_iff` — when an answer is handed over whole or not at all;
* `answer_cut` — an answer of which the front is handed over.
-/
import Mathlib.Algebra.Group.Int.Defs
import Mathlib.Logic.Function.Basic
import Mathlib.Tactic.Common
import ReShadowsocks.Packet
import ReShadowsocks.Transition

namespace UdpRelay

open Packet Transition

/-- The 16 bytes of an IPv6 address. -/
abbrev Ipv6 := { ip : List UInt8 // ip.length = 16 }

/-- An address of one of the two types that `SubmitPacket` takes. -/
inductive BAddr
  | ipv4 (ip : UInt32) (port : UInt16)
  | ipv6 (ip : Ipv6) (port : UInt16)
  deriving DecidableEq

structure Conaddr where
  localAddr : BAddr
  remoteAddr : BAddr
  deriving DecidableEq

structure Connection where
  conaddr : Conaddr
  /-- The MTU given to `BufferWriter_Init`. -/
  writerMtu : Int
  /-- The MTU given to `BDatagram_RecvAsync_Init`. -/
  recvMtu : Int
  deriving DecidableEq

/-! ### Framing -/

def socksAtypIpv4 : UInt8 := 0x01

def socksAtypIpv6 : UInt8 := 0x04

namespace BAddr

def atyp : BAddr → UInt8
  | ipv4 _ _ => socksAtypIpv4
  | ipv6 _ _ => socksAtypIpv6

/-- `udpgw_addr_ipv4` and `udpgw_addr_ipv6`. -/
def bytes : BAddr → List UInt8
  | ipv4 ip port => bytes32 ip ++ bytes16 port
  | ipv6 ip port => ip.1 ++ bytes16 port

/-- The length of the SOCKS5 UDP header that names the address. -/
def headerLen : BAddr → Nat
  | ipv4 _ _ => 10
  | ipv6 _ _ => 22

end BAddr

/-- The bytes that `connection_send` writes. -/
def frame (remoteAddr : BAddr) (data : List UInt8) : List UInt8 :=
  [0, 0, 0, remoteAddr.atyp] ++ remoteAddr.bytes ++ data

/-- The address at the front of a datagram, and what is behind it.  Every type
but IPv6 is read as IPv4. -/
def readAddr (atyp : UInt8) (data : List UInt8) : Option (BAddr × List UInt8) :=
  if atyp = socksAtypIpv6 then
    if h : 16 ≤ data.length then
      match data.drop 16 with
      | p0 :: p1 :: rest =>
        some (.ipv6 ⟨data.take 16, by rw [List.length_take]; omega⟩ (be16 p0 p1), rest)
      | _ => none
    else none
  else
    match data with
    | a :: b :: c :: d :: p0 :: p1 :: rest => some (.ipv4 (be32 a b c d) (be16 p0 p1), rest)
    | _ => none

/-- A received datagram: the address it names, and its payload. -/
def parse : List UInt8 → Option (BAddr × List UInt8)
  | _ :: _ :: frag :: atyp :: rest => if frag ≠ 0 then none else readAddr atyp rest
  | _ => none

/-- A call of `handler_received`. -/
structure Call where
  localAddr : BAddr
  remoteAddr : BAddr
  data : List UInt8
  deriving DecidableEq

def dgramHandlerReceived (udpMtu : Int) (o : Connection) (data : List UInt8) : Option Call :=
  match parse data with
  | none => none
  | some (remoteAddr, data) =>
    -- "remote addr not match"; nothing in the datagram tells the local address
    if remoteAddr ≠ o.conaddr.remoteAddr then none
    else if (data.length : Int) > udpMtu then none
    else some ⟨o.conaddr.localAddr, remoteAddr, data⟩

/-! ### The client -/

/-- Connections are known by the address of their structure. -/
structure Client where
  udpMtu : Int
  udpgwMtu : Int
  numConnections : Int
  maxConnections : Int
  /-- The AVL tree, as a map. -/
  connectionsTree : Conaddr → Option Nat
  connectionsList : List Nat
  connection : Nat → Option Connection
  /-- From here on `malloc` has given out nothing. -/
  fresh : Nat

/-- The result is -1 if it is not an `int`. -/
def udpgwComputeMtu (dgramMtu : Int) : Int :=
  if 0 ≤ dgramMtu ∧ 4 + (18 + dgramMtu) < 2 ^ 31 then 4 + (18 + dgramMtu) else -1

namespace Client

/-- `SocksUdpGwClient_Init`, of a structure that is zeroed. -/
def init (udpMtu maxConnections : Int) : Client where
  udpMtu := udpMtu
  udpgwMtu := udpgwComputeMtu udpMtu
  numConnections := 0
  maxConnections := if maxConnections > 65535 + 1 then 65535 + 1 else maxConnections
  connectionsTree := fun _ => none
  connectionsList := []
  connection := fun _ => none
  fresh := 0

variable (c : Client)

def findConnection (conaddr : Conaddr) : Option Nat := c.connectionsTree conaddr

/-- Remove the connection from the tree, set its pair, insert it again. -/
def rebind (id : Nat) (con : Connection) (conaddr : Conaddr) : Client :=
  { c with
    connectionsTree :=
      Function.update (Function.update c.connectionsTree con.conaddr none) conaddr (some id)
    connection := Function.update c.connection id (some { con with conaddr }) }

/-- There is nothing to reuse if `max_connections` is 0: the source then
dereferences a null pointer. -/
def reuseConnection (conaddr : Conaddr) : Option (Client × Nat) :=
  match c.connectionsList.head? with
  | none => none
  | some id =>
    match c.connection id with
    | none => none
    | some con => some (c.rebind id con conaddr, id)

/-- Insert a new connection into the tree and the list.  All its buffers get
`udp_mtu`, not `udpgw_mtu`. -/
def insertConnection (conaddr : Conaddr) : Client :=
  { c with
    connectionsTree := Function.update c.connectionsTree conaddr (some c.fresh)
    connectionsList := c.connectionsList ++ [c.fresh]
    numConnections := c.numConnections + 1
    connection := Function.update c.connection c.fresh (some ⟨conaddr, c.udpMtu, c.udpMtu⟩)
    fresh := c.fresh + 1 }

/-- `none` if one of the steps fails, which undoes those before. -/
def connectionInit (conaddr : Conaddr) (ok : Bool) : Option (Client × Nat) :=
  if !ok then none else some (c.insertConnection conaddr, c.fresh)

/-- Move a connection to the end of the list. -/
def moveToEnd (id : Nat) : Client :=
  { c with connectionsList := c.connectionsList.erase id ++ [id] }

end Client

/-- What the platform decides: whether all steps of `connection_init` succeed,
and whether the writer of the connection has a buffer to offer. -/
structure Env where
  initOk : Bool
  outHave : Bool
  deriving DecidableEq

/-- The bytes handed to `BufferWriter_EndPacket`. -/
def connectionSend (o : Connection) (outHave : Bool) (data : List UInt8) : Option (List UInt8) :=
  if !outHave then none else some (frame o.conaddr.remoteAddr data)

/-- The connection that a submission for the pair uses. -/
def Client.acquire (c : Client) (conaddr : Conaddr) (initOk : Bool) :
    Option (Client × Option Nat) :=
  match c.findConnection conaddr with
  | some id => some (c.moveToEnd id, some id)
  | none =>
    -- the least recently used connection is taken over, with its socket
    if c.numConnections = c.maxConnections then
      (c.reuseConnection conaddr).map fun (c', id) => (c'.moveToEnd id, some id)
    else
      match c.connectionInit conaddr initOk with
      | none => some (c, none)
      | some (c', id) => some (c', some id)

/-- A packet that was written: the connection, the pair it was submitted for. -/
structure Outgoing where
  con : Nat
  conaddr : Conaddr
  bytes : List UInt8
  deriving DecidableEq

/-- The first packet of a new connection is sent by a job that runs before the
next event, so it is sent here as well. -/
def Client.submitPacket (c : Client) (conaddr : Conaddr) (data : List UInt8) (env : Env) :
    Option (Client × Option Outgoing) :=
  (c.acquire conaddr env.initOk).map fun (c', id?) =>
    (c', do
      let id ← id?
      let o ← c'.connection id
      let bytes ← connectionSend o env.outHave data
      return ⟨id, conaddr, bytes⟩)

/-! ### Runs -/

inductive Event
  | sent (packet : Outgoing)
  /-- `handler_received` was called for the datagram. -/
  | received (con : Nat) (datagram : List UInt8) (call : Call)
  deriving DecidableEq

/-- The client, with the history of what it sent and handed over. -/
structure System where
  client : Client
  log : List Event

def System.init (udpMtu maxConnections : Int) : System := ⟨Client.init udpMtu maxConnections, []⟩

inductive Action
  | submit (conaddr : Conaddr) (data : List UInt8) (env : Env)
  /-- A datagram arrives on the socket of a connection. -/
  | datagram (con : Nat) (data : List UInt8)
  deriving DecidableEq

/-- A datagram that is longer than the buffer is cut. -/
def step (s : System) : Action → Option System
  | .submit conaddr data env =>
    (s.client.submitPacket conaddr data env).map fun (c, packet?) =>
      ⟨c, s.log ++ packet?.toList.map .sent⟩
  | .datagram id data =>
    (s.client.connection id).map fun o =>
      let call? := dgramHandlerReceived s.client.udpMtu o (data.take o.recvMtu.toNat)
      { s with log := s.log ++ call?.toList.map (.received id data) }

/-! ### Reading what was written -/

theorem frame_length (remoteAddr : BAddr) (data : List UInt8) :
    (frame remoteAddr data).length = data.length + remoteAddr.headerLen := by
  cases remoteAddr with
  | ipv4 ip port =>
    simp only [frame, BAddr.bytes, bytes32, bytes16, BAddr.headerLen, List.length_append,
      List.length_cons, List.length_nil]
    omega
  | ipv6 ip port =>
    simp only [frame, BAddr.bytes, bytes16, BAddr.headerLen, List.length_append, List.length_cons,
      List.length_nil, ip.2]
    omega

/-- **`udpgw_mtu` is large enough** for every packet that is submitted. -/
theorem frame_length_le_udpgwComputeMtu {udpMtu : Int} {remoteAddr : BAddr} {data : List UInt8}
    (hint : udpgwComputeMtu udpMtu ≠ -1) (hlen : (data.length : Int) ≤ udpMtu) :
    ((frame remoteAddr data).length : Int) ≤ udpgwComputeMtu udpMtu := by
  have hhead : remoteAddr.headerLen ≤ 22 := by
    cases remoteAddr <;> simp [BAddr.headerLen]
  rw [frame_length]
  unfold udpgwComputeMtu at hint ⊢
  split
  · omega
  · rename_i hno
    rw [if_neg hno] at hint
    exact absurd rfl hint

theorem readAddr_bytes (remoteAddr : BAddr) (data : List UInt8) :
    readAddr remoteAddr.atyp (remoteAddr.bytes ++ data) = some (remoteAddr, data) := by
  cases remoteAddr with
  | ipv4 ip port =>
    have hatyp : (BAddr.ipv4 ip port).atyp ≠ socksAtypIpv6 := by
      show socksAtypIpv4 ≠ socksAtypIpv6
      decide
    unfold readAddr
    rw [if_neg hatyp]
    simp only [BAddr.bytes, bytes32, bytes16, List.cons_append, List.nil_append, be32_bytes32,
      be16_bytes16]
  | ipv6 ip port =>
    have hlen : 16 ≤ (ip.1 ++ bytes16 port ++ data).length := by
      simp only [List.length_append, ip.2]
      omega
    have hdrop : (ip.1 ++ bytes16 port ++ data).drop 16 = bytes16 port ++ data := by
      rw [List.append_assoc, List.drop_left' ip.2]
    have htake : (ip.1 ++ bytes16 port ++ data).take 16 = ip.1 := by
      rw [List.append_assoc, List.take_left' ip.2]
    show readAddr socksAtypIpv6 (ip.1 ++ bytes16 port ++ data) = _
    unfold readAddr
    rw [if_pos rfl, dif_pos hlen]
    simp only [hdrop, htake]
    simp only [bytes16, List.cons_append, List.nil_append, be16_bytes16]

/-- What is behind the address does not change how it is read. -/
theorem readAddr_append {atyp : UInt8} {data rest more : List UInt8} {addr : BAddr}
    (h : readAddr atyp data = some (addr, rest)) :
    readAddr atyp (data ++ more) = some (addr, rest ++ more) := by
  unfold readAddr at h ⊢
  split at h
  · rename_i hatyp
    rw [if_pos hatyp]
    split at h
    · rename_i hlen
      have hlen' : 16 ≤ (data ++ more).length := by
        rw [List.length_append]
        omega
      have htake : (data ++ more).take 16 = data.take 16 := List.take_append_of_le_length hlen
      rw [dif_pos hlen']
      split at h
      · rename_i p0 p1 tail hdrop
        have hdrop' : (data ++ more).drop 16 = p0 :: p1 :: (tail ++ more) := by
          rw [List.drop_append_of_le_length hlen, hdrop]
          rfl
        obtain ⟨rfl, rfl⟩ := Prod.mk.inj (Option.some.inj h)
        simp only [hdrop', htake]
      · exact absurd h (by simp)
    · exact absurd h (by simp)
  · rename_i hatyp
    rw [if_neg hatyp]
    split at h
    · obtain ⟨rfl, rfl⟩ := Prod.mk.inj (Option.some.inj h)
      rfl
    · exact absurd h (by simp)

theorem parse_append {data rest more : List UInt8} {addr : BAddr}
    (h : parse data = some (addr, rest)) : parse (data ++ more) = some (addr, rest ++ more) := by
  unfold parse at h
  split at h
  · split at h
    · exact absurd h (by simp)
    · rename_i hfrag
      simp only [List.cons_append, parse, if_neg hfrag]
      exact readAddr_append h
  · exact absurd h (by simp)

/-- A SOCKS5 UDP datagram that names the address: any reserved bytes, fragment
number 0, the address, a payload. -/
def Names (datagram : List UInt8) (remoteAddr : BAddr) : Prop :=
  ∃ rsv rsv' payload, datagram = [rsv, rsv', 0, remoteAddr.atyp] ++ remoteAddr.bytes ++ payload

theorem names_frame (remoteAddr : BAddr) (data : List UInt8) :
    Names (frame remoteAddr data) remoteAddr :=
  ⟨0, 0, data, rfl⟩

/-- **Framing can be read back**, whatever the reserved bytes are. -/
theorem parse_named (rsv rsv' : UInt8) (remoteAddr : BAddr) (payload : List UInt8) :
    parse ([rsv, rsv', 0, remoteAddr.atyp] ++ remoteAddr.bytes ++ payload) =
      some (remoteAddr, payload) := by
  show (if (0 : UInt8) ≠ 0 then none else readAddr _ (remoteAddr.bytes ++ payload)) = _
  rw [if_neg (by simp), readAddr_bytes]

/-- A datagram that was cut still names its address, if it names one. -/
theorem parse_take {datagram payload : List UInt8} {remoteAddr addr : BAddr} {n : Nat}
    (h : Names datagram remoteAddr) (hp : parse (datagram.take n) = some (addr, payload)) :
    addr = remoteAddr := by
  obtain ⟨rsv, rsv', payload', hwhole⟩ := h
  have hcut : parse (datagram.take n ++ datagram.drop n) =
      some (addr, payload ++ datagram.drop n) :=
    parse_append hp
  rw [List.take_append_drop, hwhole, parse_named] at hcut
  exact (Prod.mk.inj (Option.some.inj hcut)).1.symm

/-- **What a connection sends, as a connection receives it.**  The bytes are
handed over once, with the local address of the receiver, if both have the same
remote address; they are not handed over if they differ, in the address or in
its type. -/
theorem received_of_send {udpMtu : Int} {sender receiver : Connection} {outHave : Bool}
    {data bytes : List UInt8} (hsend : connectionSend sender outHave data = some bytes)
    (hlen : (data.length : Int) ≤ udpMtu) :
    dgramHandlerReceived udpMtu receiver bytes =
      if receiver.conaddr.remoteAddr = sender.conaddr.remoteAddr then
        some ⟨receiver.conaddr.localAddr, sender.conaddr.remoteAddr, data⟩
      else none := by
  have hbytes : bytes = frame sender.conaddr.remoteAddr data := by
    unfold connectionSend at hsend
    split at hsend
    · exact absurd hsend (by simp)
    · exact (Option.some.inj hsend).symm
  have hparse : parse bytes = some (sender.conaddr.remoteAddr, data) := by
    rw [hbytes]
    exact parse_named 0 0 _ _
  unfold dgramHandlerReceived
  rw [hparse]
  by_cases hsame : receiver.conaddr.remoteAddr = sender.conaddr.remoteAddr
  · have hfits : ¬ (data.length : Int) > udpMtu := by omega
    simp only [hsame, ne_eq, not_true_eq_false, if_false, if_neg hfits, if_true]
  · simp only [ne_eq, Ne.symm hsame, not_false_eq_true, if_true, if_neg hsame]

/-- The same payload for an IPv6 address: a connection to it receives the two
bytes, and one to the IPv4 address with the same first bytes does not. -/
theorem received_of_send_ipv6 :
    let remote : BAddr := .ipv6 ⟨List.replicate 16 1, rfl⟩ 53
    let sender : Connection := ⟨⟨.ipv4 0x0A000001 4000, remote⟩, 1500, 1500⟩
    let other : Connection := ⟨⟨.ipv4 0x0A000001 4000, .ipv4 0x01010101 0x0101⟩, 1500, 1500⟩
    dgramHandlerReceived 1500 sender (frame remote [7, 8]) =
        some ⟨.ipv4 0x0A000001 4000, remote, [7, 8]⟩ ∧
      dgramHandlerReceived 1500 other (frame remote [7, 8]) = none := by
  have hmtu : (([7, 8] : List UInt8).length : Int) ≤ 1500 := by decide
  have hsend (o : Connection) :
      connectionSend o true [7, 8] = some (frame o.conaddr.remoteAddr [7, 8]) := rfl
  intro remote sender other
  exact ⟨received_of_send (hsend sender) hmtu, received_of_send (hsend sender) hmtu⟩

/-! ### One submission -/

/-- What a submission does to the client, and the connection it uses. -/
inductive Acquired (c : Client) (conaddr : Conaddr) : Client → Option Nat → Prop
  | found {id : Nat} : c.connectionsTree conaddr = some id →
      Acquired c conaddr (c.moveToEnd id) (some id)
  | reused {id : Nat} {con : Connection} : c.connectionsTree conaddr = none →
      c.numConnections = c.maxConnections → c.connectionsList.head? = some id →
      c.connection id = some con →
      Acquired c conaddr ((c.rebind id con conaddr).moveToEnd id) (some id)
  | opened : c.connectionsTree conaddr = none → c.numConnections ≠ c.maxConnections →
      Acquired c conaddr (c.insertConnection conaddr) (some c.fresh)
  | failed : c.connectionsTree conaddr = none → c.numConnections ≠ c.maxConnections →
      Acquired c conaddr c none

theorem acquire_cases {c c' : Client} {conaddr : Conaddr} {initOk : Bool} {id? : Option Nat}
    (h : c.acquire conaddr initOk = some (c', id?)) : Acquired c conaddr c' id? := by
  unfold Client.acquire at h
  cases hfind : c.findConnection conaddr with
  | some id =>
    simp only [hfind] at h
    obtain ⟨rfl, rfl⟩ := Prod.mk.inj (Option.some.inj h)
    exact .found hfind
  | none =>
    simp only [hfind] at h
    split at h
    · rename_i hfull
      unfold Client.reuseConnection at h
      cases hhead : c.connectionsList.head? with
      | none => simp [hhead] at h
      | some id =>
        cases hcon : c.connection id with
        | none => simp [hhead, hcon] at h
        | some con =>
          simp only [hhead, hcon, Option.map_some] at h
          obtain ⟨rfl, rfl⟩ := Prod.mk.inj (Option.some.inj h)
          exact .reused hfind hfull hhead hcon
    · rename_i hroom
      cases initOk with
      | false =>
        obtain ⟨rfl, rfl⟩ := Prod.mk.inj (Option.some.inj h)
        exact .failed hfind hroom
      | true =>
        obtain ⟨rfl, rfl⟩ := Prod.mk.inj (Option.some.inj h)
        exact .opened hfind hroom

/-- **What a submission can do**: the client changes as in `Acquired`, and a
packet, if one is written, goes out on the connection used, with its address. -/
theorem submit_cases {c c' : Client} {conaddr : Conaddr} {data : List UInt8} {env : Env}
    {packet? : Option Outgoing} (h : c.submitPacket conaddr data env = some (c', packet?)) :
    ∃ id?, Acquired c conaddr c' id? ∧ ∀ packet, packet? = some packet →
      ∃ id con, id? = some id ∧ c'.connection id = some con ∧
        packet = ⟨id, conaddr, frame con.conaddr.remoteAddr data⟩ := by
  unfold Client.submitPacket at h
  obtain ⟨⟨c'', id?⟩, hacq, heq⟩ := Option.map_eq_some_iff.mp h
  obtain ⟨rfl, rfl⟩ := Prod.mk.inj heq
  refine ⟨id?, acquire_cases hacq, fun packet hpacket => ?_⟩
  obtain ⟨id, hid, hpacket⟩ := Option.bind_eq_some_iff.mp hpacket
  obtain ⟨con, hcon, hpacket⟩ := Option.bind_eq_some_iff.mp hpacket
  obtain ⟨bytes, hbytes, hpacket⟩ := Option.bind_eq_some_iff.mp hpacket
  unfold connectionSend at hbytes
  split at hbytes
  · exact absurd hbytes (by simp)
  · rw [← Option.some.inj hbytes] at hpacket
    exact ⟨id, con, hid, hcon, (Option.some.inj hpacket).symm⟩

/-! ### The connections -/

/-- **The tree points to the connections it names**, and all of them got the MTU
of the client. -/
structure Linked (c : Client) : Prop where
  tree : ∀ conaddr id, c.connectionsTree conaddr = some id →
    ∃ con, c.connection id = some con ∧ con.conaddr = conaddr
  fresh : ∀ id, c.fresh ≤ id → c.connection id = none
  mtu : ∀ id con, c.connection id = some con → con.writerMtu = c.udpMtu ∧ con.recvMtu = c.udpMtu

theorem linked_init (udpMtu maxConnections : Int) : Linked (Client.init udpMtu maxConnections) where
  tree := by
    intro conaddr id h
    exact absurd h (by simp [Client.init])
  fresh := fun _ _ => rfl
  mtu := by
    intro id con h
    exact absurd h (by simp [Client.init])

/-- The order of the list plays no part in it. -/
theorem Linked.moveToEnd {c : Client} (h : Linked c) (id : Nat) : Linked (c.moveToEnd id) :=
  ⟨h.tree, h.fresh, h.mtu⟩

section Linked

variable {c c' : Client} {conaddr : Conaddr} {id : Nat} {con : Connection}

theorem Linked.rebind (h : Linked c) (hcon : c.connection id = some con) :
    Linked (c.rebind id con conaddr) where
  tree := by
    intro conaddr' id' htree
    simp only [Client.rebind] at htree ⊢
    by_cases hnew : conaddr' = conaddr
    · subst hnew
      rw [Function.update_self, Option.some_inj] at htree
      subst htree
      exact ⟨_, Function.update_self _ _ _, rfl⟩
    · rw [Function.update_of_ne hnew] at htree
      by_cases hold : conaddr' = con.conaddr
      · rw [hold, Function.update_self] at htree
        exact absurd htree (by simp)
      · rw [Function.update_of_ne hold] at htree
        obtain ⟨con', hcon', rfl⟩ := h.tree conaddr' id' htree
        -- the connection that was moved had its only entry under the old pair
        have hid : id' ≠ id := by
          rintro rfl
          rw [hcon, Option.some_inj] at hcon'
          exact hold (congrArg Connection.conaddr hcon'.symm)
        exact ⟨con', by rw [Function.update_of_ne hid, hcon'], rfl⟩
  fresh := by
    intro id' hle
    have hid : id' ≠ id := by
      rintro rfl
      exact absurd (h.fresh _ hle) (by simp [hcon])
    show Function.update c.connection id _ id' = none
    rw [Function.update_of_ne hid]
    exact h.fresh id' hle
  mtu := by
    intro id' con' hcon'
    simp only [Client.rebind] at hcon' ⊢
    by_cases hid : id' = id
    · subst hid
      rw [Function.update_self, Option.some_inj] at hcon'
      rw [← hcon']
      exact h.mtu _ con hcon
    · rw [Function.update_of_ne hid] at hcon'
      exact h.mtu id' con' hcon'

theorem Linked.insertConnection (h : Linked c) : Linked (c.insertConnection conaddr) where
  tree := by
    intro conaddr' id' htree
    simp only [Client.insertConnection] at htree ⊢
    by_cases hnew : conaddr' = conaddr
    · subst hnew
      rw [Function.update_self, Option.some_inj] at htree
      subst htree
      exact ⟨_, Function.update_self _ _ _, rfl⟩
    · rw [Function.update_of_ne hnew] at htree
      obtain ⟨con', hcon', haddr⟩ := h.tree conaddr' id' htree
      have hid : id' ≠ c.fresh := by
        rintro rfl
        exact absurd (h.fresh _ (Nat.le_refl _)) (by simp [hcon'])
      exact ⟨con', by rw [Function.update_of_ne hid, hcon'], haddr⟩
  fresh := by
    intro id' hle
    have hlt : c.fresh + 1 ≤ id' := hle
    have hid : id' ≠ c.fresh := by omega
    show Function.update c.connection c.fresh _ id' = none
    rw [Function.update_of_ne hid]
    exact h.fresh id' (by omega)
  mtu := by
    intro id' con' hcon'
    simp only [Client.insertConnection] at hcon' ⊢
    by_cases hid : id' = c.fresh
    · subst hid
      rw [Function.update_self, Option.some_inj] at hcon'
      rw [← hcon']
      exact ⟨rfl, rfl⟩
    · rw [Function.update_of_ne hid] at hcon'
      exact h.mtu id' con' hcon'

theorem Acquired.linked {id? : Option Nat} (h : Acquired c conaddr c' id?) (hl : Linked c) :
    Linked c' := by
  cases h with
  | found _ => exact hl.moveToEnd _
  | reused _ _ _ hcon => exact (hl.rebind hcon).moveToEnd _
  | opened _ _ => exact hl.insertConnection
  | failed _ _ => exact hl

/-- The connection that is used is bound to the pair. -/
theorem Acquired.bound (h : Acquired c conaddr c' (some id)) (hl : Linked c) :
    ∃ con, c'.connection id = some con ∧ con.conaddr = conaddr := by
  cases h with
  | found htree => exact hl.tree conaddr id htree
  | reused _ _ _ _ => exact ⟨_, Function.update_self _ _ _, rfl⟩
  | opened _ _ => exact ⟨_, Function.update_self _ _ _, rfl⟩

theorem Acquired.udpMtu {id? : Option Nat} (h : Acquired c conaddr c' id?) :
    c'.udpMtu = c.udpMtu := by
  cases h <;> rfl

end Linked

/-! ### One step -/

section Step

variable {s s' : System}

theorem step_submit {conaddr : Conaddr} {data : List UInt8} {env : Env}
    (h : step s (.submit conaddr data env) = some s') :
    ∃ packet?, s.client.submitPacket conaddr data env = some (s'.client, packet?) ∧
      s'.log = s.log ++ packet?.toList.map .sent := by
  obtain ⟨⟨c, packet?⟩, hsubmit, rfl⟩ := Option.map_eq_some_iff.mp h
  exact ⟨packet?, hsubmit, rfl⟩

theorem step_datagram {id : Nat} {data : List UInt8} (h : step s (.datagram id data) = some s') :
    ∃ o, s.client.connection id = some o ∧ s'.client = s.client ∧
      s'.log = s.log ++ (dgramHandlerReceived s.client.udpMtu o
        (data.take o.recvMtu.toNat)).toList.map (.received id data) := by
  obtain ⟨o, ho, rfl⟩ := Option.map_eq_some_iff.mp h
  exact ⟨o, ho, rfl, rfl⟩

theorem linked_step {a : Action} (h : step s a = some s') (hl : Linked s.client) :
    Linked s'.client ∧ s'.client.udpMtu = s.client.udpMtu := by
  cases a with
  | submit conaddr data env =>
    obtain ⟨packet?, hsubmit, -⟩ := step_submit h
    obtain ⟨id?, hacq, -⟩ := submit_cases hsubmit
    exact ⟨hacq.linked hl, hacq.udpMtu⟩
  | datagram id data =>
    obtain ⟨o, -, hclient, -⟩ := step_datagram h
    rw [hclient]
    exact ⟨hl, rfl⟩

theorem linked_of_reach {udpMtu maxConnections : Int} {ok : System → Action → Prop}
    (h : Reach step ok (System.init udpMtu maxConnections) s) :
    Linked s.client ∧ s.client.udpMtu = udpMtu := by
  refine h.invariant (I := fun s => Linked s.client ∧ s.client.udpMtu = udpMtu) ?_ ?_
  · exact ⟨linked_init udpMtu maxConnections, rfl⟩
  · rintro s a s' ⟨hl, hmtu⟩ - hs
    obtain ⟨hl', hmtu'⟩ := linked_step hs hl
    exact ⟨hl', hmtu'.trans hmtu⟩

end Step

/-! ### Packet sizes -/

/-- **A packet fits into its buffer** exactly if the payload leaves room for the
header within `udp_mtu`. -/
theorem send_fits_iff {udpMtu maxConnections : Int} {s : System} {conaddr : Conaddr}
    {data : List UInt8} {env : Env} {c : Client} {packet : Outgoing}
    (h : Reach step anyStep (System.init udpMtu maxConnections) s)
    (hs : s.client.submitPacket conaddr data env = some (c, some packet)) :
    ∃ con, c.connection packet.con = some con ∧
      ((packet.bytes.length : Int) ≤ con.writerMtu ↔
        (data.length : Int) + conaddr.remoteAddr.headerLen ≤ udpMtu) := by
  obtain ⟨hl, hmtu⟩ := linked_of_reach h
  obtain ⟨id?, hacq, hpacket⟩ := submit_cases hs
  obtain ⟨id, con, rfl, hcon, rfl⟩ := hpacket packet rfl
  obtain ⟨con', hcon', haddr⟩ := hacq.bound hl
  rw [hcon, Option.some_inj] at hcon'
  subst hcon'
  refine ⟨con, hcon, ?_⟩
  show ((frame con.conaddr.remoteAddr data).length : Int) ≤ con.writerMtu ↔ _
  rw [frame_length, haddr, ((hacq.linked hl).mtu id con hcon).1, hacq.udpMtu, hmtu]
  omega

/-- From `10.0.0.1:4000` to `1.1.1.1:53`. -/
def samplePair : Conaddr := ⟨.ipv4 0x0A000001 4000, .ipv4 0x01010101 53⟩

/-- With the default MTU of 1500 there is room for 1462 bytes to an IPv4 address. -/
theorem send_fits_sample :
    ∃ c packet con, (Client.init 1472 256).submitPacket samplePair (List.replicate 1462 0)
        ⟨true, true⟩ = some (c, some packet) ∧
      c.connection packet.con = some con ∧ (packet.bytes.length : Int) ≤ con.writerMtu := by
  have hreach : Reach step anyStep (System.init 1472 256) (System.init 1472 256) := .refl
  have hs : (Client.init 1472 256).submitPacket samplePair (List.replicate 1462 0) ⟨true, true⟩ =
      some ((Client.init 1472 256).insertConnection samplePair,
        some ⟨0, samplePair, frame samplePair.remoteAddr (List.replicate 1462 0)⟩) := rfl
  obtain ⟨con, hcon, hiff⟩ := send_fits_iff hreach hs
  refine ⟨_, _, con, hs, hcon, hiff.mpr ?_⟩
  rw [List.length_replicate]
  decide

/-- **One byte more is written past the buffer.** -/
theorem send_overflows :
    ∃ c packet con, (Client.init 1472 256).submitPacket samplePair (List.replicate 1463 0)
        ⟨true, true⟩ = some (c, some packet) ∧ (List.replicate 1463 (0 : UInt8)).length ≤ 1472 ∧
      c.connection packet.con = some con ∧ con.writerMtu < packet.bytes.length := by
  refine ⟨(Client.init 1472 256).insertConnection samplePair,
    ⟨0, samplePair, frame samplePair.remoteAddr (List.replicate 1463 0)⟩,
    ⟨samplePair, 1472, 1472⟩, rfl, ?_, rfl, ?_⟩
  · rw [List.length_replicate]
    decide
  · show (1472 : Int) < ((frame samplePair.remoteAddr (List.replicate 1463 0)).length : Nat)
    rw [frame_length, List.length_replicate]
    decide

/-! ### Answers that are cut -/

/-- The SOCKS5 UDP datagram with which the server passes on an answer. -/
def answer (rsv rsv' : UInt8) (remoteAddr : BAddr) (payload : List UInt8) : List UInt8 :=
  [rsv, rsv', 0, remoteAddr.atyp] ++ remoteAddr.bytes ++ payload

section Answers

variable {udpMtu : Int} {o : Connection} {rsv rsv' : UInt8} {remoteAddr : BAddr}
  {payload : List UInt8} {n : Nat}

theorem length_answer (rsv rsv' : UInt8) (remoteAddr : BAddr) (payload : List UInt8) :
    (answer rsv rsv' remoteAddr payload).length = remoteAddr.headerLen + payload.length := by
  have hframe := frame_length remoteAddr payload
  simp only [frame, answer, List.length_append, List.length_cons, List.length_nil] at hframe ⊢
  omega

/-- A datagram that was cut within its header is dropped. -/
theorem parse_cut_header (h : n < remoteAddr.headerLen) :
    parse ((answer rsv rsv' remoteAddr payload).take n) = none := by
  have hwhole : parse (answer rsv rsv' remoteAddr payload) = some (remoteAddr, payload) :=
    parse_named rsv rsv' remoteAddr payload
  cases hcut : parse ((answer rsv rsv' remoteAddr payload).take n) with
  | none => rfl
  | some res =>
    -- what is behind the cut would be part of the payload
    have hmore := @parse_append _ _ ((answer rsv rsv' remoteAddr payload).drop n) _ hcut
    rw [List.take_append_drop, hwhole, Option.some_inj] at hmore
    have hlen := congrArg List.length (Prod.mk.inj hmore).2
    rw [List.length_append, List.length_drop, length_answer] at hlen
    omega

/-- One that was cut behind its header keeps the front of its payload. -/
theorem parse_cut_payload (h : remoteAddr.headerLen ≤ n) :
    parse ((answer rsv rsv' remoteAddr payload).take n) =
      some (remoteAddr, payload.take (n - remoteAddr.headerLen)) := by
  have hhead : ([rsv, rsv', 0, remoteAddr.atyp] ++ remoteAddr.bytes).length =
      remoteAddr.headerLen := by
    have hempty := length_answer rsv rsv' remoteAddr []
    rw [answer, List.append_nil, List.length_nil, Nat.add_zero] at hempty
    exact hempty
  rw [answer, List.take_append, hhead, List.take_of_length_le (by omega)]
  exact parse_named rsv rsv' remoteAddr _

/-- What `handler_received` is called with, for an answer of at most `udp_mtu` bytes. -/
theorem received_answer (rsv rsv' : UInt8) (hrecv : o.recvMtu = udpMtu)
    (hremote : o.conaddr.remoteAddr = remoteAddr) (hlen : (payload.length : Int) ≤ udpMtu) :
    dgramHandlerReceived udpMtu o ((answer rsv rsv' remoteAddr payload).take o.recvMtu.toNat) =
      if udpMtu < remoteAddr.headerLen then none
      else some ⟨o.conaddr.localAddr, remoteAddr,
        payload.take (udpMtu.toNat - remoteAddr.headerLen)⟩ := by
  rw [hrecv]
  split
  · rw [dgramHandlerReceived, parse_cut_header (by omega)]
  · have hfront : ¬ (((payload.take (udpMtu.toNat - remoteAddr.headerLen)).length : Int) >
        udpMtu) := by
      rw [List.length_take]
      omega
    rw [dgramHandlerReceived, parse_cut_payload (by omega)]
    simp only [hremote, ne_eq, not_true_eq_false, if_false, if_neg hfront]

end Answers

/-- **An answer is handed over whole or not at all** exactly if it fits into `udp_mtu` with its
header, or not even the header does. -/
theorem answer_whole_iff {udpMtu maxConnections : Int} {s : System} {id : Nat} {o : Connection}
    (rsv rsv' : UInt8) {payload : List UInt8}
    (h : Reach step anyStep (System.init udpMtu maxConnections) s)
    (ho : s.client.connection id = some o) (hlen : (payload.length : Int) ≤ udpMtu) :
    (∀ call, dgramHandlerReceived s.client.udpMtu o
        ((answer rsv rsv' o.conaddr.remoteAddr payload).take o.recvMtu.toNat) = some call →
      call.data = payload) ↔
      (payload.length : Int) + o.conaddr.remoteAddr.headerLen ≤ udpMtu ∨
        udpMtu < o.conaddr.remoteAddr.headerLen := by
  obtain ⟨hl, hmtu⟩ := linked_of_reach h
  have hrecv : o.recvMtu = udpMtu := ((hl.mtu id o ho).2).trans hmtu
  rw [hmtu, received_answer rsv rsv' hrecv rfl hlen]
  by_cases hshort : udpMtu < o.conaddr.remoteAddr.headerLen
  · rw [if_pos hshort]
    exact ⟨fun _ => .inr hshort, fun _ call hcall => absurd hcall (by simp)⟩
  · rw [if_neg hshort]
    constructor
    · intro hwhole
      have hlength := congrArg List.length (hwhole _ rfl)
      rw [List.length_take] at hlength
      left
      omega
    · intro hfits call hcall
      rw [← Option.some.inj hcall]
      exact List.take_of_length_le (by omega)

/-- The client of `samplePair`, with its connection. -/
theorem reach_samplePair (udpMtu : Int) :
    ∃ s, Reach step anyStep (System.init udpMtu 256) s ∧
      s.client.connection 0 = some ⟨samplePair, udpMtu, udpMtu⟩ := by
  have hs : step (System.init udpMtu 256) (.submit samplePair [1] ⟨true, true⟩) =
      some ⟨(Client.init udpMtu 256).insertConnection samplePair,
        [.sent ⟨0, samplePair, frame samplePair.remoteAddr [1]⟩]⟩ := rfl
  exact ⟨_, Reach.refl.tail trivial hs, rfl⟩

/-- With the default MTU an answer of 1462 bytes is handed over whole. -/
theorem answer_whole_sample :
    ∃ s o, Reach step anyStep (System.init 1472 256) s ∧ s.client.connection 0 = some o ∧
      ∀ call, dgramHandlerReceived s.client.udpMtu o
          ((answer 0 0 o.conaddr.remoteAddr (List.replicate 1462 7)).take o.recvMtu.toNat) =
        some call → call.data = List.replicate 1462 7 := by
  obtain ⟨s, hreach, ho⟩ := reach_samplePair 1472
  refine ⟨s, _, hreach, ho, (answer_whole_iff 0 0 hreach ho ?_).mpr (.inl ?_)⟩
  · rw [List.length_replicate]
    decide
  · rw [List.length_replicate]
    decide

/-- **One byte more is lost**, and the rest is handed over. -/
theorem answer_cut :
    ∃ s o call, Reach step anyStep (System.init 1472 256) s ∧ s.client.connection 0 = some o ∧
      dgramHandlerReceived s.client.udpMtu o
          ((answer 0 0 o.conaddr.remoteAddr (List.replicate 1463 7)).take o.recvMtu.toNat) =
        some call ∧
      (List.replicate 1463 (7 : UInt8)).length ≤ 1472 ∧ call.data = List.replicate 1462 7 := by
  obtain ⟨s, hreach, ho⟩ := reach_samplePair 1472
  have hmtu : s.client.udpMtu = 1472 := (linked_of_reach hreach).2
  have hcall : ∀ payload : List UInt8, (payload.length : Int) ≤ 1472 →
      dgramHandlerReceived 1472 ⟨samplePair, 1472, 1472⟩
        ((answer 0 0 samplePair.remoteAddr payload).take (1472 : Int).toNat) =
      some ⟨samplePair.localAddr, samplePair.remoteAddr, payload.take 1462⟩ := by
    intro payload hlen
    have hcut := received_answer (o := ⟨samplePair, 1472, 1472⟩) 0 0 rfl rfl hlen
    exact hcut.trans (if_neg (by decide))
  refine ⟨s, ⟨samplePair, 1472, 1472⟩, ⟨samplePair.localAddr, samplePair.remoteAddr,
    (List.replicate 1463 7).take 1462⟩, hreach, ho, ?_, ?_, ?_⟩
  · rw [hmtu]
    refine hcall _ ?_
    rw [List.length_replicate]
    decide
  · rw [List.length_replicate]
    decide
  · show (List.replicate 1463 7).take 1462 = _
    rw [List.take_replicate]
    exact congrArg (List.replicate · 7) (by decide : min 1462 1463 = 1462)

end UdpRelay
