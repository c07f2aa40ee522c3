/-
The DNS redirection of `tun2socks`.

`processDeviceDnsPacket` sends queries to port 53 on to the gateway `dnsgw` and
rewrites the answers so that they seem to come from the server that was asked.
Who asked whom is kept in a table with one entry per client port: the address
pair of the query that opened the entry, and a count.

* `process_cases` — all that a packet can do to the table;
* `Accounts` — the table against the history of forwarded packets;
* `table_accounted` — what follows for the entries and their counts;
* `reply_isolated` — a reply is built from a packet from the gateway's port, for
  a pair that did ask, and from that query on fewer replies went to the port
  than queries came from it;
* `reply_not_isolated` — more is not checked: neither the address the answer
  comes from, nor which of several servers asked from one port it is from.
-/
import Mathlib.Logic.Function.Basic
import Mathlib.Tactic.Common
import ReShadowsocks.Packet
import ReShadowsocks.Transition

namespace DnsNat

open Packet Transition

/-- An IPv4 `BAddr`. -/
structure Addr where
  ip : UInt32
  port : UInt16
  deriving DecidableEq, Repr

structure Connection where
  localAddr : Addr
  remoteAddr : Addr
  port : UInt16
  count : Int
  deriving DecidableEq, Repr

/-- The AVL tree, as a map. -/
abbrev Table := UInt16 → Option Connection

def findConnection (table : Table) (port : UInt16) : Option Connection := table port

def removeConnection (table : Table) (con : Connection) : Table :=
  if con.count - 1 ≤ 0 then Function.update table con.port none
  else Function.update table con.port (some { con with count := con.count - 1 })

def insertConnection (table : Table) (localAddr remoteAddr : Addr) (port : UInt16) : Table :=
  match findConnection table port with
  | some con => Function.update table port (some { con with count := con.count + 1 })
  | none => Function.update table port (some ⟨localAddr, remoteAddr, port, 1⟩)

/-- The options that matter here. -/
structure Options where
  dnsgw : Option Addr
  netifIpaddr : UInt32
  deriving DecidableEq, Repr

/-- The static variables. -/
structure State where
  init : Bool
  table : Table

/-! ### Packets -/

/-- A UDP packet, taken apart. -/
structure Datagram where
  ip : Ipv4Header
  udp : UdpHeader
  payload : List UInt8
  deriving DecidableEq, Repr

namespace Datagram

def source (d : Datagram) : Addr := ⟨d.ip.sourceAddress, d.udp.sourcePort⟩

def dest (d : Datagram) : Addr := ⟨d.ip.destinationAddress, d.udp.destPort⟩

/-- As it is written to `device_write_buf`. -/
def bytes (d : Datagram) : List UInt8 := d.ip.bytes ++ d.udp.bytes ++ d.payload

/-- The checksum of the packet, computed with the field set to 0. -/
def checksum (d : Datagram) : UInt16 :=
  udpChecksum { d.udp with checksum := 0 } d.payload d.ip.sourceAddress d.ip.destinationAddress

/-- Update both checksums. -/
def updateChecksums (d : Datagram) : Datagram :=
  { d with
    ip.checksum := ipv4Checksum { d.ip with checksum := 0 } []
    udp.checksum := d.checksum }

end Datagram

/-- The packets that are looked at: IPv4, UDP, well formed, with the checksum
that the program computes itself. -/
def receive (data : List UInt8) : Option Datagram :=
  if (data.head?.getD 0).toNat / 2 ^ 4 ≠ 4 then none
  else if data.length < 20 ∨ data[9]? ≠ some ipv4ProtocolUdp then none
  else
    match ipv4Check data with
    | none => none
    | some (ip, rest) =>
      match udpCheck rest with
      | none => none
      | some (udp, payload) =>
        if udp.checksum ≠ Datagram.checksum ⟨ip, udp, payload⟩ then none
        else some ⟨ip, udp, payload⟩

/-- The branch that was taken. -/
inductive Path
  | query
  | reply
  deriving DecidableEq, Repr

/-- A packet that was processed: what came in, what went out. -/
structure Event where
  path : Path
  input : Datagram
  output : Datagram
  deriving DecidableEq, Repr

/-- `process_device_dns_packet`: `none` if it returns 0. -/
def processDeviceDnsPacket (options : Options) (s : State) (data : List UInt8) :
    Option (Event × State) :=
  match options.dnsgw with
  | none => none
  | some dnsgw =>
    match receive data with
    | none => none
    | some d =>
      -- to port 53 is considered a DNS packet
      if d.udp.destPort = 53 then
        let table := if s.init then s.table else fun _ => none
        let output : Datagram :=
          { d with
            ip.destinationAddress := dnsgw.ip
            ip.sourceAddress := options.netifIpaddr
            udp.destPort := dnsgw.port }
        some (⟨.query, d, output.updateChecksums⟩,
          ⟨true, insertConnection table d.source d.dest d.udp.sourcePort⟩)
      -- from the port of the gateway is considered a DNS packet
      else if d.udp.sourcePort = dnsgw.port then
        if !s.init then none
        else
          match findConnection s.table d.udp.destPort with
          | none => none
          | some con =>
            let output : Datagram :=
              { d with
                ip.sourceAddress := con.remoteAddr.ip
                ip.destinationAddress := con.localAddr.ip
                udp.sourcePort := con.remoteAddr.port }
            some (⟨.reply, d, output.updateChecksums⟩,
              { s with table := removeConnection s.table con })
      else none

/-! ### Runs -/

/-- The program with the history of the packets it has forwarded. -/
structure Run where
  state : State
  log : List Event

def Run.initial : Run := ⟨⟨false, fun _ => none⟩, []⟩

/-- One packet is read from the device. -/
def step (options : Options) (r : Run) (data : List UInt8) : Option Run :=
  match processDeviceDnsPacket options r.state data with
  | none => some r
  | some (e, s) => some ⟨s, r.log ++ [e]⟩

/-- Queries forwarded from a port. -/
def queriesFrom (port : UInt16) (log : List Event) : Nat :=
  log.countP fun e => e.path == .query && e.input.udp.sourcePort == port

/-- Replies forwarded to a port. -/
def repliesTo (port : UInt16) (log : List Event) : Nat :=
  log.countP fun e => e.path == .reply && e.output.udp.destPort == port

/-- Queries forwarded that `l` sent to `r`. -/
def queries (l r : Addr) (log : List Event) : Nat :=
  log.countP fun e => e.path == .query && e.input.source == l && e.input.dest == r

/-- Replies forwarded to `l` as coming from `r`. -/
def replies (l r : Addr) (log : List Event) : Nat :=
  log.countP fun e => e.path == .reply && e.output.dest == l && e.output.source == r

/-- The reply `e`, forwarded after `log`, comes from the gateway and answers an
outstanding query of its receiver to its sender. -/
def Isolated (dnsgw : Addr) (log : List Event) (e : Event) : Prop :=
  e.input.source = dnsgw ∧
    replies e.output.dest e.output.source log < queries e.output.dest e.output.source log

/-- The same, as far as ports tell: the reply comes from the gateway's port, its
receiver has sent its sender a query, and from that query on fewer replies went
to the receiver's port than queries came from it. -/
def PortIsolated (dnsgw : Addr) (log : List Event) (e : Event) : Prop :=
  e.input.source.port = dnsgw.port ∧
    ∃ before q after, log = before ++ q :: after ∧ q.path = .query ∧
      q.input.source = e.output.dest ∧ q.input.dest = e.output.source ∧
      repliesTo e.output.dest.port (q :: after) < queriesFrom e.output.dest.port (q :: after)

/-! ### One packet -/

/-- What a packet that is forwarded does. -/
inductive Processed (dnsgw : Addr) (s : State) : Event → State → Prop
  | query {d output : Datagram} : d.udp.destPort = 53 →
      Processed dnsgw s ⟨.query, d, output⟩
        ⟨true, insertConnection (if s.init then s.table else fun _ => none) d.source d.dest
          d.udp.sourcePort⟩
  | reply {d output : Datagram} {con : Connection} : d.udp.sourcePort = dnsgw.port →
      s.init = true → s.table d.udp.destPort = some con → output.source = con.remoteAddr →
      output.dest = ⟨con.localAddr.ip, d.udp.destPort⟩ →
      Processed dnsgw s ⟨.reply, d, output⟩ { s with table := removeConnection s.table con }

theorem process_cases {options : Options} {dnsgw : Addr} {s s' : State} {data : List UInt8}
    {e : Event} (hgw : options.dnsgw = some dnsgw)
    (h : processDeviceDnsPacket options s data = some (e, s')) : Processed dnsgw s e s' := by
  unfold processDeviceDnsPacket at h
  rw [hgw] at h
  cases hd : receive data with
  | none => simp [hd] at h
  | some d =>
    simp only [hd] at h
    split at h
    · rename_i hport
      obtain ⟨rfl, rfl⟩ := Prod.mk.inj (Option.some.inj h)
      exact .query hport
    · split at h
      · rename_i hsource
        split at h
        · exact absurd h (by simp)
        · rename_i hinit
          have hinit' : s.init = true := by simpa using hinit
          cases hcon : findConnection s.table d.udp.destPort with
          | none => simp [hcon] at h
          | some con =>
            simp only [hcon] at h
            obtain ⟨rfl, rfl⟩ := Prod.mk.inj (Option.some.inj h)
            exact .reply hsource hinit' hcon rfl rfl
      · exact absurd h (by simp)

/-- A packet is ignored, or it is forwarded and noted. -/
theorem step_cases {options : Options} {dnsgw : Addr} {r r' : Run} {data : List UInt8}
    (hgw : options.dnsgw = some dnsgw) (h : step options r data = some r') :
    r' = r ∨ ∃ e, Processed dnsgw r.state e r'.state ∧ r'.log = r.log ++ [e] := by
  unfold step at h
  cases hp : processDeviceDnsPacket options r.state data with
  | none =>
    simp only [hp] at h
    exact .inl (Option.some.inj h).symm
  | some res =>
    obtain ⟨e, s⟩ := res
    simp only [hp] at h
    rw [← Option.some.inj h]
    exact .inr ⟨e, process_cases hgw hp, rfl⟩

/-! ### The table -/

section Table

variable {table : Table} {l r : Addr} {port port' : UInt16} {con : Connection}

theorem insertConnection_other (h : port' ≠ port) :
    insertConnection table l r port port' = table port' := by
  unfold insertConnection
  cases findConnection table port with
  | none => exact Function.update_of_ne h _ _
  | some con => exact Function.update_of_ne h _ _

theorem insertConnection_none (h : table port = none) :
    insertConnection table l r port port = some ⟨l, r, port, 1⟩ := by
  rw [insertConnection, findConnection, h]
  exact Function.update_self _ _ _

theorem insertConnection_some (h : table port = some con) :
    insertConnection table l r port port = some { con with count := con.count + 1 } := by
  rw [insertConnection, findConnection, h]
  exact Function.update_self _ _ _

theorem removeConnection_other (h : port' ≠ con.port) :
    removeConnection table con port' = table port' := by
  rw [removeConnection]
  split <;> exact Function.update_of_ne h _ _

theorem removeConnection_self :
    removeConnection table con con.port =
      if con.count - 1 ≤ 0 then none else some { con with count := con.count - 1 } := by
  rw [removeConnection]
  split <;> exact Function.update_self _ _ _

end Table

/-! ### The table and the history -/

/-- The entry holds the pair of a query, sent when its port had none outstanding. -/
def Opened (log : List Event) (con : Connection) : Prop :=
  ∃ before q after, log = before ++ q :: after ∧ q.path = .query ∧
    q.input.source = con.localAddr ∧ q.input.dest = con.remoteAddr ∧
    queriesFrom con.localAddr.port before = repliesTo con.localAddr.port before

/-- The entry of a port, against the history.  It counts the replies that are
still due. -/
def Account (log : List Event) (port : UInt16) : Option Connection → Prop
  | none => queriesFrom port log = repliesTo port log
  | some con => con.port = port ∧ con.localAddr.port = port ∧ Opened log con ∧ 1 ≤ con.count ∧
      (queriesFrom port log : Int) = repliesTo port log + con.count

/-- **The table is an account of the history.** -/
structure Accounts (s : State) (log : List Event) : Prop where
  empty : s.init = false → ∀ port, s.table port = none
  account : ∀ port, Account log port (s.table port)

section Log

variable {log : List Event} {d output : Datagram} {port : UInt16}

theorem queriesFrom_query : queriesFrom port (log ++ [⟨.query, d, output⟩]) =
    queriesFrom port log + if d.udp.sourcePort = port then 1 else 0 := by
  simp [queriesFrom, List.countP_append, List.countP_cons]

theorem repliesTo_query :
    repliesTo port (log ++ [⟨.query, d, output⟩]) = repliesTo port log := by
  simp [repliesTo, List.countP_append]

theorem queriesFrom_reply :
    queriesFrom port (log ++ [⟨.reply, d, output⟩]) = queriesFrom port log := by
  simp [queriesFrom, List.countP_append]

theorem repliesTo_reply : repliesTo port (log ++ [⟨.reply, d, output⟩]) =
    repliesTo port log + if output.udp.destPort = port then 1 else 0 := by
  simp [repliesTo, List.countP_append, List.countP_cons]

theorem Opened.append {con : Connection} (h : Opened log con) (e : Event) :
    Opened (log ++ [e]) con := by
  obtain ⟨before, q, after, rfl, hq⟩ := h
  exact ⟨before, q, after ++ [e], by simp, hq⟩

/-- A packet that concerns another port leaves the account of this one alone. -/
theorem Account.other {e : Event} {entry : Option Connection} (h : Account log port entry)
    (hq : queriesFrom port (log ++ [e]) = queriesFrom port log)
    (hr : repliesTo port (log ++ [e]) = repliesTo port log) : Account (log ++ [e]) port entry := by
  cases entry with
  | none =>
    rw [Account, hq, hr]
    exact h
  | some con =>
    obtain ⟨hkey, hport, hopened, hpos, hdue⟩ := h
    refine ⟨hkey, hport, hopened.append e, hpos, ?_⟩
    rw [hq, hr]
    exact hdue

/-- A query opens an entry, or counts up the one of its port. -/
theorem account_query {table : Table} (h : ∀ port, Account log port (table port)) (port : UInt16) :
    Account (log ++ [⟨.query, d, output⟩]) port
      (insertConnection table d.source d.dest d.udp.sourcePort port) := by
  have hold := h port
  by_cases hp : port = d.udp.sourcePort
  · subst hp
    have hq := @queriesFrom_query log d output d.udp.sourcePort
    rw [if_pos rfl] at hq
    cases hcon : table d.udp.sourcePort with
    | none =>
      rw [hcon] at hold
      rw [insertConnection_none hcon]
      refine ⟨rfl, rfl, ⟨log, ⟨.query, d, output⟩, [], rfl, rfl, rfl, rfl, hold⟩, Int.le_refl 1, ?_⟩
      · rw [hq, repliesTo_query, show queriesFrom _ log = repliesTo _ log from hold]
        rfl
    | some con =>
      rw [hcon] at hold
      rw [insertConnection_some hcon]
      obtain ⟨hkey, hport, hopened, hpos, hdue⟩ := hold
      refine ⟨hkey, hport, hopened.append _, ?_, ?_⟩
      · show 1 ≤ con.count + 1
        omega
      · rw [hq, repliesTo_query]
        show _ = _ + (con.count + 1)
        omega
  · rw [insertConnection_other hp]
    refine hold.other ?_ repliesTo_query
    rw [queriesFrom_query, if_neg (Ne.symm hp)]
    rfl

/-- A reply counts down the entry of its port, and may close it. -/
theorem account_reply {table : Table} {con : Connection} (h : ∀ port, Account log port (table port))
    (hcon : table d.udp.destPort = some con)
    (hdest : output.dest = ⟨con.localAddr.ip, d.udp.destPort⟩) (port : UInt16) :
    Account (log ++ [⟨.reply, d, output⟩]) port (removeConnection table con port) := by
  have hself := h d.udp.destPort
  rw [hcon] at hself
  obtain ⟨hkey, hport, hopened, hpos, hdue⟩ := hself
  have hout : output.udp.destPort = con.port := (congrArg Addr.port hdest).trans hkey.symm
  have hr := @repliesTo_reply log d output port
  rw [hout] at hr
  by_cases hp : port = con.port
  · subst hp
    rw [if_pos rfl] at hr
    rw [← hkey] at hdue hport
    rw [removeConnection_self]
    split
    · show queriesFrom _ _ = repliesTo _ _
      rw [queriesFrom_reply, hr]
      omega
    · refine ⟨rfl, hport, hopened.append _, ?_, ?_⟩
      · show 1 ≤ con.count - 1
        omega
      · rw [queriesFrom_reply, hr]
        show _ = _ + (con.count - 1)
        omega
  · rw [removeConnection_other hp]
    refine (h port).other queriesFrom_reply ?_
    rw [hr, if_neg (Ne.symm hp)]
    rfl

end Log

/-! ### Runs -/

/-- **Step.**  Every packet keeps the account. -/
theorem accounts_step {options : Options} {dnsgw : Addr} {r r' : Run} {data : List UInt8}
    (hgw : options.dnsgw = some dnsgw) (h : Accounts r.state r.log)
    (hs : step options r data = some r') : Accounts r'.state r'.log := by
  rcases step_cases hgw hs with rfl | ⟨e, hp, hlog⟩
  · exact h
  · rw [hlog]
    generalize r'.state = s' at hp
    cases hp with
    | query _ =>
      have htable : (if r.state.init then r.state.table else fun _ => none) = r.state.table := by
        cases hinit : r.state.init with
        | true => rfl
        | false =>
          funext port
          exact (h.empty hinit port).symm
      rw [htable]
      exact ⟨fun hno => absurd hno (by simp), account_query h.account⟩
    | reply _ hinit hcon _ hdest =>
      exact ⟨fun hno => absurd hno (by simp [hinit]), account_reply h.account hcon hdest⟩

theorem accounts_initial : Accounts Run.initial.state Run.initial.log :=
  ⟨fun _ _ => rfl, fun _ => rfl⟩

theorem accounts_of_reach {options : Options} {dnsgw : Addr} {r : Run}
    (hgw : options.dnsgw = some dnsgw) (h : Reach (step options) anyStep Run.initial r) :
    Accounts r.state r.log := by
  exact h.invariant (I := fun r => Accounts r.state r.log) accounts_initial
    fun _ _ _ hr _ hs => accounts_step hgw hr hs

/-- Without a gateway nothing is forwarded. -/
theorem step_of_no_dnsgw {options : Options} {r : Run} {data : List UInt8}
    (hgw : options.dnsgw = none) : step options r data = some r := by
  rw [step, processDeviceDnsPacket, hgw]

/-- No packet stops the program, and each keeps the account. -/
theorem exists_step_accounts (options : Options) (r : Run) (data : List UInt8)
    (h : Accounts r.state r.log) :
    ∃ r', step options r data = some r' ∧ Accounts r'.state r'.log := by
  cases hgw : options.dnsgw with
  | none => exact ⟨r, step_of_no_dnsgw hgw, h⟩
  | some dnsgw =>
    obtain ⟨r', hs⟩ : ∃ r', step options r data = some r' := by
      unfold step
      split
      · exact ⟨_, rfl⟩
      · exact ⟨_, rfl⟩
    exact ⟨r', hs, accounts_step hgw h hs⟩

/-- **The table counts the replies that are due**, behind every sequence of packets: it has one
entry at most for a port, it has one exactly if fewer replies went to the port than queries came
from it, and the count of the entry is the difference. -/
theorem table_accounted (options : Options) (packets : List (List UInt8)) :
    ∃ r, run (step options) Run.initial packets = some r ∧
      (∀ key key' con con', r.state.table key = some con → r.state.table key' = some con' →
        con.port = con'.port → key = key' ∧ con = con') ∧
      ∀ port, repliesTo port r.log ≤ queriesFrom port r.log ∧
        ((r.state.table port).isSome ↔ repliesTo port r.log < queriesFrom port r.log) ∧
        ∀ con, r.state.table port = some con →
          1 ≤ con.count ∧ con.count = (queriesFrom port r.log : Int) - repliesTo port r.log := by
  obtain ⟨r, hrun, hacc⟩ := exists_run (exists_step_accounts options) packets accounts_initial
  have hentry : ∀ {key con}, r.state.table key = some con → Account r.log key (some con) := by
    intro key con hcon
    rw [← hcon]
    exact hacc.account key
  refine ⟨r, hrun, fun key key' con con' hcon hcon' hport => ?_, fun port => ?_⟩
  · have hkey : key = key' := (hentry hcon).1.symm.trans (hport.trans (hentry hcon').1)
    subst hkey
    exact ⟨rfl, Option.some.inj (hcon.symm.trans hcon')⟩
  · cases hcon : r.state.table port with
    | none =>
      have hdue : queriesFrom port r.log = repliesTo port r.log := by
        have hself := hacc.account port
        rw [hcon] at hself
        exact hself
      refine ⟨Nat.le_of_eq hdue.symm, ?_, fun con h => absurd h (by simp)⟩
      rw [hdue]
      simp
    | some con =>
      obtain ⟨-, -, -, hpos, hdue⟩ := hentry hcon
      refine ⟨by omega, ⟨fun _ => by omega, fun _ => rfl⟩, fun con' hcon' => ?_⟩
      obtain rfl : con = con' := Option.some.inj hcon'
      exact ⟨hpos, by omega⟩

/-- **Replies are isolated by port**, in every run. -/
theorem reply_isolated {options : Options} {dnsgw : Addr} {r : Run} {data : List UInt8} {e : Event}
    {s : State} (hgw : options.dnsgw = some dnsgw)
    (h : Reach (step options) anyStep Run.initial r)
    (hp : processDeviceDnsPacket options r.state data = some (e, s)) (hreply : e.path = .reply) :
    PortIsolated dnsgw r.log e := by
  have hacc := accounts_of_reach hgw h
  cases process_cases hgw hp with
  | query _ => exact absurd hreply (by simp)
  | @reply d output con hsource hinit hcon hsrc hdest =>
    have hself := hacc.account d.udp.destPort
    rw [hcon] at hself
    obtain ⟨-, hport, ⟨before, q, after, hlog, hq, hl, hr, hbefore⟩, hpos, hdue⟩ := hself
    have hlocal : output.dest = con.localAddr := by
      rw [hdest, ← hport]
    refine ⟨hsource, before, q, after, hlog, hq, hl.trans hlocal.symm, hr.trans hsrc.symm, ?_⟩
    -- what is due is due to the queries since the entry was opened
    show repliesTo output.dest.port (q :: after) < queriesFrom output.dest.port (q :: after)
    have hqsum : queriesFrom d.udp.destPort r.log =
        queriesFrom d.udp.destPort before + queriesFrom d.udp.destPort (q :: after) := by
      rw [hlog]
      exact List.countP_append
    have hrsum : repliesTo d.udp.destPort r.log =
        repliesTo d.udp.destPort before + repliesTo d.udp.destPort (q :: after) := by
      rw [hlog]
      exact List.countP_append
    rw [hport] at hbefore
    rw [hlocal, hport]
    omega

/-! ### A client that asks two servers from one port -/

def sampleOptions : Options := ⟨some ⟨0x1A1A1A01, 8153⟩, 0x1A1A1A02⟩

/-- A packet with two bytes of payload and correct checksums. -/
def sampleData (source dest : Addr) : List UInt8 :=
  (Datagram.updateChecksums ⟨⟨0x45, 0, 30, 0, 0, 64, 17, 0, source.ip, dest.ip⟩,
    ⟨source.port, dest.port, 10, 0⟩, [1, 2]⟩).bytes

/-- The client asks `1.1.1.1` and `2.2.2.2`; then an answer comes from the
gateway's port at `9.9.9.9`, and one from the gateway. -/
def twoServers : List (List UInt8) :=
  [sampleData ⟨0x0A000001, 4000⟩ ⟨0x01010101, 53⟩, sampleData ⟨0x0A000001, 4000⟩ ⟨0x02020202, 53⟩,
    sampleData ⟨0x09090909, 8153⟩ ⟨0x1A1A1A02, 4000⟩,
    sampleData ⟨0x1A1A1A01, 8153⟩ ⟨0x1A1A1A02, 4000⟩]

theorem reply_isolated_twoServers :
    ∃ r e s, Reach (step sampleOptions) anyStep Run.initial r ∧
      processDeviceDnsPacket sampleOptions r.state
        (sampleData ⟨0x1A1A1A01, 8153⟩ ⟨0x1A1A1A02, 4000⟩) = some (e, s) ∧ e.path = .reply ∧
      PortIsolated ⟨0x1A1A1A01, 8153⟩ r.log e := by
  have hrun : (run (step sampleOptions) Run.initial (twoServers.take 3)).any (fun r =>
      (processDeviceDnsPacket sampleOptions r.state
        (sampleData ⟨0x1A1A1A01, 8153⟩ ⟨0x1A1A1A02, 4000⟩)).any fun res =>
          res.1.path == .reply) = true := by
    decide +kernel
  obtain ⟨r, hreach, hres⟩ := exists_reach_of_run hrun
  obtain ⟨⟨e, s⟩, hp, hpath⟩ := (Option.any_eq_true _ _).mp hres
  have hreply : e.path = .reply := beq_iff_eq.mp hpath
  exact ⟨r, e, s, hreach, hp, hreply, reply_isolated rfl hreach hp hreply⟩

instance (dnsgw : Addr) (log : List Event) (e : Event) : Decidable (Isolated dnsgw log e) :=
  inferInstanceAs (Decidable (_ ∧ _))

/-- **Replies are not isolated by address**: the first answer does not come from
the gateway, and the second, which does, is passed on as a second answer of
`1.1.1.1`, where only one query to it was sent. -/
theorem reply_not_isolated :
    (∃ r e s, Reach (step sampleOptions) anyStep Run.initial r ∧
      processDeviceDnsPacket sampleOptions r.state
        (sampleData ⟨0x09090909, 8153⟩ ⟨0x1A1A1A02, 4000⟩) = some (e, s) ∧ e.path = .reply ∧
      ¬ Isolated ⟨0x1A1A1A01, 8153⟩ r.log e) ∧
    ∃ r e s, Reach (step sampleOptions) anyStep Run.initial r ∧
      processDeviceDnsPacket sampleOptions r.state
        (sampleData ⟨0x1A1A1A01, 8153⟩ ⟨0x1A1A1A02, 4000⟩) = some (e, s) ∧ e.path = .reply ∧
      ¬ Isolated ⟨0x1A1A1A01, 8153⟩ r.log e := by
  have hfail : ∀ {n : Nat} {data : List UInt8},
      (run (step sampleOptions) Run.initial (twoServers.take n)).any (fun r =>
        (processDeviceDnsPacket sampleOptions r.state data).any fun res =>
          res.1.path == .reply && !decide (Isolated ⟨0x1A1A1A01, 8153⟩ r.log res.1)) = true →
      ∃ r e s, Reach (step sampleOptions) anyStep Run.initial r ∧
        processDeviceDnsPacket sampleOptions r.state data = some (e, s) ∧ e.path = .reply ∧
        ¬ Isolated ⟨0x1A1A1A01, 8153⟩ r.log e := by
    intro n data hrun
    obtain ⟨r, hreach, hres⟩ := exists_reach_of_run hrun
    obtain ⟨⟨e, s⟩, hp, hcheck⟩ := (Option.any_eq_true _ _).mp hres
    rw [Bool.and_eq_true, beq_iff_eq, Bool.not_eq_true', decide_eq_false_iff_not] at hcheck
    exact ⟨r, e, s, hreach, hp, hcheck.1, hcheck.2⟩
  constructor
  · exact hfail (n := 2) (by decide +kernel)
  · exact hfail (n := 3) (by decide +kernel)

end DnsNat
