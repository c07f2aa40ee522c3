/-
How the TCP clients of tun2socks end, and the invariant of a connection.

The closing functions of `tun2socks.c` call each other; what they leave is stated here as functions
on the state (`World.clientGone`, `World.clientFreed`, `World.socksGone`), with one rule for each
call (`returns_clientFreeClient`, …).

`Inv` is what holds of every connection between two events.  A handler establishes `Keeps`: the
invariant again, with the other clients still counted.  It is proved here for the closing functions
(`keeps_clientGone`, `keeps_clientFreed`, `keeps_socksGone`), under the part of the invariant
(`Steady`) that also holds in the middle of a handler.
-/
import ReShadowsocks.TcpClient

namespace TcpClient

open Program Transition

variable {w : World} {c : Client} {n : Nat} {Q : PUnit → World → Prop}

def Client.dead (c : Client) : Option Bool := if c.deadClient then some false else none

def World.kill (w : World) : World := { w with dead := w.dead.map fun _ => true }

def World.drop (w : World) : World :=
  { w with numClients := w.numClients - 1, listed := false, client := none }

def World.freeSocks (w : World) : World :=
  { w with socks := { w.socks with live := false, sending := none, receiving := false } }

/-- The pcb after `tcp_close` or `tcp_abort`, its callbacks removed. -/
def World.closePcb (w : World) (state : PcbState) : World :=
  { w with pcb := { w.pcb with state := state, recvFn := false, errFn := false, sentFn := false } }

/-- What `client_handle_freed_client` leaves. -/
def World.clientGone (w : World) (c : Client) : World :=
  if 0 < c.buf.length ∧ c.socksClosed = false then
    { w.kill with client := some { c with clientClosed := true } }
  else if c.socksClosed = false then w.kill.freeSocks.drop
  else w.kill.drop

/-- What `client_free_client` leaves. -/
def World.clientFreed (w : World) (c : Client) : World :=
  (w.closePcb (if w.net.close = .ok then .closed else .aborted)).clientGone c

/-- `client_free_socks` up to the question whether something is left for the client. -/
def World.stopSocks (w : World) (c : Client) : World :=
  { w.freeSocks with
    client := some { c with socksClosed := true }
    pcb.recvFn := w.pcb.recvFn && !c.socksUp }

/-- Is something left for the client? -/
def Client.undelivered (c : Client) : Bool :=
  c.recv.any fun r => r.buf.isSome || decide (0 < r.tcpPending)

/-- What `client_free_socks` leaves. -/
def World.socksGone (w : World) (c : Client) : World :=
  if c.clientClosed then w.freeSocks.drop
  else if c.undelivered then w.stopSocks c
  else (w.stopSocks c).clientFreed { c with socksClosed := true }

@[simp] theorem clientGone_pcb (w : World) (c : Client) : (w.clientGone c).pcb = w.pcb := by
  unfold World.clientGone
  split
  · rfl
  · split <;> rfl

theorem clientFreed_state (w : World) (c : Client) : (w.clientFreed c).pcb.state ≠ .active := by
  rw [World.clientFreed, clientGone_pcb, World.closePcb]
  dsimp only
  split <;> simp

theorem returns_deadKill (hc : w.client = some c) (hdead : w.dead = c.dead)
    (hQ : Q ⟨⟩ w.kill) : Returns deadKill w Q := by
  obtain ⟨⟨_, _, _, _, _, _, _⟩, _⟩ := w
  subst hc hdead
  cases hd : c.deadClient with
  | false => simpa [deadKill, client, World.kill, Client.dead, hd] using hQ
  | true => simpa [deadKill, client, World.kill, Client.dead, hd] using hQ

theorem returns_bSocksClientFree (hlive : w.socks.live = true) (hQ : Q ⟨⟩ w.freeSocks) :
    Returns bSocksClientFree w Q := by
  simp only [bSocksClientFree, socks, setSocks, returns_bind, returns_fetch, returns_modify]
  exact ⟨_, if_pos hlive, _, if_pos hlive, hQ⟩

theorem returns_clientDealloc (hc : w.client = some c) (hclient : c.clientClosed = true)
    (hsocks : c.socksClosed = true) (hn : 0 < w.numClients) (hQ : Q ⟨⟩ w.drop) :
    Returns clientDealloc w Q := by
  simp only [clientDealloc, client, assert, returns_bind, returns_fetch, returns_require,
    returns_get, returns_modify]
  exact ⟨c, hc, hclient, hsocks, hn, hQ⟩

theorem returns_leftForClient {R : Bool → World → Prop} (hrecv : c.recv.isSome = c.socksUp)
    (hR : R (c.undelivered && !c.clientClosed) w) : Returns (leftForClient c) w R := by
  cases hr : c.recv with
  | none =>
    have hup : c.socksUp = false := by simpa [hr] using hrecv.symm
    simpa [leftForClient, hup, Client.undelivered, hr] using hR
  | some r =>
    have hup : c.socksUp = true := by simpa [hr] using hrecv.symm
    simpa [leftForClient, hup, Client.undelivered, hr, socksRecv] using hR

theorem returns_stopReceiving (hc : w.client = some c)
    (hpcb : c.clientClosed = false → w.pcb.state = .active)
    (hQ : Q ⟨⟩ (if c.clientClosed then w
      else { w with pcb.recvFn := w.pcb.recvFn && !c.socksUp })) :
    Returns stopReceiving w Q := by
  simp only [stopReceiving, client, returns_bind, returns_fetch]
  refine ⟨c, hc, ?_⟩
  cases hclient : c.clientClosed with
  | true =>
    rw [if_pos hclient] at hQ
    split
    · simpa using hQ
    · simpa using hQ
  | false =>
    have hactive := hpcb hclient
    cases hup : c.socksUp with
    | true =>
      simp only [if_true, tcpRecvNull, pcb, setPcb, returns_bind, returns_fetch, returns_modify]
      refine ⟨_, if_pos hactive, _, if_pos hactive, ?_⟩
      simpa [hclient, hup] using hQ
    | false => simpa [hclient, hup] using hQ

section Closing

variable (hc : w.client = some c) (hrecv : c.recv.isSome = c.socksUp) (hn : 0 < w.numClients)
include hc hrecv hn

theorem clientFreeSocks_closed (hclient : c.clientClosed = true) (hsocks : c.socksClosed = false)
    (hlive : w.socks.live = true) (hQ : Q ⟨⟩ w.freeSocks.drop) :
    Returns (clientFreeSocks (n + 1)) w Q := by
  simp only [clientFreeSocks, client, setClient, assert, returns_bind, returns_fetch,
    returns_require, returns_modify]
  refine ⟨c, hc, hsocks, returns_stopReceiving hc (by simp [hclient]) ?_⟩
  rw [if_pos hclient]
  refine returns_bSocksClientFree hlive ⟨c, hc, c, hc, _, rfl, returns_leftForClient hrecv ?_⟩
  rw [if_neg (by simp [hclient]), if_neg (by simp [hclient])]
  exact returns_clientDealloc rfl hclient rfl hn hQ

variable (hopen : c.clientClosed = false) (hdead : w.dead = c.dead)
include hopen hdead

theorem clientHandleFreedClient_open (hlive : w.socks.live = !c.socksClosed)
    (hQ : Q ⟨⟩ (w.clientGone c)) : Returns (clientHandleFreedClient (n + 2)) w Q := by
  simp only [clientHandleFreedClient, client, setClient, assert, returns_bind, returns_fetch,
    returns_require, returns_modify]
  refine ⟨c, hc, hopen, returns_deadKill hc hdead ⟨c, hc, c, hc, _, rfl, ?_⟩⟩
  unfold World.clientGone at hQ
  split
  · rename_i hwait
    rw [if_pos hwait] at hQ
    exact returns_pure.mpr hQ
  · rename_i hwait
    rw [if_neg hwait] at hQ
    split
    · rename_i hsocks
      rw [if_pos hsocks] at hQ
      have hlive : w.socks.live = true := hlive.trans (congrArg not hsocks)
      exact clientFreeSocks_closed rfl hrecv hn rfl hsocks hlive hQ
    · rename_i hsocks
      rw [if_neg hsocks] at hQ
      exact returns_clientDealloc rfl rfl (by simpa using hsocks) hn hQ

theorem clientFreeClient_open (hpcb : w.pcb.state = .active)
    (hlive : w.socks.live = !c.socksClosed) (hQ : Q ⟨⟩ (w.clientFreed c)) :
    Returns (clientFreeClient (n + 3)) w Q := by
  simp only [clientFreeClient, client, assert, removeCallbacks, tcpClose, pcb, setPcb,
    returns_bind, returns_fetch, returns_require, returns_modify, returns_get]
  refine ⟨c, hc, hopen, _, if_pos hpcb, _, if_pos hpcb, _, if_pos hpcb, ?_⟩
  unfold World.clientFreed at hQ
  by_cases hclose : w.net.close = .ok
  · simp only [hclose, if_true, returns_bind, returns_fetch, returns_modify, returns_pure, ne_eq,
      not_true_eq_false, if_false] at hQ ⊢
    refine ⟨_, if_pos hpcb, ?_⟩
    exact clientHandleFreedClient_open hc hrecv hn hopen hdead hlive hQ
  · simp only [hclose, if_false, returns_pure, ne_eq, not_false_eq_true, if_true, tcpAbort, pcb,
      setPcb, returns_bind, returns_fetch, returns_modify] at hQ ⊢
    refine ⟨_, if_pos hpcb, _, if_pos hpcb, ?_⟩
    exact clientHandleFreedClient_open hc hrecv hn hopen hdead hlive hQ

theorem clientFreeSocks_open (hsocks : c.socksClosed = false) (hpcb : w.pcb.state = .active)
    (hlive : w.socks.live = true) (hQ : Q ⟨⟩ (w.socksGone c)) :
    Returns (clientFreeSocks (n + 4)) w Q := by
  simp only [clientFreeSocks, client, setClient, assert, returns_bind, returns_fetch,
    returns_require, returns_modify]
  refine ⟨c, hc, hsocks, returns_stopReceiving hc (fun _ => hpcb) ?_⟩
  rw [if_neg (by simp [hopen])]
  refine returns_bSocksClientFree hlive ⟨c, hc, c, hc, _, rfl, returns_leftForClient hrecv ?_⟩
  show Returns (if c.undelivered && !c.clientClosed then pure ()
    else if c.clientClosed = false then clientFreeClient (n + 3) else clientDealloc) _ Q
  unfold World.socksGone at hQ
  rw [if_neg (by simp [hopen])] at hQ
  cases hleft : c.undelivered with
  | true =>
    rw [if_pos hleft] at hQ
    rw [if_pos (by simp [hopen])]
    exact returns_pure.mpr hQ
  | false =>
    rw [if_neg (by simp [hleft])] at hQ
    rw [if_neg (by simp), if_pos hopen]
    exact clientFreeClient_open rfl hrecv hn hopen hdead hpcb rfl hQ

end Closing

section Calls

variable (hc : w.client = some c) (hrecv : c.recv.isSome = c.socksUp) (hn : 0 < w.numClients)
include hc hrecv hn

theorem returns_clientFreeSocks (hdead : c.clientClosed = false → w.dead = c.dead)
    (hpcb : w.pcb.state = .active ↔ c.clientClosed = false) (hsocks : c.socksClosed = false)
    (hlive : w.socks.live = true) (hQ : Q ⟨⟩ (w.socksGone c)) :
    Returns (clientFreeSocks callDepth) w Q := by
  cases hclient : c.clientClosed with
  | true =>
    rw [World.socksGone, if_pos hclient] at hQ
    exact clientFreeSocks_closed hc hrecv hn hclient hsocks hlive hQ
  | false =>
    exact clientFreeSocks_open hc hrecv hn hclient (hdead hclient) hsocks (hpcb.mpr hclient)
      hlive hQ

variable (hopen : c.clientClosed = false) (hdead : w.dead = c.dead)
  (hlive : w.socks.live = !c.socksClosed)
include hopen hdead hlive

theorem returns_clientHandleFreedClient (hQ : Q ⟨⟩ (w.clientGone c)) :
    Returns (clientHandleFreedClient callDepth) w Q :=
  clientHandleFreedClient_open hc hrecv hn hopen hdead hlive hQ

theorem returns_clientFreeClient (hpcb : w.pcb.state = .active) (hQ : Q ⟨⟩ (w.clientFreed c)) :
    Returns (clientFreeClient callDepth) w Q :=
  clientFreeClient_open hc hrecv hn hopen hdead hpcb hlive hQ

theorem returns_clientAbortClient (hpcb : w.pcb.state = .active)
    (hQ : Q ⟨⟩ ((w.closePcb .aborted).clientGone c)) : Returns clientAbortClient w Q := by
  simp only [clientAbortClient, client, assert, removeCallbacks, tcpAbort, pcb, setPcb,
    returns_bind, returns_fetch, returns_require, returns_modify]
  refine ⟨c, hc, hopen, _, if_pos hpcb, _, if_pos hpcb, _, if_pos hpcb, _, if_pos hpcb, ?_⟩
  exact returns_clientHandleFreedClient (w := w.closePcb .aborted) hc hrecv hn hopen hdead hlive hQ

end Calls

/-! ### The invariant -/

/-- The flags of the client agree with the two sides it talks to. -/
structure Linked (k : Conn) (c : Client) : Prop where
  listed : k.listed = true
  pcb : k.pcb.state = .active ↔ c.clientClosed = false
  socks : k.socks.live = !c.socksClosed
  up : k.socks.up = c.socksUp
  recv : c.recv.isSome = c.socksUp
  errFn : c.clientClosed = false → k.pcb.errFn = true
  recvFn : c.clientClosed = false → k.pcb.recvFn = !(c.socksClosed && c.socksUp)
  sentFn : c.clientClosed = false → k.pcb.sentFn = c.socksUp

/-- A callback that waits in `SYNC_COMMIT` learns whether the client was closed meanwhile. -/
structure Watched (k : Conn) (c : Client) : Prop where
  dead : c.clientClosed = false → k.dead = c.dead
  killed : c.clientClosed = true → k.dead ≠ some false

/-- From the client to SOCKS: the buffer holds what was received and not yet sent, the window is
what is left of it, and the send interface is busy while there is something to send. -/
structure Upstream (k : Conn) (c : Client) : Prop where
  bytes : k.pcb.received = k.socks.sent ++ c.buf
  room : c.buf.length ≤ tcpWnd
  window : c.clientClosed = false → c.socksClosed = false →
    k.pcb.received.length = k.pcb.recved + c.buf.length
  idle : c.socksClosed = false → k.socks.sending = none → c.socksUp = true → c.buf = []
  busy : ∀ len, k.socks.sending = some len → c.socksUp = true ∧ 0 < len ∧ len ≤ c.buf.length

/-- From SOCKS to the client: what was received is queued, or still in the buffer. -/
structure Downstream (k : Conn) (c : Client) : Prop where
  notUp : c.socksUp = false →
    k.pcb.written = [] ∧ k.socks.received = [] ∧ k.pcb.acked = 0 ∧ k.socks.receiving = false
  bytes : ∀ r, c.recv = some r → c.clientClosed = false →
    k.socks.received = k.pcb.written ++ r.unsent
  pending : ∀ r, c.recv = some r → c.clientClosed = false →
    k.pcb.acked + r.tcpPending = k.pcb.written.length
  idle : ∀ r, c.recv = some r → k.socks.receiving = true → r.buf = none

/-- With the client open, the receive interface is busy or the buffer waits for acknowledgements. -/
def Receiving (k : Conn) (c : Client) : Prop :=
  ∀ r, c.recv = some r → c.clientClosed = false →
    (r.buf = none ∧ (c.socksClosed = false → k.socks.receiving = true)) ∨
    ∃ b, r.buf = some b ∧ r.waiting = true ∧ r.sent < b.length ∧
      b.length ≤ clientSocksRecvBufSize ∧ 0 < r.tcpPending

/-- A client with one side closed waits for something. -/
structure Waits (c : Client) : Prop where
  client : c.clientClosed = true → c.socksClosed = false ∧ c.buf ≠ []
  socks : c.socksClosed = true → c.clientClosed = false ∧
    ∃ r, c.recv = some r ∧ (r.buf.isSome ∨ 0 < r.tcpPending)

/-- What holds of a connection that is open or was. -/
structure History (k : Conn) : Prop where
  sent : k.socks.sent <+: k.pcb.received
  written : k.pcb.written <+: k.socks.received
  acked : k.pcb.acked ≤ k.pcb.written.length
  /-- Nothing from SOCKS is lost when the client is closed, unless it closed itself. -/
  closed : k.pcb.state = .closed → k.pcb.fin = true ∨
    k.socks.live = false ∧ k.pcb.written = k.socks.received ∧ k.pcb.acked = k.pcb.written.length
  /-- Nothing from the client is lost when SOCKS is freed, unless it failed. -/
  freed : k.socks.live = false → k.socks.failed = true ∨ k.murdered = true ∨
    k.socks.sent = k.pcb.received

/-- Nobody holds a freed client any more. -/
structure Gone (k : Conn) : Prop where
  listed : k.listed = false
  pcb : k.pcb.state ≠ .active
  socks : k.socks.live = false
  killed : k.dead ≠ some false

/-- A client between the steps of a handler. -/
structure Steady (k : Conn) (c : Client) : Prop where
  linked : Linked k c
  up : Upstream k c
  down : Downstream k c

structure Inv (k : Conn) : Prop where
  history : History k
  alive : ∀ c, k.client = some c → Steady k c ∧ Receiving k c ∧ Waits c ∧ Watched k c
  gone : k.client = none → Gone k

/-- The other clients. -/
def World.others (w : World) : Int := w.numClients - if w.client.isSome then 1 else 0

/-- What a handler called in `w` has to establish. -/
structure Keeps (w w' : World) : Prop where
  inv : Inv w'.toConn
  others : w'.others = w.others
  dead : w'.dead.isSome = w.dead.isSome

theorem Keeps.trans {w u v : World} (h : Keeps w u) (h' : Keeps u v) : Keeps w v :=
  ⟨h'.inv, h'.others.trans h.others, h'.dead.trans h.dead⟩

variable {k : Conn}

theorem Steady.closePcb (h : Steady k c) {p : Pcb} (hstate : p.state ≠ .active)
    (hreceived : p.received = k.pcb.received) (hwritten : p.written = k.pcb.written)
    (hacked : p.acked = k.pcb.acked) :
    Steady { k with pcb := p } { c with clientClosed := true } where
  linked := ⟨h.linked.listed, by simpa using hstate, h.linked.socks, h.linked.up, h.linked.recv,
    by simp, by simp, by simp⟩
  up := ⟨hreceived.trans h.up.bytes, h.up.room, by simp, h.up.idle, h.up.busy⟩
  down := ⟨fun hup => by simpa only [hwritten, hacked] using h.down.notUp hup, by simp, by simp,
    h.down.idle⟩

theorem killed_ne (d : Option Bool) : (d.map fun _ => true) ≠ some false := by
  cases d <;> simp

/-- `client_handle_freed_client`. -/
theorem keeps_clientGone (hc : w.client = some c)
    (h : Steady w.toConn { c with clientClosed := true }) (hist : History w.toConn) :
    Keeps w (w.clientGone c) := by
  have hpcb : w.pcb.state ≠ .active := by simpa using h.linked.pcb
  unfold World.clientGone
  split
  · rename_i hbuf
    refine ⟨⟨{ hist with }, ?_, by simp⟩, ?_, ?_⟩
    · rintro _ ⟨⟩
      refine ⟨⟨?_, ?_, ?_⟩, by simp [Receiving], ⟨?_, ?_⟩, ⟨by simp, ?_⟩⟩
      · exact { h.linked with }
      · exact { h.up with }
      · exact { h.down with }
      · exact fun _ => ⟨hbuf.2, List.ne_nil_of_length_pos hbuf.1⟩
      · simp [hbuf.2]
      · exact fun _ => killed_ne w.dead
    · simp [World.others, World.kill, hc]
    · exact Option.isSome_map
  · rename_i hbuf
    split
    · rename_i hsocks
      have hnil : c.buf = [] := by
        simpa [hsocks] using hbuf
      have hsent : w.socks.sent = w.pcb.received := by
        simpa [hnil] using h.up.bytes.symm
      have hlive : w.socks.live = true := by simpa [hsocks] using h.linked.socks
      refine ⟨⟨⟨hist.sent, hist.written, hist.acked, ?_, ?_⟩, by simp [World.drop], ?_⟩, ?_,
        Option.isSome_map⟩
      · intro hclosed
        refine (hist.closed hclosed).imp_right fun hfreed => ?_
        rw [hfreed.1] at hlive
        cases hlive
      · exact fun _ => .inr (.inr hsent)
      · exact fun _ => ⟨rfl, hpcb, rfl, killed_ne w.dead⟩
      · simp [World.others, World.drop, World.freeSocks, World.kill, hc]
    · rename_i hsocks
      refine ⟨⟨{ hist with },
        by simp [World.drop], ?_⟩, ?_, Option.isSome_map⟩
      · have hlive : w.socks.live = false := by simpa [hsocks] using h.linked.socks
        exact fun _ => ⟨rfl, hpcb, hlive, killed_ne w.dead⟩
      · simp [World.others, World.drop, World.kill, hc]

/-- Everything that came from SOCKS was queued and acknowledged. -/
def Delivered (k : Conn) : Prop :=
  k.pcb.written = k.socks.received ∧ k.pcb.acked = k.pcb.written.length

/-- `client_free_client`: the peer has closed, or SOCKS is gone and nothing is left to deliver. -/
theorem keeps_clientFreed (hc : w.client = some c) (h : Steady w.toConn c)
    (hist : History w.toConn)
    (hreason : w.pcb.fin = true ∨ w.socks.live = false ∧ Delivered w.toConn) :
    Keeps w (w.clientFreed c) := by
  have hgone := keeps_clientGone
    (w := w.closePcb (if w.net.close = .ok then .closed else .aborted)) hc
    (h.closePcb (by dsimp only; split <;> simp) rfl rfl rfl)
    ⟨hist.sent, hist.written, hist.acked, fun _ => hreason, hist.freed⟩
  exact ⟨hgone.inv, hgone.others, hgone.dead⟩

theorem Steady.stopSocks (h : Steady w.toConn c) (hsocks : c.socksClosed = false) :
    Steady (w.stopSocks c).toConn { c with socksClosed := true } where
  linked := by
    refine ⟨h.linked.listed, h.linked.pcb, rfl, h.linked.up, h.linked.recv, h.linked.errFn, ?_,
      h.linked.sentFn⟩
    intro hopen
    have hrecvFn : w.pcb.recvFn = true := by simpa [hsocks] using h.linked.recvFn hopen
    simp [World.stopSocks, hrecvFn]
  up := ⟨h.up.bytes, h.up.room, by simp, by simp, by rintro _ ⟨⟩⟩
  down := by
    refine ⟨fun hup => ?_, h.down.bytes, h.down.pending, by rintro _ _ ⟨⟩⟩
    obtain ⟨hwritten, hreceived, hacked, -⟩ := h.down.notUp hup
    exact ⟨hwritten, hreceived, hacked, rfl⟩

/-- With nothing left for the client, everything was delivered. -/
theorem Steady.delivered (h : Steady k c) (hopen : c.clientClosed = false)
    (hnone : c.undelivered = false) : Delivered k := by
  cases hr : c.recv with
  | none =>
    have hup : c.socksUp = false := by simpa [hr] using h.linked.recv.symm
    obtain ⟨hwritten, hreceived, hacked, -⟩ := h.down.notUp hup
    exact ⟨hwritten.trans hreceived.symm, by rw [hacked, hwritten, List.length_nil]⟩
  | some r =>
    simp only [Client.undelivered, hr, Option.any_some, Bool.or_eq_false_iff,
      Option.isSome_eq_false_iff, Option.isNone_iff_eq_none, decide_eq_false_iff_not,
      Nat.not_lt, Nat.le_zero] at hnone
    have hbytes := h.down.bytes r hr hopen
    have hpending := h.down.pending r hr hopen
    rw [hnone.2, Nat.add_zero] at hpending
    refine ⟨?_, hpending⟩
    simp [hbytes, SocksRecv.unsent, hnone.1]

/-- `client_free_socks`: SOCKS has failed, or the client is closed and nothing is left to send. -/
theorem keeps_socksGone (hc : w.client = some c) (h : Steady w.toConn c) (hr : Receiving w.toConn c)
    (hwatched : Watched w.toConn c) (hist : History w.toConn) (hsocks : c.socksClosed = false)
    (hreason : w.socks.failed = true ∨ c.clientClosed = true ∧ c.buf = []) :
    Keeps w (w.socksGone c) := by
  have hlive : w.socks.live = true := by simpa [hsocks] using h.linked.socks
  have hclosed : w.pcb.state = .closed → w.pcb.fin = true := by
    intro hclosed
    refine (hist.closed hclosed).resolve_right fun hfreed => ?_
    rw [hfreed.1] at hlive
    cases hlive
  have hfreed : w.socks.failed = true ∨ w.murdered = true ∨ w.socks.sent = w.pcb.received := by
    refine hreason.imp_right fun hdone => .inr ?_
    simpa [hdone.2] using h.up.bytes.symm
  unfold World.socksGone
  split
  · rename_i hclient
    have hpcb : w.pcb.state ≠ .active := by simpa [hclient] using h.linked.pcb
    refine ⟨⟨⟨hist.sent, hist.written, hist.acked, fun h => .inl (hclosed h), fun _ => hfreed⟩,
      by simp [World.drop], ?_⟩, ?_, rfl⟩
    · exact fun _ => ⟨rfl, hpcb, rfl, hwatched.killed hclient⟩
    · simp [World.others, World.drop, World.freeSocks, hc]
  · rename_i hclient
    have hopen : c.clientClosed = false := by simpa using hclient
    have hist' : History (w.stopSocks c).toConn :=
      ⟨hist.sent, hist.written, hist.acked, fun h => .inl (hclosed h), fun _ => hfreed⟩
    have hothers : (w.stopSocks c).others = w.others := by
      simp [World.others, World.stopSocks, World.freeSocks, hc]
    split
    · rename_i hleft
      refine ⟨⟨hist', ?_, by rintro ⟨⟩⟩, hothers, rfl⟩
      rintro _ ⟨⟩
      refine ⟨h.stopSocks hsocks, ?_, ⟨fun h => absurd h hclient, fun _ => ⟨hopen, ?_⟩⟩,
        hwatched.dead, hwatched.killed⟩
      · intro r hrecv _
        exact (hr r hrecv hopen).imp_left fun hnone => ⟨hnone.1, by rintro ⟨⟩⟩
      · obtain ⟨r, hrecv, hr⟩ := (Option.any_eq_true _ _).mp hleft
        exact ⟨r, hrecv, by simpa using hr⟩
    · rename_i hleft
      have hstop : Keeps (w.stopSocks c)
          ((w.stopSocks c).clientFreed { c with socksClosed := true }) := by
        refine keeps_clientFreed rfl (h.stopSocks hsocks) hist' (.inr ⟨rfl, ?_⟩)
        have hnone : c.undelivered = false := by simpa using hleft
        exact (h.stopSocks hsocks).delivered hopen hnone
      exact ⟨hstop.inv, hstop.others.trans hothers, hstop.dead⟩

end TcpClient
