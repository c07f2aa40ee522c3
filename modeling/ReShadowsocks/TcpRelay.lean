/-
The TCP clients of tun2socks, over every run.

Each event keeps the invariant of its connection (`handle_keeps`): the jobs of the SOCKS connection
(`run_job`), the callbacks of lwIP with the jobs that run inside them (`returns_syncCommit`), the
error of a pcb and the end of the program.  From it, for every interleaving of events on any number
of connections:

* `clients_never_fault` — no assertion fails and nothing is used after it is gone;
* `streams_in_order` — both streams arrive unchanged and in order;
* `window_is_room` — the buffer always has room for what the window admits;
* `close_after_all_data` — what is closed on the program's own accord is closed after its data;
* `client_never_stuck` — a client in memory waits for something that can still happen.
-/
import ReShadowsocks.TcpClosing

namespace TcpClient

open Program Transition

variable {w : World} {c : Client} {k : Conn} {Q : PUnit → World → Prop}

/-! ### The events -/

theorem Inv.of_active (h : Inv k) (hpcb : k.pcb.state = .active) :
    ∃ c, k.client = some c ∧ c.clientClosed = false := by
  cases hc : k.client with
  | none => exact absurd hpcb (h.gone hc).pcb
  | some c => exact ⟨c, rfl, (h.alive c hc).1.linked.pcb.mp hpcb⟩

theorem Inv.of_live (h : Inv k) (hlive : k.socks.live = true) :
    ∃ c, k.client = some c ∧ c.socksClosed = false := by
  cases hc : k.client with
  | none =>
    rw [(h.gone hc).socks] at hlive
    cases hlive
  | some c =>
    refine ⟨c, rfl, ?_⟩
    simpa [hlive] using (h.alive c hc).1.linked.socks

/-- What `BSOCKSCLIENT_EVENT_UP` leaves. -/
def World.cameUp (w : World) (c : Client) : World :=
  { w with
    client := some { c with recv := some ⟨none, 0, false, 0⟩, socksUp := true }
    pcb.sentFn := w.pcb.sentFn || !c.clientClosed
    socks := { w.socks with
      up := true
      sending := if 0 < c.buf.length then some c.buf.length else none
      receiving := !c.clientClosed } }

/-- The SOCKS side has taken `len` bytes, and the rest is offered again. -/
def World.sentOn (w : World) (c : Client) (len : Nat) : World :=
  { w with
    client := some { c with buf := c.buf.drop len }
    pcb.recved := if c.clientClosed then w.pcb.recved else w.pcb.recved + len
    socks := { w.socks with
      sending := if len < c.buf.length then some (c.buf.length - len) else none
      sent := w.socks.sent ++ c.buf.take len } }

theorem numClients_pos (hc : w.client = some c) (hn : 0 ≤ w.others) : 0 < w.numClients := by
  simp only [World.others, hc, Option.isSome_some, if_true] at hn
  omega

/-! ### Queueing what came from SOCKS -/

/-- `m` more bytes of the buffer are queued. -/
def SocksRecv.advance (r : SocksRecv) (m : Nat) : SocksRecv :=
  { r with sent := r.sent + m, tcpPending := r.tcpPending + m }

def World.queued (w : World) (c : Client) (r : SocksRecv) (m : Nat) : World :=
  { w with
    client := some { c with recv := some (r.advance m) }
    pcb.written := w.pcb.written ++ r.unsent.take m }

/-- A client whose buffer is being queued. -/
structure Queueing (w : World) (c : Client) (r : SocksRecv) : Prop where
  client : w.client = some c
  opened : c.clientClosed = false
  recv : c.recv = some r
  steady : Steady w.toConn c
  watched : Watched w.toConn c
  history : History w.toConn
  others : 0 ≤ w.others

theorem queued_zero (hc : w.client = some c) {r : SocksRecv} (hr : c.recv = some r) :
    w.queued c r 0 = w := by
  obtain ⟨⟨_, ⟨_, _, _, _, _, _, _, _, _⟩, _, _, _, _, _⟩, _⟩ := w
  obtain ⟨_, _, _, _, _, _⟩ := c
  subst hc hr
  simp [World.queued, SocksRecv.advance]

theorem queued_queued (w : World) (c : Client) (r : SocksRecv) (m m' : Nat) :
    (w.queued c r m).queued { c with recv := some (r.advance m) } (r.advance m) m' =
      w.queued c r (m + m') := by
  simp [World.queued, SocksRecv.advance, SocksRecv.unsent, List.take_add, Nat.add_assoc]

theorem Queueing.advance {r : SocksRecv} (q : Queueing w c r) {m : Nat} (hm : m ≤ r.unsent.length) :
    Queueing (w.queued c r m) { c with recv := some (r.advance m) } (r.advance m) := by
  have hup : c.socksUp = true := by simpa [q.recv] using q.steady.linked.recv.symm
  have hbytes : w.socks.received =
      (w.pcb.written ++ r.unsent.take m) ++ (r.advance m).unsent := by
    rw [q.steady.down.bytes r q.recv q.opened, List.append_assoc]
    simp [SocksRecv.unsent, SocksRecv.advance, ← List.drop_drop]
  have hpending := q.steady.down.pending r q.recv q.opened
  have hs := q.steady
  refine ⟨rfl, q.opened, rfl, ⟨?_, ?_, ?_⟩, { q.watched with }, ?_, ?_⟩
  · exact { hs.linked with recv := hup.symm }
  · exact { hs.up with }
  · refine ⟨?_, ?_, ?_, ?_⟩
    · intro hdown
      rw [show c.socksUp = false from hdown] at hup
      cases hup
    · rintro _ ⟨⟩ _
      exact hbytes
    · rintro _ ⟨⟩ _
      simp only [World.queued, SocksRecv.advance, List.length_append, List.length_take]
      omega
    · rintro _ ⟨⟩ hreceiving
      exact hs.down.idle r q.recv hreceiving
  · refine ⟨q.history.sent, ⟨_, hbytes.symm⟩, ?_, ?_, q.history.freed⟩
    · simp only [World.queued, List.length_append]
      omega
    · intro hclosed
      have hclosed : w.pcb.state = .closed := hclosed
      rw [hs.linked.pcb.mpr q.opened] at hclosed
      cases hclosed
  · have hothers := q.others
    simp only [World.others, q.client] at hothers
    exact hothers

theorem Queueing.abort {r : SocksRecv} (q : Queueing w c r) :
    Returns clientAbortClient w fun _ w' => Keeps w w' ∧ w'.pcb.state ≠ .active := by
  have hs := q.steady
  refine returns_clientAbortClient q.client hs.linked.recv (numClients_pos q.client q.others)
    q.opened (q.watched.dead q.opened) hs.linked.socks (hs.linked.pcb.mpr q.opened) ?_
  have hk := keeps_clientGone (w := w.closePcb .aborted) q.client
    (hs.closePcb (by simp) rfl rfl rfl)
    ⟨q.history.sent, q.history.written, q.history.acked, by rintro ⟨⟩, q.history.freed⟩
  refine ⟨⟨hk.inv, hk.others, hk.dead⟩, ?_⟩
  rw [clientGone_pcb]
  simp [World.closePcb]

/-- A part of the buffer was queued, or the client is gone. -/
def QueueEnd (w : World) (c : Client) (r : SocksRecv) (ok : Bool) (w' : World) : Prop :=
  if ok then ∃ m ≤ r.unsent.length, w' = w.queued c r m
  else Keeps w w' ∧ w'.pcb.state ≠ .active

theorem QueueEnd.of_advance {r : SocksRecv} {m : Nat} {ok : Bool} {w' : World}
    (hm : m ≤ r.unsent.length) (hc : w.client = some c)
    (hend : QueueEnd (w.queued c r m) { c with recv := some (r.advance m) } (r.advance m) ok w') :
    QueueEnd w c r ok w' := by
  cases ok with
  | true =>
    obtain ⟨m', hm', rfl⟩ : ∃ m' ≤ (r.advance m).unsent.length, _ := hend
    refine ⟨m + m', ?_, queued_queued w c r m m'⟩
    simp only [SocksRecv.unsent, SocksRecv.advance, List.length_drop] at hm hm' ⊢
    omega
  | false =>
    obtain ⟨hkeeps, hgone⟩ : Keeps _ w' ∧ w'.pcb.state ≠ .active := hend
    refine ⟨⟨hkeeps.inv, hkeeps.others.trans ?_, hkeeps.dead⟩, hgone⟩
    simp [World.others, World.queued, hc]

theorem returns_queueData (writes : List (Nat × ErrT)) {w : World} {c : Client} {r : SocksRecv}
    (q : Queueing w c r) : Returns (queueData writes) w (QueueEnd w c r) := by
  induction writes generalizing w c r with
  | nil =>
    rw [queueData, returns_pure, QueueEnd, if_pos rfl]
    exact ⟨0, Nat.zero_le _, (queued_zero q.client q.recv).symm⟩
  | cons a rest ih =>
    obtain ⟨sndbuf, answer⟩ := a
    have hactive := q.steady.linked.pcb.mpr q.opened
    have hnothing : QueueEnd w c r true w := by
      rw [QueueEnd, if_pos rfl]
      exact ⟨0, Nat.zero_le _, (queued_zero q.client q.recv).symm⟩
    have hlen : r.unsent.length = (r.buf.getD []).length - r.sent := by
      rw [SocksRecv.unsent, List.length_drop]
    simp only [queueData, client, socksRecv, returns_bind, returns_fetch]
    refine ⟨c, q.client, r, q.recv, ?_⟩
    split
    · exact returns_pure.mpr hnothing
    · simp only [tcpWrite, pcb, setPcb, returns_bind, returns_fetch]
      refine ⟨_, if_pos hactive, ?_⟩
      by_cases hok : answer = .ok
      · have hm : min ((r.buf.getD []).length - r.sent) sndbuf ≤ r.unsent.length := by omega
        simp only [hok, if_true, returns_bind, returns_fetch, returns_modify, returns_pure, ne_eq,
          not_true_eq_false, if_false, setClient, client]
        refine ⟨_, if_pos hactive, c, q.client, ?_⟩
        split
        · refine (ih (q.advance hm)).mono fun ok w' hend => ?_
          exact hend.of_advance hm q.client
        · rw [returns_pure, QueueEnd, if_pos rfl]
          exact ⟨_, hm, rfl⟩
      · simp only [hok, if_false, returns_pure, ne_eq, not_false_eq_true, if_true]
        split
        · exact returns_pure.mpr hnothing
        · rw [returns_bind]
          refine q.abort.mono fun _ w' hgone => ?_
          rw [returns_pure, QueueEnd, if_neg (by simp)]
          exact hgone

/-- The receiving side may be put otherwise, as long as the same bytes are left. -/
theorem Queueing.setRecv {r t : SocksRecv} (q : Queueing w c r) (hunsent : t.unsent = r.unsent)
    (hpending : t.tcpPending = r.tcpPending)
    (hidle : w.socks.receiving = true → t.buf = none) :
    Queueing { w with client := some { c with recv := some t } } { c with recv := some t }
      t := by
  have hs := q.steady
  have hup : c.socksUp = true := by simpa [q.recv] using hs.linked.recv.symm
  refine ⟨rfl, q.opened, rfl, ⟨?_, ?_, ?_⟩, { q.watched with }, ?_, ?_⟩
  · exact { hs.linked with recv := hup.symm }
  · exact { hs.up with }
  · refine ⟨?_, ?_, ?_, ?_⟩
    · intro hdown
      rw [show c.socksUp = false from hdown] at hup
      cases hup
    · rintro _ ⟨⟩ hopen
      rw [hunsent]
      exact hs.down.bytes r q.recv hopen
    · rintro _ ⟨⟩ hopen
      rw [hpending]
      exact hs.down.pending r q.recv hopen
    · rintro _ ⟨⟩ hreceiving
      exact hidle hreceiving
  · exact { q.history with }
  · have hothers := q.others
    simp only [World.others, q.client] at hothers
    exact hothers

/-- The buffer is empty again, or waits for the peer to acknowledge something. -/
def Queued (r : SocksRecv) : Prop :=
  0 < r.tcpPending ∧ (r.buf = none ∨
    ∃ b, r.buf = some b ∧ r.waiting = true ∧ r.sent < b.length ∧ b.length ≤ clientSocksRecvBufSize)

/-- A client that was just queueing is settled again once the receive interface is busy. -/
theorem Queueing.inv {r : SocksRecv} (q : Queueing w c r) (hq : Queued r)
    (hbusy : r.buf = none → c.socksClosed = false → w.socks.receiving = true) : Inv w.toConn := by
  refine ⟨q.history, ?_, ?_⟩
  · intro c' hc'
    obtain rfl : c = c' := Option.some_inj.mp (q.client.symm.trans hc')
    refine ⟨q.steady, ?_, ⟨?_, fun _ => ⟨q.opened, r, q.recv, .inr hq.1⟩⟩, q.watched⟩
    · intro r' hr' _
      obtain rfl : r = r' := Option.some_inj.mp (q.recv.symm.trans hr')
      rcases hq.2 with hnone | ⟨b, hb, hwaiting, hsent, hsize⟩
      · exact .inl ⟨hnone, hbusy hnone⟩
      · exact .inr ⟨b, hb, hwaiting, hsent, hsize, hq.1⟩
    · intro hclosed
      rw [q.opened] at hclosed
      cases hclosed
  · intro hnone
    exact absurd (q.client.symm.trans hnone) (by simp)

theorem Queueing.startRecv {r : SocksRecv} (q : Queueing w c r) (hnone : r.buf = none) :
    Queueing { w with socks.receiving := true } c r := by
  have hs := q.steady
  have hup : c.socksUp = true := by simpa [q.recv] using hs.linked.recv.symm
  refine ⟨q.client, q.opened, q.recv, ⟨?_, ?_, ⟨?_, hs.down.bytes, hs.down.pending, ?_⟩⟩,
    { q.watched with }, ?_, q.others⟩
  · exact { hs.linked with }
  · exact { hs.up with }
  · simp [hup]
  · intro r' hr' _
    obtain rfl : r = r' := Option.some_inj.mp (q.recv.symm.trans hr')
    exact hnone
  · exact { q.history with }

theorem returns_clientSocksRecvInitiate {r : SocksRecv} (q : Queueing w c r) (hnone : r.buf = none)
    (hsocks : c.socksClosed = false) (hreceiving : w.socks.receiving = false)
    (hQ : Q ⟨⟩ { w with socks.receiving := true }) : Returns clientSocksRecvInitiate w Q := by
  have hup : c.socksUp = true := by simpa [q.recv] using q.steady.linked.recv.symm
  have hlive : w.socks.live = true := by simpa [hsocks] using q.steady.linked.socks
  simp only [clientSocksRecvInitiate, receiverRecv, client, socksRecv, socks, setSocks, assert,
    returns_bind, returns_fetch, returns_require, returns_modify]
  exact ⟨c, q.client, q.opened, hsocks, hup, r, q.recv, hnone, _, if_pos hlive, hreceiving, _,
    if_pos hlive, hQ⟩

/-- What `client_socks_recv_send_out` leaves. -/
def SendEnd (w : World) (c : Client) (ok : Bool) (w' : World) : Prop :=
  if ok then ∃ r, Queueing w' { c with recv := some r } r ∧ Queued r ∧ w'.socks = w.socks ∧
    w'.dead = w.dead ∧ w'.others = w.others
  else Keeps w w' ∧ w'.pcb.state ≠ .active

theorem returns_clientSocksRecvSendOut {r : SocksRecv} {b : List UInt8} (q : Queueing w c r)
    (hbuf : r.buf = some b) (hsent : r.sent < b.length) (hsize : b.length ≤ clientSocksRecvBufSize)
    (hwaiting : r.waiting = false) (hreceiving : w.socks.receiving = false) :
    Returns clientSocksRecvSendOut w (SendEnd w c) := by
  have hup : c.socksUp = true := by simpa [q.recv] using q.steady.linked.recv.symm
  have hb : r.buf.getD [] = b := by rw [hbuf, Option.getD_some]
  have hsent' : r.sent < (r.buf.getD []).length := by rwa [hb]
  simp only [clientSocksRecvSendOut, client, socksRecv, assert, returns_bind, returns_fetch,
    returns_require, returns_get]
  refine ⟨c, q.client, q.opened, hup, r, q.recv, by omega, hsent', hwaiting, ?_⟩
  refine (returns_queueData w.net.writes q).mono fun ok u hend => ?_
  cases ok with
  | false =>
    simp only [Bool.not_false, if_true, returns_pure]
    exact hend
  | true =>
    obtain ⟨m, hm, rfl⟩ : ∃ m ≤ r.unsent.length, u = w.queued c r m := hend
    have q' := q.advance hm
    have hothers : (w.queued c r m).others = w.others := by
      simp [World.others, World.queued, q.client]
    have habort : Returns clientAbortClient (w.queued c r m) fun _ w' => SendEnd w c false w' := by
      refine q'.abort.mono fun _ w' hgone => ?_
      exact ⟨⟨hgone.1.inv, hgone.1.others.trans hothers, hgone.1.dead⟩, hgone.2⟩
    have hactive := q'.steady.linked.pcb.mpr q'.opened
    simp only [Bool.not_true, Bool.false_eq_true, if_false, tcpOutput, pcb, returns_bind,
      returns_fetch, returns_get, returns_pure]
    refine ⟨_, if_pos hactive, ?_⟩
    split
    · simp only [returns_bind, returns_pure]
      exact habort
    · simp only [returns_bind, returns_fetch]
      refine ⟨_, q'.client, _, q'.recv, ?_⟩
      split
      · rename_i hleft
        split
        · simp only [returns_bind, returns_pure]
          exact habort
        · rename_i hpending
          simp only [setClient, client, returns_bind, returns_fetch, returns_modify, returns_pure]
          refine ⟨_, q'.client, { r.advance m with waiting := true }, ?_, ⟨?_, .inr ?_⟩, rfl, rfl,
            hothers⟩
          · refine q'.setRecv rfl rfl fun hr => ?_
            rw [show w.socks.receiving = true from hr] at hreceiving
            cases hreceiving
          · exact Nat.pos_of_ne_zero hpending
          · refine ⟨b, hbuf, rfl, ?_, hsize⟩
            simpa [SocksRecv.advance, hb] using hleft
      · rename_i hleft
        have hfull : b.length ≤ r.sent + m := by simpa [SocksRecv.advance, hb] using hleft
        simp only [setClient, client, returns_bind, returns_fetch, returns_modify, returns_pure]
        refine ⟨_, q'.client, { r.advance m with buf := none }, ?_, ⟨?_, .inl rfl⟩, rfl, rfl,
          hothers⟩
        · refine q'.setRecv ?_ rfl fun _ => rfl
          simp [SocksRecv.unsent, SocksRecv.advance, hb, hfull]
        · simp only [SocksRecv.advance]
          omega

section Events

variable (h : Inv w.toConn) (hn : 0 ≤ w.others)
include h hn

theorem handle_err (he : enabled w.toConn .err = true) :
    Returns (handle .err) w fun _ w' => Keeps w w' := by
  obtain ⟨hpcb, -⟩ : w.pcb.state = .active ∧ w.pcb.errFn = true := by simpa [enabled] using he
  obtain ⟨c, hc, hopen⟩ := h.of_active hpcb
  obtain ⟨hs, -, -, hwatched⟩ := h.alive c hc
  have hpos := numClients_pos hc hn
  simp only [handle, clientErrFunc, client, assert, returns_bind, returns_modify, returns_fetch,
    returns_require]
  refine ⟨c, hc, hopen, ?_⟩
  refine returns_clientHandleFreedClient hc hs.linked.recv hpos hopen (hwatched.dead hopen)
    hs.linked.socks ?_
  have hk := keeps_clientGone (w := { w with pcb.state := .failed }) hc
    (hs.closePcb (by simp) rfl rfl rfl)
    ⟨h.history.sent, h.history.written, h.history.acked, by rintro ⟨⟩, h.history.freed⟩
  exact ⟨hk.inv, hk.others, hk.dead⟩

/-- lwIP hands over the end of the stream. -/
theorem handle_recv_none (jobs : List SocksJob) (he : enabled w.toConn (.recv none jobs) = true) :
    Returns (handle (.recv none jobs)) w fun _ w' => Keeps w w' := by
  obtain ⟨hpcb, -⟩ : w.pcb.state = .active ∧ w.pcb.recvFn = true := by simpa [enabled] using he
  obtain ⟨c, hc, hopen⟩ := h.of_active hpcb
  obtain ⟨hs, -, -, hwatched⟩ := h.alive c hc
  have hpos := numClients_pos hc hn
  simp only [handle, clientRecvFunc, client, assert, returns_bind, returns_modify, returns_fetch,
    returns_require]
  refine ⟨c, hc, hopen, ?_⟩
  refine returns_clientFreeClient hc hs.linked.recv hpos hopen (hwatched.dead hopen)
    hs.linked.socks hpcb ?_
  have hk := keeps_clientFreed (w := { w with pcb.fin := w.pcb.fin || true }) hc
    ⟨{ hs.linked with }, { hs.up with }, { hs.down with }⟩
    { h.history with closed := fun _ => .inl (Bool.or_true _) } (.inl (Bool.or_true _))
  simp only [returned, returns_bind, returns_pure, returns_get, returns_require, true_iff]
  exact ⟨clientFreed_state _ c, hk.inv, hk.others, hk.dead⟩

/-- SOCKS reports an error, or that it was closed. -/
theorem run_error {e : SocksEvent} (hup : e ≠ .up) (he : jobEnabled w.socks (.event e) = true) :
    Returns (do performJob (.event e); handleJob (.event e)) w fun _ w' => Keeps w w' := by
  have hlive : w.socks.live = true := by
    cases e <;> simp_all [jobEnabled]
  obtain ⟨c, hc, hsocks⟩ := h.of_live hlive
  obtain ⟨hs, hr, -, hwatched⟩ := h.alive c hc
  have hpos := numClients_pos hc hn
  have hfree : Returns (clientFreeSocks callDepth) { w with socks.failed := true }
      fun _ w' => Keeps w w' := by
    refine returns_clientFreeSocks hc hs.linked.recv hpos hwatched.dead hs.linked.pcb hsocks
      hlive ?_
    have hk := keeps_socksGone (w := { w with socks.failed := true }) hc
      ⟨{ hs.linked with }, { hs.up with }, { hs.down with }⟩ hr { hwatched with }
      { h.history with freed := fun _ => .inl rfl } hsocks (.inl rfl)
    exact ⟨hk.inv, hk.others, hk.dead⟩
  cases e with
  | up => exact absurd rfl hup
  | error =>
    simp only [performJob, handleJob, clientSocksHandler, client, socks, setSocks, assert,
      returns_bind, returns_modify, returns_fetch, returns_require]
    exact ⟨_, if_pos hlive, ⟨_, if_pos hlive, c, hc, hsocks, hfree⟩⟩
  | errorClosed =>
    have hup : c.socksUp = true := by
      rw [← hs.linked.up]
      exact (Bool.and_eq_true _ _ ▸ he : _ ∧ _).2
    simp only [performJob, handleJob, clientSocksHandler, client, socks, setSocks, assert,
      returns_bind, returns_modify, returns_fetch, returns_require]
    exact ⟨_, if_pos hlive, ⟨_, if_pos hlive, c, hc, hsocks, c, hc, hup, hfree⟩⟩

theorem run_up (he : jobEnabled w.socks (.event .up) = true) :
    Returns (do performJob (.event .up); handleJob (.event .up)) w fun _ w' => Keeps w w' := by
  obtain ⟨hlive, hup⟩ : w.socks.live = true ∧ w.socks.up = false := by simpa [jobEnabled] using he
  obtain ⟨c, hc, hsocks⟩ := h.of_live hlive
  obtain ⟨hs, -, hw, hwatched⟩ := h.alive c hc
  rw [hs.linked.up] at hup
  obtain ⟨hwritten, hreceived, hacked, hreceiving⟩ := hs.down.notUp hup
  have hsending : w.socks.sending = none := by
    cases hsending : w.socks.sending with
    | none => rfl
    | some len =>
      rw [(hs.up.busy len hsending).1] at hup
      cases hup
  have hkeeps : Keeps w (w.cameUp c) := by
    refine ⟨⟨{ h.history with }, ?_, by rintro ⟨⟩⟩, ?_, rfl⟩
    · rintro _ ⟨⟩
      refine ⟨⟨{ hs.linked with up := rfl, recv := rfl, recvFn := ?_, sentFn := ?_ },
        { hs.up with idle := ?_, busy := ?_ }, ⟨by rintro ⟨⟩, ?_, ?_, ?_⟩⟩, ?_, ⟨hw.client, ?_⟩,
        { hwatched with }⟩
      · intro hopen
        have hrecvFn : w.pcb.recvFn = true := by simpa [hsocks] using hs.linked.recvFn hopen
        simp [World.cameUp, hsocks, hrecvFn]
      · intro hopen
        have hopen : c.clientClosed = false := hopen
        simp [World.cameUp, hopen]
      · intro _ hidle _
        simpa [World.cameUp] using hidle
      · intro len hlen
        have hlen : 0 < c.buf.length ∧ c.buf.length = len := by simpa [World.cameUp] using hlen
        exact ⟨rfl, hlen.2 ▸ hlen.1, Nat.le_of_eq hlen.2.symm⟩
      · rintro _ ⟨⟩ _
        simp [World.cameUp, SocksRecv.unsent, hwritten, hreceived]
      · rintro _ ⟨⟩ _
        simp [World.cameUp, hwritten, hacked]
      · rintro _ ⟨⟩ _
        rfl
      · rintro _ ⟨⟩ hopen
        have hopen : c.clientClosed = false := hopen
        exact .inl ⟨rfl, fun _ => by simp [World.cameUp, hopen]⟩
      · intro hclosed
        have hclosed : c.socksClosed = true := hclosed
        rw [hsocks] at hclosed
        cases hclosed
    · simp [World.others, World.cameUp, hc]
  have hrun : Returns (do performJob (.event .up); handleJob (.event .up)) w
      fun _ w' => w' = w.cameUp c := by
    have hpcb := hs.linked.pcb
    obtain ⟨⟨_, p, k, _, _, _, _⟩, _⟩ := w
    subst hc
    simp only at hlive hsending hreceiving hpcb
    cases hclient : c.clientClosed with
    | false =>
      have hactive := hpcb.mpr hclient
      by_cases hbuf : 0 < c.buf.length
      · simp [performJob, handleJob, clientSocksHandler, clientSendToSocks, senderSend,
          clientSocksRecvInitiate, receiverRecv, socksRecv, client, setClient, socks, setSocks,
          tcpSent, pcb, setPcb, assert, hlive, hsocks, hup, hclient, hactive, hbuf, hsending,
          hreceiving, World.cameUp]
      · simp [performJob, handleJob, clientSocksHandler, clientSendToSocks, senderSend,
          clientSocksRecvInitiate, receiverRecv, socksRecv, client, setClient, socks, setSocks,
          tcpSent, pcb, setPcb, assert, hlive, hsocks, hup, hclient, hactive, hbuf, hsending,
          hreceiving, World.cameUp]
    | true =>
      have hbuf : 0 < c.buf.length := List.length_pos_of_ne_nil (hw.client hclient).2
      simp [performJob, handleJob, clientSocksHandler, clientSendToSocks, senderSend,
        client, setClient, socks, setSocks, assert, hlive, hsocks, hup, hclient, hbuf, hsending,
        hreceiving, World.cameUp]
  exact hrun.mono fun _ _ heq => heq ▸ hkeeps

theorem run_sendDone {len : Nat} (he : jobEnabled w.socks (.sendDone len) = true) :
    Returns (do performJob (.sendDone len); handleJob (.sendDone len)) w
      fun _ w' => Keeps w w' := by
  obtain ⟨⟨hlive, hpos⟩, m, hsending, hlen⟩ :
      (w.socks.live = true ∧ 0 < len) ∧ ∃ m, w.socks.sending = some m ∧ len ≤ m := by
    simpa [jobEnabled, Option.any_eq_true] using he
  obtain ⟨c, hc, hsocks⟩ := h.of_live hlive
  obtain ⟨hs, hr, hw, hwatched⟩ := h.alive c hc
  obtain ⟨hup, -, hm⟩ := hs.up.busy m hsending
  have hle : len ≤ c.buf.length := Nat.le_trans hlen hm
  have hbytes : w.pcb.received = w.socks.sent ++ c.buf.take len ++ c.buf.drop len := by
    rw [List.append_assoc, List.take_append_drop]
    exact hs.up.bytes
  have hsteady : Steady (w.sentOn c len).toConn { c with buf := c.buf.drop len } := by
    refine ⟨⟨hs.linked.listed, hs.linked.pcb, hs.linked.socks, hs.linked.up, hs.linked.recv,
      hs.linked.errFn, hs.linked.recvFn, hs.linked.sentFn⟩, ⟨hbytes, ?_, ?_, ?_, ?_⟩,
      ⟨hs.down.notUp, hs.down.bytes, hs.down.pending, hs.down.idle⟩⟩
    · have hroom := hs.up.room
      rw [List.length_drop]
      omega
    · intro hopen hsocks
      have hopen : c.clientClosed = false := hopen
      have hwindow := hs.up.window hopen hsocks
      rw [World.sentOn, if_neg (by simp [hopen]), List.length_drop]
      show w.pcb.received.length = w.pcb.recved + len + (c.buf.length - len)
      omega
    · intro _ hidle _
      have hidle : c.buf.length ≤ len := by simpa [World.sentOn] using hidle
      exact List.drop_eq_nil_of_le hidle
    · intro m hm
      have hm : len < c.buf.length ∧ c.buf.length - len = m := by simpa [World.sentOn] using hm
      simp only [List.length_drop]
      exact ⟨hup, by omega, Nat.le_of_eq hm.2.symm⟩
  have hist : History (w.sentOn c len).toConn := by
    refine ⟨⟨_, hbytes.symm⟩, h.history.written, h.history.acked, h.history.closed, fun hgone => ?_⟩
    have hgone : w.socks.live = false := hgone
    rw [hlive] at hgone
    cases hgone
  have hothers : (w.sentOn c len).others = w.others := by simp [World.others, World.sentOn, hc]
  have hnum := numClients_pos hc hn
  have hpcb := hs.linked.pcb
  by_cases hend : len = c.buf.length ∧ c.clientClosed = true
  · -- everything is sent, and the client is closed: SOCKS goes too
    obtain ⟨hall, hclient⟩ := hend
    have hnil : c.buf.drop len = [] := List.drop_eq_nil_of_le (Nat.le_of_eq hall.symm)
    have hk := keeps_socksGone rfl hsteady (fun r hrecv hopen => hr r hrecv hopen)
      { hwatched with } hist hsocks (.inr ⟨hclient, hnil⟩)
    have hfree : Returns (clientFreeSocks callDepth) (w.sentOn c len) fun _ w' => Keeps w w' :=
      returns_clientFreeSocks rfl hs.linked.recv hnum hwatched.dead hs.linked.pcb hsocks hlive
        ⟨hk.inv, hk.others.trans hothers, hk.dead⟩
    clear hk hist hsteady hothers
    obtain ⟨⟨_, ⟨_, _, _, _, _, _, _, _, _⟩, k, _, _, _, _⟩, _⟩ := w
    subst hc
    simp only at hlive
    have hbuf : 0 < c.buf.length := by omega
    simpa [performJob, handleJob, clientSocksSendHandlerDone, senderSend, client, setClient, socks,
      setSocks, assert, World.sentOn, hlive, hsocks, hup, hclient, hbuf, hall] using hfree
  · have hkeeps : Keeps w (w.sentOn c len) := by
      refine ⟨⟨hist, ?_, by rintro ⟨⟩⟩, hothers, rfl⟩
      rintro _ ⟨⟩
      refine ⟨hsteady, fun r hrecv hopen => hr r hrecv hopen, ⟨fun hclient => ⟨hsocks, ?_⟩, ?_⟩,
        hwatched.dead, hwatched.killed⟩
      · have hclient : c.clientClosed = true := hclient
        have hlt : len ≠ c.buf.length := fun h => hend ⟨h, hclient⟩
        simp only [ne_eq, List.drop_eq_nil_iff]
        omega
      · exact hw.socks
    have hrun : Returns (do performJob (.sendDone len); handleJob (.sendDone len)) w
        fun _ w' => w' = w.sentOn c len := by
      clear hkeeps hist hsteady hothers hwatched
      obtain ⟨⟨_, p, k, _, _, _, _⟩, _⟩ := w
      subst hc
      simp only at hlive hpcb
      have hbuf : 0 < c.buf.length := by omega
      cases hclient : c.clientClosed with
      | false =>
        have hactive := hpcb.mpr hclient
        by_cases hall : len = c.buf.length
        · simp [performJob, handleJob, clientSocksSendHandlerDone, senderSend, client, setClient,
            socks, setSocks, tcpRecved, pcb, setPcb, assert, World.sentOn, hlive, hsocks, hup,
            hclient, hactive, hall, hbuf]
        · have hlt : len < c.buf.length := by omega
          have hrest : 0 < c.buf.length - len := by omega
          simp [performJob, handleJob, clientSocksSendHandlerDone, senderSend, client, setClient,
            socks, setSocks, tcpRecved, pcb, setPcb, assert, World.sentOn, hlive, hsocks, hup,
            hclient, hactive, hpos, hlt, hrest, hbuf, hle]
      | true =>
        have hlt : len < c.buf.length := by
          have : len ≠ c.buf.length := fun h => hend ⟨h, hclient⟩
          omega
        have hrest : 0 < c.buf.length - len := by omega
        simp [performJob, handleJob, clientSocksSendHandlerDone, senderSend, client, setClient,
          socks, setSocks, assert, World.sentOn, hlive, hsocks, hup, hclient, hpos, hlt, hrest,
          hbuf, hle]
    exact hrun.mono fun _ _ heq => heq ▸ hkeeps

theorem run_recvDone {data : List UInt8} (he : jobEnabled w.socks (.recvDone data) = true) :
    Returns (do performJob (.recvDone data); handleJob (.recvDone data)) w
      fun _ w' => Keeps w w' := by
  obtain ⟨⟨⟨hlive, hreceiving⟩, hpos⟩, hsize⟩ : ((w.socks.live = true ∧ w.socks.receiving = true) ∧
      0 < data.length) ∧ data.length ≤ clientSocksRecvBufSize := by
    simpa only [jobEnabled, Bool.and_eq_true, decide_eq_true_eq] using he
  obtain ⟨c, hc, hsocks⟩ := h.of_live hlive
  obtain ⟨hs, hr, hw, hwatched⟩ := h.alive c hc
  have hup : c.socksUp = true := by
    cases hup : c.socksUp with
    | true => rfl
    | false =>
      rw [(hs.down.notUp hup).2.2.2] at hreceiving
      cases hreceiving
  obtain ⟨r, hrecv⟩ := Option.isSome_iff_exists.mp (hs.linked.recv.trans hup)
  have hnone : r.buf = none := hs.down.idle r hrecv hreceiving
  have hwritten : w.pcb.written <+: w.socks.received ++ data :=
    h.history.written.trans (List.prefix_append _ _)
  have hopened : w.socks.live = false → False := by simp [hlive]
  simp only [performJob, handleJob, clientSocksRecvHandlerDone, socks, setSocks, client, socksRecv,
    assert, returns_bind, returns_fetch, returns_modify, returns_require]
  refine ⟨_, if_pos hlive, _, if_pos hlive, hpos, hsize, c, hc, hsocks, hup, r, hrecv, hnone, ?_⟩
  split
  · rename_i hclient
    rw [returns_pure]
    refine ⟨⟨⟨h.history.sent, hwritten, h.history.acked, ?_, fun hgone => (hopened hgone).elim⟩, ?_,
      fun hgone => ?_⟩, rfl, rfl⟩
    · exact fun hclosed => (h.history.closed hclosed).imp_right fun hgone => (hopened hgone.1).elim
    · intro c' hc'
      obtain rfl : c = c' := Option.some_inj.mp (hc.symm.trans hc')
      refine ⟨⟨?_, ?_, ⟨?_, ?_, ?_, by rintro _ _ ⟨⟩⟩⟩, ?_, hw, hwatched.dead, hwatched.killed⟩
      · exact { hs.linked with }
      · exact { hs.up with }
      · simp [hup]
      · simp [hclient]
      · simp [hclient]
      · simp [Receiving, hclient]
    · exact absurd (hc.symm.trans hgone) (by simp)
  · rename_i hclient
    have hopen : c.clientClosed = false := by simpa using hclient
    simp only [setClient, client, returns_bind, returns_fetch, returns_modify]
    refine ⟨c, hc, ?_⟩
    have q : Queueing { w with
        client := some { c with
          recv := some { r with buf := some data, sent := 0, waiting := false } }
        socks := { w.socks with receiving := false, received := w.socks.received ++ data } }
        { c with recv := some { r with buf := some data, sent := 0, waiting := false } }
        { r with buf := some data, sent := 0, waiting := false } := by
      refine ⟨rfl, hopen, rfl, ⟨?_, ?_, ?_⟩, { hwatched with }, ?_, ?_⟩
      · exact { hs.linked with recv := hup.symm }
      · exact { hs.up with }
      · refine ⟨by simp [hup], ?_, ?_, by rintro _ _ ⟨⟩⟩
        · rintro _ ⟨⟩ _
          have hbytes := hs.down.bytes r hrecv hopen
          simp only [SocksRecv.unsent, hnone, Option.getD_none, List.drop_nil, List.append_nil]
            at hbytes
          simp [SocksRecv.unsent, hbytes]
        · rintro _ ⟨⟩ _
          exact hs.down.pending r hrecv hopen
      · refine ⟨h.history.sent, hwritten, h.history.acked, ?_, fun hgone => (hopened hgone).elim⟩
        exact fun hclosed =>
          (h.history.closed hclosed).imp_right fun hgone => (hopened hgone.1).elim
      · simpa [World.others, hc] using hn
    refine (returns_clientSocksRecvSendOut q rfl hpos hsize rfl rfl).mono fun ok u hend => ?_
    cases ok with
    | false =>
      simp only [Bool.not_false, if_true, returns_pure]
      obtain ⟨hkeeps, -⟩ : Keeps _ u ∧ u.pcb.state ≠ .active := hend
      exact ⟨hkeeps.inv, hkeeps.others.trans (by simp [World.others, hc]), hkeeps.dead⟩
    | true =>
      obtain ⟨r', q', hq, husocks, hudead, huothers⟩ := hend
      have hothers : u.others = w.others := huothers.trans (by simp [World.others, hc])
      have hdead : u.dead.isSome = w.dead.isSome := by rw [hudead]
      simp only [Bool.not_true, Bool.false_eq_true, if_false, returns_bind, returns_fetch]
      refine ⟨_, q'.client, r', rfl, ?_⟩
      split
      · rename_i hempty
        refine returns_clientSocksRecvInitiate q' hempty hsocks (by rw [husocks]) ?_
        exact ⟨(q'.startRecv hempty).inv hq fun _ _ => rfl, hothers, hdead⟩
      · rename_i hfull
        rw [returns_pure]
        exact ⟨q'.inv hq fun hempty => absurd hempty hfull, hothers, hdead⟩

theorem run_job {j : Job} (he : jobEnabled w.socks j = true) :
    Returns (do performJob j; handleJob j) w fun _ w' => Keeps w w' := by
  cases j with
  | event e =>
    by_cases hup : e = .up
    · rw [hup] at he ⊢
      exact run_up h hn he
    · exact run_error h hn hup he
  | sendDone len => exact run_sendDone h hn he
  | recvDone data => exact run_recvDone h hn he

end Events

theorem Inv.setNet (h : Inv k) (net : Net) : Inv { k with net := net } := by
  refine ⟨{ h.history with }, fun c hc => ?_, fun hc => ?_⟩
  · obtain ⟨hs, hr, hw, hwatched⟩ := h.alive c hc
    exact ⟨⟨{ hs.linked with }, { hs.up with }, { hs.down with }⟩, hr, hw, { hwatched with }⟩
  · exact { h.gone hc with }

/-- Only the variable of the waiting callback changes. -/
theorem Inv.setDead (h : Inv k) (hc : k.client = some c) {b : Bool} {d : Option Bool}
    (hopen : c.clientClosed = false → d = ({ c with deadClient := b } : Client).dead)
    (hclosed : c.clientClosed = true → d ≠ some false) :
    Inv { k with client := some { c with deadClient := b }, dead := d } := by
  obtain ⟨hs, hr, hw, -⟩ := h.alive c hc
  refine ⟨{ h.history with }, ?_, by rintro ⟨⟩⟩
  rintro _ ⟨⟩
  exact ⟨⟨{ hs.linked with }, { hs.up with }, { hs.down with }⟩, hr, ⟨hw.client, hw.socks⟩, hopen,
    hclosed⟩

theorem Inv.clearDead (h : Inv k) (hclosed : k.pcb.state ≠ .active) :
    Inv { k with dead := none } := by
  refine ⟨{ h.history with }, fun c hc => ?_, fun hc => ?_⟩
  · obtain ⟨hs, hr, hw, -⟩ := h.alive c hc
    refine ⟨⟨{ hs.linked with }, { hs.up with }, { hs.down with }⟩, hr, hw, ?_, fun _ => by simp⟩
    exact fun hopen => absurd (hs.linked.pcb.mpr hopen) hclosed
  · exact { h.gone hc with killed := by simp }

/-- The variable of a waiting callback is set exactly when the pcb is gone. -/
theorem Inv.killed_iff (h : Inv k) (hsome : k.dead.isSome = true) :
    k.dead = some true ↔ k.pcb.state ≠ .active := by
  constructor
  · intro hkilled hactive
    obtain ⟨c, hc, hopen⟩ := h.of_active hactive
    have hdead := (h.alive c hc).2.2.2.dead hopen
    rw [hkilled, Client.dead] at hdead
    split at hdead <;> simp at hdead
  · intro hgone
    have hne : k.dead ≠ some false := by
      cases hc : k.client with
      | none => exact (h.gone hc).killed
      | some c =>
        obtain ⟨hs, -, -, hwatched⟩ := h.alive c hc
        exact hwatched.killed (by simpa using mt hs.linked.pcb.mpr hgone)
    obtain ⟨b, hb⟩ := Option.isSome_iff_exists.mp hsome
    cases b with
    | true => exact hb
    | false => exact absurd hb hne

/-- Jobs of the SOCKS connection, run inside a callback of lwIP, leave the connection in order, and
the callback learns whether the pcb is gone. -/
theorem returns_syncCommit (jobs : List SocksJob) (h : Inv w.toConn) (hn : 0 ≤ w.others)
    (hdead : w.dead = none) (hactive : w.pcb.state = .active) :
    Returns (syncCommit jobs) w fun killed w' =>
      Keeps w w' ∧ (killed = true ↔ w'.pcb.state ≠ .active) := by
  obtain ⟨c, hc, hopen⟩ := h.of_active hactive
  simp only [syncCommit, client, setClient, returns_bind, returns_fetch, returns_modify]
  refine ⟨c, hc, c, hc, ?_⟩
  have hloop : Returns (jobs.forM fun j => do
      if jobEnabled (← get).socks j.job then
        runJob j) { w with client := some { c with deadClient := true }, dead := some false }
      fun _ u => Inv u.toConn ∧ u.others = w.others ∧ u.dead.isSome = true := by
    refine returns_forM (fun j _ u hu => ?_)
      ⟨h.setDead hc (fun _ => rfl) (by simp [hopen]), ?_, rfl⟩
    · obtain ⟨hinv, hothers, hsome⟩ := hu
      simp only [returns_bind, returns_get]
      split
      · rename_i he
        simp only [runJob, returns_bind, returns_modify]
        have hjob := run_job (w := { u with net := j.net }) (hinv.setNet j.net)
          (show 0 ≤ u.others from hothers ▸ hn) he
        rw [returns_bind] at hjob
        refine hjob.mono fun _ v hv => hv.mono fun _ v hv => ?_
        exact ⟨hv.inv, hv.others.trans hothers, hv.dead.trans hsome⟩
      · rw [returns_pure]
        exact ⟨hinv, hothers, hsome⟩
    · simp [World.others, hc]
  refine hloop.mono fun _ u hu => ?_
  obtain ⟨hinv, hothers, hsome⟩ := hu
  have hkilled : u.dead = some true ↔ u.pcb.state ≠ .active := hinv.killed_iff hsome
  simp only [returns_get]
  by_cases hgone : u.dead = some true
  · simp only [hgone, not_true_eq_false, if_false, returns_bind, returns_pure, returns_modify,
      decide_true, true_iff]
    exact ⟨⟨hinv.clearDead (hkilled.mp hgone), hothers, by simp [hdead]⟩, hkilled.mp hgone⟩
  · have hactive : u.pcb.state = .active := not_not.mp (mt hkilled.mpr hgone)
    obtain ⟨c', hc', hopen'⟩ := hinv.of_active hactive
    simp only [hgone, not_false_eq_true, if_true, returns_bind, returns_fetch, returns_modify,
      returns_pure, decide_false]
    refine ⟨c', hc', c', hc', ⟨?_, ?_, by simp [hdead]⟩, by simp [hactive]⟩
    · exact hinv.setDead hc' (fun _ => rfl) (by simp)
    · simpa [World.others, hc'] using hothers

theorem Keeps.dead_none {w w' : World} (hk : Keeps w w') (hdead : w.dead = none) :
    w'.dead = none := by
  simpa [hdead] using hk.dead

/-- `data` was copied to the buffer, and the send interface is busy with `sending`. -/
def World.took (w : World) (c : Client) (data : List UInt8) (sending : Option Nat) : World :=
  { w with
    client := some { c with buf := c.buf ++ data }
    pcb.received := w.pcb.received ++ data
    socks.sending := sending }

/-- The receive callback is registered only while SOCKS is open. -/
theorem Inv.socks_open (h : Inv k) (hc : k.client = some c) (hopen : c.clientClosed = false)
    (hrecvFn : k.pcb.recvFn = true) : c.socksClosed = false := by
  obtain ⟨hs, -, hw, -⟩ := h.alive c hc
  cases hsocks : c.socksClosed with
  | false => rfl
  | true =>
    obtain ⟨-, r, hrecv, -⟩ := hw.socks hsocks
    have hup : c.socksUp = true := by simpa [hrecv] using hs.linked.recv.symm
    have hnull := hs.linked.recvFn hopen
    rw [hrecvFn, hsocks, hup] at hnull
    cases hnull

theorem Inv.took (h : Inv w.toConn) (hc : w.client = some c) (hopen : c.clientClosed = false)
    (hsocks : c.socksClosed = false) {data : List UInt8}
    (hroom : c.buf.length + data.length ≤ tcpWnd) {sending : Option Nat}
    (hidle : sending = none → c.socksUp = true → c.buf ++ data = [])
    (hbusy : ∀ len, sending = some len →
      c.socksUp = true ∧ 0 < len ∧ len ≤ (c.buf ++ data).length) :
    Keeps w (w.took c data sending) := by
  obtain ⟨hs, hr, hw, hwatched⟩ := h.alive c hc
  have hactive := hs.linked.pcb.mpr hopen
  have hlive : w.socks.live = true := by simpa [hsocks] using hs.linked.socks
  have hbytes : w.pcb.received ++ data = w.socks.sent ++ (c.buf ++ data) := by
    rw [hs.up.bytes, List.append_assoc]
  refine ⟨⟨⟨⟨_, hbytes.symm⟩, h.history.written, h.history.acked, h.history.closed, ?_⟩, ?_,
    by rintro ⟨⟩⟩, by simp [World.others, World.took, hc], rfl⟩
  · intro hgone
    rw [show w.socks.live = false from hgone] at hlive
    cases hlive
  · rintro _ ⟨⟩
    refine ⟨⟨?_, ⟨hbytes, ?_, ?_, fun _ => hidle, hbusy⟩, ?_⟩, hr, ⟨?_, hw.socks⟩, hwatched.dead,
      hwatched.killed⟩
    · exact { hs.linked with }
    · simpa using hroom
    · intro _ _
      have hwindow := hs.up.window hopen hsocks
      simp only [World.took, List.length_append]
      omega
    · exact { hs.down with }
    · intro hclosed
      rw [show c.clientClosed = true from hclosed] at hopen
      cases hopen

/-- What `client_murder` leaves. -/
def World.murder (w : World) (c : Client) : World :=
  { w with
    client := none
    pcb := if c.clientClosed then w.pcb else (w.closePcb .aborted).pcb
    socks := if c.socksClosed then w.socks else w.freeSocks.socks
    listed := false
    murdered := true
    numClients := w.numClients - 1 }

theorem murder_pcb (w : World) (c : Client) :
    (w.murder c).pcb.received = w.pcb.received ∧ (w.murder c).pcb.written = w.pcb.written ∧
      (w.murder c).pcb.acked = w.pcb.acked ∧ (w.murder c).pcb.fin = w.pcb.fin := by
  cases hclient : c.clientClosed <;> simp [World.murder, World.closePcb, hclient]

theorem murder_socks (w : World) (c : Client) :
    (w.murder c).socks.sent = w.socks.sent ∧ (w.murder c).socks.received = w.socks.received := by
  cases hsocks : c.socksClosed <;> simp [World.murder, World.freeSocks, hsocks]

/-- What a callback of lwIP leaves: the pcb is gone exactly if it says so. -/
def CallbackEnd (w : World) (err : ErrT) (w' : World) : Prop :=
  Keeps w w' ∧ (err = .abrt ↔ w'.pcb.state ≠ .active)

section Callbacks

variable (h : Inv w.toConn) (hn : 0 ≤ w.others) (hdead : w.dead = none)
include h hn hdead

/-- lwIP hands over data: there is always room for it. -/
theorem returns_clientRecvFunc {data : List UInt8} {jobs : List SocksJob}
    (he : enabled w.toConn (.recv (some data) jobs) = true) :
    Returns (clientRecvFunc (some data) jobs) w fun err w' =>
      CallbackEnd w err w' ∧ err ≠ .mem := by
  obtain ⟨⟨⟨hactive, hrecvFn⟩, hpos⟩, hwnd⟩ : ((w.pcb.state = .active ∧ w.pcb.recvFn = true) ∧
      0 < data.length) ∧ w.pcb.received.length - w.pcb.recved + data.length ≤ tcpWnd := by
    simpa only [enabled, Bool.and_eq_true, decide_eq_true_eq] using he
  obtain ⟨c, hc, hopen⟩ := h.of_active hactive
  have hsocks := h.socks_open hc hopen hrecvFn
  obtain ⟨hs, -, -, -⟩ := h.alive c hc
  have hwindow := hs.up.window hopen hsocks
  have hroom : c.buf.length + data.length ≤ tcpWnd := by omega
  have hlive : w.socks.live = true := by simpa [hsocks] using hs.linked.socks
  simp only [clientRecvFunc, pbufCopyPartial, client, setClient, pcb, setPcb, assert, returns_bind,
    returns_fetch, returns_require]
  refine ⟨c, hc, hopen, hpos, c, hc, ?_⟩
  rw [if_neg (by omega)]
  simp only [returns_bind, returns_fetch, returns_modify]
  refine ⟨c, hc, _, if_pos hactive, c, hc, _, if_pos hactive, _, rfl, ?_⟩
  split
  · rename_i hfirst
    obtain ⟨hlen, hup⟩ : (c.buf ++ data).length = data.length ∧ c.socksUp = true := hfirst
    have hempty : c.buf.length = 0 := by simpa using hlen
    have hsending : w.socks.sending = none := by
      cases hsending : w.socks.sending with
      | none => rfl
      | some len =>
        have := hs.up.busy len hsending
        omega
    have htook : Keeps w (w.took c data (some (c.buf ++ data).length)) := by
      refine h.took hc hopen hsocks hroom (by rintro ⟨⟩) ?_
      rintro _ ⟨⟩
      exact ⟨hup, by omega, Nat.le_refl _⟩
    simp only [clientSendToSocks, senderSend, client, socks, setSocks, assert, returns_bind,
      returns_fetch, returns_require, returns_modify]
    refine ⟨hsocks, _, rfl, hsocks, hup, by rw [hlen]; exact hpos, _, if_pos hlive,
      by rw [hlen]; exact hpos, hsending, _, if_pos hlive, ?_⟩
    refine (returns_syncCommit jobs htook.inv (htook.others ▸ hn) hdead hactive).mono
      fun killed u hu => ?_
    obtain ⟨hkeeps, hkilled⟩ := hu
    have hall := htook.trans hkeeps
    cases killed with
    | true =>
      simp only [if_true, returns_pure]
      exact ⟨⟨hall, by simpa using hkilled⟩, by simp⟩
    | false =>
      simp only [Bool.false_eq_true, if_false, returns_pure]
      exact ⟨⟨hall, by simpa using hkilled⟩, by simp⟩
  · rename_i hfirst
    rw [returns_pure]
    have htook : Keeps w (w.took c data w.socks.sending) := by
      refine h.took hc hopen hsocks hroom ?_ ?_
      · intro hidle hup
        have hnil : c.buf = [] := hs.up.idle hsocks hidle hup
        exact absurd ⟨by simp [hnil], hup⟩ hfirst
      · intro len hsending
        obtain ⟨hup, hlen, hle⟩ := hs.up.busy len hsending
        exact ⟨hup, hlen, by rw [List.length_append]; omega⟩
    exact ⟨⟨htook, by simp [hactive]⟩, by simp⟩

/-- The peer acknowledges data. -/
theorem returns_clientSentFunc {len : Nat} {jobs : List SocksJob}
    (he : enabled w.toConn (.sent len jobs) = true) :
    Returns (clientSentFunc len jobs) { w with pcb.acked := w.pcb.acked + len }
      (CallbackEnd w) := by
  obtain ⟨⟨⟨hactive, hsentFn⟩, hpos⟩, hacked⟩ : ((w.pcb.state = .active ∧ w.pcb.sentFn = true) ∧
      0 < len) ∧ w.pcb.acked + len ≤ w.pcb.written.length := by
    simpa only [enabled, Bool.and_eq_true, decide_eq_true_eq] using he
  obtain ⟨c, hc, hopen⟩ := h.of_active hactive
  obtain ⟨hs, hr, hw, hwatched⟩ := h.alive c hc
  have hup : c.socksUp = true := (hs.linked.sentFn hopen).symm.trans hsentFn
  obtain ⟨r, hrecv⟩ := Option.isSome_iff_exists.mp (hs.linked.recv.trans hup)
  have hpending := hs.down.pending r hrecv hopen
  have hle : len ≤ r.tcpPending := by omega
  have q : Queueing { w with
      client := some { c with recv := some { r with tcpPending := r.tcpPending - len } }
      pcb.acked := w.pcb.acked + len }
      { c with recv := some { r with tcpPending := r.tcpPending - len } }
      { r with tcpPending := r.tcpPending - len } := by
    refine ⟨rfl, hopen, rfl, ⟨?_, ?_, ⟨by simp [hup], ?_, ?_, ?_⟩⟩,
      { hwatched with }, ?_, ?_⟩
    · exact { hs.linked with recv := hup.symm }
    · exact { hs.up with }
    · rintro _ ⟨⟩ _
      exact hs.down.bytes r hrecv hopen
    · rintro _ ⟨⟩ _
      show w.pcb.acked + len + (r.tcpPending - len) = w.pcb.written.length
      omega
    · rintro _ ⟨⟩ hreceiving
      exact hs.down.idle r hrecv hreceiving
    · refine ⟨h.history.sent, h.history.written, hacked, ?_, h.history.freed⟩
      intro hclosed
      rw [show w.pcb.state = .closed from hclosed] at hactive
      cases hactive
    · simpa [World.others, hc] using hn
  simp only [clientSentFunc, client, setClient, socksRecv, assert, returns_bind, returns_fetch,
    returns_require, returns_modify]
  refine ⟨c, hc, hopen, hup, hpos, r, hrecv, hle, c, hc, ?_⟩
  rcases hr r hrecv hopen with ⟨hnone, hbusy⟩ | ⟨b, hb, hwaiting, hsent, hsize, -⟩
  · -- nothing is buffered
    rw [if_neg (by simp [hnone])]
    split
    · rename_i hend
      obtain ⟨hsocks, hnothing⟩ : c.socksClosed = true ∧ r.tcpPending - len = 0 := hend
      have hlive : w.socks.live = false := by simpa [hsocks] using hs.linked.socks
      simp only [returns_bind, returns_pure]
      refine returns_clientFreeClient rfl hup.symm (numClients_pos rfl q.others) hopen
        (hwatched.dead hopen) hs.linked.socks hactive ?_
      have hdelivered : Delivered { w with pcb.acked := w.pcb.acked + len }.toConn := by
        have hbytes := hs.down.bytes r hrecv hopen
        refine ⟨?_, show w.pcb.acked + len = w.pcb.written.length by omega⟩
        simp [hbytes, SocksRecv.unsent, hnone]
      have hk := keeps_clientFreed q.client q.steady q.history (.inr ⟨hlive, hdelivered⟩)
      refine ⟨⟨hk.inv, hk.others.trans ?_, hk.dead⟩, by simp [clientFreed_state]⟩
      simp [World.others, hc]
    · rename_i hend
      rw [returns_pure]
      refine ⟨⟨⟨q.history, ?_, by rintro ⟨⟩⟩, by simp [World.others, hc], rfl⟩, by simp [hactive]⟩
      rintro _ ⟨⟩
      refine ⟨q.steady, ?_, ⟨?_, ?_⟩, q.watched⟩
      · rintro _ ⟨⟩ _
        exact .inl ⟨hnone, hbusy⟩
      · intro hclosed
        rw [show c.clientClosed = true from hclosed] at hopen
        cases hopen
      · intro hsocks
        refine ⟨hopen, _, rfl, .inr (Nat.pos_of_ne_zero fun hzero => hend ⟨hsocks, hzero⟩)⟩
  · -- the buffer was waiting for this
    have hreceiving : w.socks.receiving = false := by
      cases hreceiving : w.socks.receiving with
      | false => rfl
      | true =>
        rw [hs.down.idle r hrecv hreceiving] at hb
        cases hb
    have q' := q.setRecv (t := { r with tcpPending := r.tcpPending - len, waiting := false })
      rfl rfl (by simp [hreceiving])
    have hlen : 0 < (r.buf.getD []).length := by
      rw [hb, Option.getD_some]
      omega
    rw [if_pos hlen]
    simp only [returns_bind, returns_fetch, returns_require, returns_modify]
    refine ⟨hwaiting, by simpa [hb] using hsent, _, rfl, ?_⟩
    refine (returns_clientSocksRecvSendOut q' hb hsent hsize rfl hreceiving).mono
      fun ok u hend => ?_
    cases ok with
    | false =>
      obtain ⟨hkeeps, hgone⟩ : Keeps _ u ∧ u.pcb.state ≠ .active := hend
      simp only [Bool.not_false, if_true, returns_pure]
      exact ⟨⟨hkeeps.inv, hkeeps.others.trans (by simp [World.others, hc]), hkeeps.dead⟩,
        by simpa using hgone⟩
    | true =>
      obtain ⟨r', q'', hq, husocks, hudead, huothers⟩ := hend
      have hothers : u.others = w.others := huothers.trans (by simp [World.others, hc])
      have hactive' := q''.steady.linked.pcb.mpr q''.opened
      simp only [Bool.not_true, Bool.false_eq_true, if_false, returns_bind, returns_fetch,
        returns_require]
      refine ⟨_, q''.client, r', rfl, hq.1, ?_⟩
      split
      · rename_i hempty
        obtain ⟨hempty, hsocks⟩ : r'.buf = none ∧ c.socksClosed = false := hempty
        have hinv := (q''.startRecv hempty).inv hq fun _ _ => rfl
        simp only [returns_bind]
        refine returns_clientSocksRecvInitiate q'' hempty hsocks
          (by rw [husocks]; exact hreceiving) ?_
        have hstart : Keeps w { u with socks.receiving := true } :=
          ⟨hinv, hothers, congrArg Option.isSome hudead⟩
        refine (returns_syncCommit jobs hinv (hothers ▸ hn) (hudead.trans hdead) hactive').mono
          fun killed v hv => ?_
        obtain ⟨hkeeps, hkilled⟩ := hv
        cases killed with
        | true =>
          simp only [if_true, returns_pure]
          exact ⟨hstart.trans hkeeps, by simpa using hkilled⟩
        | false =>
          simp only [Bool.false_eq_true, if_false, returns_pure]
          exact ⟨hstart.trans hkeeps, by simpa using hkilled⟩
      · rename_i hfull
        rw [returns_pure]
        refine ⟨⟨q''.inv hq fun hempty hsocks => absurd ⟨hempty, hsocks⟩ hfull, hothers, ?_⟩,
          by simp [hactive']⟩
        exact congrArg Option.isSome hudead

/-- `terminate` ends a client, whatever it is waiting for. -/
theorem handle_murder (he : enabled w.toConn .murder = true) :
    Returns (handle .murder) w fun _ w' => Keeps w w' := by
  obtain ⟨c, hc⟩ : ∃ c, w.client = some c := by
    cases hc : w.client with
    | none =>
      rw [enabled, (h.gone hc).listed] at he
      cases he
    | some c => exact ⟨c, rfl⟩
  obtain ⟨hs, -, -, hwatched⟩ := h.alive c hc
  have hnum := numClients_pos hc hn
  have hkeeps : Keeps w (w.murder c) := by
    obtain ⟨hreceived, hwritten, hacked, hfin⟩ := murder_pcb w c
    obtain ⟨hsent, hdown⟩ := murder_socks w c
    have hlive : (w.murder c).socks.live = false := by
      cases hsocks : c.socksClosed with
      | true => simpa [World.murder, hsocks] using hs.linked.socks
      | false => simp [World.murder, World.freeSocks, hsocks]
    have hstate : (w.murder c).pcb.state ≠ .active := by
      cases hclient : c.clientClosed with
      | true => simpa [World.murder, hclient] using hs.linked.pcb
      | false => simp [World.murder, World.closePcb, hclient]
    have hclosed : (w.murder c).pcb.state = .closed → w.pcb.state = .closed := by
      cases hclient : c.clientClosed <;> simp [World.murder, World.closePcb, hclient]
    refine ⟨⟨⟨?_, ?_, ?_, fun h' => ?_, fun _ => .inr (.inl rfl)⟩, by rintro _ ⟨⟩,
      fun _ => ⟨rfl, hstate, hlive, ?_⟩⟩, by simp [World.others, World.murder, hc], rfl⟩
    · rw [hsent, hreceived]
      exact h.history.sent
    · rw [hwritten, hdown]
      exact h.history.written
    · rw [hacked, hwritten]
      exact h.history.acked
    · rw [hfin, hwritten, hdown, hacked]
      exact (h.history.closed (hclosed h')).imp_right fun hdone => ⟨hlive, hdone.2⟩
    · rw [show (w.murder c).dead = none from hdead]
      simp
  have hrun : Returns (handle .murder) w fun _ w' => w' = w.murder c := by
    have hpcb := hs.linked.pcb
    have hlive := hs.linked.socks
    have hd := hwatched.dead
    rw [show w.toConn.dead = none from hdead] at hd
    obtain ⟨⟨_, p, k, _, _, _, _⟩, _⟩ := w
    subst hc
    simp only at hpcb hlive hnum
    cases hclient : c.clientClosed with
    | true =>
      cases hsocks : c.socksClosed with
      | true =>
        simp [handle, clientMurder, client, clientDealloc, assert, World.murder, hclient, hsocks,
          hnum]
      | false =>
        have hk : k.live = true := by simpa [hsocks] using hlive
        simp [handle, clientMurder, client, setClient, bSocksClientFree, socks, setSocks,
          clientDealloc, assert, World.murder, World.freeSocks, hclient, hsocks, hk, hnum]
    | false =>
      have hp := hpcb.mpr hclient
      have hdc : c.deadClient = false := by
        have := hd hclient
        unfold Client.dead at this
        simpa using this
      cases hsocks : c.socksClosed with
      | true =>
        simp [handle, clientMurder, client, setClient, removeCallbacks, tcpAbort, pcb, setPcb,
          deadKill, clientDealloc, assert, World.murder, World.closePcb, hclient, hsocks, hnum, hp,
          hdc]
      | false =>
        have hk : k.live = true := by simpa [hsocks] using hlive
        simp [handle, clientMurder, client, setClient, removeCallbacks, tcpAbort, pcb, setPcb,
          deadKill, bSocksClientFree, socks, setSocks, clientDealloc, assert, World.murder,
          World.closePcb, World.freeSocks, hclient, hsocks, hk, hnum, hp, hdc]
  exact hrun.mono fun _ _ heq => heq ▸ hkeeps

theorem handle_keeps {e : Event} (he : enabled w.toConn e = true) :
    Returns (handle e) w fun _ w' => Keeps w w' := by
  cases e with
  | err => exact handle_err h hn he
  | socks job => exact run_job h hn he
  | sent len jobs =>
    simp only [handle, returned, returns_bind, returns_modify, returns_get, returns_require]
    refine (returns_clientSentFunc h hn hdead he).mono fun err w' hend => ⟨hend.2, hend.1⟩
  | recv p jobs =>
    cases p with
    | none => exact handle_recv_none h hn jobs he
    | some data =>
      have hw : { w with pcb.fin := w.pcb.fin || (some data).isNone } = w := by
        simp
      simp only [handle, returned, returns_bind, returns_modify, returns_get, returns_require]
      rw [hw]
      refine (returns_clientRecvFunc h hn hdead he).mono fun err w' hend => ?_
      exact ⟨hend.1.2, hend.1.1⟩
  | murder => exact handle_murder h hn hdead he

end Callbacks

/-! ### The system -/

/-- Nothing has happened on a new connection. -/
theorem inv_accepted (net : Net) :
    Inv ({ newConn net with
      client := some ⟨false, [], false, false, none, false⟩
      pcb := { newPcb with errFn := true, recvFn := true }
      socks := ⟨true, false, false, none, false, [], []⟩
      listed := true } : Conn) := by
  refine ⟨⟨List.prefix_rfl, List.prefix_rfl, Nat.le_refl _, by rintro ⟨⟩, by rintro ⟨⟩⟩, ?_,
    by rintro ⟨⟩⟩
  rintro _ ⟨⟩
  refine ⟨⟨⟨rfl, by simp [newPcb], rfl, rfl, rfl, fun _ => rfl, fun _ => rfl, fun _ => rfl⟩,
    ⟨rfl, Nat.zero_le _, fun _ _ => rfl, fun _ _ _ => rfl, by rintro _ ⟨⟩⟩,
    ⟨fun _ => ⟨rfl, rfl, rfl, rfl⟩, by rintro _ ⟨⟩, by rintro _ ⟨⟩, by rintro _ ⟨⟩⟩⟩,
    by rintro _ ⟨⟩, ⟨by rintro ⟨⟩, by rintro ⟨⟩⟩, ⟨fun _ => rfl, by rintro ⟨⟩⟩⟩

/-- What is settled between the actions. -/
structure Settled (k : Conn) : Prop where
  inv : Inv k
  dead : k.dead = none

theorem returns_accept (started : Bool) (jobs : List SocksJob) (net : Net) {num : Int}
    (hnum : 0 ≤ num) :
    Returns (accept started jobs) ⟨newConn net, num⟩ fun _ w' =>
      Settled w'.toConn ∧ w'.others = num := by
  cases started with
  | false =>
    simp only [accept, listenerAcceptFunc, tcpAbort, pcb, setPcb, if_true, returns_bind,
      returns_pure, returns_fetch, returns_modify]
    refine ⟨_, rfl, _, rfl, ⟨⟨⟨List.prefix_rfl, List.prefix_rfl, Nat.le_refl _, by rintro ⟨⟩, ?_⟩,
      by rintro _ ⟨⟩, fun _ => ⟨rfl, by simp, rfl, by simp [newConn]⟩⟩, rfl⟩, ?_⟩
    · exact fun _ => .inr (.inr rfl)
    · simp [World.others, newConn]
  | true =>
    simp only [accept, listenerAcceptFunc, assert, Bool.true_eq_false, if_false, returns_bind,
      returns_modify, returns_get, returns_require]
    refine ⟨hnum, ?_⟩
    refine (returns_syncCommit jobs (inv_accepted net) ?_ rfl rfl).mono fun killed w' hend => ?_
    · simpa [World.others] using hnum
    · obtain ⟨hkeeps, hkilled⟩ := hend
      have hothers : w'.others = num := hkeeps.others.trans (by simp [World.others])
      have hsettled : Settled w'.toConn := ⟨hkeeps.inv, hkeeps.dead_none rfl⟩
      cases killed with
      | true =>
        simp only [if_true, returns_pure, returned, returns_bind, returns_get, returns_require]
        exact ⟨by simpa using hkilled, hsettled, hothers⟩
      | false =>
        simp only [Bool.false_eq_true, if_false, returns_pure, returned, returns_bind, returns_get,
          returns_require]
        exact ⟨by simpa using hkilled, hsettled, hothers⟩

/-- Clients in memory. -/
def System.alive (s : System) : Nat := s.conns.countP fun k => k.client.isSome

structure SystemInv (s : System) : Prop where
  settled : ∀ k ∈ s.conns, Settled k
  count : s.numClients = s.alive

theorem Settled.setNet (h : Settled k) (net : Net) : Settled { k with net := net } :=
  ⟨h.inv.setNet net, h.dead⟩

theorem numClients_eq (w : World) : w.numClients = w.others + if w.client.isSome then 1 else 0 := by
  rw [World.others]
  omega

/-- The clients other than that of one connection. -/
theorem SystemInv.others_eq {s : System} (h : SystemInv s) {l r : List Conn}
    (hconns : s.conns = l ++ k :: r) (net : Net) :
    (⟨{ k with net := net }, s.numClients⟩ : World).others =
      ((l ++ r).countP fun k => k.client.isSome : Nat) := by
  rw [World.others, h.count, System.alive, hconns]
  simp only [List.countP_append, List.countP_cons]
  split <;> omega

theorem step_ok {s : System} {a : Action} {t : Except Fault System} (h : SystemInv s)
    (hstep : step (.ok s) a = some t) : ∃ s', t = .ok s' ∧ SystemInv s' := by
  cases a with
  | accept started jobs =>
    have hnum : 0 ≤ s.numClients := by
      rw [h.count]
      omega
    obtain ⟨⟨_, w'⟩, hrun, hsettled, hothers⟩ :=
      returns_accept started jobs ⟨[], .ok, .ok⟩ hnum
    cases hstep
    refine ⟨⟨s.conns ++ [w'.toConn], w'.numClients⟩, ?_, ?_, ?_⟩
    · rw [System.call, StateT.run, hrun]
      rfl
    · intro k hk
      rcases List.mem_append.mp hk with hk | hk
      · exact h.settled k hk
      · rw [List.mem_singleton.mp hk]
        exact hsettled
    · have hcount := h.count
      simp only [System.alive, List.countP_append, List.countP_singleton] at hcount ⊢
      rw [numClients_eq w', hothers, hcount]
      split <;> rfl
  | event i net e =>
    obtain ⟨k, hk, hstep⟩ := Option.bind_eq_some_iff.mp hstep
    obtain ⟨l, r, -, hconns, hset⟩ := exists_split_of_getElem? hk
    split at hstep
    · rename_i he
      have hsettled : Settled { k with net := net } :=
        (h.settled k (List.mem_of_getElem? hk)).setNet net
      have hothers := h.others_eq hconns net
      obtain ⟨⟨_, w'⟩, hrun, hkeeps⟩ :=
        handle_keeps hsettled.inv (by rw [hothers]; omega) hsettled.dead he
      cases hstep
      refine ⟨⟨s.conns.set i w'.toConn, w'.numClients⟩, ?_, ?_, ?_⟩
      · rw [System.call, StateT.run, hrun]
        rfl
      · intro k' hk'
        rcases List.mem_or_eq_of_mem_set hk' with hk' | rfl
        · exact h.settled k' hk'
        · exact ⟨hkeeps.inv, hkeeps.dead_none hsettled.dead⟩
      · rw [numClients_eq w', hkeeps.others, hothers, System.alive, hset]
        simp only [List.countP_append, List.countP_cons]
        split <;> omega
    · cases hstep

theorem reach_ok {t : Except Fault System} (h : Reach step anyStep (.ok start) t) :
    ∃ s, t = .ok s ∧ SystemInv s := by
  have hstart : ∃ s, (.ok start : Except Fault System) = .ok s ∧ SystemInv s :=
    ⟨start, rfl, by simp [start], rfl⟩
  refine h.invariant (I := fun t => ∃ s, t = .ok s ∧ SystemInv s) hstart ?_
  rintro _ a t ⟨s, rfl, hs⟩ - hstep
  exact step_ok hs hstep

/-- A client that SOCKS has left while data was still waiting to be acknowledged. -/
def flushing : Conn :=
  ⟨some ⟨false, [3], true, true, some ⟨some [7, 8], 1, true, 1⟩, false⟩,
    ⟨.active, false, true, true, [1, 2, 3], 2, [7], 0, false⟩,
    ⟨false, true, true, none, false, [1, 2], [7, 8]⟩, true, none, false, ⟨[], .ok, .ok⟩⟩

def flushingRun : List Action :=
  [.accept true [], .event 0 ⟨[], .ok, .ok⟩ (.recv (some [1, 2, 3]) []),
    .event 0 ⟨[], .ok, .ok⟩ (.socks (.event .up)), .event 0 ⟨[], .ok, .ok⟩ (.socks (.sendDone 2)),
    .event 0 ⟨[(1, .ok)], .ok, .ok⟩ (.socks (.recvDone [7, 8])),
    .event 0 ⟨[], .ok, .ok⟩ (.socks (.event .errorClosed))]

theorem reach_flushing : Reach step anyStep (.ok start) (.ok ⟨[flushing], 1⟩) :=
  reach_of_run (show run step (.ok start) flushingRun = some _ by decide +kernel)

/-- The same client, when all was acknowledged. -/
def flushed : Conn :=
  ⟨none, ⟨.closed, false, false, false, [1, 2, 3], 2, [7, 8], 2, false⟩,
    ⟨false, true, true, none, false, [1, 2], [7, 8]⟩, false, none, false, ⟨[], .ok, .ok⟩⟩

theorem reach_flushed : Reach step anyStep (.ok start) (.ok ⟨[flushed], 0⟩) :=
  reach_flushing.trans (reach_of_run (show run step (.ok ⟨[flushing], 1⟩)
    [.event 0 ⟨[(5, .ok)], .ok, .ok⟩ (.sent 1 []), .event 0 ⟨[], .ok, .ok⟩ (.sent 1 [])] =
      some _ by decide +kernel))

/-- **No run of the clients comes to a fault**: no assertion fails, no freed client, pcb or SOCKS
connection is used, a callback tells lwIP truly whether the pcb is gone, and the calls between the
closing functions end.  The counter is the number of clients in memory, and nothing can happen any
more to a client that was freed. -/
theorem clients_never_fault {t : Except Fault System} (h : Reach step anyStep (.ok start) t) :
    ∃ s, t = .ok s ∧ s.numClients = s.alive ∧
      ∀ k ∈ s.conns, k.client = none → ∀ e, enabled k e = false := by
  obtain ⟨s, rfl, hs⟩ := reach_ok h
  refine ⟨s, rfl, hs.count, fun k hk hnone e => ?_⟩
  have hgone := (hs.settled k hk).inv.gone hnone
  cases e with
  | recv p jobs => cases p <;> simp [enabled, hgone.pcb]
  | sent len jobs => simp [enabled, hgone.pcb]
  | err => simp [enabled, hgone.pcb]
  | socks job =>
    cases job with
    | event e => cases e <;> simp [enabled, jobEnabled, hgone.socks]
    | sendDone len => simp [enabled, jobEnabled, hgone.socks]
    | recvDone data => simp [enabled, jobEnabled, hgone.socks]
  | murder => simp [enabled, hgone.listed]

theorem clients_never_fault_flushed :
    ∃ s, (.ok ⟨[flushed], 0⟩ : Except Fault System) = .ok s ∧ s.numClients = s.alive ∧
      ∀ k ∈ s.conns, k.client = none → ∀ e, enabled k e = false :=
  clients_never_fault reach_flushed

/-- **Both streams arrive unchanged.**  What SOCKS has sent is the beginning of what came from the
client, and what was queued for the client is the beginning of what came from SOCKS.  Between them
stands just what is in the two buffers, for the second one while the client's side is open. -/
theorem streams_in_order {s : System} (h : Reach step anyStep (.ok start) (.ok s)) {k : Conn}
    (hk : k ∈ s.conns) :
    k.socks.sent <+: k.pcb.received ∧ k.pcb.written <+: k.socks.received ∧
      ∀ c, k.client = some c → k.pcb.received = k.socks.sent ++ c.buf ∧
        ∀ r, c.recv = some r → c.clientClosed = false →
          k.socks.received = k.pcb.written ++ r.unsent := by
  obtain ⟨s', hs', hs⟩ := reach_ok h
  cases hs'
  have hinv := (hs.settled k hk).inv
  refine ⟨hinv.history.sent, hinv.history.written, fun c hc => ?_⟩
  obtain ⟨hsteady, -⟩ := hinv.alive c hc
  exact ⟨hsteady.up.bytes, hsteady.down.bytes⟩

theorem streams_in_order_flushing :
    flushing.socks.sent <+: flushing.pcb.received ∧
      flushing.pcb.written <+: flushing.socks.received :=
  have h := streams_in_order reach_flushing (List.mem_singleton.mpr rfl)
  ⟨h.1, h.2.1⟩

/-- **Flow control.**  While both sides are open, the bytes that lwIP has handed over and that were
not confirmed are those in the buffer, so that whatever the window admits fits in: the callback
never refuses data. -/
theorem window_is_room {s : System} (h : Reach step anyStep (.ok start) (.ok s)) {k : Conn}
    (hk : k ∈ s.conns) :
    (∀ c, k.client = some c → c.clientClosed = false → c.socksClosed = false →
      k.pcb.received.length = k.pcb.recved + c.buf.length ∧ c.buf.length ≤ tcpWnd) ∧
    ∀ data jobs, enabled k (.recv (some data) jobs) = true →
      ∃ r, clientRecvFunc (some data) jobs ⟨k, s.numClients⟩ = .ok r ∧ r.1 ≠ .mem := by
  obtain ⟨s', hs', hs⟩ := reach_ok h
  cases hs'
  have hsettled := hs.settled k hk
  refine ⟨fun c hc hopen hsocks => ?_, fun data jobs he => ?_⟩
  · obtain ⟨hsteady, -⟩ := hsettled.inv.alive c hc
    exact ⟨hsteady.up.window hopen hsocks, hsteady.up.room⟩
  · obtain ⟨l, r, hconns⟩ := List.append_of_mem hk
    have hothers : 0 ≤ (⟨k, s.numClients⟩ : World).others := by
      rw [show (⟨k, s.numClients⟩ : World).others = _ from hs.others_eq hconns k.net]
      omega
    obtain ⟨r, hr, -, hmem⟩ := returns_clientRecvFunc (w := ⟨k, s.numClients⟩) hsettled.inv hothers
      hsettled.dead he
    exact ⟨r, hr, hmem⟩

/-- A client with both sides open and one byte in its buffer. -/
def relaying : Conn :=
  ⟨some ⟨false, [3], true, false, some ⟨none, 0, false, 0⟩, false⟩,
    ⟨.active, true, true, true, [1, 2, 3], 2, [], 0, false⟩,
    ⟨true, true, false, some 1, true, [1, 2], []⟩, true, none, false, ⟨[], .ok, .ok⟩⟩

theorem window_is_room_relaying :
    ∃ r, clientRecvFunc (some [4]) [] ⟨relaying, 1⟩ = .ok r ∧ r.1 ≠ .mem :=
  have hreach : Reach step anyStep (.ok start) (.ok ⟨[relaying], 1⟩) :=
    reach_of_run (show run step (.ok start) (flushingRun.take 4) = some _ by decide +kernel)
  (window_is_room hreach (List.mem_singleton.mpr rfl)).2 [4] [] (by decide +kernel)

/-- **Closing loses nothing.**  A SOCKS connection that did not fail, and was not ended by
`terminate`, is freed only when everything that came from the client has been sent; a client that
did not close itself is closed only when everything that came from SOCKS has been queued and
acknowledged. -/
theorem close_after_all_data {s : System} (h : Reach step anyStep (.ok start) (.ok s)) {k : Conn}
    (hk : k ∈ s.conns) :
    (k.socks.live = false → k.socks.failed = false → k.murdered = false →
      k.socks.sent = k.pcb.received) ∧
    (k.pcb.state = .closed → k.pcb.fin = false →
      k.pcb.written = k.socks.received ∧ k.pcb.acked = k.pcb.written.length) := by
  obtain ⟨s', hs', hs⟩ := reach_ok h
  cases hs'
  have hist := (hs.settled k hk).inv.history
  refine ⟨fun hlive hfailed hmurdered => ?_, fun hclosed hfin => ?_⟩
  · simpa [hfailed, hmurdered] using hist.freed hlive
  · have hdone := hist.closed hclosed
    rw [hfin] at hdone
    exact (hdone.resolve_left (by simp)).2

theorem close_after_all_data_flushed : flushed.pcb.written = flushed.socks.received :=
  ((close_after_all_data reach_flushed (List.mem_singleton.mpr rfl)).2 rfl rfl).1

/-- **No client is forgotten.**  Each client in memory waits for something that can still happen.
With the client's side closed, it is that SOCKS comes up or sends more of the buffer; with the
SOCKS side closed, that the peer acknowledges data; with both open, that SOCKS comes up, that it
receives, or that the peer acknowledges. -/
theorem client_never_stuck {s : System} (h : Reach step anyStep (.ok start) (.ok s)) {k : Conn}
    (hk : k ∈ s.conns) {c : Client} (hc : k.client = some c) :
    (c.clientClosed = true →
      enabled k (.socks (.event .up)) = true ∨ enabled k (.socks (.sendDone 1)) = true) ∧
    (c.socksClosed = true → enabled k (.sent 1 []) = true) ∧
    (c.clientClosed = false → c.socksClosed = false →
      enabled k (.socks (.event .up)) = true ∨ enabled k (.socks (.recvDone [0])) = true ∨
        enabled k (.sent 1 []) = true) := by
  obtain ⟨s', hs', hs⟩ := reach_ok h
  cases hs'
  obtain ⟨hsteady, hr, hw, -⟩ := (hs.settled k hk).inv.alive c hc
  have hlinked := hsteady.linked
  have hacked : ∀ r, c.recv = some r → c.clientClosed = false → 0 < r.tcpPending →
      enabled k (.sent 1 []) = true := by
    intro r hrecv hopen hpending
    have hup : c.socksUp = true := by simpa [hrecv] using hlinked.recv.symm
    have hsum := hsteady.down.pending r hrecv hopen
    have hmore : k.pcb.acked + 1 ≤ k.pcb.written.length := by omega
    simp [enabled, hlinked.pcb.mpr hopen, hlinked.sentFn hopen, hup, hmore]
  refine ⟨fun hclosed => ?_, fun hclosed => ?_, fun hopen hsocks => ?_⟩
  · obtain ⟨hsocks, hbuf⟩ := hw.client hclosed
    have hlive : k.socks.live = true := by simpa [hsocks] using hlinked.socks
    cases hup : c.socksUp with
    | false => exact .inl (by simp [enabled, jobEnabled, hlive, hlinked.up, hup])
    | true =>
      refine .inr ?_
      cases hsending : k.socks.sending with
      | none => exact absurd (hsteady.up.idle hsocks hsending hup) hbuf
      | some len =>
        have hlen : 1 ≤ len := (hsteady.up.busy len hsending).2.1
        simp [enabled, jobEnabled, hlive, hsending, hlen]
  · obtain ⟨hopen, r, hrecv, hleft⟩ := hw.socks hclosed
    refine hacked r hrecv hopen ?_
    rcases hr r hrecv hopen with ⟨hnone, -⟩ | ⟨b, -, -, -, -, hpending⟩
    · simpa [hnone] using hleft
    · exact hpending
  · have hlive : k.socks.live = true := by simpa [hsocks] using hlinked.socks
    cases hup : c.socksUp with
    | false => exact .inl (by simp [enabled, jobEnabled, hlive, hlinked.up, hup])
    | true =>
      obtain ⟨r, hrecv⟩ := Option.isSome_iff_exists.mp (hlinked.recv.trans hup)
      rcases hr r hrecv hopen with ⟨-, hbusy⟩ | ⟨b, -, -, -, -, hpending⟩
      · refine .inr (.inl ?_)
        simp [enabled, jobEnabled, hlive, hbusy hsocks, clientSocksRecvBufSize]
      · exact .inr (.inr (hacked r hrecv hopen hpending))

theorem client_never_stuck_flushing : enabled flushing (.sent 1 []) = true :=
  (client_never_stuck reach_flushing (List.mem_singleton.mpr rfl) rfl).2.1 rfl

end TcpClient
