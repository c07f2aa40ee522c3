/-
The handshake of `BSocksClient`, over every run.

The server's bytes are read as one text, whose meaning is `verdict`; the client gets them in
pieces, with sends, allocations and failures between them.

* `verdict` — what the bytes of the server amount to;
* `Inv` — what was sent and received, in each state of the client; `inv_of_reach`;
* `handshake_exact` — no fault, and the conversation is the one that the protocol asks for;
* `verdict_decides` — the pieces make no difference;
* `handshake_bounded` — how many events there can be.
-/
import ReShadowsocks.SocksClient
import ReShadowsocks.Transition

namespace SocksClient

open Memory Program Transition
open UdpRelay (BAddr)

/-! ### The text of the server -/

inductive Verdict
  /-- The handshake goes on. -/
  | more
  | accept
  | reject
  deriving DecidableEq

/-- The reply to the request. -/
def replyVerdict : Bytes → Verdict
  | ver :: rep :: _ :: atyp :: rest =>
    if ver ≠ socksVersion then .reject
    else if rep ≠ 0 then .reject
    else
      match addrLen atyp with
      | none => .reject
      | some n => if rest.length < n then .more else .accept
  | _ => .more

/-- The reply to username and password, and what follows it. -/
def passwordVerdict : Bytes → Verdict
  | ver :: status :: rest =>
    if ver ≠ 1 then .reject else if status ≠ 0 then .reject else replyVerdict rest
  | _ => .more

/-- What the bytes of the server amount to. -/
def verdict (authInfo : List AuthInfo) : Bytes → Verdict
  | ver :: method :: rest =>
    if ver ≠ socksVersion then .reject
    else
      match authInfo.find? fun a => a.authType = method with
      | .none => .reject
      | some .none => replyVerdict rest
      | some (.password u p) => if FitPacket u p then passwordVerdict rest else .reject
  | _ => .more

def hello (authInfo : List AuthInfo) : Bytes :=
  [socksVersion, UInt8.ofNat authInfo.length] ++ authInfo.map AuthInfo.authType

def request (destAddr : BAddr) : Bytes :=
  [socksVersion, 0x01, 0, destAddr.atyp] ++ destAddr.bytes

theorem length_request (d : BAddr) : (request d).length = 4 + d.bytes.length := by
  simp [request]
  omega

theorem length_hello (authInfo : List AuthInfo) :
    (hello authInfo).length = 2 + authInfo.length := by
  simp [hello]
  omega

theorem length_passwordPacket (u p : Bytes) :
    (passwordPacket u p).length = 1 + 1 + u.length + 1 + p.length := by
  simp [passwordPacket]
  omega

/-- An authentication, as the client and the server say it. -/
inductive Authenticated (authInfo : List AuthInfo) : Bytes → Bytes → Prop
  | none {method : UInt8} : authInfo.find? (fun a => a.authType = method) = some .none →
      Authenticated authInfo [] [socksVersion, method]
  | password {method : UInt8} {u p : Bytes} :
      authInfo.find? (fun a => a.authType = method) = some (.password u p) → FitPacket u p →
      Authenticated authInfo (passwordPacket u p) [socksVersion, method, 1, 0]

variable {authInfo : List AuthInfo} {cl sv rest : Bytes} {args : Args} {c : Client}

theorem verdict_authenticated (h : Authenticated authInfo cl sv) :
    verdict authInfo (sv ++ rest) = replyVerdict rest := by
  cases h with
  | none hfind => simp [verdict, hfind]
  | password hfind hfit => simp [verdict, hfind, hfit, passwordVerdict]

theorem verdict_short (h : rest.length < 2) : verdict authInfo rest = .more := by
  match rest, h with
  | [], _ => rfl
  | [_], _ => rfl

theorem passwordVerdict_short (h : rest.length < 2) : passwordVerdict rest = .more := by
  match rest, h with
  | [], _ => rfl
  | [_], _ => rfl

theorem replyVerdict_short (h : rest.length < 4) : replyVerdict rest = .more := by
  match rest, h with
  | [], _ => rfl
  | [_], _ => rfl
  | [_, _], _ => rfl
  | [_, _, _], _ => rfl

/-! ### What was said, in each state -/

/-- A message is being sent. -/
structure Sends (c : Client) (before message : Bytes) : Prop where
  idle : c.recvBusy = false
  buffer : c.buffer = some message
  sendLen : c.sendLen = some message.length
  sent : c.sent = before

/-- `total` bytes are being received, at `dest` in a buffer of `size` bytes; `before` came before
what is in the buffer. -/
structure Waits (c : Client) (before : Bytes) (dest total size : Nat) (b : Bytes) : Prop where
  busy : c.recvBusy = true
  idle : c.sendLen = none
  place : c.recvDest = dest
  wanted : c.recvTotal = total
  short : c.recvLen < total
  buffer : c.buffer = some b
  length : b.length = size
  room : dest + total ≤ size
  received : c.received = before ++ b.take (dest + c.recvLen)

/-- A complete conversation, in which the server has accepted. -/
def Spoken (args : Args) (c : Client) : Prop :=
  ∃ cl sv rsv atyp n addr, Authenticated args.authInfo cl sv ∧
    c.sent = hello args.authInfo ++ cl ++ request args.destAddr ∧
    c.received = sv ++ ([socksVersion, 0, rsv, atyp] ++ addr) ∧ addrLen atyp = some n ∧
    addr.length = n

/-- The conversation so far. -/
def Talk (args : Args) (c : Client) : Prop :=
  match c.state with
  | .connecting => c.buffer = none ∧ c.sent = [] ∧ c.received = [] ∧ c.recvBusy = false ∧
      c.sendLen = none ∧ c.reports = []
  | .sendingHello => Sends c [] (hello args.authInfo) ∧ c.received = []
  | .sentHello => c.sent = hello args.authInfo ∧ ∃ b, Waits c [] 0 2 2 b
  | .sendingPassword => ∃ method u p,
      args.authInfo.find? (fun a => a.authType = method) = some (.password u p) ∧ FitPacket u p ∧
      Sends c (hello args.authInfo) (passwordPacket u p) ∧ c.received = [socksVersion, method]
  | .sentPassword => ∃ method u p b,
      args.authInfo.find? (fun a => a.authType = method) = some (.password u p) ∧ FitPacket u p ∧
      c.sent = hello args.authInfo ++ passwordPacket u p ∧ Waits c [socksVersion, method] 0 2 2 b
  | .sendingRequest => ∃ cl sv, Authenticated args.authInfo cl sv ∧
      Sends c (hello args.authInfo ++ cl) (request args.destAddr) ∧ c.received = sv
  | .sentRequest => ∃ cl sv b, Authenticated args.authInfo cl sv ∧
      c.sent = hello args.authInfo ++ cl ++ request args.destAddr ∧ Waits c sv 0 4 22 b
  | .receivedReplyHeader => ∃ cl sv b rsv atyp n, Authenticated args.authInfo cl sv ∧
      c.sent = hello args.authInfo ++ cl ++ request args.destAddr ∧ Waits c sv 4 n 22 b ∧
      addrLen atyp = some n ∧ b.take 4 = [socksVersion, 0, rsv, atyp]
  | .up => Spoken args c ∧ c.reports = [.up] ∧ c.recvBusy = false ∧ c.sendLen = none

/-- What has to be freed. -/
def Held (c : Client) : Prop :=
  match c.state with
  | .connecting => c.con = false ∧ c.controlIo = false ∧ c.upIo = false
  | .up => c.con = true ∧ c.controlIo = false ∧ c.upIo = true
  | _ => c.con = true ∧ c.controlIo = true ∧ c.upIo = false

/-- Why an error was reported. -/
def Excused (args : Args) (c : Client) : Prop :=
  if c.state = .up then Spoken args c
  else verdict args.authInfo c.received = .reject ∨
    verdict args.authInfo c.received = .more ∧
      (c.failed = true ∨ args.authInfo.length = 0 ∨ args.authInfo.length > 255)

/-- An error is the last report. -/
def Closed (c : Client) : Prop :=
  ∃ r, c.reports = (if c.state = .up then [.up] else []) ++ [r] ∧
    (r = .error ∨ r = .errorClosed ∧ c.state = .up)

structure Inv (args : Args) (c : Client) : Prop where
  held : Held c
  fresh : c.ended = false → c.state ≠ .up → c.reports = []
  talk : c.ended = false → Talk args c
  excused : c.ended = true → Excused args c ∧ Closed c

/-! ### The parts of the handlers -/

@[simp] theorem returns_report {r : Report} {Q : PUnit → Client → Prop} :
    Returns (report r) c Q ↔ Q ⟨⟩ { c with reports := c.reports ++ [r] } := returns_modify

@[simp] theorem returns_setState {state : State} {Q : PUnit → Client → Prop} :
    Returns (setState state) c Q ↔ Q ⟨⟩ { c with state := state } := returns_modify

@[simp] theorem length_resize (old : Bytes) (size : Nat) (new : Nat → UInt8) :
    (resize old size new).length = size := by
  simp only [resize, List.length_append, List.length_take, List.length_map, List.length_range]
  omega

theorem returns_write {b data : Bytes} {p : Nat} {Q : PUnit → Client → Prop}
    (hb : c.buffer = some b) (hfits : p + data.length ≤ b.length)
    (hQ : Q ⟨⟩ { c with buffer := some (writeAt b p data) }) : Returns (write p data) c Q := by
  simp only [write, returns_bind, returns_fetch, returns_require, returns_modify]
  exact ⟨b, hb, hfits, hQ⟩

/-- What is written behind the first bytes of a buffer. -/
theorem take_writeAt {b data : Bytes} {p : Nat} (h : p + data.length ≤ b.length) :
    (writeAt b p data).take (p + data.length) = b.take p ++ data := by
  have hp : (b.take p).length = p := by
    rw [List.length_take]
    omega
  rw [writeAt, ← List.append_assoc]
  exact List.take_left' (by rw [List.length_append, hp])

theorem returns_writeMethods {b : Bytes} {p : Nat} {as : List AuthInfo} (hb : c.buffer = some b)
    (hfits : p + as.length = b.length) :
    Returns (writeMethods p as) c
      fun _ c' => c' = { c with buffer := some (b.take p ++ as.map AuthInfo.authType) } := by
  induction as generalizing p b c with
  | nil =>
    rw [writeMethods, returns_pure, List.map_nil, List.append_nil]
    rw [List.length_nil, Nat.add_zero] at hfits
    rw [List.take_of_length_le (Nat.le_of_eq hfits.symm), ← hb]
  | cons a as ih =>
    rw [List.length_cons] at hfits
    simp only [writeMethods, returns_bind]
    refine returns_write hb (by simp; omega) ?_
    have hlen : (writeAt b p [a.authType]).length = b.length := length_writeAt (by simp; omega)
    refine (ih rfl (by rw [hlen]; omega)).mono ?_
    rintro _ c' rfl
    have htake : (writeAt b p [a.authType]).take (p + [a.authType].length) =
        b.take p ++ [a.authType] := take_writeAt (by rw [List.length_singleton]; omega)
    rw [List.length_singleton] at htake
    simp [htake]

/-- A packet that is written in two parts, the front last. -/
theorem writeAt_front {b front back : Bytes} {n : Nat} (hn : front.length = n)
    (hb : b.length = n + back.length) : writeAt (writeAt b n back) 0 front = front ++ back := by
  subst hn
  have htake : (b.take front.length).length = front.length := by
    rw [List.length_take]
    omega
  have hback : writeAt b front.length back = b.take front.length ++ back := by
    rw [writeAt, List.drop_eq_nil_of_le (by omega), List.append_nil]
  rw [hback, writeAt, List.take_zero, Nat.zero_add, List.nil_append]
  congr 1
  rw [List.drop_left' htake]

/-- Nothing was reported. -/
theorem inv_of_talk (hheld : Held c) (hfresh : c.reports = []) (htalk : Talk args c) :
    Inv args c := by
  refine ⟨hheld, fun _ _ => hfresh, fun _ => htalk, fun hended => ?_⟩
  rw [Client.ended, hfresh] at hended
  cases hended

/-- An error is reported. -/
theorem inv_error {r : Report} (hr : r = .error ∨ r = .errorClosed ∧ c.state = .up)
    (hheld : Held c) (hreports : c.reports = if c.state = .up then [.up] else [])
    (hex : Excused args c) : Inv args { c with reports := c.reports ++ [r] } := by
  have hended : ({ c with reports := c.reports ++ [r] } : Client).ended = true := by
    rcases hr with rfl | ⟨rfl, _⟩ <;> simp [Client.ended]
  exact ⟨hheld, fun h => absurd (hended.symm.trans h) (by simp),
    fun h => absurd (hended.symm.trans h) (by simp),
    fun _ => ⟨hex, r, by rw [hreports], hr⟩⟩

/-- The client is between two messages. -/
structure Between (c : Client) : Prop where
  con : c.con = true
  controlIo : c.controlIo = true
  upIo : c.upIo = false
  idle : c.recvBusy = false
  quiet : c.sendLen = none
  fresh : c.reports = []
  started : c.state ≠ .connecting
  early : c.state ≠ .up

theorem Between.held (h : Between c) : Held c := by
  have h1 := h.started
  have h2 := h.early
  unfold Held
  split
  · exact absurd ‹_› h1
  · exact absurd ‹_› h2
  · exact ⟨h.con, h.controlIo, h.upIo⟩

theorem Between.reports (h : Between c) :
    c.reports = if c.state = .up then [.up] else [] := by
  rw [if_neg h.early, h.fresh]

/-- The server has rejected. -/
theorem Between.reject (h : Between c) (hv : verdict args.authInfo c.received = .reject) :
    Inv args { c with reports := c.reports ++ [.error] } :=
  inv_error (.inl rfl) h.held h.reports (by rw [Excused, if_neg h.early]; exact .inl hv)

/-- The memory has run out. -/
theorem Between.noMemory (h : Between c) (hv : verdict args.authInfo c.received = .more) :
    Inv args { c with failed := true, reports := c.reports ++ [.error] } := by
  refine inv_error (c := { c with failed := true }) (.inl rfl) h.held h.reports ?_
  rw [Excused, if_neg h.early]
  exact .inr ⟨hv, .inl rfl⟩

/-- The end of the authentication. -/
theorem returns_authFinished {memory : NewMemory} (h : Between c)
    (hauth : Authenticated args.authInfo cl sv) (hsent : c.sent = hello args.authInfo ++ cl)
    (hreceived : c.received = sv) :
    Returns (authFinished args memory) c fun _ => Inv args := by
  simp only [authFinished, reserveBuffer]
  cases memory with
  | none =>
    simp only [returns_bind, returns_modify, returns_pure, Bool.false_eq_true, if_false,
      returns_report]
    refine h.noMemory ?_
    rw [← List.append_nil c.received, hreceived, verdict_authenticated hauth]
    rfl
  | some new =>
    simp only [returns_bind, returns_modify, returns_pure, if_true]
    refine returns_write rfl (by simp) (returns_write rfl ?_ ?_)
    · rw [length_writeAt (by simp)]
      simp
    · have hrequest : writeAt (writeAt (resize (c.buffer.getD []) (4 + args.destAddr.bytes.length)
          new) 4 args.destAddr.bytes) 0 [socksVersion, 0x01, 0, args.destAddr.atyp] =
          request args.destAddr := writeAt_front rfl (by simp)
      rw [hrequest]
      simp only [senderSend, assert, returns_bind, returns_get, returns_require, returns_modify,
        returns_setState]
      refine ⟨⟨h.controlIo, h.quiet⟩, by simp [length_request], ?_⟩
      refine inv_of_talk ⟨h.con, h.controlIo, h.upIo⟩ h.fresh ?_
      exact ⟨cl, sv, hauth, ⟨h.idle, rfl, by rw [length_request], hsent⟩, hreceived⟩

theorem returns_readByte {b : Bytes} {i : Nat} {x : UInt8} {Q : UInt8 → Client → Prop}
    (hb : c.buffer = some b) (hx : b[i]? = some x) (hQ : Q x c) : Returns (readByte i) c Q := by
  rw [readByte, returns_fetch]
  exact ⟨x, by rw [hb]; exact hx, hQ⟩

theorem returns_receivedHello {memory : NewMemory} {ver method : UInt8} (h : Between c)
    (hb : c.buffer = some [ver, method]) (hsent : c.sent = hello args.authInfo)
    (hreceived : c.received = [ver, method]) :
    Returns (receivedHello args memory) c fun _ => Inv args := by
  simp only [receivedHello, returns_bind]
  refine returns_readByte hb rfl (returns_readByte hb rfl ?_)
  split
  · rename_i hver
    rw [returns_report]
    exact h.reject (by simp [hreceived, verdict, hver])
  · rename_i hver
    rw [not_not] at hver
    subst hver
    split
    · rename_i hfind
      rw [returns_report]
      exact h.reject (by simp [hreceived, verdict, hfind])
    · rename_i hfind
      exact returns_authFinished h (.none hfind) (by rw [hsent, List.append_nil]) hreceived
    · rename_i u p hfind
      split
      · rename_i hfit
        simp only [returns_bind, reserveBuffer]
        cases memory with
        | none =>
          simp only [returns_bind, returns_modify, returns_pure, Bool.false_eq_true, if_false,
            returns_report]
          exact h.noMemory (by simp [hreceived, verdict, hfind, hfit, passwordVerdict])
        | some new =>
          simp only [returns_bind, returns_modify, returns_pure, if_true]
          have hlen := length_passwordPacket u p
          refine returns_write rfl (by simp [hlen]) ?_
          have hpacket : writeAt (resize (c.buffer.getD []) (1 + 1 + u.length + 1 + p.length) new) 0
              (passwordPacket u p) = passwordPacket u p := by
            rw [writeAt, List.take_zero, List.nil_append, List.drop_eq_nil_of_le, List.append_nil]
            simp [hlen]
          rw [hpacket]
          simp only [senderSend, assert, returns_bind, returns_get, returns_require, returns_modify,
            returns_setState]
          refine ⟨⟨h.controlIo, h.quiet⟩, by simp [hlen], ?_⟩
          refine inv_of_talk ⟨h.con, h.controlIo, h.upIo⟩ h.fresh ?_
          exact ⟨method, u, p, hfind, hfit, ⟨h.idle, rfl, by rw [hlen], hsent⟩, hreceived⟩
      · rename_i hfit
        rw [returns_report]
        exact h.reject (by simp [hreceived, verdict, hfind, hfit])

theorem returns_receivedPasswordReply {memory : NewMemory} {method ver status : UInt8}
    {u p : Bytes} (h : Between c)
    (hfind : args.authInfo.find? (fun a => a.authType = method) = some (.password u p))
    (hfit : FitPacket u p) (hb : c.buffer = some [ver, status])
    (hsent : c.sent = hello args.authInfo ++ passwordPacket u p)
    (hreceived : c.received = [socksVersion, method, ver, status]) :
    Returns (receivedPasswordReply args memory) c fun _ => Inv args := by
  simp only [receivedPasswordReply, returns_bind]
  refine returns_readByte hb rfl (returns_readByte hb rfl ?_)
  split
  · rename_i hver
    rw [returns_report]
    exact h.reject (by simp [hreceived, verdict, hfind, hfit, passwordVerdict, hver])
  · rename_i hver
    rw [not_not] at hver
    split
    · rename_i hstatus
      rw [returns_report]
      exact h.reject (by simp [hreceived, verdict, hfind, hfit, passwordVerdict, hver, hstatus])
    · rename_i hstatus
      rw [not_not] at hstatus
      subst hver hstatus
      exact returns_authFinished h (.password hfind hfit) hsent hreceived

theorem returns_doReceive {Q : PUnit → Client → Prop} (hlen : c.recvLen < c.recvTotal)
    (hio : c.controlIo = true) (hidle : c.recvBusy = false)
    (hroom : c.recvDest + c.recvTotal ≤ (c.buffer.getD []).length)
    (hQ : Q ⟨⟩ { c with recvBusy := true }) : Returns doReceive c Q := by
  simp only [doReceive, assert, returns_bind, returns_get, returns_require, returns_modify]
  exact ⟨hlen, ⟨hio, hidle⟩, hroom, hQ⟩

theorem addrLen_bounds {atyp : UInt8} {n : Nat} (h : addrLen atyp = some n) : 0 < n ∧ n ≤ 18 := by
  unfold addrLen at h
  split at h
  · cases h
    decide
  · split at h
    · cases h
      decide
    · cases h

theorem returns_receivedHeader {ver rep rsv atyp : UInt8} {b : Bytes} (h : Between c)
    (hauth : Authenticated args.authInfo cl sv) (hb : c.buffer = some b) (hlen : b.length = 22)
    (htake : b.take 4 = [ver, rep, rsv, atyp])
    (hsent : c.sent = hello args.authInfo ++ cl ++ request args.destAddr)
    (hreceived : c.received = sv ++ b.take 4) :
    Returns receivedHeader c fun _ => Inv args := by
  have hbyte : ∀ i, i < 4 → b[i]? = [ver, rep, rsv, atyp][i]? := by
    intro i hi
    rw [← htake, List.getElem?_take, if_pos hi]
  simp only [receivedHeader, returns_bind]
  refine returns_readByte hb (hbyte 0 (by decide)) (returns_readByte hb (hbyte 1 (by decide))
    (returns_readByte hb (hbyte 3 (by decide)) ?_))
  have hverdict : verdict args.authInfo c.received = replyVerdict [ver, rep, rsv, atyp] := by
    rw [hreceived, htake, verdict_authenticated hauth]
  split
  · rename_i hver
    rw [returns_report]
    exact h.reject (by rw [hverdict, replyVerdict, if_pos hver])
  · rename_i hver
    split
    · rename_i hrep
      rw [returns_report]
      exact h.reject (by rw [hverdict, replyVerdict, if_neg hver, if_pos hrep])
    · rename_i hrep
      split
      · rename_i haddr
        rw [returns_report]
        exact h.reject (by rw [hverdict, replyVerdict, if_neg hver, if_neg hrep, haddr])
      · rename_i n haddr
        have hn := addrLen_bounds haddr
        rw [not_not] at hver hrep
        subst hver hrep
        simp only [startReceive, assert, returns_bind, returns_require, returns_modify]
        refine ⟨hn.1, returns_doReceive hn.1 h.controlIo h.idle ?_ ?_⟩
        · rw [hb]
          show 4 + n ≤ b.length
          omega
        · rw [returns_setState]
          refine inv_of_talk ⟨h.con, h.controlIo, h.upIo⟩ h.fresh ?_
          exact ⟨cl, sv, b, rsv, atyp, n, hauth, hsent,
            ⟨rfl, h.quiet, rfl, rfl, hn.1, hb, hlen, by omega, hreceived⟩, haddr, htake⟩

theorem returns_receivedReply {rsv atyp : UInt8} {n : Nat} {addr : Bytes} (h : Between c)
    (hauth : Authenticated args.authInfo cl sv)
    (hsent : c.sent = hello args.authInfo ++ cl ++ request args.destAddr)
    (hreceived : c.received = sv ++ ([socksVersion, 0, rsv, atyp] ++ addr))
    (haddr : addrLen atyp = some n) (hlen : addr.length = n) :
    Returns receivedReply c fun _ => Inv args := by
  simp only [receivedReply, returns_bind, returns_modify, returns_report]
  refine ⟨⟨h.con, rfl, rfl⟩, fun _ hup => absurd rfl hup, fun _ => ?_, fun hend => ?_⟩
  · exact ⟨⟨cl, sv, rsv, atyp, n, addr, hauth, hsent, hreceived, haddr, hlen⟩, by simp [h.fresh],
      h.idle, h.quiet⟩
  · rw [Client.ended] at hend
    simp [h.fresh] at hend

/-! ### The events -/

variable {memory : NewMemory} {data before b : Bytes} {dest total size : Nat}

/-- The reply to a message is awaited. -/
theorem returns_awaitReply {state : State} (h : Between c)
    (hv : verdict args.authInfo c.received = .more) (htotal : 0 < total) (hsize : total ≤ size)
    (hstarted : state ≠ .connecting) (hearly : state ≠ .up)
    (htalk : ∀ c' b, c'.state = state → c'.sent = c.sent → Waits c' c.received 0 total size b →
      Talk args c') :
    Returns (awaitReply memory size total state) c fun _ => Inv args := by
  simp only [awaitReply, reserveBuffer]
  cases memory with
  | none =>
    simp only [returns_bind, returns_modify, returns_pure, Bool.false_eq_true, if_false,
      returns_report]
    exact h.noMemory hv
  | some new =>
    simp only [returns_bind, returns_modify, returns_pure, if_true, startReceive, assert,
      returns_require]
    refine ⟨htotal, returns_doReceive htotal h.controlIo h.idle ?_ ?_⟩
    · simp [hsize]
    · rw [returns_setState]
      have hb : Between { c with
          state := state
          buffer := some (resize (c.buffer.getD []) size new)
          recvDest := 0
          recvLen := 0
          recvTotal := total } :=
        ⟨h.con, h.controlIo, h.upIo, h.idle, h.quiet, h.fresh, hstarted, hearly⟩
      refine inv_of_talk hb.held h.fresh ?_
      exact htalk _ (resize (c.buffer.getD []) size new) rfl rfl
        ⟨rfl, h.quiet, rfl, rfl, htotal, rfl, length_resize .., by omega, by simp⟩

theorem Held.started (h : Held c) (hstarted : c.state ≠ .connecting) (hearly : c.state ≠ .up) :
    c.con = true ∧ c.controlIo = true ∧ c.upIo = false := by
  unfold Held at h
  split at h
  · exact absurd ‹_› hstarted
  · exact absurd ‹_› hearly
  · exact h

/-- A message was sent; the reply to it is awaited. -/
theorem Sends.returns_sendDone {message : Bytes} {state : State} (h : Sends c before message)
    (hinv : Inv args c) (hended : c.ended = false) (hstarted : c.state ≠ .connecting)
    (hearly : c.state ≠ .up)
    (hreply : sentMessage memory c.state = awaitReply memory size total state)
    (htotal : 0 < total) (hsize : total ≤ size) (hstarted' : state ≠ .connecting)
    (hearly' : state ≠ .up) (hv : verdict args.authInfo c.received = .more)
    (htalk : ∀ c' b, c'.state = state → c'.sent = before ++ message →
      Waits c' c.received 0 total size b → Talk args c') :
    Returns (handle args (.sendDone memory)) c fun _ => Inv args := by
  obtain ⟨hcon, hcontrol, hup⟩ := hinv.held.started hstarted hearly
  have hbetween : Between { c with sendLen := none, sent := before ++ message } :=
    ⟨hcon, hcontrol, hup, h.idle, rfl, hinv.fresh hended hearly, hstarted, hearly⟩
  simp only [handle, sendHandlerDone, assert, returns_bind, returns_fetch, returns_get,
    returns_modify, returns_require]
  refine ⟨message.length, h.sendLen, by rw [h.buffer]; rfl, ?_⟩
  rw [hreply, h.buffer, h.sent, Option.getD_some, List.take_length, ← h.buffer]
  exact returns_awaitReply hbetween hv htotal hsize hstarted' hearly' htalk

theorem returns_sendDone (h : Inv args c) (he : enabled c (.sendDone memory)) :
    Returns (handle args (.sendDone memory)) c fun _ => Inv args := by
  obtain ⟨hended, hsome⟩ := he
  have htalk := h.talk hended
  -- while bytes are awaited, nothing is being sent
  have hquiet : ∀ {before dest total size b}, ¬ Waits c before dest total size b := by
    intro _ _ _ _ _ hw
    rw [hw.idle] at hsome
    cases hsome
  unfold Talk at htalk
  split at htalk
  · rw [htalk.2.2.2.2.1] at hsome
    cases hsome
  · rename_i hstate
    obtain ⟨hs, hreceived⟩ := htalk
    refine hs.returns_sendDone h hended (by simp [hstate]) (by simp [hstate])
      (by rw [hstate]; rfl) (by decide) (by decide) (by simp) (by simp) (by rw [hreceived]; rfl) ?_
    intro c' b hstate' hsent' hw
    rw [Talk, hstate']
    rw [hreceived] at hw
    exact ⟨hsent', b, hw⟩
  · exact absurd htalk.2.choose_spec hquiet
  · rename_i hstate
    obtain ⟨method, u, p, hfind, hfit, hs, hreceived⟩ := htalk
    refine hs.returns_sendDone h hended (by simp [hstate]) (by simp [hstate])
      (by rw [hstate]; rfl) (by decide) (by decide) (by simp) (by simp) ?_ ?_
    · simp [hreceived, verdict, hfind, hfit, passwordVerdict]
    intro c' b hstate' hsent' hw
    rw [Talk, hstate']
    rw [hreceived] at hw
    exact ⟨method, u, p, b, hfind, hfit, hsent', hw⟩
  · obtain ⟨_, _, _, _, _, _, _, hw⟩ := htalk
    exact absurd hw hquiet
  · rename_i hstate
    obtain ⟨cl, sv, hauth, hs, hreceived⟩ := htalk
    refine hs.returns_sendDone h hended (by simp [hstate]) (by simp [hstate])
      (by rw [hstate]; rfl) (by decide) (by decide) (by simp) (by simp) ?_ ?_
    · rw [← List.append_nil c.received, hreceived, verdict_authenticated hauth]
      rfl
    intro c' b hstate' hsent' hw
    rw [Talk, hstate']
    rw [hreceived] at hw
    exact ⟨cl, sv, b, hauth, hsent', hw⟩
  · obtain ⟨_, _, _, _, _, hw⟩ := htalk
    exact absurd hw hquiet
  · obtain ⟨_, _, _, _, _, _, _, _, hw, _⟩ := htalk
    exact absurd hw hquiet
  · rw [htalk.2.2.2] at hsome
    cases hsome

theorem take_writeAt_before {p n : Nat} (hn : n ≤ p) (h : p ≤ b.length) :
    (writeAt b p data).take n = b.take n := by
  rw [writeAt, List.take_append_of_le_length, List.take_take, Nat.min_eq_left hn]
  rw [List.length_take]
  omega

/-- The client after bytes of the server were written to the buffer. -/
def Client.filled (c : Client) (b data : Bytes) : Client :=
  { c with
    buffer := some (writeAt b (c.recvDest + c.recvLen) data)
    recvBusy := false
    received := c.received ++ data
    recvLen := c.recvLen + data.length }

/-- The receive operation goes on. -/
theorem Waits.goOn (h : Waits c before dest total size b) (hlt : c.recvLen + data.length < total) :
    Waits { c.filled b data with recvBusy := true } before dest total size
      (writeAt b (dest + c.recvLen) data) := by
  have hroom := h.room
  have hlen := h.length
  refine ⟨rfl, h.idle, h.place, h.wanted, hlt, ?_, ?_, h.room, ?_⟩
  · show some (writeAt b (c.recvDest + c.recvLen) data) = _
    rw [h.place]
  · rw [length_writeAt (by omega), h.length]
  · show c.received ++ data = before ++ List.take (dest + (c.recvLen + data.length)) _
    rw [← Nat.add_assoc, take_writeAt (by omega), h.received, List.append_assoc]

/-- The receive operation is complete. -/
theorem Waits.complete (h : Waits c before dest total size b)
    (heq : c.recvLen + data.length = total) :
    (writeAt b (dest + c.recvLen) data).length = size ∧
      (c.filled b data).received =
        before ++ (writeAt b (dest + c.recvLen) data).take (dest + total) := by
  have hroom := h.room
  have hlen := h.length
  refine ⟨by rw [length_writeAt (by omega), h.length], ?_⟩
  show c.received ++ data = _
  rw [← heq, ← Nat.add_assoc, take_writeAt (by omega), h.received, List.append_assoc]

/-- Bytes of the server, in a state that waits for them: either more are needed, or the message
is complete. -/
theorem Waits.returns_recvDone (h : Waits c before dest total size b) (hinv : Inv args c)
    (he : enabled c (.recvDone data memory)) (hstarted : c.state ≠ .connecting)
    (hearly : c.state ≠ .up)
    (hmore : Waits { c.filled b data with recvBusy := true } before dest total size
      (writeAt b (dest + c.recvLen) data) → Talk args { c.filled b data with recvBusy := true })
    (hdone : c.recvLen + data.length = total → Between (c.filled b data) →
      Returns (receivedMessage args memory c.state) (c.filled b data) fun _ => Inv args) :
    Returns (handle args (.recvDone data memory)) c fun _ => Inv args := by
  obtain ⟨hended, hbusy, hpos, hle⟩ := he
  have hroom := h.room
  have hlen := h.length
  have hshort := h.short
  have hplace := h.place
  rw [h.wanted] at hle
  have hfresh := hinv.fresh hended hearly
  have hbetween : Between (c.filled b data) := by
    obtain ⟨hcon, hcontrol, hup⟩ := hinv.held.started hstarted hearly
    exact ⟨hcon, hcontrol, hup, rfl, h.idle, hfresh, hstarted, hearly⟩
  simp only [handle, returns_bind, returns_get]
  refine returns_write h.buffer (by omega) ?_
  simp only [recvHandlerDone, assert, returns_bind, returns_get, returns_modify, returns_require]
  refine ⟨by rw [h.wanted]; omega, ?_⟩
  split
  · rename_i hlt
    rw [h.wanted] at hlt
    refine returns_doReceive (c := c.filled b data) ?_ hbetween.controlIo rfl ?_ ?_
    · show c.recvLen + data.length < c.recvTotal
      rw [h.wanted]
      exact hlt
    · show c.recvDest + c.recvTotal ≤ (writeAt b (c.recvDest + c.recvLen) data).length
      rw [length_writeAt (by omega), h.wanted]
      omega
    · exact inv_of_talk hbetween.held hfresh (hmore (h.goOn hlt))
  · rename_i hge
    rw [h.wanted] at hge
    exact hdone (by omega) hbetween

theorem exists_four {l : Bytes} (h : l.length = 4) : ∃ x y z t, l = [x, y, z, t] := by
  obtain ⟨x, l, rfl⟩ := List.exists_cons_of_length_eq_add_one h
  obtain ⟨y, z, t, rfl⟩ := List.length_eq_three.mp (by simpa using h)
  exact ⟨x, y, z, t, rfl⟩

/-- Bytes of the header of the reply. -/
theorem returns_recvHeader (h : Inv args c) (he : enabled c (.recvDone data memory))
    (hstate : c.state = .sentRequest) (hauth : Authenticated args.authInfo cl sv)
    (hsent : c.sent = hello args.authInfo ++ cl ++ request args.destAddr)
    (hw : Waits c sv 0 4 22 b) :
    Returns (handle args (.recvDone data memory)) c fun _ => Inv args := by
  refine hw.returns_recvDone h he (by simp [hstate]) (by simp [hstate]) ?_ ?_
  · intro hw'
    rw [Talk, show ({ c.filled b data with recvBusy := true } : Client).state = .sentRequest from
      hstate]
    exact ⟨cl, sv, _, hauth, hsent, hw'⟩
  · intro heq hb
    obtain ⟨hlen, hreceived⟩ := hw.complete heq
    obtain ⟨ver, rep, rsv, atyp, hfour⟩ : ∃ ver rep rsv atyp,
        (writeAt b (0 + c.recvLen) data).take 4 = [ver, rep, rsv, atyp] :=
      exists_four (by rw [List.length_take, hlen]; rfl)
    rw [hstate]
    refine returns_receivedHeader hb hauth ?_ hlen hfour hsent hreceived
    show some (writeAt b (c.recvDest + c.recvLen) data) = _
    rw [hw.place]

/-- Bytes of the address of the reply. -/
theorem returns_recvAddress {rsv atyp : UInt8} {n : Nat} (h : Inv args c)
    (he : enabled c (.recvDone data memory)) (hstate : c.state = .receivedReplyHeader)
    (hauth : Authenticated args.authInfo cl sv)
    (hsent : c.sent = hello args.authInfo ++ cl ++ request args.destAddr)
    (hw : Waits c sv 4 n 22 b) (haddr : addrLen atyp = some n)
    (htake : b.take 4 = [socksVersion, 0, rsv, atyp]) :
    Returns (handle args (.recvDone data memory)) c fun _ => Inv args := by
  have hlen := hw.length
  have hroom := hw.room
  -- the address is written behind the header, which stays in the buffer
  have hkeep : (writeAt b (4 + c.recvLen) data).take 4 = [socksVersion, 0, rsv, atyp] := by
    have hshort := hw.short
    rw [take_writeAt_before (by omega) (by omega), htake]
  refine hw.returns_recvDone h he (by simp [hstate]) (by simp [hstate]) ?_ ?_
  · intro hw'
    rw [Talk, show ({ c.filled b data with recvBusy := true } : Client).state =
      .receivedReplyHeader from hstate]
    exact ⟨cl, sv, _, rsv, atyp, n, hauth, hsent, hw', haddr, hkeep⟩
  · intro heq hb
    obtain ⟨hlen', hreceived⟩ := hw.complete heq
    rw [hstate]
    rw [List.take_add, hkeep] at hreceived
    refine returns_receivedReply hb hauth hsent hreceived haddr ?_
    rw [List.length_take, List.length_drop, hlen']
    omega

theorem returns_recvDone (h : Inv args c) (he : enabled c (.recvDone data memory)) :
    Returns (handle args (.recvDone data memory)) c fun _ => Inv args := by
  have htalk := h.talk he.1
  have hbusy : c.recvBusy = true := he.2.1
  -- while a packet is being sent, nothing can be received
  have hidle : ∀ {before message}, ¬ Sends c before message := by
    intro _ _ hs
    rw [hs.idle] at hbusy
    cases hbusy
  unfold Talk at htalk
  split at htalk
  · rw [htalk.2.2.2.1] at hbusy
    cases hbusy
  · exact absurd htalk.1 hidle
  · rename_i hstate
    obtain ⟨hsent, b, hw⟩ := htalk
    refine hw.returns_recvDone h he (by simp [hstate]) (by simp [hstate]) ?_ ?_
    · intro hw'
      rw [Talk, show ({ c.filled b data with recvBusy := true } : Client).state = .sentHello from
        hstate]
      exact ⟨hsent, _, hw'⟩
    · intro heq hb
      obtain ⟨hlen, hreceived⟩ := hw.complete heq
      obtain ⟨ver, method, hpair⟩ := List.length_eq_two.mp hlen
      rw [hpair] at hreceived
      rw [hstate]
      refine returns_receivedHello hb ?_ hsent hreceived
      show some (writeAt b (c.recvDest + c.recvLen) data) = _
      rw [hw.place, hpair]
  · obtain ⟨_, _, _, _, _, hs, _⟩ := htalk
    exact absurd hs hidle
  · rename_i hstate
    obtain ⟨method, u, p, b, hfind, hfit, hsent, hw⟩ := htalk
    refine hw.returns_recvDone h he (by simp [hstate]) (by simp [hstate]) ?_ ?_
    · intro hw'
      rw [Talk, show ({ c.filled b data with recvBusy := true } : Client).state = .sentPassword from
        hstate]
      exact ⟨method, u, p, _, hfind, hfit, hsent, hw'⟩
    · intro heq hb
      obtain ⟨hlen, hreceived⟩ := hw.complete heq
      obtain ⟨ver, status, hpair⟩ := List.length_eq_two.mp hlen
      rw [hpair] at hreceived
      rw [hstate]
      refine returns_receivedPasswordReply hb hfind hfit ?_ hsent hreceived
      show some (writeAt b (c.recvDest + c.recvLen) data) = _
      rw [hw.place, hpair]
  · obtain ⟨_, _, _, hs, _⟩ := htalk
    exact absurd hs hidle
  · obtain ⟨cl, sv, b, hauth, hsent, hw⟩ := htalk
    exact returns_recvHeader h he ‹_› hauth hsent hw
  · obtain ⟨cl, sv, b, rsv, atyp, n, hauth, hsent, hw, haddr, htake⟩ := htalk
    exact returns_recvAddress h he ‹_› hauth hsent hw haddr htake
  · rw [htalk.2.2.1] at hbusy
    cases hbusy

/-! ### Runs of the client -/

/-- The bytes of the server, in a complete conversation. -/
theorem Spoken.verdict (h : Spoken args c) : verdict args.authInfo c.received = .accept := by
  obtain ⟨cl, sv, rsv, atyp, n, addr, hauth, _, hreceived, haddr, hlen⟩ := h
  rw [hreceived, verdict_authenticated hauth]
  simp [replyVerdict, haddr, hlen]

/-- The bytes of the server, before the conversation is complete. -/
theorem Talk.verdict (h : Talk args c) (hearly : c.state ≠ .up) :
    verdict args.authInfo c.received = .more := by
  unfold Talk at h
  split at h
  · rw [h.2.2.1]
    rfl
  · rw [h.2]
    rfl
  · obtain ⟨_, b, hw⟩ := h
    have hshort := hw.short
    rw [hw.received, List.nil_append]
    refine verdict_short ?_
    rw [List.length_take]
    omega
  · obtain ⟨method, u, p, hfind, hfit, _, hreceived⟩ := h
    simp [hreceived, SocksClient.verdict, hfind, hfit, passwordVerdict]
  · obtain ⟨method, u, p, b, hfind, hfit, _, hw⟩ := h
    have hshort := hw.short
    have hmore : passwordVerdict (b.take (0 + c.recvLen)) = .more := by
      refine passwordVerdict_short ?_
      rw [List.length_take]
      omega
    simp [hw.received, SocksClient.verdict, hfind, hfit, ← hmore]
  · obtain ⟨cl, sv, hauth, _, hreceived⟩ := h
    rw [← List.append_nil c.received, hreceived, verdict_authenticated hauth]
    rfl
  · obtain ⟨cl, sv, b, hauth, _, hw⟩ := h
    have hshort := hw.short
    rw [hw.received, verdict_authenticated hauth]
    refine replyVerdict_short ?_
    rw [List.length_take]
    omega
  · obtain ⟨cl, sv, b, rsv, atyp, n, hauth, _, hw, haddr, htake⟩ := h
    have hshort := hw.short
    rw [hw.received, verdict_authenticated hauth, List.take_add, htake]
    have hlt : ((b.drop 4).take c.recvLen).length < n := by
      rw [List.length_take]
      omega
    simp only [List.cons_append, List.nil_append, replyVerdict, haddr, if_pos hlt, ne_eq,
      not_true_eq_false, if_false]
  · exact absurd ‹_› hearly

theorem returns_connection {closed : Bool} (h : Inv args c) (he : enabled c (.connection closed)) :
    Returns (handle args (.connection closed)) c fun _ => Inv args := by
  obtain ⟨hended, hcon⟩ := he
  have htalk := h.talk hended
  have hstarted : c.state ≠ .connecting := by
    intro hstate
    have hheld := h.held
    rw [Held, hstate] at hheld
    rw [hheld.1] at hcon
    cases hcon
  have hreports : c.reports = if c.state = .up then [.up] else [] := by
    split
    · rename_i hup
      rw [Talk, hup] at htalk
      exact htalk.2.1
    · exact h.fresh hended ‹_›
  have hex : Excused args { c with failed := true } := by
    rw [Excused]
    split
    · rename_i hup
      rw [Talk, show c.state = .up from hup] at htalk
      exact htalk.1
    · exact .inr ⟨htalk.verdict ‹_›, .inl rfl⟩
  simp only [handle, connectionHandler, assert, returns_bind, returns_get, returns_require,
    returns_modify]
  refine ⟨hstarted, ?_⟩
  split
  · rename_i hup
    rw [returns_report]
    exact inv_error (c := { c with failed := true }) (.inr ⟨rfl, hup.1⟩) h.held hreports hex
  · rw [returns_report]
    exact inv_error (c := { c with failed := true }) (.inl rfl) h.held hreports hex

theorem returns_connected {isError conInit : Bool} (h : Inv args c)
    (he : enabled c (.connected isError conInit memory)) :
    Returns (handle args (.connected isError conInit memory)) c fun _ => Inv args := by
  obtain ⟨hended, hstate⟩ := he
  have htalk := h.talk hended
  have hheld := h.held
  rw [Talk, hstate] at htalk
  rw [Held, hstate] at hheld
  obtain ⟨hbuffer, hsent, hreceived, hidle, hquiet, hfresh⟩ := htalk
  obtain ⟨hcon, hio, hup⟩ := hheld
  -- all errors leave nothing behind
  have herror : ∀ c' : Client, c'.state = .connecting → c'.con = false → c'.controlIo = false →
      c'.upIo = false → c'.reports = [] → c'.received = [] →
      (c'.failed = true ∨ args.authInfo.length = 0 ∨ args.authInfo.length > 255) →
      Inv args { c' with reports := c'.reports ++ [.error] } := by
    intro c' hstate' hcon' hio' hup' hreports' hreceived' hwhy
    refine inv_error (.inl rfl) ?_ ?_ ?_
    · rw [Held, hstate']
      exact ⟨hcon', hio', hup'⟩
    · rw [hstate', if_neg (by simp), hreports']
    · rw [Excused, hstate', if_neg (by simp), hreceived']
      exact .inr ⟨rfl, hwhy⟩
  simp only [handle, connectorHandler, assert, returns_bind, returns_get, returns_require]
  refine ⟨hstate, ?_⟩
  split
  · rw [returns_bind, returns_modify, returns_report]
    exact herror { c with failed := true } hstate hcon hio hup hfresh hreceived (.inl rfl)
  · rw [returns_bind, returns_modify]
    split
    · rename_i hmethods
      rw [failConnected, returns_bind, returns_modify, returns_report]
      exact herror { c with controlIo := false, con := false } hstate rfl rfl hup hfresh hreceived
        (.inr hmethods)
    · cases memory with
      | none =>
        simp only [reserveBuffer, failConnected, returns_bind, returns_modify, returns_pure,
          Bool.false_eq_true, if_false, returns_report]
        exact herror { c with controlIo := false, con := false, failed := true } hstate rfl rfl hup
          hfresh hreceived (.inl rfl)
      | some new =>
        simp only [reserveBuffer, returns_bind, returns_modify, returns_pure, if_true]
        have hlen := length_resize (c.buffer.getD []) (2 + args.authInfo.length) new
        have hfits : 0 + [socksVersion, UInt8.ofNat args.authInfo.length].length ≤
            (resize (c.buffer.getD []) (2 + args.authInfo.length) new).length := by
          rw [hlen]
          simp
        refine returns_write rfl hfits ?_
        refine (returns_writeMethods rfl (by rw [length_writeAt hfits, hlen])).mono ?_
        rintro _ c' rfl
        have hhello : (writeAt (resize (c.buffer.getD []) (2 + args.authInfo.length) new) 0
            [socksVersion, UInt8.ofNat args.authInfo.length]).take 2 ++
              args.authInfo.map AuthInfo.authType = hello args.authInfo :=
          congrArg (· ++ args.authInfo.map AuthInfo.authType) (take_writeAt hfits)
        rw [hhello]
        have hlength := length_hello args.authInfo
        simp only [senderSend, assert, returns_bind, returns_get, returns_require, returns_modify,
          returns_setState]
        refine ⟨⟨trivial, hquiet⟩, by simp [hlength], ?_⟩
        refine inv_of_talk ⟨rfl, rfl, hup⟩ hfresh ?_
        exact ⟨⟨hidle, rfl, by rw [hlength], hsent⟩, hreceived⟩

theorem returns_handle {e : Event} (h : Inv args c) (he : enabled c e) :
    Returns (handle args e) c fun _ => Inv args := by
  cases e with
  | connected => exact returns_connected h he
  | sendDone => exact returns_sendDone h he
  | recvDone => exact returns_recvDone h he
  | connection => exact returns_connection h he

theorem inv_start : Inv args start :=
  inv_of_talk ⟨rfl, rfl, rfl⟩ rfl ⟨rfl, rfl, rfl, rfl, rfl, rfl⟩

/-- **The invariant holds in every run.** -/
theorem inv_of_reach {s : Except Fault Client} (h : Reach (step args) fits (.ok start) s) :
    ∃ c, s = .ok c ∧ Inv args c := by
  refine h.invariant (I := fun s => ∃ c, s = .ok c ∧ Inv args c) ⟨start, rfl, inv_start⟩ ?_
  rintro _ e t ⟨c, rfl, hc⟩ hok hstep
  obtain ⟨r, hr, hinv⟩ := returns_handle hc hok
  rw [step, hr] at hstep
  cases hstep
  exact ⟨r.2, rfl, hinv⟩

/-- Nothing is left to be freed. -/
def Client.Released (c : Client) : Prop :=
  c.con = false ∧ c.controlIo = false ∧ c.upIo = false ∧ c.buffer = none

theorem returns_free (h : Held c) : Returns free c fun _ c' => c'.Released := by
  simp only [free, returns_bind, returns_get]
  unfold Held at h
  split at h
  · rename_i hstate
    rw [hstate, if_neg (by simp)]
    simp only [returns_modify]
    exact ⟨h.1, h.2.1, h.2.2, rfl⟩
  · rename_i hstate
    rw [hstate, if_pos (by simp)]
    simp only [returns_bind, returns_require, returns_modify, hstate, if_true]
    exact ⟨h.2.2, h.1, rfl, h.2.1, rfl, rfl⟩
  · rename_i hstarted hearly
    rw [if_pos hstarted]
    simp only [returns_bind, returns_require, returns_modify, if_neg hearly]
    exact ⟨h.2.1, h.1, rfl, rfl, h.2.2, rfl⟩

/-- What a client waits for: the connector, the end of a packet, or bytes of the server. -/
def Client.Awaits (c : Client) : Prop :=
  c.state = .connecting ∨ c.sendLen.isSome = true ∨ c.recvBusy = true

theorem Talk.awaits (h : Talk args c) (hearly : c.state ≠ .up) : c.Awaits := by
  have hsends : ∀ {before message}, Sends c before message → c.Awaits := fun hs =>
    .inr (.inl (by rw [hs.sendLen]; rfl))
  have hwaits : ∀ {before dest total size b}, Waits c before dest total size b → c.Awaits :=
    fun hw => .inr (.inr hw.busy)
  unfold Talk at h
  split at h
  · exact .inl ‹_›
  · exact hsends h.1
  · exact hwaits h.2.choose_spec
  · obtain ⟨_, _, _, _, _, hs, _⟩ := h
    exact hsends hs
  · obtain ⟨_, _, _, _, _, _, _, hw⟩ := h
    exact hwaits hw
  · obtain ⟨_, _, _, hs, _⟩ := h
    exact hsends hs
  · obtain ⟨_, _, _, _, _, hw⟩ := h
    exact hwaits hw
  · obtain ⟨_, _, _, _, _, _, _, _, hw, _⟩ := h
    exact hwaits hw
  · exact absurd ‹_› hearly

theorem Inv.spoken (h : Inv args c) (hup : c.state = .up) : Spoken args c := by
  cases hended : c.ended with
  | false =>
    have htalk := h.talk hended
    rw [Talk, hup] at htalk
    exact htalk.1
  | true =>
    have hex := (h.excused hended).1
    rwa [Excused, if_pos hup] at hex

/-- A client without authentication, for the address `1.2.3.4:5`. -/
def sample : Args := ⟨[.none], .ipv4 0x01020304 5⟩

/-- The sample client when the server has accepted. -/
def sampleUp : Client where
  state := .up
  buffer := none
  recvDest := 4
  recvLen := 6
  recvTotal := 6
  recvBusy := false
  sendLen := none
  con := true
  controlIo := false
  upIo := true
  reports := [.up]
  failed := false
  sent := [5, 1, 0, 5, 1, 0, 1, 1, 2, 3, 4, 0, 5]
  received := [5, 0, 5, 0, 0, 1, 9, 9, 9, 9, 0, 7]

theorem reach_sampleUp : Reach (step sample) fits (.ok start) (.ok sampleUp) :=
  reach_of_runWith (show runWith (step sample) fits (.ok start)
    [.connected false true (some fun _ => 0), .sendDone (some fun _ => 0), .recvDone [5] none,
      .recvDone [0] (some fun _ => 0), .sendDone (some fun _ => 0), .recvDone [5, 0, 0] none,
      .recvDone [1] none, .recvDone [9, 9, 9] none, .recvDone [9, 0, 7] none] = some _
    by decide +kernel)

/-- **The handshake is exact.**  No assertion fails and no byte outside of the buffer is accessed.
When the client is up, it has sent its messages and read the replies, and nothing behind them.  It
can be freed at any time, which leaves nothing; and until it is up or an error was reported, it
waits for something. -/
theorem handshake_exact {s : Except Fault Client} (h : Reach (step args) fits (.ok start) s) :
    ∃ c, s = .ok c ∧ (c.state = .up → Spoken args c) ∧
      Returns free c (fun _ c' => c'.Released) ∧
      (c.ended = false → c.state ≠ .up → c.Awaits) := by
  obtain ⟨c, rfl, hc⟩ := inv_of_reach h
  exact ⟨c, rfl, hc.spoken, returns_free hc.held, fun hended => (hc.talk hended).awaits⟩

theorem handshake_exact_sampleUp :
    ∃ c, (.ok sampleUp : Except Fault Client) = .ok c ∧ (c.state = .up → Spoken sample c) ∧
      Returns free c (fun _ c' => c'.Released) ∧
      (c.ended = false → c.state ≠ .up → c.Awaits) :=
  handshake_exact reach_sampleUp

/-- How a client can stand: it is up, it goes on, or it has failed. -/
theorem Inv.outcome (h : Inv args c) :
    c.state = .up ∧ verdict args.authInfo c.received = .accept ∧ .up ∈ c.reports ∨
      c.state ≠ .up ∧ verdict args.authInfo c.received = .more ∧ c.reports = [] ∨
      c.state ≠ .up ∧ c.reports = [.error] ∧ (verdict args.authInfo c.received = .reject ∨
        verdict args.authInfo c.received = .more ∧
          (c.failed = true ∨ args.authInfo.length = 0 ∨ args.authInfo.length > 255)) := by
  by_cases hup : c.state = .up
  · refine .inl ⟨hup, (h.spoken hup).verdict, ?_⟩
    cases hended : c.ended with
    | false =>
      have htalk := h.talk hended
      rw [Talk, hup] at htalk
      simp [htalk.2.1]
    | true =>
      obtain ⟨r, hreports, -⟩ := (h.excused hended).2
      simp [hreports, hup]
  · refine .inr ?_
    cases hended : c.ended with
    | false => exact .inl ⟨hup, (h.talk hended).verdict hup, h.fresh hended hup⟩
    | true =>
      obtain ⟨hex, r, hreports, hr⟩ := h.excused hended
      rw [Excused, if_neg hup] at hex
      rw [if_neg hup, List.nil_append] at hreports
      have herror : r = .error := hr.resolve_right fun hr => hup hr.2
      exact .inr ⟨hup, by rw [hreports, herror], hex⟩

/-- **The bytes of the server decide, however they were cut into pieces.**  The user is told that
the client is up if and only if the bytes are an acceptance.  If they are a rejection, an error was
reported at once; and an error is reported before the client is up only for a rejection, for
something that failed, or for a number of methods that a hello cannot have. -/
theorem verdict_decides (h : Reach (step args) fits (.ok start) (.ok c)) :
    (c.state = .up ↔ verdict args.authInfo c.received = .accept) ∧
      (.up ∈ c.reports ↔ verdict args.authInfo c.received = .accept) ∧
      (verdict args.authInfo c.received = .reject → c.reports = [.error]) ∧
      (c.reports = [.error] → verdict args.authInfo c.received = .reject ∨ c.failed = true ∨
        args.authInfo.length = 0 ∨ args.authInfo.length > 255) := by
  obtain ⟨_, heq, hc⟩ := inv_of_reach h
  cases heq
  rcases hc.outcome with ⟨hup, hv, hmem⟩ | ⟨hup, hv, hreports⟩ | ⟨hup, hreports, hv | ⟨hv, hwhy⟩⟩
  · refine ⟨by simp [hup, hv], by simp [hmem, hv], by simp [hv], fun herror => ?_⟩
    rw [herror] at hmem
    simp at hmem
  · simp [hup, hv, hreports]
  · simp [hup, hv, hreports]
  · exact ⟨by simp [hup, hv], by simp [hreports, hv], by simp [hv], fun _ => .inr hwhy⟩

theorem verdict_decides_sampleUp :
    (sampleUp.state = .up ↔ verdict sample.authInfo sampleUp.received = .accept) ∧
      (.up ∈ sampleUp.reports ↔ verdict sample.authInfo sampleUp.received = .accept) ∧
      (verdict sample.authInfo sampleUp.received = .reject → sampleUp.reports = [.error]) ∧
      (sampleUp.reports = [.error] → verdict sample.authInfo sampleUp.received = .reject ∨
        sampleUp.failed = true ∨ sample.authInfo.length = 0 ∨ sample.authInfo.length > 255) :=
  verdict_decides reach_sampleUp

/-! ### The number of events -/

/-- How many events can follow, once the receive operation at hand is complete: what is to be sent
and received, and the end of the connection. -/
def State.ahead : State → Nat
  | .connecting => 31
  | .sendingHello => 30
  | .sentHello => 27
  | .sendingPassword => 27
  | .sentPassword => 24
  | .sendingRequest => 24
  | .sentRequest => 19
  | .receivedReplyHeader => 1
  | .up => 1

/-- How many events can follow. -/
def Client.todo (c : Client) : Nat :=
  if c.ended = true then 0 else c.state.ahead + (c.recvTotal - c.recvLen)

theorem todo_le : c.todo ≤ c.state.ahead + (c.recvTotal - c.recvLen) := by
  unfold Client.todo
  split
  · exact Nat.zero_le _
  · exact Nat.le_refl _

theorem todo_pos (h : c.ended = false) : 0 < c.todo := by
  rw [Client.todo, h, if_neg (by simp)]
  cases c.state <;> exact Nat.add_pos_left (by decide) _

variable {n : Nat}

theorem ensures_report {r : Report} (hr : r ≠ .up) (hn : 0 < n) :
    Ensures (report r) c fun _ c' => c'.todo < n := by
  rw [report, ensures_modify]
  have hended : ({ c with reports := c.reports ++ [r] } : Client).ended = true := by
    simp [Client.ended, hr]
  rwa [Client.todo, if_pos hended]

theorem ensures_write {p : Nat} {Q : PUnit → Client → Prop}
    (hQ : ∀ b, Q ⟨⟩ { c with buffer := some b }) : Ensures (write p data) c Q := by
  simp only [write, ensures_bind, ensures_fetch, ensures_require, ensures_modify]
  exact fun _ _ _ => hQ _

theorem ensures_writeMethods {p : Nat} {as : List AuthInfo} {Q : PUnit → Client → Prop}
    (h : Q ⟨⟩ c) (hQ : ∀ b, Q ⟨⟩ { c with buffer := some b }) :
    Ensures (writeMethods p as) c Q := by
  induction as generalizing p c with
  | nil => exact ensures_pure.mpr h
  | cons a as ih =>
    rw [writeMethods, ensures_bind]
    exact ensures_write fun b => ih (hQ b) hQ

theorem ensures_reserveBuffer {Q : Bool → Client → Prop} (hno : Q false { c with failed := true })
    (hQ : ∀ b, Q true { c with buffer := some b }) :
    Ensures (reserveBuffer memory size) c Q := by
  cases memory with
  | none =>
    simp only [reserveBuffer, ensures_bind, ensures_modify, ensures_pure]
    exact hno
  | some new =>
    simp only [reserveBuffer, ensures_bind, ensures_modify, ensures_pure]
    exact hQ _

/-- A packet is sent from now on. -/
theorem ensures_send {len : Nat} {state : State}
    (hn : state.ahead + (c.recvTotal - c.recvLen) < n) :
    Ensures (do senderSend len; setState state) c fun _ c' => c'.todo < n := by
  simp only [senderSend, setState, assert, ensures_bind, ensures_get, ensures_require,
    ensures_modify]
  exact fun _ _ => Nat.lt_of_le_of_lt todo_le hn

/-- A receive operation is started. -/
theorem ensures_receive {state : State} (hn : state.ahead + total < n) :
    Ensures (do startReceive dest total; setState state) c fun _ c' => c'.todo < n := by
  simp only [startReceive, doReceive, setState, assert, ensures_bind, ensures_get, ensures_require,
    ensures_modify]
  exact fun _ _ _ _ => Nat.lt_of_le_of_lt todo_le hn

theorem ensures_authFinished (hn : 24 + (c.recvTotal - c.recvLen) < n) :
    Ensures (authFinished args memory) c fun _ c' => c'.todo < n := by
  rw [authFinished, ensures_bind]
  refine ensures_reserveBuffer (ensures_report (by simp) (by omega)) fun b => ?_
  rw [if_pos rfl, ensures_bind]
  refine ensures_write fun b => ?_
  rw [ensures_bind]
  exact ensures_write fun b => ensures_send hn

theorem ensures_receivedMessage (hdone : c.recvTotal - c.recvLen = 0) (hn : c.state.ahead < n) :
    Ensures (receivedMessage args memory c.state) c fun _ c' => c'.todo < n := by
  have hpos : 0 < n := by omega
  cases hstate : c.state with
  | sentHello =>
    rw [hstate] at hn
    simp only [receivedMessage, receivedHello, readByte, ensures_bind, ensures_fetch]
    intro ver _ method _
    split
    · exact ensures_report (by simp) hpos
    · split
      · exact ensures_report (by simp) hpos
      · exact ensures_authFinished (by rw [hdone]; exact Nat.lt_trans (by decide) hn)
      · split
        · rw [ensures_bind]
          refine ensures_reserveBuffer (ensures_report (by simp) hpos) fun b => ?_
          rw [if_pos rfl, ensures_bind]
          refine ensures_write fun b => ensures_send ?_
          show _ + (c.recvTotal - c.recvLen) < n
          rwa [hdone]
        · exact ensures_report (by simp) hpos
  | sentPassword =>
    rw [hstate] at hn
    simp only [receivedMessage, receivedPasswordReply, readByte, ensures_bind, ensures_fetch]
    intro ver _ status _
    split
    · exact ensures_report (by simp) hpos
    · split
      · exact ensures_report (by simp) hpos
      · exact ensures_authFinished (by rwa [hdone])
  | sentRequest =>
    rw [hstate] at hn
    simp only [receivedMessage, receivedHeader, readByte, ensures_bind, ensures_fetch]
    intro ver _ rep _ atyp _
    split
    · exact ensures_report (by simp) hpos
    · split
      · exact ensures_report (by simp) hpos
      · split
        · exact ensures_report (by simp) hpos
        · rename_i k haddr
          have hk := (addrLen_bounds haddr).2
          refine ensures_receive (Nat.lt_of_le_of_lt ?_ hn)
          exact Nat.add_le_add_left hk 1
  | receivedReplyHeader =>
    rw [hstate] at hn
    simp only [receivedMessage, receivedReply, report, ensures_bind, ensures_modify]
    refine Nat.lt_of_le_of_lt todo_le ?_
    show 1 + (c.recvTotal - c.recvLen) < n
    rwa [hdone]
  | _ =>
    simp only [receivedMessage, assert, ensures_require]
    exact fun h => h.elim

theorem ensures_awaitReply {state : State} (hn : state.ahead + total < n) :
    Ensures (awaitReply memory size total state) c fun _ c' => c'.todo < n := by
  rw [awaitReply, ensures_bind]
  exact ensures_reserveBuffer (ensures_report (by simp) (by omega)) fun b => ensures_receive hn

theorem ensures_sentMessage (hn : c.state.ahead ≤ n) :
    Ensures (sentMessage memory c.state) c fun _ c' => c'.todo < n := by
  cases hstate : c.state with
  | sendingHello | sendingPassword | sendingRequest =>
    rw [hstate] at hn
    exact ensures_awaitReply (Nat.lt_of_lt_of_le (by decide) hn)
  | _ =>
    simp only [sentMessage, assert, ensures_require]
    exact fun h => h.elim

theorem ensures_connected {isError conInit : Bool}
    (he : enabled c (.connected isError conInit memory)) :
    Ensures (handle args (.connected isError conInit memory)) c fun _ c' => c'.todo < c.todo := by
  have hpos := todo_pos he.1
  have htodo : c.todo = 31 + (c.recvTotal - c.recvLen) := by
    rw [Client.todo, he.1, if_neg (by simp), he.2]
    rfl
  simp only [handle, connectorHandler, assert, ensures_bind, ensures_get, ensures_require]
  intro _
  split
  · rw [ensures_bind, ensures_modify]
    exact ensures_report (by simp) hpos
  · have hfail : ∀ c', Ensures failConnected c' fun _ c'' => c''.todo < c.todo := by
      intro c'
      rw [failConnected, ensures_bind, ensures_modify]
      exact ensures_report (by simp) hpos
    rw [ensures_bind, ensures_modify]
    split
    · exact hfail _
    · rw [ensures_bind]
      refine ensures_reserveBuffer (hfail _) fun b => ?_
      rw [if_pos rfl, ensures_bind]
      have hrest : State.sendingHello.ahead + (c.recvTotal - c.recvLen) < c.todo := by
        rw [htodo]
        exact Nat.add_lt_add_right (by decide) _
      refine ensures_write fun b => ?_
      rw [ensures_bind]
      exact ensures_writeMethods (ensures_send hrest) fun b => ensures_send hrest

theorem ensures_recvDone (he : enabled c (.recvDone data memory)) :
    Ensures (handle args (.recvDone data memory)) c fun _ c' => c'.todo < c.todo := by
  obtain ⟨hended, -, hpos, hle⟩ := he
  have htodo : c.todo = c.state.ahead + (c.recvTotal - c.recvLen) := by
    rw [Client.todo, hended, if_neg (by simp)]
  simp only [handle, ensures_bind, ensures_get]
  refine ensures_write fun b => ?_
  simp only [recvHandlerDone, assert, ensures_bind, ensures_get, ensures_modify, ensures_require]
  intro _
  split
  · simp only [doReceive, assert, ensures_bind, ensures_get, ensures_modify, ensures_require]
    intro _ _ _
    refine Nat.lt_of_le_of_lt todo_le ?_
    show c.state.ahead + (c.recvTotal - (c.recvLen + data.length)) < c.todo
    omega
  · refine ensures_receivedMessage (c := { c with
      buffer := some b
      recvBusy := false
      received := c.received ++ data
      recvLen := c.recvLen + data.length }) ?_ ?_
    · show c.recvTotal - (c.recvLen + data.length) = 0
      omega
    · show c.state.ahead < c.todo
      omega

/-- Every event brings the client closer to its end. -/
theorem ensures_handle {e : Event} (he : enabled c e) :
    Ensures (handle args e) c fun _ c' => c'.todo < c.todo := by
  cases e with
  | connected => exact ensures_connected he
  | sendDone memory =>
    simp only [handle, sendHandlerDone, assert, ensures_bind, ensures_fetch, ensures_modify,
      ensures_get, ensures_require]
    intro len _ _
    have hle : c.state.ahead ≤ c.todo := by
      rw [Client.todo, he.1, if_neg (by simp)]
      exact Nat.le_add_right _ _
    exact ensures_sentMessage (c := { c with
      sendLen := none
      sent := c.sent ++ (c.buffer.getD []).take len }) hle
  | recvDone => exact ensures_recvDone he
  | connection closed =>
    simp only [handle, connectionHandler, assert, ensures_bind, ensures_get, ensures_modify,
      ensures_require]
    intro _
    split
    · exact ensures_report (by simp) (todo_pos he.1)
    · exact ensures_report (by simp) (todo_pos he.1)

theorem length_le_todo {es : List Event} {s : Except Fault Client}
    (h : runWith (step args) fits (.ok c) es = some s) : es.length ≤ c.todo := by
  induction es generalizing c with
  | nil => exact Nat.zero_le _
  | cons e es ih =>
    obtain ⟨hok, t, ht, hrest⟩ := runWith_cons h
    have hlt : Ensures (handle args e) c fun _ c' => c'.todo < c.todo := ensures_handle hok
    cases hr : handle args e c with
    | error f =>
      rw [step, hr] at ht
      cases ht
      -- after a fault nothing happens
      cases es with
      | nil =>
        have hended : c.ended = false := by cases e <;> exact hok.1
        exact todo_pos hended
      | cons e' es =>
        exact absurd (runWith_cons hrest).1 id
    | ok r =>
      rw [step, hr] at ht
      cases ht
      have hle : es.length ≤ r.2.todo := ih hrest
      have htodo := hlt r hr
      rw [List.length_cons]
      omega

/-- **No server can keep the handshake going.**  At most 31 events happen to a client before it is
over, the end of the connection included, whatever the server sends and in whatever pieces. -/
theorem handshake_bounded {es : List Event} {s : Except Fault Client}
    (h : runWith (step args) fits (.ok start) es = some s) : es.length ≤ 31 := length_le_todo h

/-- The longest handshake: username and password are asked for, and every byte comes alone. -/
def longest : List Event :=
  let memory : NewMemory := some fun _ => 0
  let reply (bytes : Bytes) := bytes.map fun x => Event.recvDone [x] memory
  [.connected false true memory, .sendDone memory] ++ reply [5, 2] ++ [.sendDone memory] ++
    reply [1, 0] ++ [.sendDone memory] ++ reply ([5, 0, 0, 4] ++ List.replicate 18 0) ++
    [.connection true]

theorem handshake_bounded_longest :
    (∃ s, runWith (step ⟨[.password [1] [2]], .ipv4 0 0⟩) fits (.ok start) longest = some s) ∧
      longest.length = 31 ∧ longest.length ≤ 31 :=
  have h : (runWith (step ⟨[.password [1] [2]], .ipv4 0 0⟩) fits (.ok start) longest).isSome :=
    by decide +kernel
  ⟨Option.isSome_iff_exists.mp h, by decide,
    handshake_bounded (Option.isSome_iff_exists.mp h).choose_spec⟩

end SocksClient
