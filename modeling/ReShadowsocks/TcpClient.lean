/-
The TCP clients of tun2socks (`tun2socks.c`).

Each TCP connection that comes in through the device is relayed over a SOCKS connection of its
own: what lwIP hands to `client_recv_func` goes to the SOCKS server, and what comes from there is
queued in lwIP with `tcp_write`.  The handlers are translated statement by statement, as programs
that stop with a fault where the source would fail an `ASSERT`, use the memory of a client after
`free`, a pcb after `tcp_close` or `tcp_abort`, or a SOCKS connection after `BSocksClient_Free`
(the release build has no assertions: there these are undefined behaviour).

A connection (`Conn`) is the `struct tcp_client` with what it talks to:

* `Pcb` — the side of lwIP: which callbacks are registered, the bytes it handed over and those
  it took, and how many of them were confirmed and acknowledged;
* `Socks` — the side of the SOCKS connection: the operation that is outstanding on each of its
  two interfaces, the bytes it sent and received.

`Event` is what can happen to a connection, with the answers lwIP gives meanwhile (`Net`), and
`enabled` the contract of the two sides: lwIP calls only what is registered, hands over no more
than the window allows and acknowledges no more than was written; an interface completes only
what is outstanding.  `SYNC_COMMIT` runs jobs of the SOCKS connection inside a callback of lwIP;
an event carries the list of them.
-/
import ReShadowsocks.Program
import ReShadowsocks.Transition

namespace TcpClient

open Program Transition

/-- `TCP_WND` of lwIP, with the `TCP_MSS` of `lwipopts.h`. -/
def tcpWnd : Nat := 4 * 1460

/-- `CLIENT_SOCKS_RECV_BUF_SIZE`. -/
def clientSocksRecvBufSize : Nat := 8192

/-- `err_t`: the values that the handlers tell apart. -/
inductive ErrT
  | ok
  | mem
  | abrt
  | other
  deriving DecidableEq, Repr

inductive Fault
  | assertion
  | freedClient
  | freedPcb
  | freedSocks
  /-- `DEAD_KILL` through a pointer to a stack frame that is gone. -/
  | danglingDead
  /-- A read of a field that `BSOCKSCLIENT_EVENT_UP` has not yet initialised. -/
  | uninitialised
  /-- A callback of lwIP returned `ERR_ABRT` with the pcb in use, or something else without. -/
  | wrongReturn
  /-- The calls between the closing functions nest deeper than `callDepth`. -/
  | callDepth
  deriving DecidableEq, Repr

/-- The fields of the receiving side, initialised when SOCKS comes up. -/
structure SocksRecv where
  /-- The first `socks_recv_buf_used` bytes of `socks_recv_buf`; `none` is `-1`. -/
  buf : Option (List UInt8)
  /-- `socks_recv_buf_sent`. -/
  sent : Nat
  /-- `socks_recv_waiting`. -/
  waiting : Bool
  /-- `socks_recv_tcp_pending`. -/
  tcpPending : Nat
  deriving DecidableEq, Repr

/-- `struct tcp_client`. -/
structure Client where
  clientClosed : Bool
  /-- The first `buf_used` bytes of `buf`. -/
  buf : List UInt8
  socksUp : Bool
  socksClosed : Bool
  recv : Option SocksRecv
  /-- Does `dead_client` point to a variable? -/
  deadClient : Bool
  deriving DecidableEq, Repr

inductive PcbState
  | active
  /-- After `tcp_close`. -/
  | closed
  /-- After `tcp_abort`. -/
  | aborted
  /-- Given up by lwIP itself, which tells the error callback. -/
  | failed
  deriving DecidableEq, Repr

/-- A pcb of lwIP, as its user sees it. -/
structure Pcb where
  state : PcbState
  recvFn : Bool
  errFn : Bool
  sentFn : Bool
  /-- Bytes handed to the receive callback and taken by it. -/
  received : List UInt8
  /-- How many of them were confirmed with `tcp_recved`. -/
  recved : Nat
  /-- Bytes queued by `tcp_write`. -/
  written : List UInt8
  /-- How many of them the peer has acknowledged. -/
  acked : Nat
  /-- Has the peer closed its side? -/
  fin : Bool
  deriving DecidableEq, Repr

/-- A `BSocksClient`, as its user sees it. -/
structure Socks where
  live : Bool
  up : Bool
  /-- Has it reported an error? -/
  failed : Bool
  /-- The length of the operation that is outstanding on the send interface. -/
  sending : Option Nat
  /-- Is an operation outstanding on the receive interface? -/
  receiving : Bool
  sent : List UInt8
  received : List UInt8
  deriving DecidableEq, Repr

/-- What lwIP answers while an event is handled: `tcp_sndbuf` and `tcp_write` for each turn of the
loop (then `tcp_sndbuf` is zero), `tcp_output`, `tcp_close`. -/
structure Net where
  writes : List (Nat × ErrT)
  output : ErrT
  close : ErrT
  deriving DecidableEq, Repr

structure Conn where
  /-- `none` after `free(client)`. -/
  client : Option Client
  pcb : Pcb
  socks : Socks
  /-- Is the client in the list `tcp_clients`? -/
  listed : Bool
  /-- The variable `badvpn__dead` of the callback that waits in `SYNC_COMMIT`. -/
  dead : Option Bool
  /-- Was the client ended by `terminate`? -/
  murdered : Bool
  net : Net
  deriving DecidableEq, Repr

/-- One connection, with the counter that all share. -/
structure World extends Conn where
  numClients : Int
  deriving DecidableEq, Repr

abbrev Run := StateT World (Except Fault)

/-! ### Access to the objects -/

def assert (p : Prop) [Decidable p] : Run Unit := require p .assertion

/-- `client->…`. -/
def client : Run Client := fetch (fun w => w.client) .freedClient

def setClient (c : Client) : Run Unit := do
  let _ ← client
  modify fun w => { w with client := some c }

/-- `client->pcb`, to be used. -/
def pcb : Run Pcb := fetch (fun w => if w.pcb.state = .active then some w.pcb else none) .freedPcb

def setPcb (p : Pcb) : Run Unit := do
  let _ ← pcb
  modify fun w => { w with pcb := p }

def socks : Run Socks := fetch (fun w => if w.socks.live then some w.socks else none) .freedSocks

def setSocks (k : Socks) : Run Unit := do
  let _ ← socks
  modify fun w => { w with socks := k }

def socksRecv (c : Client) : Run SocksRecv := fetch (fun _ => c.recv) .uninitialised

/-- Bytes that came from SOCKS and are still to be queued. -/
def SocksRecv.unsent (r : SocksRecv) : List UInt8 := (r.buf.getD []).drop r.sent

/-! ### The calls to lwIP and to the SOCKS client -/

def tcpRecvNull : Run Unit := do
  let p ← pcb
  setPcb { p with recvFn := false }

/-- `tcp_err(pcb, NULL)`, `tcp_recv(pcb, NULL)`, `tcp_sent(pcb, NULL)`. -/
def removeCallbacks : Run Unit := do
  let p ← pcb
  setPcb { p with recvFn := false, errFn := false, sentFn := false }

def tcpSent : Run Unit := do
  let p ← pcb
  setPcb { p with sentFn := true }

def tcpClose : Run ErrT := do
  let p ← pcb
  let err := (← get).net.close
  if err = .ok then
    setPcb { p with state := .closed }
  pure err

def tcpAbort : Run Unit := do
  let p ← pcb
  setPcb { p with state := .aborted }

def tcpRecved (len : Nat) : Run Unit := do
  let p ← pcb
  setPcb { p with recved := p.recved + len }

/-- `tcp_write`, whose result is `err`. -/
def tcpWrite (data : List UInt8) (err : ErrT) : Run ErrT := do
  let p ← pcb
  if err = .ok then
    setPcb { p with written := p.written ++ data }
  pure err

def tcpOutput : Run ErrT := do
  let _ ← pcb
  pure (← get).net.output

/-- `pbuf_copy_partial` into the free part of `buf`. -/
def pbufCopyPartial (data : List UInt8) : Run Unit := do
  let c ← client
  let p ← pcb
  setClient { c with buf := c.buf ++ data }
  setPcb { p with received := p.received ++ data }

def bSocksClientFree : Run Unit := do
  let k ← socks
  setSocks { k with live := false, sending := none, receiving := false }

/-- `StreamPassInterface_Sender_Send`. -/
def senderSend (len : Nat) : Run Unit := do
  let k ← socks
  assert (0 < len)
  assert (k.sending = none)
  setSocks { k with sending := some len }

/-- `StreamRecvInterface_Receiver_Recv`. -/
def receiverRecv : Run Unit := do
  let k ← socks
  assert (k.receiving = false)
  setSocks { k with receiving := true }

/-- `DEAD_KILL(client->dead_client)`. -/
def deadKill : Run Unit := do
  let c ← client
  if c.deadClient then
    let _ ← fetch (fun w => w.dead) .danglingDead
    modify fun w => { w with dead := some true }

/-! ### The end of a client -/

def clientDealloc : Run Unit := do
  let c ← client
  assert (c.clientClosed = true)
  assert (c.socksClosed = true)
  assert (0 < (← get).numClients)
  modify fun w => { w with numClients := w.numClients - 1, listed := false, client := none }

/-- The first step of `client_free_socks`: nothing more is received for SOCKS. -/
def stopReceiving : Run Unit := do
  let c ← client
  if c.socksUp then
    if c.clientClosed = false then
      tcpRecvNull

/-- The condition on which `client_free_socks` waits: data that can still go to the client. -/
def leftForClient (c : Client) : Run Bool := do
  if c.socksUp then
    let r ← socksRecv c
    return decide ((r.buf.isSome ∨ 0 < r.tcpPending) ∧ c.clientClosed = false)
  else
    return false

mutual

/-- `client_handle_freed_client`; like the two functions below, with a bound on the calls between
the three. -/
def clientHandleFreedClient : Nat → Run Unit
  | 0 => throw .callDepth
  | depth + 1 => do
    assert ((← client).clientClosed = false)
    deadKill
    setClient { (← client) with clientClosed := true }
    let c ← client
    if 0 < c.buf.length ∧ c.socksClosed = false then
      pure ()
    else if c.socksClosed = false then
      clientFreeSocks depth
    else
      clientDealloc

def clientFreeClient : Nat → Run Unit
  | 0 => throw .callDepth
  | depth + 1 => do
    assert ((← client).clientClosed = false)
    removeCallbacks
    let err ← tcpClose
    if err ≠ .ok then
      tcpAbort
    clientHandleFreedClient depth

def clientFreeSocks : Nat → Run Unit
  | 0 => throw .callDepth
  | depth + 1 => do
    assert ((← client).socksClosed = false)
    stopReceiving
    bSocksClientFree
    setClient { (← client) with socksClosed := true }
    let c ← client
    if ← leftForClient c then
      pure ()
    else if c.clientClosed = false then
      clientFreeClient depth
    else
      clientDealloc

end

/-- The closing functions do not call each other deeper than this. -/
def callDepth : Nat := 4

def clientAbortClient : Run Unit := do
  assert ((← client).clientClosed = false)
  removeCallbacks
  tcpAbort
  clientHandleFreedClient callDepth

def clientMurder : Run Unit := do
  if (← client).clientClosed = false then
    removeCallbacks
    tcpAbort
    deadKill
    setClient { (← client) with clientClosed := true }
  if (← client).socksClosed = false then
    bSocksClientFree
    setClient { (← client) with socksClosed := true }
  clientDealloc

/-! ### From SOCKS to the client -/

def clientSocksRecvInitiate : Run Unit := do
  let c ← client
  assert (c.clientClosed = false)
  assert (c.socksClosed = false)
  assert (c.socksUp = true)
  assert ((← socksRecv c).buf = none)
  receiverRecv

/-- The loop of `client_socks_recv_send_out`; `false` if the client was aborted. -/
def queueData : List (Nat × ErrT) → Run Bool
  | [] => pure true
  | (sndbuf, answer) :: rest => do
    let c ← client
    let r ← socksRecv c
    let toWrite := min ((r.buf.getD []).length - r.sent) sndbuf
    if toWrite = 0 then
      pure true
    else
      let err ← tcpWrite (r.unsent.take toWrite) answer
      if err ≠ .ok then
        if err = .mem then
          pure true
        else
          clientAbortClient
          pure false
      else
        let r := { r with sent := r.sent + toWrite, tcpPending := r.tcpPending + toWrite }
        setClient { c with recv := some r }
        if r.sent < (r.buf.getD []).length then queueData rest else pure true

/-- `client_socks_recv_send_out`; `false` is the result `-1`. -/
def clientSocksRecvSendOut : Run Bool := do
  let c ← client
  assert (c.clientClosed = false)
  assert (c.socksUp = true)
  let r ← socksRecv c
  assert (0 < (r.buf.getD []).length)
  assert (r.sent < (r.buf.getD []).length)
  assert (r.waiting = false)
  if !(← queueData (← get).net.writes) then
    return false
  -- start sending now
  let err ← tcpOutput
  if err ≠ .ok then
    clientAbortClient
    return false
  let c ← client
  let r ← socksRecv c
  if r.sent < (r.buf.getD []).length then
    if r.tcpPending = 0 then
      -- can't queue data, but all data was confirmed
      clientAbortClient
      return false
    setClient { c with recv := some { r with waiting := true } }
    return true
  setClient { c with recv := some { r with buf := none } }
  return true

def clientSocksRecvHandlerDone (data : List UInt8) : Run Unit := do
  assert (0 < data.length)
  assert (data.length ≤ clientSocksRecvBufSize)
  let c ← client
  assert (c.socksClosed = false)
  assert (c.socksUp = true)
  let r ← socksRecv c
  assert (r.buf = none)
  if c.clientClosed then
    return
  setClient { c with recv := some { r with buf := some data, sent := 0, waiting := false } }
  if !(← clientSocksRecvSendOut) then
    return
  if (← socksRecv (← client)).buf = none then
    clientSocksRecvInitiate

/-! ### From the client to SOCKS -/

def clientSendToSocks : Run Unit := do
  let c ← client
  assert (c.socksClosed = false)
  assert (c.socksUp = true)
  assert (0 < c.buf.length)
  senderSend c.buf.length

def clientSocksSendHandlerDone (len : Nat) : Run Unit := do
  let c ← client
  assert (c.socksClosed = false)
  assert (c.socksUp = true)
  assert (0 < c.buf.length)
  assert (0 < len)
  assert (len ≤ c.buf.length)
  setClient { c with buf := c.buf.drop len }
  if c.clientClosed = false then
    tcpRecved len
  let c ← client
  if 0 < c.buf.length then
    senderSend c.buf.length
  else if c.clientClosed then
    clientFreeSocks callDepth

/-! ### Events of SOCKS -/

inductive SocksEvent
  | error
  | up
  | errorClosed
  deriving DecidableEq, Repr

def clientSocksHandler (event : SocksEvent) : Run Unit := do
  assert ((← client).socksClosed = false)
  match event with
  | .error => clientFreeSocks callDepth
  | .up =>
    let c ← client
    assert (c.socksUp = false)
    let _ ← socks
    setClient { c with recv := some ⟨none, 0, false, 0⟩ }
    if c.clientClosed = false then
      tcpSent
    setClient { (← client) with socksUp := true }
    if 0 < c.buf.length then
      clientSendToSocks
    if c.clientClosed = false then
      clientSocksRecvInitiate
  | .errorClosed =>
    assert ((← client).socksUp = true)
    clientFreeSocks callDepth

/-- What the SOCKS connection of a client can do next. -/
inductive Job
  | event (e : SocksEvent)
  /-- The send interface has sent so many bytes. -/
  | sendDone (len : Nat)
  /-- The receive interface has received these bytes. -/
  | recvDone (data : List UInt8)
  deriving DecidableEq, Repr

/-- A job, with what lwIP answers to the calls that it leads to. -/
structure SocksJob where
  job : Job
  net : Net
  deriving DecidableEq, Repr

/-- Only what is outstanding completes, and a connection comes up once. -/
def jobEnabled (k : Socks) : Job → Bool
  | .event .up => k.live && !k.up
  | .event .error => k.live
  | .event .errorClosed => k.live && k.up
  | .sendDone len => k.live && decide (0 < len) && k.sending.any (len ≤ ·)
  | .recvDone data =>
    k.live && k.receiving && decide (0 < data.length) &&
      decide (data.length ≤ clientSocksRecvBufSize)

/-- The SOCKS side of a job: it sends the bytes that stand in the buffer it was given, and its
interface is free again when the handler is called. -/
def performJob : Job → Run Unit
  | .event .up => do setSocks { (← socks) with up := true }
  | .event .error => do setSocks { (← socks) with failed := true }
  | .event .errorClosed => do setSocks { (← socks) with failed := true }
  | .sendDone len => do
    let k ← socks
    let c ← client
    setSocks { k with sending := none, sent := k.sent ++ c.buf.take len }
  | .recvDone data => do
    let k ← socks
    setSocks { k with receiving := false, received := k.received ++ data }

def handleJob : Job → Run Unit
  | .event e => clientSocksHandler e
  | .sendDone len => clientSocksSendHandlerDone len
  | .recvDone data => clientSocksRecvHandlerDone data

def runJob (j : SocksJob) : Run Unit := do
  modify fun w => { w with net := j.net }
  performJob j.job
  handleJob j.job

/-- `DEAD_ENTER`, `SYNC_COMMIT`, `DEAD_LEAVE2`; `true` if `DEAD_KILLED`.  The jobs that run are
those of the list that the SOCKS connection can make when their turn comes. -/
def syncCommit (jobs : List SocksJob) : Run Bool := do
  setClient { (← client) with deadClient := true }
  modify fun w => { w with dead := some false }
  jobs.forM fun j => do
    if jobEnabled (← get).socks j.job then
      runJob j
  let killed := (← get).dead = some true
  if ¬ killed then
    setClient { (← client) with deadClient := false }
  modify fun w => { w with dead := none }
  pure killed

/-! ### Callbacks of lwIP -/

/-- `client_err_func`. -/
def clientErrFunc : Run Unit := do
  assert ((← client).clientClosed = false)
  clientHandleFreedClient callDepth

/-- `client_recv_func`; `none` is a null `p`. -/
def clientRecvFunc (p : Option (List UInt8)) (jobs : List SocksJob) : Run ErrT := do
  assert ((← client).clientClosed = false)
  match p with
  | none =>
    clientFreeClient callDepth
    return .abrt
  | some data =>
    assert (0 < data.length)
    if tcpWnd - (← client).buf.length < data.length then
      return .mem
    pbufCopyPartial data
    let c ← client
    if c.buf.length = data.length ∧ c.socksUp = true then
      assert (c.socksClosed = false)
      clientSendToSocks
      if ← syncCommit jobs then
        return .abrt
    return .ok

/-- `client_sent_func`. -/
def clientSentFunc (len : Nat) (jobs : List SocksJob) : Run ErrT := do
  let c ← client
  assert (c.clientClosed = false)
  assert (c.socksUp = true)
  assert (0 < len)
  let r ← socksRecv c
  assert (len ≤ r.tcpPending)
  let r := { r with tcpPending := r.tcpPending - len }
  setClient { c with recv := some r }
  if 0 < (r.buf.getD []).length then
    assert (r.waiting = true)
    assert (r.sent < (r.buf.getD []).length)
    setClient { c with recv := some { r with waiting := false } }
    if !(← clientSocksRecvSendOut) then
      return .abrt
    -- some data was just queued, so it can't have been confirmed yet
    let c ← client
    let r ← socksRecv c
    assert (0 < r.tcpPending)
    if r.buf = none ∧ c.socksClosed = false then
      clientSocksRecvInitiate
      if ← syncCommit jobs then
        return .abrt
    return .ok
  if c.socksClosed = true ∧ r.tcpPending = 0 then
    clientFreeClient callDepth
    return .abrt
  return .ok

/-! ### Events of a connection -/

inductive Event
  | recv (p : Option (List UInt8)) (jobs : List SocksJob)
  | sent (len : Nat) (jobs : List SocksJob)
  | err
  | socks (job : Job)
  /-- `terminate`, at the end of `main`. -/
  | murder
  deriving DecidableEq, Repr

/-- The contract of lwIP and of the SOCKS connection. -/
def enabled (k : Conn) : Event → Bool
  | .recv none _ => decide (k.pcb.state = .active) && k.pcb.recvFn
  | .recv (some data) _ =>
    decide (k.pcb.state = .active) && k.pcb.recvFn && decide (0 < data.length) &&
      decide (k.pcb.received.length - k.pcb.recved + data.length ≤ tcpWnd)
  | .sent len _ =>
    decide (k.pcb.state = .active) && k.pcb.sentFn && decide (0 < len) &&
      decide (k.pcb.acked + len ≤ k.pcb.written.length)
  | .err => decide (k.pcb.state = .active) && k.pcb.errFn
  | .socks job => jobEnabled k.socks job
  | .murder => k.listed

/-- lwIP goes on with the pcb unless the callback returns `ERR_ABRT`. -/
def returned (err : ErrT) : Run Unit := do
  require (err = .abrt ↔ (← get).pcb.state ≠ .active) .wrongReturn

def handle : Event → Run Unit
  | .recv p jobs => do
    modify fun w => { w with pcb.fin := w.pcb.fin || p.isNone }
    returned (← clientRecvFunc p jobs)
  | .sent len jobs => do
    modify fun w => { w with pcb.acked := w.pcb.acked + len }
    returned (← clientSentFunc len jobs)
  | .err => do
    modify fun w => { w with pcb.state := .failed }
    clientErrFunc
  | .socks job => do
    performJob job
    handleJob job
  | .murder => do
    modify fun w => { w with murdered := true }
    clientMurder

/-! ### The system -/

/-- A pcb as lwIP hands it to `listener_accept_func`. -/
def newPcb : Pcb := ⟨.active, false, false, false, [], 0, [], 0, false⟩

/-- A connection before `listener_accept_func` has allocated anything. -/
def newConn (net : Net) : Conn :=
  ⟨none, newPcb, ⟨false, false, false, none, false, [], []⟩, false, none, false, net⟩

/-- `listener_accept_func`; `started` says whether `malloc` and `BSocksClient_Init` succeed.  lwIP
aborts the pcb if it gets `ERR_MEM`. -/
def listenerAcceptFunc (started : Bool) (jobs : List SocksJob) : Run ErrT := do
  if started = false then
    return .mem
  modify fun w => { w with socks.live := true, listed := true }
  assert (0 ≤ (← get).numClients)
  modify fun w => { w with
    numClients := w.numClients + 1
    client := some ⟨false, [], false, false, none, false⟩
    pcb.errFn := true
    pcb.recvFn := true }
  if ← syncCommit jobs then
    return .abrt
  return .ok

/-- The call of `listener_accept_func` by lwIP. -/
def accept (started : Bool) (jobs : List SocksJob) : Run Unit := do
  match ← listenerAcceptFunc started jobs with
  | .mem => tcpAbort
  | err => returned err

structure System where
  conns : List Conn
  numClients : Int
  deriving DecidableEq, Repr

inductive Action
  | accept (started : Bool) (jobs : List SocksJob)
  | event (i : Nat) (net : Net) (e : Event)
  deriving DecidableEq, Repr

def start : System := ⟨[], 0⟩

/-- A call for one connection; the others are as they were. -/
def System.call (s : System) (k : Conn) (x : Run Unit) (put : Conn → List Conn) :
    Except Fault System := do
  let r ← x.run ⟨k, s.numClients⟩
  pure ⟨put r.2.toConn, r.2.numClients⟩

/-- One action; a fault is a state of its own, which nothing leaves. -/
def step : Except Fault System → Action → Option (Except Fault System)
  | .error _, _ => none
  | .ok s, .accept started jobs =>
    some (s.call (newConn ⟨[], .ok, .ok⟩) (accept started jobs) fun k => s.conns ++ [k])
  | .ok s, .event i net e =>
    s.conns[i]?.bind fun k =>
      if enabled k e then
        some (s.call { k with net := net } (handle e) fun k => s.conns.set i k)
      else none

end TcpClient
