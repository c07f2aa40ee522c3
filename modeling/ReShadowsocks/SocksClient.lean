/-
`BSocksClient` of `tun2socks`: the handshake with the SOCKS server.

The server's bytes come in pieces of any size.  The client collects a message in a buffer that it
allocates anew for each message, answers it, and hands the connection over once the reply to its
request is complete.

* `connectorHandler`, `recvHandlerDone`, `sendHandlerDone`, `connectionHandler` — the handlers, with
  the memory that the system returns and what the interfaces check;
* `handle`, `step` — what can happen to a client.
-/
import ReShadowsocks.Memory
import ReShadowsocks.Program
import ReShadowsocks.UdpRelay

namespace SocksClient

open Memory Program
open UdpRelay (BAddr)

abbrev Bytes := List UInt8

def socksVersion : UInt8 := 0x05

/-- `struct BSocksClient_auth_info`. -/
inductive AuthInfo
  | none
  | password (username password : Bytes)
  deriving DecidableEq

/-- `SOCKS_METHOD_NO_AUTHENTICATION_REQUIRED` and `SOCKS_METHOD_USERNAME_PASSWORD`. -/
def AuthInfo.authType : AuthInfo → UInt8
  | none => 0x00
  | password _ _ => 0x02

inductive State
  | connecting
  | sendingHello
  | sentHello
  | sendingPassword
  | sentPassword
  | sendingRequest
  | sentRequest
  | receivedReplyHeader
  | up
  deriving DecidableEq

/-- What the handler of the user is called with. -/
inductive Report
  | up
  | error
  | errorClosed
  deriving DecidableEq

inductive Fault
  /-- An `ASSERT` fails, here or in an interface that is used. -/
  | assertion
  /-- A byte outside of the buffer is accessed. -/
  | outOfBounds
  /-- Something is freed that is not there. -/
  | notThere
  deriving DecidableEq

structure Client where
  state : State
  buffer : Option Bytes
  recvDest : Nat
  recvLen : Nat
  recvTotal : Nat
  /-- A receive operation is outstanding. -/
  recvBusy : Bool
  /-- The front of the buffer that is being sent. -/
  sendLen : Option Nat
  con : Bool
  controlIo : Bool
  upIo : Bool
  reports : List Report
  /-- A call of the system failed, or the connection broke. -/
  failed : Bool
  sent : Bytes
  received : Bytes
  deriving DecidableEq

abbrev Run := StateT Client (Except Fault)

/-- What `BRealloc` returns: the contents of the new memory, `none` for `NULL`. -/
abbrev NewMemory := Option (Nat → UInt8)

/-- The arguments of `BSocksClient_Init`. -/
structure Args where
  authInfo : List AuthInfo
  destAddr : BAddr

def assert (p : Prop) [Decidable p] : Run PUnit := require p .assertion

def report (r : Report) : Run PUnit := modify fun c => { c with reports := c.reports ++ [r] }

/-- `BRealloc` keeps what fits. -/
def resize (old : Bytes) (size : Nat) (new : Nat → UInt8) : Bytes :=
  old.take size ++ (List.range (size - old.length)).map new

/-- `reserve_buffer`. -/
def reserveBuffer (memory : NewMemory) (size : Nat) : Run Bool := do
  match memory with
  | none => do
    modify fun c => { c with failed := true }
    return false
  | some new => do
    modify fun c => { c with buffer := some (resize (c.buffer.getD []) size new) }
    return true

/-- `memcpy(o->buffer + p, data)`. -/
def write (p : Nat) (data : Bytes) : Run PUnit := do
  let b ← fetch Client.buffer .outOfBounds
  require (p + data.length ≤ b.length) .outOfBounds
  modify fun c => { c with buffer := some (writeAt b p data) }

/-- `o->buffer[i]`. -/
def readByte (i : Nat) : Run UInt8 := fetch (fun c => (c.buffer.getD [])[i]?) .outOfBounds

/-- `PacketPassInterface_Sender_Send` of the front of the buffer. -/
def senderSend (len : Nat) : Run PUnit := do
  let c ← get
  assert (c.controlIo = true ∧ c.sendLen = none)
  require (len ≤ (c.buffer.getD []).length) .outOfBounds
  modify fun c => { c with sendLen := some len }

/-- `do_receive`. -/
def doReceive : Run PUnit := do
  let c ← get
  assert (c.recvLen < c.recvTotal)
  assert (c.controlIo = true ∧ c.recvBusy = false)
  require (c.recvDest + c.recvTotal ≤ (c.buffer.getD []).length) .outOfBounds
  modify fun c => { c with recvBusy := true }

/-- `start_receive`. -/
def startReceive (dest total : Nat) : Run PUnit := do
  assert (0 < total)
  modify fun c => { c with recvDest := dest, recvLen := 0, recvTotal := total }
  doReceive

def setState (state : State) : Run PUnit := modify fun c => { c with state := state }

/-- `auth_finished`. -/
def authFinished (args : Args) (memory : NewMemory) : Run PUnit := do
  if ← reserveBuffer memory (4 + args.destAddr.bytes.length) then do
    write 4 args.destAddr.bytes
    write 0 [socksVersion, 0x01, 0, args.destAddr.atyp]
    senderSend (4 + args.destAddr.bytes.length)
    setState .sendingRequest
  else report .error

/-- The loop that writes the methods of the hello. -/
def writeMethods : Nat → List AuthInfo → Run PUnit
  | _, [] => pure ⟨⟩
  | p, a :: as => do
    write p [a.authType]
    writeMethods (p + 1) as

/-- The label `fail1` of `connector_handler`. -/
def failConnected : Run PUnit := do
  modify fun c => { c with controlIo := false, con := false }
  report .error

/-- `connector_handler`; `conInit` says whether `BConnection_Init` succeeds. -/
def connectorHandler (args : Args) (isError conInit : Bool) (memory : NewMemory) : Run PUnit := do
  let c ← get
  assert (c.state = .connecting)
  if isError = true ∨ conInit = false then do
    modify fun c => { c with failed := true }
    report .error
  else do
    modify fun c => { c with con := true, controlIo := true }
    if args.authInfo.length = 0 ∨ args.authInfo.length > 255 then failConnected
    else if ← reserveBuffer memory (2 + args.authInfo.length) then do
      write 0 [socksVersion, UInt8.ofNat args.authInfo.length]
      writeMethods 2 args.authInfo
      senderSend (2 + args.authInfo.length)
      setState .sendingHello
    else failConnected

/-- `connection_handler`; `closed` is `BCONNECTION_EVENT_RECVCLOSED`. -/
def connectionHandler (closed : Bool) : Run PUnit := do
  let c ← get
  assert (c.state ≠ .connecting)
  modify fun c => { c with failed := true }
  if c.state = .up ∧ closed = true then report .errorClosed else report .error

/-- The packet with username and password. -/
def passwordPacket (username password : Bytes) : Bytes :=
  [1, UInt8.ofNat username.length] ++ username ++ [UInt8.ofNat password.length] ++ password

/-- A username and a password that fit the packet. -/
def FitPacket (username password : Bytes) : Prop :=
  ¬ (username.length = 0 ∨ username.length > 255 ∨ password.length = 0 ∨ password.length > 255)

instance decidableFitPacket (u p : Bytes) : Decidable (FitPacket u p) :=
  inferInstanceAs (Decidable (¬ _))

/-- `STATE_SENT_HELLO` of `recv_handler_done`. -/
def receivedHello (args : Args) (memory : NewMemory) : Run PUnit := do
  let ver ← readByte 0
  let method ← readByte 1
  if ver ≠ socksVersion then report .error
  else
    match args.authInfo.find? fun a => a.authType = method with
    | .none => report .error
    | some .none => authFinished args memory
    | some (.password u p) =>
      if FitPacket u p then do
        if ← reserveBuffer memory (1 + 1 + u.length + 1 + p.length) then do
          write 0 (passwordPacket u p)
          senderSend (1 + 1 + u.length + 1 + p.length)
          setState .sendingPassword
        else report .error
      else report .error

/-- The length of an address of the type. -/
def addrLen (atyp : UInt8) : Option Nat :=
  if atyp = 0x01 then some 6 else if atyp = 0x04 then some 18 else none

/-- `STATE_SENT_REQUEST` of `recv_handler_done`. -/
def receivedHeader : Run PUnit := do
  let ver ← readByte 0
  let rep ← readByte 1
  let atyp ← readByte 3
  if ver ≠ socksVersion then report .error
  else if rep ≠ 0 then report .error
  else
    match addrLen atyp with
    | none => report .error
    | some n => do
      startReceive 4 n
      setState .receivedReplyHeader

/-- `STATE_SENT_PASSWORD` of `recv_handler_done`. -/
def receivedPasswordReply (args : Args) (memory : NewMemory) : Run PUnit := do
  let ver ← readByte 0
  let status ← readByte 1
  if ver ≠ 1 then report .error
  else if status ≠ 0 then report .error
  else authFinished args memory

/-- `STATE_RECEIVED_REPLY_HEADER` of `recv_handler_done`. -/
def receivedReply : Run PUnit := do
  modify fun c => { c with buffer := none, controlIo := false, upIo := true, state := .up }
  report .up

/-- The `switch` of `recv_handler_done`. -/
def receivedMessage (args : Args) (memory : NewMemory) : State → Run PUnit
  | .sentHello => receivedHello args memory
  | .sentRequest => receivedHeader
  | .sentPassword => receivedPasswordReply args memory
  | .receivedReplyHeader => receivedReply
  | _ => assert False

/-- `recv_handler_done`. -/
def recvHandlerDone (args : Args) (dataLen : Nat) (memory : NewMemory) : Run PUnit := do
  let c ← get
  assert (c.recvLen + dataLen ≤ c.recvTotal)
  modify fun c => { c with recvLen := c.recvLen + dataLen }
  if c.recvLen + dataLen < c.recvTotal then doReceive else receivedMessage args memory c.state

/-- What `send_handler_done` does for each message: a buffer, and a receive operation. -/
def awaitReply (memory : NewMemory) (size total : Nat) (state : State) : Run PUnit := do
  if ← reserveBuffer memory size then do
    startReceive 0 total
    setState state
  else report .error

/-- The `switch` of `send_handler_done`. -/
def sentMessage (memory : NewMemory) : State → Run PUnit
  | .sendingHello => awaitReply memory 2 2 .sentHello
  | .sendingRequest => awaitReply memory (4 + max 6 18) 4 .sentRequest
  | .sendingPassword => awaitReply memory 2 2 .sentPassword
  | _ => assert False

/-- `send_handler_done`. -/
def sendHandlerDone (memory : NewMemory) : Run PUnit := do
  let c ← get
  assert (c.buffer.isSome = true)
  sentMessage memory c.state

/-- `BSocksClient_Free`. -/
def free : Run PUnit := do
  let c ← get
  if c.state ≠ .connecting then do
    require (if c.state = .up then c.upIo = true else c.controlIo = true) .notThere
    modify fun c => if c.state = .up then { c with upIo := false } else
      { c with controlIo := false }
    require (c.con = true) .notThere
    modify fun c => { c with con := false }
  else pure ⟨⟩
  modify fun c => { c with buffer := none }

/-! ### Runs -/

inductive Event
  | connected (isError conInit : Bool) (memory : NewMemory)
  /-- The packet was sent, as it is in the buffer at the end. -/
  | sendDone (memory : NewMemory)
  /-- Bytes of the server were written to the buffer. -/
  | recvDone (data : Bytes) (memory : NewMemory)
  | connection (closed : Bool)

def handle (args : Args) : Event → Run PUnit
  | .connected isError conInit memory => connectorHandler args isError conInit memory
  | .sendDone memory => do
    let len ← fetch Client.sendLen .assertion
    modify fun c => { c with
      sendLen := none
      sent := c.sent ++ (c.buffer.getD []).take len }
    sendHandlerDone memory
  | .recvDone data memory => do
    let c ← get
    write (c.recvDest + c.recvLen) data
    modify fun c => { c with recvBusy := false, received := c.received ++ data }
    recvHandlerDone args data.length memory
  | .connection closed => connectionHandler closed

/-- An error was reported; the user has to free the client then. -/
def Client.ended (c : Client) : Bool := c.reports.any fun r => decide (r ≠ .up)

/-- What can happen: an interface only completes what is outstanding. -/
def enabled (c : Client) : Event → Prop
  | .connected _ _ _ => c.ended = false ∧ c.state = .connecting
  | .sendDone _ => c.ended = false ∧ c.sendLen.isSome = true
  | .recvDone data _ => c.ended = false ∧ c.recvBusy = true ∧ 0 < data.length ∧
      data.length ≤ c.recvTotal - c.recvLen
  | .connection _ => c.ended = false ∧ c.con = true

instance decidableEnabled (c : Client) : ∀ e, Decidable (enabled c e)
  | .connected _ _ _ => inferInstanceAs (Decidable (_ ∧ _))
  | .sendDone _ => inferInstanceAs (Decidable (_ ∧ _))
  | .recvDone _ _ => inferInstanceAs (Decidable (_ ∧ _))
  | .connection _ => inferInstanceAs (Decidable (_ ∧ _))

def step (args : Args) (s : Except Fault Client) (e : Event) : Option (Except Fault Client) :=
  match s with
  | .error _ => none
  | .ok c => some ((handle args e c).map Prod.snd)

def fits (s : Except Fault Client) (e : Event) : Prop :=
  match s with
  | .error _ => False
  | .ok c => enabled c e

instance decidableFits : ∀ s e, Decidable (fits s e)
  | .error _, _ => inferInstanceAs (Decidable False)
  | .ok c, e => inferInstanceAs (Decidable (enabled c e))

/-- `BSocksClient_Init`. -/
def start : Client :=
  ⟨.connecting, none, 0, 0, 0, false, none, false, false, false, [], false, [], []⟩

end SocksClient
