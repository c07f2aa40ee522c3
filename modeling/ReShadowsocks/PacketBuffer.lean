/-
The sending side of a UDP connection of `tun2socks`.

`connection_send` writes a datagram to the place that the `BufferWriter` was given, `PacketBuffer`
keeps it in its circular buffer until the socket has sent those before it.  The three are coupled
by interfaces whose calls are jobs of the reactor: a job that is set last runs first, and the next
packet of the device comes only when no job is left.

* `Inv` — what the writer, the buffer and the socket know of each other;
* `inv_of_reach` — it holds in every run;
* `datagrams_in_order` — if the datagrams fit into the MTU, no assertion fails and no memory is
  touched that is not the connection's, and the socket gets the datagrams that were accepted,
  unchanged and in order;
* `dropped_only_when_full` — a datagram is dropped only if `num_packets` others wait;
* `datagrams_get_sent` — the datagrams that wait can always be sent.
-/
import ReShadowsocks.ChunkBuffer
import ReShadowsocks.Transition

namespace PacketBuffer

open ChunkBuffer Memory Program Transition

/-- `PRI_STATE_…` and `PPI_STATE_…`. -/
inductive IfState
  | none
  | operationPending
  | busy
  | donePending
  deriving DecidableEq

/-- The jobs of the two interfaces, and `first_job` of the connection. -/
inductive Job
  | recvOperation
  | recvDone
  | passOperation
  | passDone
  | first
  deriving DecidableEq

/-- `PacketRecvInterface`, by which the buffer receives. -/
structure RecvInterface where
  mtu : Nat
  state : IfState
  jobOperationData : Option Nat
  jobDoneLen : Nat
  deriving DecidableEq

/-- `PacketPassInterface`, by which the buffer sends. -/
structure PassInterface where
  mtu : Nat
  state : IfState
  jobOperationData : Option Nat
  jobOperationLen : Int
  deriving DecidableEq

structure BufferWriter where
  outHave : Bool
  out : Option Nat
  deriving DecidableEq

/-- A connection with its buffer; the last three fields only record what happened. -/
structure Connection where
  buf : ChunkBuffer2
  inputMtu : Nat
  input : RecvInterface
  output : PassInterface
  writer : BufferWriter
  /-- The jobs that are set, the next one first. -/
  jobs : List Job
  firstData : Bytes
  /-- The datagrams that were written to the buffer. -/
  accepted : List Bytes
  /-- The datagrams for which there was no place. -/
  dropped : List Bytes
  /-- The datagrams that the socket has sent. -/
  sent : List Bytes
  deriving DecidableEq

abbrev Run := StateT Connection (Except Fault)

def assert (p : Prop) [Decidable p] : Run PUnit := require p .assertion

/-- A call of the circular buffer. -/
def onBuf (x : Op PUnit) : Run PUnit := focus Connection.buf (fun b c => { c with buf := b }) x

/-- `BPending_Set`. -/
def setJob (j : Job) : Run PUnit := modify fun c => { c with jobs := j :: c.jobs.erase j }

/-- `PacketRecvInterface_Receiver_Recv`. -/
def receiverRecv (data : Option Nat) : Run PUnit := do
  let c ← get
  assert (c.input.mtu > 0 → data.isSome = true)
  assert (c.input.state = .none)
  setJob .recvOperation
  modify fun c => { c with
    input.jobOperationData := data, input.state := .operationPending }

/-- `PacketRecvInterface_Done`. -/
def recvInterfaceDone (len : Nat) : Run PUnit := do
  let c ← get
  assert (len ≤ c.input.mtu)
  assert (c.input.state = .busy)
  setJob .recvDone
  modify fun c => { c with input.jobDoneLen := len, input.state := .donePending }

/-- `PacketPassInterface_Sender_Send`. -/
def senderSend (data : Option Nat) (len : Int) : Run PUnit := do
  let c ← get
  assert (0 ≤ len)
  assert (len ≤ c.output.mtu)
  assert (len > 0 → data.isSome = true)
  assert (c.output.state = .none)
  setJob .passOperation
  modify fun c => { c with
    output.jobOperationData := data
    output.jobOperationLen := len
    output.state := .operationPending }

/-- If there is space, schedule receive. -/
def receiveIfSpace : Run PUnit := do
  let c ← get
  if c.buf.inputAvail ≥ c.inputMtu then receiverRecv c.buf.inputDest else pure ⟨⟩

def sendFirst : Run PUnit := do
  let c ← get
  senderSend c.buf.outputDest c.buf.outputAvail

/-- If there is more data, schedule send. -/
def sendIfMore : Run PUnit := do
  let c ← get
  if c.buf.outputAvail ≥ 0 then sendFirst else pure ⟨⟩

/-- `input_handler_done` of `PacketBuffer`. -/
def inputHandlerDone (inLen : Nat) : Run PUnit := do
  let c ← get
  assert (inLen ≤ c.inputMtu)
  let wasEmpty := c.buf.outputAvail < 0
  onBuf (submitPacket inLen)
  receiveIfSpace
  if wasEmpty then sendFirst else pure ⟨⟩

/-- `output_handler_done` of `PacketBuffer`. -/
def outputHandlerDone : Run PUnit := do
  let c ← get
  let wasFull := c.buf.inputAvail < c.inputMtu
  onBuf consumePacket
  if wasFull then receiveIfSpace else pure ⟨⟩
  sendIfMore

/-- `output_handler_recv` of `BufferWriter`. -/
def writerHandlerRecv (data : Option Nat) : Run PUnit := do
  let c ← get
  assert (c.writer.outHave = false)
  modify fun c => { c with writer.outHave := true, writer.out := data }

/-- `BufferWriter_EndPacket`. -/
def endPacket (len : Nat) : Run PUnit := do
  let c ← get
  assert (len ≤ c.input.mtu)
  assert (c.writer.outHave = true)
  modify fun c => { c with writer.outHave := false }
  recvInterfaceDone len

/-- The `memcpy`s of `connection_send`. -/
def writeOut (datagram : Bytes) : Run PUnit := do
  let c ← get
  require (∀ d ∈ c.writer.out, blockSize * d + datagram.length ≤ c.buf.buffer.length) .outOfBounds
  require (c.writer.out = none → datagram = []) .outOfBounds
  modify fun c => { c with
    buf.buffer := writeAt c.buf.buffer (blockSize * c.writer.out.getD 0) datagram }

/-- `connection_send`, after the SOCKS header was put in front of the packet. -/
def connectionSend (datagram : Bytes) : Run PUnit := do
  let c ← get
  if c.writer.outHave = false then
    -- out of UDP buffer
    modify fun c => { c with dropped := c.dropped ++ [datagram] }
  else do
    writeOut datagram
    modify fun c => { c with accepted := c.accepted ++ [datagram] }
    endPacket datagram.length

def runJob : Job → Run PUnit
  | .recvOperation => do
    let c ← get
    assert (c.input.state = .operationPending)
    modify fun c => { c with input.state := .busy }
    writerHandlerRecv c.input.jobOperationData
  | .recvDone => do
    let c ← get
    assert (c.input.state = .donePending)
    modify fun c => { c with input.state := .none }
    inputHandlerDone c.input.jobDoneLen
  | .passOperation => do
    let c ← get
    assert (c.output.state = .operationPending)
    modify fun c => { c with output.state := .busy }
  | .passDone => do
    let c ← get
    assert (c.output.state = .donePending)
    modify fun c => { c with output.state := .none }
    outputHandlerDone
  | .first => do
    let c ← get
    connectionSend c.firstData

/-- `BPendingGroup_ExecuteJob`. -/
def executeJob : Run PUnit := do
  let c ← get
  match c.jobs with
  | [] => throw .assertion
  | j :: jobs => do
    modify fun c => { c with jobs := jobs }
    runJob j

/-- The socket sends what it was given and calls `PacketPassInterface_Done`. -/
def transmit : Run PUnit := do
  let c ← get
  let data := c.output.jobOperationData.getD 0
  let len := c.output.jobOperationLen.toNat
  require (blockSize * data + len ≤ c.buf.buffer.length) .outOfBounds
  assert (c.output.state = .busy)
  setJob .passDone
  modify fun c => { c with
    output.state := .donePending
    sent := c.sent ++ [readAt c.buf.buffer (blockSize * data) len] }

/-! ### Runs -/

inductive Event
  | job
  | transmit
  /-- A packet of the device. -/
  | submit (datagram : Bytes)
  deriving DecidableEq

/-- The reactor runs all jobs before it looks at the device again. -/
def enabled (c : Connection) : Event → Bool
  | .job => !c.jobs.isEmpty
  | .transmit => decide (c.output.state = .busy)
  | .submit _ => c.jobs.isEmpty

def handle : Event → Run PUnit
  | .job => executeJob
  | .transmit => transmit
  | .submit datagram => connectionSend datagram

/-- One event; a fault is a state of its own, which nothing leaves. -/
def step : Except Fault Connection → Event → Option (Except Fault Connection)
  | .error _, _ => none
  | .ok c, e => if enabled c e then some (((handle e).run c).map Prod.snd) else none

/-- A datagram that fits, with its header, into the MTU of the writer.  `connection_send` does not
test it. -/
def fits : Except Fault Connection → Event → Prop
  | .ok c, .submit datagram => datagram.length ≤ c.inputMtu
  | _, _ => True

instance decidableFits : ∀ s e, Decidable (fits s e)
  | .ok _, .submit _ => inferInstanceAs (Decidable (_ ≤ _))
  | .ok _, .job | .ok _, .transmit | .error _, _ => isTrue trivial

/-- A connection as `connection_init` sets it up before it calls `PacketBuffer_Init`. -/
def newConnection (mtu : Nat) (firstData : Bytes) : Connection where
  buf := initial [] 0 0
  inputMtu := mtu
  input := ⟨mtu, .none, none, 0⟩
  output := ⟨mtu, .none, none, 0⟩
  writer := ⟨false, none⟩
  jobs := [.first]
  firstData
  accepted := []
  dropped := []
  sent := []

/-- `PacketBuffer_Init`, with the memory that `BAllocArray` returns; `false` if it fails. -/
def packetBufferInit (numPackets : Nat) (alloc : Nat → Option Bytes) : Run Bool := do
  let c ← get
  assert (numPackets > 0)
  match (calcBlocks c.inputMtu numPackets).bind fun n => (alloc n).map fun mem => (n, mem) with
  | none => return false
  | some (numBlocks, bufData) => do
    onBuf (init bufData numBlocks c.inputMtu)
    let c ← get
    receiverRecv c.buf.inputDest
    return true

/-! ### The invariant -/

/-- The circular buffer holds the packets `ps`; its memory is for `num + 1` packets. -/
structure Store (b : ChunkBuffer2) (mtu num : Nat) (ps : List Bytes) : Prop where
  queue : Queue b ps
  chunk : b.mtu = bdivideUp mtu blockSize
  size : b.size = (1 + b.mtu) * (num + 1)
  short : ∀ p ∈ ps, p.length ≤ mtu

/-- The buffer receives whenever it has space, and the writer knows the place. -/
structure Receives (b : ChunkBuffer2) (mtu : Nat) (i : RecvInterface) (w : BufferWriter) :
    Prop where
  agreed : i.mtu = mtu
  idle : i.state = .none ↔ b.inputAvail < mtu
  holding : w.outHave = true ↔ i.state = .busy
  asked : i.state = .operationPending → i.jobOperationData = b.inputDest
  out : i.state = .busy → w.out = b.inputDest
  len : i.state = .donePending → i.jobDoneLen ≤ mtu

/-- The buffer sends whenever it holds a packet. -/
structure Sends (b : ChunkBuffer2) (mtu : Nat) (o : PassInterface) (ps : List Bytes) : Prop where
  agreed : o.mtu = mtu
  idle : o.state = .none ↔ ps = []
  data : o.state ≠ .none → o.jobOperationData = b.outputDest ∧ o.jobOperationLen = b.outputAvail

/-- The jobs that are set are those that the two interfaces wait for. -/
structure Pending (jobs : List Job) (i o : IfState) : Prop where
  nodup : jobs.Nodup
  recvOperation : .recvOperation ∈ jobs ↔ i = .operationPending
  recvDone : .recvDone ∈ jobs ↔ i = .donePending
  passOperation : .passOperation ∈ jobs ↔ o = .operationPending
  passDone : .passDone ∈ jobs ↔ o = .donePending

/-- The datagram that was written and not yet submitted. -/
def inFlight (b : ChunkBuffer2) (i : RecvInterface) : List Bytes :=
  if i.state = .donePending then
    [readAt b.buffer (blockSize * b.inputDest.getD 0) i.jobDoneLen]
  else []

/-- The packets of the buffer that the socket has not sent. -/
def unsent (o : IfState) (ps : List Bytes) : List Bytes := if o = .donePending then ps.tail else ps

structure Core (num : Nat) (ps : List Bytes) (c : Connection) : Prop where
  store : Store c.buf c.inputMtu num ps
  receives : Receives c.buf c.inputMtu c.input c.writer
  sends : Sends c.buf c.inputMtu c.output ps
  pending : Pending c.jobs c.input.state c.output.state
  recorded : c.accepted = c.sent ++ (unsent c.output.state ps ++ inFlight c.buf c.input)

/-- `first_job` finds the writer ready: the job that gives it a place runs before. -/
structure First (c : Connection) : Prop where
  short : c.firstData.length ≤ c.inputMtu
  waits : .first ∈ c.jobs → c.accepted = [] ∧
    (c.jobs = [.recvOperation, .first] ∨ c.jobs = [.first] ∧ c.input.state = .busy)
  ran : .first ∉ c.jobs → c.accepted.head? = some c.firstData

variable {c : Connection} {num : Nat} {p : Bytes} {ps : List Bytes} {b : ChunkBuffer2} {mtu : Nat}
  {jobs : List Job} {i o : IfState} {Q : PUnit → Connection → Prop}

/-! ### The interfaces -/

theorem returns_assert {q : Prop} [Decidable q] (h : q) (hQ : Q ⟨⟩ c) :
    Returns (assert q) c Q := by
  rw [assert, returns_require]
  exact ⟨h, hQ⟩

theorem returns_setJob {j : Job} (hj : j ∉ c.jobs) (hQ : Q ⟨⟩ { c with jobs := j :: c.jobs }) :
    Returns (setJob j) c Q := by
  rw [setJob, returns_modify, List.erase_of_not_mem hj]
  exact hQ

theorem Store.inputDest (h : Store b mtu num ps) (havail : (mtu : Int) ≤ b.inputAvail) :
    b.inputDest.isSome = true := by
  cases hdest : b.inputDest with
  | some _ => rfl
  | none =>
    have := (h.queue.input_none hdest).1
    omega

section Pending

variable {j : Job} {i' o' : IfState}

/-- A job of the input has run. -/
theorem Pending.pop_input (h : Pending (j :: jobs) i o) (hj : j = .recvOperation ∨ j = .recvDone)
    (hop : i' ≠ .operationPending) (hdone : i' ≠ .donePending) : Pending jobs i' o := by
  obtain ⟨hnodup, h1, h2, h3, h4⟩ := h
  rw [List.nodup_cons] at hnodup
  rcases hj with rfl | rfl <;> constructor <;> simp_all

theorem Pending.pop_output (h : Pending (j :: jobs) i o) (hj : j = .passOperation ∨ j = .passDone)
    (hop : o' ≠ .operationPending) (hdone : o' ≠ .donePending) : Pending jobs i o' := by
  obtain ⟨hnodup, h1, h2, h3, h4⟩ := h
  rw [List.nodup_cons] at hnodup
  rcases hj with rfl | rfl <;> constructor <;> simp_all

theorem Pending.pop_first (h : Pending (.first :: jobs) i o) : Pending jobs i o := by
  obtain ⟨hnodup, h1, h2, h3, h4⟩ := h
  rw [List.nodup_cons] at hnodup
  constructor <;> simp_all

/-- The input is asked. -/
theorem Pending.recvOperation_cons (h : Pending jobs .none o) :
    Pending (.recvOperation :: jobs) .operationPending o := by
  obtain ⟨hnodup, h1, h2, h3, h4⟩ := h
  constructor <;> simp_all

theorem Pending.recvDone_cons (h : Pending jobs .busy o) :
    Pending (.recvDone :: jobs) .donePending o := by
  obtain ⟨hnodup, h1, h2, h3, h4⟩ := h
  constructor <;> simp_all

theorem Pending.passOperation_cons (h : Pending jobs i .none) :
    Pending (.passOperation :: jobs) i .operationPending := by
  obtain ⟨hnodup, h1, h2, h3, h4⟩ := h
  constructor <;> simp_all

theorem Pending.passDone_cons (h : Pending jobs i .busy) :
    Pending (.passDone :: jobs) i .donePending := by
  obtain ⟨hnodup, h1, h2, h3, h4⟩ := h
  constructor <;> simp_all

end Pending

/-! ### The handlers of the buffer -/

/-- There is room for a packet as long as there are fewer than `num`. -/
theorem Store.room (h : Store b mtu num ps) (hnum : ps.length < num) :
    (mtu : Int) ≤ b.inputAvail := by
  have hps : ∀ p ∈ ps, blocks p ≤ 1 + b.mtu := by
    intro p hp
    have hle : p.length ≤ blockSize * b.mtu := by
      rw [h.chunk]
      exact Nat.le_trans (h.short p hp) (bdivideUp_le_iff.mp (Nat.le_refl _))
    rw [blocks]
    exact Nat.add_le_add_left (bdivideUp_le_iff.mpr hle) 1
  have havail := (h.queue.room h.size hps hnum).2
  have hmtu : mtu ≤ blockSize * b.mtu := by
    rw [h.chunk]
    exact bdivideUp_le_iff.mp (Nat.le_refl _)
  omega

/-- What the handlers of the buffer leave alone. -/
structure Same (c c' : Connection) : Prop where
  inputMtu : c'.inputMtu = c.inputMtu
  firstData : c'.firstData = c.firstData
  accepted : c'.accepted = c.accepted
  dropped : c'.dropped = c.dropped
  sent : c'.sent = c.sent
  first : .first ∈ c'.jobs ↔ .first ∈ c.jobs
  written : c'.input.state = .donePending → c.input.state = .donePending

theorem Same.trans {c c' c'' : Connection} (h : Same c c') (h' : Same c' c'') : Same c c'' :=
  ⟨h'.inputMtu.trans h.inputMtu, h'.firstData.trans h.firstData, h'.accepted.trans h.accepted,
    h'.dropped.trans h.dropped, h'.sent.trans h.sent, h'.first.trans h.first,
    fun hdone => h.written (h'.written hdone)⟩

/-- The input after `receiveIfSpace`. -/
structure Asked (c c' : Connection) : Prop where
  same : Same c c'
  buf : c'.buf = c.buf
  output : c'.output = c.output
  receives : Receives c'.buf c'.inputMtu c'.input c'.writer
  pending : Pending c'.jobs c'.input.state c'.output.state
  state : c'.input.state ≠ .donePending

theorem returns_receiverRecv (h : Store c.buf c.inputMtu num ps)
    (hmtu : c.input.mtu = c.inputMtu) (hstate : c.input.state = .none)
    (hwriter : c.writer.outHave = false) (hpending : Pending c.jobs .none c.output.state)
    (havail : (c.inputMtu : Int) ≤ c.buf.inputAvail) :
    Returns (receiverRecv c.buf.inputDest) c fun _ c' => Asked c c' ∧
      c'.jobs = .recvOperation :: c.jobs := by
  simp only [receiverRecv, returns_bind, returns_get]
  refine returns_assert (fun _ => h.inputDest havail) (returns_assert hstate ?_)
  refine returns_setJob (by rw [hpending.recvOperation]; simp) (returns_modify.mpr ?_)
  refine ⟨⟨⟨rfl, rfl, rfl, rfl, rfl, by simp, (by simp)⟩, rfl, rfl, ?_, hpending.recvOperation_cons,
    (by simp)⟩, rfl⟩
  exact ⟨hmtu, by simpa using havail, by simp [hwriter], fun _ => rfl, (by simp), (by simp)⟩

theorem returns_receiveIfSpace (h : Store c.buf c.inputMtu num ps)
    (hmtu : c.input.mtu = c.inputMtu) (hstate : c.input.state = .none)
    (hwriter : c.writer.outHave = false) (hpending : Pending c.jobs .none c.output.state) :
    Returns receiveIfSpace c fun _ => Asked c := by
  simp only [receiveIfSpace, returns_bind, returns_get]
  split
  · rename_i havail
    exact (returns_receiverRecv h hmtu hstate hwriter hpending havail).mono fun _ _ h => h.1
  · rename_i havail
    rw [returns_pure]
    refine ⟨⟨rfl, rfl, rfl, rfl, rfl, Iff.rfl, id⟩, rfl, rfl, ?_, by rwa [hstate],
      by simp [hstate]⟩
    exact ⟨hmtu, by simpa [hstate] using havail, by simp [hwriter, hstate], by simp [hstate],
      by simp [hstate], by simp [hstate]⟩

theorem Store.outputAvail_neg_iff (h : Store b mtu num ps) : b.outputAvail < 0 ↔ ps = [] := by
  have havail := (Prod.mk.inj h.queue.output).2
  cases ps with
  | nil => exact iff_of_true (by rw [havail]; exact Int.negSucc_lt_zero 0) rfl
  | cons p ps => exact iff_of_false (by rw [havail]; simp) (List.cons_ne_nil _ _)

/-- A connection whose output is idle and has to be asked if there is a packet. -/
structure Unasked (num : Nat) (ps : List Bytes) (c : Connection) : Prop where
  store : Store c.buf c.inputMtu num ps
  receives : Receives c.buf c.inputMtu c.input c.writer
  agreed : c.output.mtu = c.inputMtu
  state : c.output.state = .none
  pending : Pending c.jobs c.input.state .none
  recorded : c.accepted = c.sent ++ (ps ++ inFlight c.buf c.input)

theorem returns_sendFirst (h : Unasked num (p :: ps) c) :
    Returns sendFirst c fun _ c' => Core num (p :: ps) c' ∧ Same c c' := by
  obtain ⟨hdest, havail⟩ := Prod.mk.inj h.store.queue.output
  have hshort := h.store.short p List.mem_cons_self
  have hmtu := h.agreed
  simp only [sendFirst, senderSend, returns_bind, returns_get]
  refine returns_assert (by rw [havail]; simp) (returns_assert ?_ ?_)
  · rw [havail, hmtu]
    exact Int.ofNat_le.mpr hshort
  refine returns_assert (fun _ => by rw [hdest]; rfl) (returns_assert h.state ?_)
  refine returns_setJob (by rw [h.pending.passOperation]; simp) (returns_modify.mpr ?_)
  refine ⟨⟨h.store, h.receives, ?_, h.pending.passOperation_cons, h.recorded⟩, ?_⟩
  · exact ⟨hmtu, by simp, fun _ => ⟨rfl, rfl⟩⟩
  · exact ⟨rfl, rfl, rfl, rfl, rfl, by simp, id⟩

theorem returns_sendIfMore (h : Unasked num ps c) :
    Returns sendIfMore c fun _ c' => Core num ps c' ∧ Same c c' := by
  simp only [sendIfMore, returns_bind, returns_get]
  have hneg := h.store.outputAvail_neg_iff
  cases ps with
  | nil =>
    rw [if_neg (by have := hneg.mpr rfl; omega), returns_pure]
    refine ⟨⟨h.store, h.receives, ?_, ?_, ?_⟩, rfl, rfl, rfl, rfl, rfl, Iff.rfl, id⟩
    · exact ⟨h.agreed, by simp [h.state], fun hne => absurd h.state hne⟩
    · rw [h.state]
      exact h.pending
    · rw [h.state]
      exact h.recorded
  | cons p ps =>
    rw [if_pos (by simpa using hneg)]
    exact returns_sendFirst h

/-- `input_handler_done`: the datagram that was written is stored. -/
theorem returns_inputHandlerDone {n : Nat} (hn : p.length = n)
    (h : Store c.buf c.inputMtu num ps)
    (hmtu : c.input.mtu = c.inputMtu) (hstate : c.input.state = .none)
    (hwriter : c.writer.outHave = false) (hpending : Pending c.jobs .none c.output.state)
    (hsends : Sends c.buf c.inputMtu c.output ps) (havail : (c.inputMtu : Int) ≤ c.buf.inputAvail)
    (hlen : p.length ≤ c.inputMtu)
    (hdata : readAt c.buf.buffer (blockSize * c.buf.inputDest.getD 0) p.length = p)
    (hrecorded : c.accepted = c.sent ++ (unsent c.output.state ps ++ [p])) :
    Returns (inputHandlerDone n) c fun _ c' => Core num (ps ++ [p]) c' ∧ Same c c' := by
  subst hn
  have hdest := h.inputDest havail
  rw [(h.queue.input_some hdest).1, Option.getD_some] at hdata
  simp only [inputHandlerDone, returns_bind, returns_get]
  refine returns_assert hlen ?_
  rw [onBuf, returns_focus]
  refine (returns_submitPacket h.queue hdest (by omega) hdata).mono ?_
  rintro _ b ⟨hqueue, hsize, hchunk, hstart⟩
  have hstore : Store b c.inputMtu num (ps ++ [p]) := by
    refine ⟨hqueue, hchunk.trans h.chunk, by rw [hsize, hchunk, h.size], fun q hq => ?_⟩
    rcases List.mem_append.mp hq with hq | hq
    · exact h.short q hq
    · rw [List.mem_singleton.mp hq]
      exact hlen
  refine (returns_receiveIfSpace (c := { c with buf := b }) hstore hmtu hstate hwriter
    hpending).mono ?_
  rintro _ c' ⟨hsame, hbuf, hout, hreceives, hpend, hnotdone⟩
  have hfly : inFlight c'.buf c'.input = [] := if_neg hnotdone
  have hstore' : Store c'.buf c'.inputMtu num (ps ++ [p]) := by
    rw [hbuf, hsame.inputMtu]
    exact hstore
  split
  · -- the first packet of the buffer
    rename_i hneg
    have hnil := h.outputAvail_neg_iff.mp hneg
    subst hnil
    have hidle := hsends.idle.mpr rfl
    rw [hidle] at hrecorded
    have hunasked : Unasked num [p] c' := by
      refine ⟨hstore', hreceives, ?_, by rw [hout]; exact hidle, ?_, ?_⟩
      · rw [hout, hsame.inputMtu]
        exact hsends.agreed
      · rw [hout] at hpend
        rwa [← hidle]
      · rw [hfly, hsame.accepted, hsame.sent]
        exact hrecorded
    exact (returns_sendFirst hunasked).mono fun _ _ h =>
      ⟨h.1, { hsame.trans h.2 with }⟩
  · rename_i hneg
    have hps : ps ≠ [] := fun hnil => hneg (h.outputAvail_neg_iff.mpr hnil)
    have hbusy : c.output.state ≠ .none := fun hnone => hps (hsends.idle.mp hnone)
    rw [returns_pure]
    refine ⟨⟨hstore', hreceives, ?_, hpend, ?_⟩, { hsame with }⟩
    · rw [hout, hsame.inputMtu, hbuf]
      -- the first packet is where it was
      have hkept : (b.outputDest, b.outputAvail) = (c.buf.outputDest, c.buf.outputAvail) := by
        rw [hqueue.output, h.queue.output, hstart, firstOutput_append _ hps]
      obtain ⟨hd, ha⟩ := Prod.mk.inj hkept
      refine ⟨hsends.agreed, iff_of_false hbusy (by simp), fun hne => ?_⟩
      show _ = b.outputDest ∧ _ = b.outputAvail
      rw [hd, ha]
      exact hsends.data hne
    · have hunsent : unsent c.output.state (ps ++ [p]) = unsent c.output.state ps ++ [p] := by
        unfold unsent
        split
        · exact List.tail_append_of_ne_nil hps
        · rfl
      rw [hfly, hsame.accepted, hsame.sent, hout, List.append_nil]
      show c.accepted = c.sent ++ unsent c.output.state (ps ++ [p])
      rw [hunsent, hrecorded]

/-- `output_handler_done`: the packet that was sent is removed. -/
theorem returns_outputHandlerDone (h : Store c.buf c.inputMtu num (p :: ps))
    (hreceives : Receives c.buf c.inputMtu c.input c.writer) (hmtu : c.output.mtu = c.inputMtu)
    (hstate : c.output.state = .none) (hpending : Pending c.jobs c.input.state .none)
    (hrecorded : c.accepted = c.sent ++ (ps ++ inFlight c.buf c.input)) :
    Returns outputHandlerDone c fun _ c' => Core num ps c' ∧ Same c c' := by
  simp only [outputHandlerDone, returns_bind, returns_get]
  rw [onBuf, returns_focus]
  refine (returns_consumePacket h.queue).mono ?_
  rintro _ b ⟨hqueue, hsize, hchunk, hbuffer, hkept⟩
  have hstore : Store b c.inputMtu num ps :=
    ⟨hqueue, hchunk.trans h.chunk, by rw [hsize, hchunk, h.size], fun q hq =>
      h.short q (List.mem_cons_of_mem _ hq)⟩
  split
  · rename_i hfull
    have hidle := hreceives.idle.mpr hfull
    have hwriter : c.writer.outHave = false := by
      rw [← Bool.not_eq_true, hreceives.holding, hidle]
      simp
    have hfly : inFlight c.buf c.input = [] := if_neg (by rw [hidle]; simp)
    rw [returns_bind]
    refine (returns_receiveIfSpace (c := { c with buf := b }) hstore hreceives.agreed hidle hwriter
      (by rw [← hidle, hstate]; exact hpending)).mono ?_
    rintro _ c' ⟨hsame, hbuf, hout, hreceives', hpend, hnotdone⟩
    have hunasked : Unasked num ps c' := by
      refine ⟨by rw [hbuf, hsame.inputMtu]; exact hstore, hreceives', ?_, ?_, ?_, ?_⟩
      · rw [hout, hsame.inputMtu]
        exact hmtu
      · rw [hout]
        exact hstate
      · rw [hout] at hpend
        rwa [← hstate]
      · rw [show inFlight c'.buf c'.input = [] from if_neg hnotdone, hsame.accepted, hsame.sent]
        rw [hfly] at hrecorded
        exact hrecorded
    exact (returns_sendIfMore hunasked).mono fun _ _ h =>
      ⟨h.1, { hsame.trans h.2 with }⟩
  · rename_i havail
    -- a receive is under way: its place is where it was
    obtain ⟨d, hd⟩ := Option.isSome_iff_exists.mp (h.inputDest (by omega))
    obtain ⟨hdest, hmore⟩ := hkept d hd
    have hunasked : Unasked num ps { c with buf := b } := by
      refine ⟨hstore, ?_, hmtu, hstate, hpending, ?_⟩
      · refine ⟨hreceives.agreed, ?_, hreceives.holding, ?_, ?_, hreceives.len⟩
        · rw [hreceives.idle]
          exact iff_of_false (by omega) (by show ¬ b.inputAvail < c.inputMtu; omega)
        · intro hop
          rw [hreceives.asked hop, hd]
          exact hdest.symm
        · intro hbusy
          rw [hreceives.out hbusy, hd]
          exact hdest.symm
      · rw [hrecorded, inFlight, inFlight]
        show _ = c.sent ++ (ps ++ if _ then [readAt b.buffer (_ * b.inputDest.getD 0) _] else [])
        rw [hbuffer, hdest, hd]
    exact (returns_sendIfMore hunasked).mono fun _ _ h => ⟨h.1, { h.2 with }⟩

/-! ### The events -/

/-- What `connection_send` does with a datagram. -/
structure Submitted (datagram : Bytes) (c c' : Connection) : Prop where
  inputMtu : c'.inputMtu = c.inputMtu
  firstData : c'.firstData = c.firstData
  sent : c'.sent = c.sent
  output : c'.output = c.output
  written : c.writer.outHave = true → c'.accepted = c.accepted ++ [datagram] ∧
    c'.dropped = c.dropped ∧ c'.jobs = .recvDone :: c.jobs
  full : c.writer.outHave = false → c'.accepted = c.accepted ∧
    c'.dropped = c.dropped ++ [datagram] ∧ c'.jobs = c.jobs

theorem Receives.avail (h : Receives c.buf mtu c.input c.writer) (hstate : c.input.state ≠ .none) :
    (mtu : Int) ≤ c.buf.inputAvail := by
  have := mt h.idle.mpr hstate
  omega

theorem returns_connectionSend {datagram : Bytes} (h : Core num ps c)
    (hlen : datagram.length ≤ c.inputMtu) :
    Returns (connectionSend datagram) c fun _ c' => Core num ps c' ∧ Submitted datagram c c' := by
  simp only [connectionSend, returns_bind, returns_get]
  split
  · rename_i hhave
    rw [returns_modify]
    refine ⟨{ h with }, rfl, rfl, rfl, rfl, fun htrue => ?_, fun _ => ⟨rfl, rfl, rfl⟩⟩
    rw [hhave] at htrue
    cases htrue
  · rename_i hhave
    rw [Bool.not_eq_false] at hhave
    have hbusy := h.receives.holding.mp hhave
    have havail := h.receives.avail (by rw [hbusy]; simp)
    obtain ⟨d, hd⟩ := Option.isSome_iff_exists.mp (h.store.inputDest havail)
    have hout : c.writer.out = some d := (h.receives.out hbusy).trans hd
    have hin := h.store.queue.input_in_bounds hd (Int.le_trans (Int.ofNat_le.mpr hlen) havail)
    have hqueue := h.store.queue.write hd (Int.le_trans (Int.ofNat_le.mpr hlen) havail)
    simp only [writeOut, returns_bind, returns_get, returns_require, returns_modify, hout,
      Option.getD_some]
    refine ⟨?_, (by simp), ?_⟩
    · rintro _ ⟨⟩
      exact hin
    simp only [endPacket, recvInterfaceDone, returns_bind, returns_get]
    refine returns_assert ?_ (returns_assert hhave (returns_modify.mpr ?_))
    · rw [h.receives.agreed]
      exact hlen
    refine returns_assert ?_ (returns_assert hbusy ?_)
    · rw [h.receives.agreed]
      exact hlen
    refine returns_setJob ?_ (returns_modify.mpr ?_)
    · rw [h.pending.recvDone, hbusy]
      simp
    refine ⟨⟨⟨hqueue, h.store.chunk, h.store.size, h.store.short⟩, ?_, ?_, ?_, ?_⟩, ?_⟩
    · refine ⟨h.receives.agreed, iff_of_false (by simp) ?_, by simp, by simp, by simp,
        fun _ => hlen⟩
      show ¬ c.buf.inputAvail < c.inputMtu
      omega
    · exact { h.sends with }
    · have hpending := h.pending
      rw [hbusy] at hpending
      exact hpending.recvDone_cons
    · have hrecorded := h.recorded
      rw [inFlight, if_neg (by rw [hbusy]; simp), List.append_nil] at hrecorded
      show c.accepted ++ [datagram] = c.sent ++ (unsent c.output.state ps ++
        [readAt (writeAt c.buf.buffer (blockSize * d) datagram)
          (blockSize * c.buf.inputDest.getD 0) datagram.length])
      rw [hd, Option.getD_some, readAt_writeAt_self (by omega), hrecorded, List.append_assoc]
    · refine ⟨rfl, rfl, rfl, rfl, fun _ => ⟨rfl, rfl, rfl⟩, fun hfalse => ?_⟩
      rw [hhave] at hfalse
      cases hfalse

theorem returns_transmit (h : Core num ps c) (hbusy : c.output.state = .busy) :
    Returns transmit c fun _ c' => Core num ps c' ∧ c'.inputMtu = c.inputMtu ∧
      c'.firstData = c.firstData ∧ c'.accepted = c.accepted ∧ c'.dropped = c.dropped ∧
      c'.jobs = .passDone :: c.jobs ∧ c'.input = c.input ∧ c'.output.state = .donePending := by
  cases ps with
  | nil =>
    rw [h.sends.idle.mpr rfl] at hbusy
    cases hbusy
  | cons p ps =>
    obtain ⟨hdest, havail, hread, hin⟩ := h.store.queue.first
    obtain ⟨hdata, hlen⟩ := h.sends.data (by rw [hbusy]; simp)
    rw [hdest] at hdata
    rw [havail] at hlen
    simp only [transmit, returns_bind, returns_get, returns_require, hdata, hlen,
      Option.getD_some, Int.toNat_natCast]
    refine ⟨hin, returns_assert hbusy (returns_setJob ?_ (returns_modify.mpr ?_))⟩
    · rw [h.pending.passDone, hbusy]
      simp
    refine ⟨⟨h.store, h.receives, ?_, ?_, ?_⟩, rfl, rfl, rfl, rfl, rfl, rfl, rfl⟩
    · refine ⟨h.sends.agreed, iff_of_false (by simp) (List.cons_ne_nil _ _), fun _ => ?_⟩
      exact ⟨by rw [hdest]; exact hdata, by rw [havail]; exact hlen⟩
    · have hpending := h.pending
      rw [hbusy] at hpending
      exact hpending.passDone_cons
    · have hrecorded := h.recorded
      rw [hbusy] at hrecorded
      show c.accepted = (c.sent ++ [readAt c.buf.buffer _ _]) ++ (ps ++ inFlight c.buf c.input)
      rw [hread, hrecorded]
      simp [unsent]

/-- How much is left to do for the packets that wait. -/
def outputWork : IfState → Nat
  | .none => 0
  | .operationPending => 3
  | .busy => 2
  | .donePending => 1

def inputWork : IfState → Nat
  | .none => 0
  | .operationPending => 1
  | .busy => 0
  | .donePending => 20

def work (ps : List Bytes) (c : Connection) : Nat :=
  10 * ps.length + outputWork c.output.state + inputWork c.input.state +
    if .first ∈ c.jobs then 100 else 0

theorem outputWork_le (o : IfState) : outputWork o ≤ 3 := by
  cases o <;> decide

theorem inputWork_le {i t : IfState} (h : t = .donePending → i = .donePending) :
    inputWork t ≤ inputWork i + 1 := by
  cases t with
  | donePending =>
    rw [h rfl]
    decide
  | none | operationPending | busy => exact Nat.le_trans (by decide) (Nat.le_add_left 1 _)

/-- One step towards sending what waits. -/
structure Advances (num : Nat) (ps : List Bytes) (c c' : Connection) : Prop where
  core : ∃ ps', Core num ps' c' ∧ work ps' c' < work ps c
  first : First c'
  accepted : c.accepted <+: c'.accepted
  inputMtu : c'.inputMtu = c.inputMtu
  firstData : c'.firstData = c.firstData

/-- While `first_job` is set, no other job than the one that comes before it is. -/
theorem First.not_mem {j : Job} (h : First c) (hjobs : c.jobs = j :: jobs)
    (hj : j ≠ .recvOperation) (hj' : j ≠ .first) : .first ∉ c.jobs := by
  intro hmem
  rcases (h.waits hmem).2 with hcons | ⟨hcons, -⟩
  all_goals
    rw [hcons] at hjobs
    cases hjobs
    first | exact hj rfl | exact hj' rfl

/-- A handler of the buffer does not touch the first datagram. -/
theorem First.of_same {c' : Connection} (h : First c) (hfirst : .first ∉ c.jobs)
    (hdata : c'.firstData = c.firstData) (hmtu : c'.inputMtu = c.inputMtu)
    (haccepted : c'.accepted = c.accepted) (hjobs : .first ∉ c'.jobs) : First c' := by
  refine ⟨?_, fun hmem => absurd hmem hjobs, fun _ => ?_⟩
  · rw [hdata, hmtu]
    exact h.short
  · rw [haccepted, hdata]
    exact h.ran hfirst

theorem returns_executeJob (h : Core num ps c) (hfirst : First c) (hne : c.jobs ≠ []) :
    Returns executeJob c fun _ c' => Advances num ps c c' := by
  obtain ⟨j, jobs, hjobs⟩ := List.exists_cons_of_ne_nil hne
  have hmem : j ∈ c.jobs := by
    rw [hjobs]
    exact List.mem_cons_self
  have hpending := h.pending
  rw [hjobs] at hpending
  simp only [executeJob, returns_bind, returns_get, hjobs, returns_modify]
  cases j with
  | recvOperation =>
    have hop := h.pending.recvOperation.mp hmem
    have hhave : c.writer.outHave = false := by
      rw [← Bool.not_eq_true, h.receives.holding, hop]
      simp
    have havail := h.receives.avail (by rw [hop]; simp)
    simp only [runJob, writerHandlerRecv, returns_bind, returns_get]
    refine returns_assert hop (returns_modify.mpr (returns_assert hhave (returns_modify.mpr ?_)))
    refine ⟨⟨ps, ⟨h.store, ?_, h.sends, ?_, ?_⟩, ?_⟩, ?_, List.prefix_rfl, rfl, rfl⟩
    · refine ⟨h.receives.agreed, iff_of_false (by simp) (Int.not_lt.mpr havail),
        iff_of_true rfl rfl, by simp, ?_, by simp⟩
      exact fun _ => h.receives.asked hop
    · exact hpending.pop_input (.inl rfl) (by simp) (by simp)
    · have hrecorded := h.recorded
      rw [inFlight, if_neg (by rw [hop]; simp)] at hrecorded
      exact hrecorded
    · simp [work, hop, hjobs, inputWork]
    · refine ⟨hfirst.short, fun hin => ?_, fun hin => ?_⟩
      · obtain ⟨haccepted, hcases⟩ := hfirst.waits (by rw [hjobs]; exact List.mem_cons_of_mem _ hin)
        refine ⟨haccepted, .inr ⟨?_, rfl⟩⟩
        rcases hcases with hcons | ⟨hcons, -⟩
        · rw [hjobs] at hcons
          exact (List.cons.inj hcons).2
        · rw [hjobs] at hcons
          cases hcons
      · refine hfirst.ran ?_
        rw [hjobs]
        simpa using hin
  | recvDone =>
    have hdone := h.pending.recvDone.mp hmem
    have hnot := hfirst.not_mem hjobs (by simp) (by simp)
    have hlen := h.receives.len hdone
    have havail := h.receives.avail (by rw [hdone]; simp)
    obtain ⟨d, hd⟩ := Option.isSome_iff_exists.mp (h.store.inputDest havail)
    have hin := h.store.queue.input_in_bounds hd (Int.le_trans (Int.ofNat_le.mpr hlen) havail)
    have hread := length_readAt hin
    have hrecorded := h.recorded
    rw [inFlight, if_pos hdone, hd, Option.getD_some] at hrecorded
    simp only [runJob, returns_bind, returns_get]
    refine returns_assert hdone (returns_modify.mpr ?_)
    rw [← hread] at hlen
    refine (returns_inputHandlerDone (c := { c with jobs := jobs, input.state := .none })
      hread h.store h.receives.agreed rfl ?_ ?_ h.sends havail hlen ?_ hrecorded).mono ?_
    · show c.writer.outHave = false
      rw [← Bool.not_eq_true, h.receives.holding, hdone]
      simp
    · exact hpending.pop_input (.inr rfl) (by simp) (by simp)
    · show readAt c.buf.buffer (blockSize * c.buf.inputDest.getD 0) _ = _
      rw [hd, Option.getD_some, hread]
    · rintro _ c' ⟨hcore, hsame⟩
      have hjobs' : .first ∉ c'.jobs := by
        rw [hsame.first]
        rw [hjobs] at hnot
        exact fun hin => hnot (List.mem_cons_of_mem _ hin)
      refine ⟨⟨_, hcore, ?_⟩, hfirst.of_same hnot hsame.firstData hsame.inputMtu hsame.accepted
        hjobs', ⟨[], by rw [List.append_nil, hsame.accepted]⟩, hsame.inputMtu, hsame.firstData⟩
      have hout := outputWork_le c'.output.state
      have hinput : inputWork c'.input.state ≤ 0 + 1 := inputWork_le (i := .none) hsame.written
      simp only [work, List.length_append, List.length_singleton, if_neg hnot, if_neg hjobs', hdone]
      rw [show inputWork .donePending = 20 from rfl]
      omega
  | passOperation =>
    have hop := h.pending.passOperation.mp hmem
    have hnot := hfirst.not_mem hjobs (by simp) (by simp)
    have hnot' : .first ∉ jobs := by
      rw [hjobs] at hnot
      exact fun hin => hnot (List.mem_cons_of_mem _ hin)
    simp only [runJob, returns_bind, returns_get]
    refine returns_assert hop (returns_modify.mpr ?_)
    refine ⟨⟨ps, ⟨h.store, h.receives, ?_, ?_, ?_⟩, ?_⟩, ?_, List.prefix_rfl, rfl, rfl⟩
    · refine ⟨h.sends.agreed, iff_of_false (by simp) ?_, fun _ => h.sends.data ?_⟩
      · rw [← h.sends.idle, hop]
        simp
      · rw [hop]
        simp
    · exact hpending.pop_output (.inl rfl) (by simp) (by simp)
    · have hrecorded := h.recorded
      rw [hop] at hrecorded
      exact hrecorded
    · simp [work, hop, hjobs, outputWork, hnot']
    · exact hfirst.of_same hnot rfl rfl rfl hnot'
  | passDone =>
    have hdone := h.pending.passDone.mp hmem
    have hnot := hfirst.not_mem hjobs (by simp) (by simp)
    obtain ⟨p, ps', rfl⟩ : ∃ p ps', ps = p :: ps' := by
      refine List.exists_cons_of_ne_nil fun hnil => ?_
      rw [h.sends.idle.mpr hnil] at hdone
      cases hdone
    have hrecorded := h.recorded
    rw [hdone] at hrecorded
    simp only [runJob, returns_bind, returns_get]
    refine returns_assert hdone (returns_modify.mpr ?_)
    refine (returns_outputHandlerDone (c := { c with jobs := jobs, output.state := .none })
      h.store h.receives h.sends.agreed rfl ?_ hrecorded).mono ?_
    · exact hpending.pop_output (.inr rfl) (by simp) (by simp)
    · rintro _ c' ⟨hcore, hsame⟩
      have hjobs' : .first ∉ c'.jobs := by
        rw [hsame.first]
        rw [hjobs] at hnot
        exact fun hin => hnot (List.mem_cons_of_mem _ hin)
      refine ⟨⟨_, hcore, ?_⟩, hfirst.of_same hnot hsame.firstData hsame.inputMtu hsame.accepted
        hjobs', ⟨[], by rw [List.append_nil, hsame.accepted]⟩, hsame.inputMtu, hsame.firstData⟩
      have hout := outputWork_le c'.output.state
      have hinput : inputWork c'.input.state ≤ inputWork c.input.state + 1 :=
        inputWork_le hsame.written
      simp only [work, List.length_cons, if_neg hnot, if_neg hjobs', hdone]
      omega
  | first =>
    obtain ⟨haccepted, hcases⟩ := hfirst.waits hmem
    obtain ⟨hcons, hbusy⟩ : c.jobs = [.first] ∧ c.input.state = .busy := by
      rcases hcases with hcons | hbusy
      · rw [hjobs] at hcons
        cases hcons
      · exact hbusy
    obtain rfl : jobs = [] := by
      rw [hjobs] at hcons
      exact (List.cons.inj hcons).2
    simp only [runJob, returns_bind, returns_get]
    refine (returns_connectionSend (c := { c with jobs := [] })
      ⟨h.store, h.receives, h.sends, hpending.pop_first, h.recorded⟩ hfirst.short).mono ?_
    rintro _ c' ⟨hcore, hsub⟩
    obtain ⟨hwritten, -, hjobs'⟩ := hsub.written (h.receives.holding.mpr hbusy)
    have hnot : .first ∉ c'.jobs := by
      rw [hjobs']
      simp
    refine ⟨⟨ps, hcore, ?_⟩, ⟨?_, fun hin => absurd hin hnot, fun _ => ?_⟩, ?_, hsub.inputMtu,
      hsub.firstData⟩
    · have hinput := inputWork_le (i := .donePending) (t := c'.input.state) fun _ => rfl
      rw [show inputWork .donePending = 20 from rfl] at hinput
      simp only [work, hsub.output, if_pos hmem, if_neg hnot]
      omega
    · rw [hsub.firstData, hsub.inputMtu]
      exact hfirst.short
    · rw [hwritten, hsub.firstData]
      show (c.accepted ++ [c.firstData]).head? = _
      rw [haccepted]
      rfl
    · rw [hwritten]
      exact List.prefix_append _ _

theorem handle_job_transmit {e : Event} (h : Core num ps c) (hfirst : First c)
    (hsubmit : e = .job ∨ e = .transmit) (he : enabled c e = true) :
    Returns (handle e) c fun _ c' => Advances num ps c c' := by
  rcases hsubmit with rfl | rfl
  · refine returns_executeJob h hfirst fun hnil => ?_
    simp [enabled, hnil] at he
  · have hbusy : c.output.state = .busy := of_decide_eq_true he
    have hnot : .first ∉ c.jobs := by
      intro hin
      have hrecorded := h.recorded
      rw [(hfirst.waits hin).1, hbusy] at hrecorded
      have hps : ps = [] := by
        simpa [unsent] using (List.append_eq_nil_iff.mp
          (List.append_eq_nil_iff.mp hrecorded.symm).2).1
      rw [h.sends.idle.mpr hps] at hbusy
      cases hbusy
    refine (returns_transmit h hbusy).mono ?_
    rintro _ c' ⟨hcore, hmtu, hdata, haccepted, -, hjobs, hinput, hstate⟩
    have hnot' : .first ∉ c'.jobs := by
      rw [hjobs]
      simpa using hnot
    refine ⟨⟨ps, hcore, ?_⟩, hfirst.of_same hnot hdata hmtu haccepted hnot', ?_, hmtu, hdata⟩
    · simp only [work, if_neg hnot, if_neg hnot', hinput, hbusy, hstate]
      rw [show outputWork .donePending = 1 from rfl, show outputWork .busy = 2 from rfl]
      omega
    · exact ⟨[], by rw [List.append_nil, haccepted]⟩

theorem handle_submit {datagram : Bytes} (h : Core num ps c) (hfirst : First c)
    (hlen : datagram.length ≤ c.inputMtu) (hjobs : c.jobs = []) :
    Returns (handle (.submit datagram)) c fun _ c' => Core num ps c' ∧ First c' ∧
      Submitted datagram c c' := by
  have hran := hfirst.ran (by rw [hjobs]; simp)
  refine (returns_connectionSend h hlen).mono ?_
  rintro _ c' ⟨hcore, hsub⟩
  refine ⟨hcore, ⟨?_, fun hin => ?_, fun _ => ?_⟩, hsub⟩
  · rw [hsub.firstData, hsub.inputMtu]
    exact hfirst.short
  · cases hhave : c.writer.outHave with
    | true =>
      rw [(hsub.written hhave).2.2, hjobs] at hin
      simp at hin
    | false =>
      rw [(hsub.full hhave).2.2, hjobs] at hin
      cases hin
  · rw [hsub.firstData]
    cases hhave : c.writer.outHave with
    | true => rw [(hsub.written hhave).1, List.head?_append, hran]; rfl
    | false => rw [(hsub.full hhave).1, hran]

/-! ### Every run -/

/-- What `connection_init` is called with.  The blocks for `num + 1` packets of the MTU, each with a
block for its length, take less memory than the largest `int` says; the first datagram fits, with
the header that `connection_send` puts before it; and `BAllocArray` returns the memory that it is
asked for, if any. -/
structure Params where
  mtu : Nat
  num : Nat
  firstData : Bytes
  alloc : Nat → Option Bytes
  num_pos : 0 < num
  small : blockSize * ((1 + bdivideUp mtu blockSize) * (num + 1)) < 2 ^ 31
  first_short : firstData.length ≤ mtu
  length_alloc : ∀ n, ∀ mem ∈ alloc n, mem.length = blockSize * n

/-- `PacketBuffer_Init` for a new connection. -/
def Params.start (P : Params) : Except Fault (Bool × Connection) :=
  (packetBufferInit P.num P.alloc).run (newConnection P.mtu P.firstData)

/-- The invariant of a connection. -/
structure Inv (P : Params) (c : Connection) : Prop where
  core : ∃ ps, Core P.num ps c
  first : First c
  inputMtu : c.inputMtu = P.mtu
  firstData : c.firstData = P.firstData

variable {P : Params}

theorem calcBlocks_eq {mtu num n : Nat} (h : calcBlocks mtu num = some n) :
    n = (1 + bdivideUp mtu blockSize) * (num + 1) := by
  simp only [calcBlocks] at h
  split at h
  · cases h
  split at h
  · cases h
  split at h
  · cases h
  · cases h
    rfl

/-- `PacketBuffer_Init` fails, or it leaves a connection that has been asked to write. -/
theorem returns_packetBufferInit (P : Params) :
    Returns (packetBufferInit P.num P.alloc) (newConnection P.mtu P.firstData) fun ok c =>
      ok = true → Inv P c := by
  simp only [packetBufferInit, returns_bind, returns_get]
  refine returns_assert P.num_pos ?_
  split
  · rw [returns_pure]
    simp
  · rename_i n mem hmem
    obtain ⟨n', hn, hmem⟩ := Option.bind_eq_some_iff.mp hmem
    obtain ⟨mem', halloc, hpair⟩ := Option.map_eq_some_iff.mp hmem
    obtain ⟨rfl, rfl⟩ := Prod.mk.inj hpair
    obtain rfl := calcBlocks_eq hn
    have hroom : bdivideUp P.mtu blockSize < (1 + bdivideUp P.mtu blockSize) * (P.num + 1) := by
      rw [Nat.mul_succ]
      omega
    rw [onBuf, returns_bind, returns_focus]
    refine (returns_init _ (P.length_alloc _ _ halloc) P.small hroom).mono ?_
    rintro _ b ⟨hqueue, hsize, hchunk⟩
    have hstore : Store b P.mtu P.num [] := by
      refine ⟨hqueue, hchunk, ?_, (by simp)⟩
      rw [hsize, hchunk]
      rfl
    have hpending : Pending [.first] .none .none := by
      constructor <;> simp
    rw [returns_bind, returns_get, returns_bind]
    refine (returns_receiverRecv (c := { newConnection P.mtu P.firstData with buf := b }) hstore
      rfl rfl rfl hpending (hstore.room P.num_pos)).mono ?_
    rintro _ c ⟨hasked, hjobs⟩
    rw [returns_pure]
    intro _
    have hmtu := hasked.same.inputMtu
    have hdata := hasked.same.firstData
    have haccepted := hasked.same.accepted
    refine ⟨⟨[], ⟨?_, hasked.receives, ?_, hasked.pending, ?_⟩⟩, ⟨?_, ?_, ?_⟩, hmtu, hdata⟩
    · rw [hasked.buf, hmtu]
      exact hstore
    · rw [hasked.output, hmtu]
      exact ⟨rfl, iff_of_true rfl rfl, fun hne => absurd rfl hne⟩
    · rw [haccepted, hasked.same.sent, hasked.output, inFlight, if_neg hasked.state]
      rfl
    · rw [hdata, hmtu]
      exact P.first_short
    · exact fun _ => ⟨haccepted, .inl hjobs⟩
    · intro hnot
      rw [hjobs] at hnot
      exact absurd (List.mem_cons_of_mem _ List.mem_cons_self) hnot

theorem step_ok {c : Connection} {e : Event} {t : Except Fault Connection} (h : Inv P c)
    (hok : fits (.ok c) e) (hstep : step (.ok c) e = some t) : ∃ c', t = .ok c' ∧ Inv P c' := by
  obtain ⟨⟨ps, hcore⟩, hfirst, hmtu, hdata⟩ := h
  rw [step] at hstep
  split at hstep
  · rename_i he
    have hreturns : Returns (handle e) c fun _ c' => Inv P c' := by
      cases e with
      | job =>
        exact (handle_job_transmit hcore hfirst (.inl rfl) he).mono fun _ _ h =>
          ⟨h.core.imp fun _ h => h.1, h.first, h.inputMtu.trans hmtu, h.firstData.trans hdata⟩
      | transmit =>
        exact (handle_job_transmit hcore hfirst (.inr rfl) he).mono fun _ _ h =>
          ⟨h.core.imp fun _ h => h.1, h.first, h.inputMtu.trans hmtu, h.firstData.trans hdata⟩
      | submit datagram =>
        exact (handle_submit hcore hfirst hok (List.isEmpty_iff.mp he)).mono fun _ _ h =>
          ⟨⟨ps, h.1⟩, h.2.1, h.2.2.inputMtu.trans hmtu, h.2.2.firstData.trans hdata⟩
    obtain ⟨⟨_, c'⟩, hrun, hinv⟩ := hreturns
    cases hstep
    refine ⟨c', ?_, hinv⟩
    rw [StateT.run, hrun]
    rfl
  · cases hstep

theorem inv_of_start {c : Connection} (h : P.start = .ok (true, c)) : Inv P c := by
  obtain ⟨⟨ok, c'⟩, hrun, hinv⟩ := returns_packetBufferInit P
  rw [Params.start, StateT.run, hrun] at h
  cases h
  exact hinv rfl

theorem inv_of_reach {c : Connection} {t : Except Fault Connection}
    (hstart : P.start = .ok (true, c)) (h : Reach step fits (.ok c) t) :
    ∃ c', t = .ok c' ∧ Inv P c' := by
  refine h.invariant (I := fun t => ∃ c', t = .ok c' ∧ Inv P c') ⟨c, rfl, inv_of_start hstart⟩ ?_
  rintro _ e t ⟨c, rfl, hc⟩ hok hstep
  exact step_ok hc hok hstep

/-- A connection for datagrams of at most five bytes. -/
def sample : Params where
  mtu := 5
  num := 1
  firstData := [1, 2]
  alloc n := some (List.replicate (blockSize * n) 0)
  num_pos := Nat.one_pos
  small := by decide
  first_short := by decide
  length_alloc := by simp

/-- The sample connection when it was set up. -/
def sampleStart : Connection where
  buf := ⟨List.replicate 24 0, 6, 6, 0, 0, 2, some 1, 20, none, -1⟩
  inputMtu := 5
  input := ⟨5, .operationPending, some 1, 0⟩
  output := ⟨5, .none, none, 0⟩
  writer := ⟨false, none⟩
  jobs := [.recvOperation, .first]
  firstData := [1, 2]
  accepted := []
  dropped := []
  sent := []

theorem start_sample : sample.start = .ok (true, sampleStart) := by
  decide +kernel

/-- The sample connection when its memory is full: the first packet is being sent, the second stands
before `wrap`, and a third was dropped. -/
def sampleFull : Connection where
  buf := ⟨[2, 0, 0, 0, 1, 2, 0, 0, 5, 0, 0, 0, 3, 4, 5, 6, 7, 0, 0, 0, 0, 0, 0, 0], 6, 5, 0, 5, 2,
    none, -1, some 1, 2⟩
  inputMtu := 5
  input := ⟨5, .none, some 3, 5⟩
  output := ⟨5, .busy, some 1, 2⟩
  writer := ⟨false, some 3⟩
  jobs := []
  firstData := [1, 2]
  accepted := [[1, 2], [3, 4, 5, 6, 7]]
  dropped := [[8]]
  sent := []

theorem reach_sampleFull : Reach step fits (.ok sampleStart) (.ok sampleFull) :=
  reach_of_runWith (show runWith step fits (.ok sampleStart)
    [.job, .job, .job, .job, .job, .submit [3, 4, 5, 6, 7], .job, .submit [8]] = some _
      by decide +kernel)

/-- **The socket gets the datagrams that were accepted, unchanged and in order.**  Setting up the
buffer and every run after it in which the datagrams fit are without a fault: no assertion fails,
and neither the writer nor the socket leaves the memory of the buffer.  The first datagram is the
one that the connection was made for. -/
theorem datagrams_in_order (P : Params) :
    (∃ r, P.start = .ok r) ∧
      ∀ c t, P.start = .ok (true, c) → Reach step fits (.ok c) t →
        ∃ c', t = .ok c' ∧ c'.sent <+: c'.accepted ∧
          (c'.jobs = [] → c'.accepted.head? = some P.firstData) := by
  refine ⟨?_, fun c t hstart h => ?_⟩
  · obtain ⟨r, hr, -⟩ := returns_packetBufferInit P
    exact ⟨r, hr⟩
  · obtain ⟨c', rfl, ⟨ps, hcore⟩, hfirst, -, hdata⟩ := inv_of_reach hstart h
    refine ⟨c', rfl, ?_, fun hjobs => ?_⟩
    · rw [hcore.recorded]
      exact List.prefix_append _ _
    · rw [← hdata]
      exact hfirst.ran (by rw [hjobs]; simp)

theorem datagrams_in_order_sampleFull :
    ∃ c', (.ok sampleFull : Except Fault Connection) = .ok c' ∧ c'.sent <+: c'.accepted ∧
      (c'.jobs = [] → c'.accepted.head? = some [1, 2]) :=
  (datagrams_in_order sample).2 sampleStart _ start_sample reach_sampleFull

/-- When all jobs have run, the packets of the buffer are the datagrams that were not sent. -/
theorem Core.settled (h : Core num ps c) (hjobs : c.jobs = []) : c.accepted = c.sent ++ ps := by
  have hrecorded := h.recorded
  have hpending := h.pending
  rw [hjobs] at hpending
  have hin : c.input.state ≠ .donePending := fun hdone =>
    absurd (hpending.recvDone.mpr hdone) List.not_mem_nil
  have hout : c.output.state ≠ .donePending := fun hdone =>
    absurd (hpending.passDone.mpr hdone) List.not_mem_nil
  rwa [unsent, if_neg hout, inFlight, if_neg hin, List.append_nil] at hrecorded

/-- **A datagram is dropped only if as many others wait as the buffer was made for.** -/
theorem dropped_only_when_full {c c' : Connection} {datagram : Bytes}
    (hstart : P.start = .ok (true, c)) (h : Reach step fits (.ok c) (.ok c'))
    (hlen : datagram.length ≤ P.mtu) (hjobs : c'.jobs = []) :
    ∃ c'', step (.ok c') (.submit datagram) = some (.ok c'') ∧
      (c''.accepted = c'.accepted ++ [datagram] ∧ c''.dropped = c'.dropped ∨
        c''.accepted = c'.accepted ∧ c''.dropped = c'.dropped ++ [datagram] ∧
          c'.sent.length + P.num ≤ c'.accepted.length) := by
  obtain ⟨_, heq, ⟨ps, hcore⟩, hfirst, hmtu, -⟩ := inv_of_reach hstart h
  cases heq
  obtain ⟨⟨_, c''⟩, hrun, -, -, hsub⟩ :=
    handle_submit hcore hfirst (by rw [hmtu]; exact hlen) hjobs
  refine ⟨c'', ?_, ?_⟩
  · rw [step, enabled, hjobs, List.isEmpty_nil, if_pos rfl, StateT.run, hrun]
    rfl
  · cases hhave : c'.writer.outHave with
    | true => exact .inl ⟨(hsub.written hhave).1, (hsub.written hhave).2.1⟩
    | false =>
      refine .inr ⟨(hsub.full hhave).1, (hsub.full hhave).2.1, ?_⟩
      rw [hcore.settled hjobs, List.length_append]
      refine Nat.add_le_add_left (Nat.not_lt.mp fun hlt => ?_) _
      -- with room the writer would have been given a place
      have hidle : c'.input.state = .none := by
        have hpending := hcore.pending
        have hholding := hcore.receives.holding
        rw [hjobs] at hpending
        cases hstate : c'.input.state with
        | none => rfl
        | operationPending => exact absurd (hpending.recvOperation.mpr hstate) List.not_mem_nil
        | busy =>
          rw [hhave] at hholding
          cases hholding.mpr hstate
        | donePending => exact absurd (hpending.recvDone.mpr hstate) List.not_mem_nil
      have hroom := hcore.store.room hlt
      have := hcore.receives.idle.mp hidle
      omega

theorem dropped_only_when_full_sampleFull :
    ∃ c'', step (.ok sampleFull) (.submit [9]) = some (.ok c'') ∧
      (c''.accepted = sampleFull.accepted ++ [[9]] ∧ c''.dropped = sampleFull.dropped ∨
        c''.accepted = sampleFull.accepted ∧ c''.dropped = sampleFull.dropped ++ [[9]] ∧
          sampleFull.sent.length + 1 ≤ sampleFull.accepted.length) :=
  dropped_only_when_full start_sample reach_sampleFull (by decide) rfl

theorem run_advances {c : Connection} {t : Except Fault Connection} {es : List Event}
    (h : Core num ps c) (hfirst : First c) (hes : ∀ e ∈ es, e = .job ∨ e = .transmit)
    (hrun : run step (.ok c) es = some t) :
    ∃ c' ps', t = .ok c' ∧ Core num ps' c' ∧ es.length + work ps' c' ≤ work ps c ∧
      c.accepted <+: c'.accepted := by
  induction es generalizing c ps with
  | nil =>
    cases hrun
    exact ⟨c, ps, rfl, h, by simp, List.prefix_rfl⟩
  | cons e es ih =>
    obtain ⟨u, hstep, hrun⟩ := Option.bind_eq_some_iff.mp hrun
    rw [step] at hstep
    split at hstep
    · rename_i he
      obtain ⟨⟨_, c₁⟩, hhandle, ⟨ps₁, hcore, hlt⟩, hfirst₁, hprefix, -, -⟩ :=
        handle_job_transmit h hfirst (hes e List.mem_cons_self) he
      rw [StateT.run, hhandle] at hstep
      cases hstep
      obtain ⟨c', ps', rfl, hcore', hle, hprefix'⟩ :=
        ih hcore hfirst₁ (fun e he => hes e (List.mem_cons_of_mem _ he)) hrun
      refine ⟨c', ps', rfl, hcore', ?_, hprefix.trans hprefix'⟩
      rw [List.length_cons]
      omega
    · cases hstep

/-- **What was accepted gets sent.**  As long as the datagrams have fitted, a run of jobs and of
transmissions by the socket comes to an end, and when it does, all that was accepted has been
sent. -/
theorem datagrams_get_sent {c c' : Connection} (hstart : P.start = .ok (true, c))
    (h : Reach step fits (.ok c) (.ok c')) :
    ∃ n, ∀ es t, (∀ e ∈ es, e = .job ∨ e = .transmit) → run step (.ok c') es = some t →
      es.length ≤ n ∧ ∃ c'', t = .ok c'' ∧ c'.accepted <+: c''.accepted ∧
        (enabled c'' .job = false → enabled c'' .transmit = false →
          c''.sent = c''.accepted) := by
  obtain ⟨_, heq, ⟨ps, hcore⟩, hfirst, -, -⟩ := inv_of_reach hstart h
  cases heq
  refine ⟨work ps c', fun es t hes hrun => ?_⟩
  obtain ⟨c'', ps', rfl, hcore', hle, hprefix⟩ := run_advances hcore hfirst hes hrun
  refine ⟨by omega, c'', rfl, hprefix, fun hjob htransmit => ?_⟩
  have hjobs : c''.jobs = [] := by simpa [enabled] using hjob
  have hidle : c''.output.state = .none := by
    have hpending := hcore'.pending
    rw [hjobs] at hpending
    cases hstate : c''.output.state with
    | none => rfl
    | operationPending => exact absurd (hpending.passOperation.mpr hstate) List.not_mem_nil
    | busy => simp [enabled, hstate] at htransmit
    | donePending => exact absurd (hpending.passDone.mpr hstate) List.not_mem_nil
  rw [hcore'.settled hjobs, hcore'.sends.idle.mp hidle, List.append_nil]

theorem datagrams_get_sent_sampleFull :
    ∃ n, ∀ es t, (∀ e ∈ es, e = .job ∨ e = .transmit) → run step (.ok sampleFull) es = some t →
      es.length ≤ n ∧ ∃ c'', t = .ok c'' ∧ sampleFull.accepted <+: c''.accepted ∧
        (enabled c'' .job = false → enabled c'' .transmit = false → c''.sent = c''.accepted) :=
  datagrams_get_sent start_sample reach_sampleFull

end PacketBuffer
