/-
The two connection services as a system of interleaved threads.

`ShadowsocksVpnService` and `ShadowsocksNatService` share `BaseService`.  A
request runs on a thread of its caller, `startRunner` spawns a connect worker,
broadcasts run on the main thread, and `changeState` only posts a runnable that
the main looper delivers later.  Here

* `Memory` holds the fields of the service and the outside world they refer to
  (open descriptors, registered receivers, daemons and their pid files, which
  are written some time after the daemon has come up);
* a thread is the list of statements it has still to execute (`Instr`);
  `exec` executes one statement, inlining the calls it makes;
* `step` interleaves requests, thread steps, deliveries of the looper and the
  writes of pid files.

The programs `startRunner`, `worker` and `stopRunner` list the statements of
the source in order.  Statements that touch no modelled field (event tracking,
logging, toasts) are left out.  An exception that the source does not catch
ends the thread it is raised on.
-/
import Mathlib.Logic.Function.Basic
import ReShadowsocks.Config
import ReShadowsocks.Transition

namespace Service

/-- The values of `BaseService.state`. -/
inductive State
  | init
  | connecting
  | connected
  | stopping
  | stopped
  deriving DecidableEq, Repr

/-- The message a posted state change carries to the callbacks. -/
inductive Msg
  | serviceFailed
  | exception
  deriving DecidableEq, Repr

/-- A runnable posted by `changeState`. -/
structure Post where
  state : State
  msg : Option Msg
  deriving DecidableEq, Repr

/-- Which service runs: `getServiceMode`.  The NAT service registers one more
receiver from Lollipop on. -/
inductive Mode
  | vpn
  | nat (isLollipopOrAbove : Bool)
  deriving DecidableEq, Repr

/-- The daemons started from the service. -/
inductive Task
  | ssLocal
  | ssTunnel
  | pdnsd
  | tun2socks
  | redsocks
  deriving DecidableEq, Repr

/-- The broadcast receivers that `startRunner` registers. -/
inductive Slot
  | receiver
  | closeReceiver
  | lockReceiver
  deriving DecidableEq, Repr

/-- Calls that leave every modelled field alone. -/
inductive External
  | setupIptables
  | flushDns
  | notifyForegroundAlert
  | stopForegroundCompat
  deriving DecidableEq, Repr

/-- One statement of a service method. -/
inductive Instr
  | changeState (s : State) (msg : Option Msg)
  | killProcess (task : Task)
  | ifConn
  | closeConn
  | clearConn
  | stopSelf
  | ifReceiver (slot : Slot)
  | unregisterReceiver (slot : Slot)
  | clearReceiver (slot : Slot)
  | setConfig (c : Config)
  | prepare
  | newReceiver (slot : Slot)
  | registerReceiver (slot : Slot)
  | spawn
  | ifPublic
  | getPublicConfig
  | clearConfig
  | ifConfig
  | resolve
  | startDaemon (task : Task)
  | unlessUdpDns (tasks : List Task)
  | establish
  | ifTunnel
  | getFd
  | external (call : External)
  | startService
  | checkExpiration
  | stopTimer
  deriving DecidableEq, Repr

/-! ### The programs -/

/-- `killProcesses`: one round per task. -/
def killProcesses : Mode → List Instr
  | .vpn => [.killProcess .ssLocal, .killProcess .ssTunnel, .killProcess .pdnsd,
      .killProcess .tun2socks]
  | .nat _ => [.killProcess .ssLocal, .killProcess .ssTunnel, .killProcess .pdnsd,
      .killProcess .redsocks]

def stopRunner : Mode → List Instr
  | .vpn => .changeState .stopping none :: killProcesses .vpn ++
      [.ifConn, .stopSelf, .ifReceiver .receiver, .changeState .stopped none]
  | .nat lollipop => [.changeState .stopping none, .ifReceiver .closeReceiver] ++
      (if lollipop then [.ifReceiver .lockReceiver] else []) ++ killProcesses (.nat lollipop) ++
      [.stopSelf, .external .stopForegroundCompat, .changeState .stopped none]

/-- The error path of the connect worker. -/
def serviceFailed (mode : Mode) : List Instr :=
  .changeState .stopped (some .serviceFailed) :: stopRunner mode

/-- `handleConnection`, up to its result, which is always `true`.  The packages
that `startVpn` excludes from the tunnel are taken to be installed:
`addDisallowedApplication` does not throw. -/
def handleConnection : Mode → List Instr
  | .vpn => [.startDaemon .ssLocal, .unlessUdpDns [.pdnsd, .ssTunnel], .establish, .ifTunnel]
  | .nat _ => [.startDaemon .ssTunnel, .unlessUdpDns [.pdnsd], .startDaemon .redsocks,
      .startDaemon .ssLocal, .external .setupIptables]

/-- The body of the `spawn` block. -/
def worker : Mode → List Instr
  | .vpn => [.ifPublic, .ifConfig] ++ killProcesses .vpn ++ [.resolve] ++
      handleConnection .vpn ++ [.changeState .connected none]
  | .nat lollipop => [.ifPublic, .ifConfig] ++ killProcesses (.nat lollipop) ++ [.resolve] ++
      handleConnection (.nat lollipop) ++ [.external .flushDns, .external .notifyForegroundAlert,
        .changeState .connected none]

/-- The part of the VPN service's `startRunner` behind `VpnService.prepare`. -/
def connect : List Instr :=
  [.newReceiver .receiver, .registerReceiver .receiver, .changeState .connecting none, .spawn]

def startRunner (c : Config) : Mode → List Instr
  | .vpn => [.setConfig c, .prepare]
  | .nat lollipop => [.setConfig c, .newReceiver .closeReceiver,
      .registerReceiver .closeReceiver] ++
      (if lollipop then [.newReceiver .lockReceiver, .registerReceiver .lockReceiver] else []) ++
      [.changeState .connecting none, .spawn]

/-! ### Memory -/

structure Memory where
  state : State
  /-- The runnables posted to the main looper and not delivered yet. -/
  queue : List Post
  callbackCount : Nat
  stopSelf : Bool
  config : Option Config
  conn : Option Nat
  /-- The tunnel descriptors that are open. -/
  fds : List Nat
  receiver : Slot → Option Nat
  registered : List (Slot × Nat)
  /-- What the pid file of a task holds. -/
  pidFile : Task → Option Nat
  running : List (Task × Nat)
  /-- The daemons whose pid file has yet to be written. -/
  unwritten : List (Task × Nat)
  /-- The expiration timer of `ReindeerVpnService` is scheduled. -/
  timer : Bool
  /-- `startService` intents whose `onStartCommand` has not run yet. -/
  commands : Nat
  /-- The next unused number, for descriptors, receivers and pids. -/
  fresh : Nat

def Memory.initial : Memory where
  state := .init
  queue := []
  callbackCount := 0
  stopSelf := false
  config := none
  conn := none
  fds := []
  receiver := fun _ => none
  registered := []
  pidFile := fun _ => none
  running := []
  unwritten := []
  timer := false
  commands := 0
  fresh := 0

/-- How `builder.establish()` ends. -/
inductive Establish
  | descriptor
  | null
  | illegalState
  | exception
  deriving DecidableEq, Repr

/-- The answers of the platform to the calls of one statement. -/
structure Env where
  /-- `VpnService.prepare` returns `null`. -/
  prepared : Bool
  publicServer : Option PublicServer
  isIPv4Address : Bool
  isIPv6Address : Bool
  resolve : Option JString
  /-- The daemon that is started comes up. -/
  daemonUp : Bool
  establish : Establish
  deriving DecidableEq

/-- The address that stands for a server of the public list. -/
def publicProxy : JString := lit "198.199.101.152"

/-! ### Threads -/

inductive Role
  | main
  | caller
  | worker
  deriving DecidableEq, Repr

/-- A thread, with the statements it has still to execute.  `failed` is a
history variable: the thread has posted a state other than `CONNECTED`. -/
structure Thread where
  role : Role
  code : List Instr
  failed : Bool
  deriving DecidableEq, Repr

/-- The effect of a statement: the memory after it, the statements the thread
goes on with, and the threads it spawned. -/
structure Effect where
  mem : Memory
  code : List Instr
  spawned : List Thread

/-- While its caller waits, `pdnsd` puts an empty pid file in the place of the
old one.  An earlier `pdnsd` that has yet to write holds the old one open, and
what it writes is not seen any more. -/
def Task.recreatesPidFile : Task → Bool
  | .pdnsd => true
  | _ => false

/-- The daemon of `task` comes up under a fresh pid.  The pid is written to the
file by a process that its caller does not wait for. -/
def Memory.launch (m : Memory) (task : Task) : Memory :=
  { m with
    running := m.running ++ [(task, m.fresh)]
    pidFile := if task.recreatesPidFile then Function.update m.pidFile task none else m.pidFile
    unwritten := (if task.recreatesPidFile then m.unwritten.filter fun d => d.1 ≠ task
      else m.unwritten) ++ [(task, m.fresh)]
    fresh := m.fresh + 1 }

/-- The pid file of a daemon is written. -/
def Memory.writePid (m : Memory) (task : Task) (pid : Nat) : Memory :=
  { m with
    pidFile := Function.update m.pidFile task (some pid)
    unwritten := m.unwritten.erase (task, pid) }

/-- Execute `instr`, with `rest` behind it. -/
def exec (mode : Mode) (env : Env) (instr : Instr) (rest : List Instr) (m : Memory) : Effect :=
  match instr with
  | .changeState s msg => ⟨{ m with queue := m.queue ++ [⟨s, msg⟩] }, rest, []⟩
  | .killProcess task =>
    match m.pidFile task with
    | some pid => ⟨{ m with running := m.running.filter fun d => d.2 ≠ pid }, rest, []⟩
    | none => ⟨m, rest, []⟩
  | .ifConn => ⟨m, if m.conn.isSome then .closeConn :: .clearConn :: rest else rest, []⟩
  | .closeConn =>
    match m.conn with
    | some fd => ⟨{ m with fds := m.fds.erase fd }, rest, []⟩
    -- a `NullPointerException` ends the thread
    | none => ⟨m, [], []⟩
  | .clearConn => ⟨{ m with conn := none }, rest, []⟩
  | .stopSelf => ⟨{ m with stopSelf := m.stopSelf || m.callbackCount == 0 }, rest, []⟩
  | .ifReceiver slot =>
    ⟨m, if (m.receiver slot).isSome then
      .unregisterReceiver slot :: .clearReceiver slot :: rest else rest, []⟩
  | .unregisterReceiver slot =>
    match m.receiver slot with
    | some r =>
      if (slot, r) ∈ m.registered then
        ⟨{ m with registered := m.registered.erase (slot, r) }, rest, []⟩
      -- `IllegalArgumentException`: the receiver is not registered
      else ⟨m, [], []⟩
    | none => ⟨m, [], []⟩
  | .clearReceiver slot => ⟨{ m with receiver := Function.update m.receiver slot none }, rest, []⟩
  | .setConfig c => ⟨{ m with config := some c }, rest, []⟩
  | .prepare => ⟨m, if env.prepared then connect ++ rest else rest, []⟩
  | .newReceiver slot =>
    ⟨{ m with
        receiver := Function.update m.receiver slot (some m.fresh)
        fresh := m.fresh + 1 }, rest, []⟩
  | .registerReceiver slot =>
    match m.receiver slot with
    | some r => ⟨{ m with registered := m.registered ++ [(slot, r)] }, rest, []⟩
    | none => ⟨m, rest, []⟩
  | .spawn => ⟨m, rest, [⟨.worker, worker mode, false⟩]⟩
  | .ifPublic =>
    match m.config with
    | some c => ⟨m, if c.proxy = publicProxy then .getPublicConfig :: rest else rest, []⟩
    | none => ⟨m, [], []⟩
  | .getPublicConfig =>
    match m.config, env.publicServer with
    | some c, some p => ⟨{ m with config := some (c.getPublicConfig p) }, rest, []⟩
    | _, _ => ⟨m, serviceFailed mode ++ .clearConfig :: rest, []⟩
  | .clearConfig => ⟨{ m with config := none }, rest, []⟩
  | .ifConfig => ⟨m, if m.config.isSome then rest else [], []⟩
  | .resolve =>
    match m.config with
    | some c =>
      if env.isIPv4Address || env.isIPv6Address then ⟨m, rest, []⟩
      else
        match env.resolve with
        | some addr => ⟨{ m with config := some { c with proxy := addr } }, rest, []⟩
        | none => ⟨m, serviceFailed mode, []⟩
    | none => ⟨m, [], []⟩
  | .startDaemon task =>
    match m.config with
    | some _ => ⟨if env.daemonUp then m.launch task else m, rest, []⟩
    | none => ⟨m, [], []⟩
  | .unlessUdpDns tasks =>
    match m.config with
    | some c => ⟨m, if c.isUdpDns then rest else tasks.map .startDaemon ++ rest, []⟩
    | none => ⟨m, [], []⟩
  | .establish =>
    match m.config, env.establish with
    | none, _ => ⟨m, [], []⟩
    | some _, .descriptor =>
      ⟨{ m with conn := some m.fresh, fds := m.fds ++ [m.fresh], fresh := m.fresh + 1 }, rest, []⟩
    | some _, .null => ⟨{ m with conn := none }, rest, []⟩
    | some _, .illegalState =>
      ⟨m, .changeState .stopped (some .exception) :: .clearConn :: rest, []⟩
    | some _, .exception => ⟨m, .clearConn :: rest, []⟩
  | .ifTunnel =>
    -- `return` leaves `startVpn` only: `handleConnection` still answers `true`
    ⟨m, if m.conn.isSome then .getFd :: .startDaemon .tun2socks :: rest
      else stopRunner mode ++ rest, []⟩
  | .getFd => ⟨m, if m.conn.isSome then rest else [], []⟩
  | .external _ => ⟨m, rest, []⟩
  | .startService => ⟨{ m with commands := m.commands + 1 }, rest, []⟩
  | .checkExpiration => ⟨{ m with timer := true }, rest, []⟩
  | .stopTimer => ⟨{ m with timer := false }, rest, []⟩

/-! ### The system -/

inductive Request
  | start
  | stop
  deriving DecidableEq, Repr

/-- The service with its threads; the first one is the main thread.  `last` is
a history variable: the request accepted last. -/
structure System where
  mem : Memory
  threads : List Thread
  last : Option Request

def System.initial : System where
  mem := Memory.initial
  threads := [⟨.main, [], false⟩]
  last := none

/-- What can happen next.  `start`, `stop` and `doConnect` are calls through
the binder, `revoke` is `onRevoke`, `close`, `shutdown`, `startCommand` and
`deliver` are messages taken up by the main looper, and `writePid` is the write
of a pid file. -/
inductive Action
  | start (c : Config)
  | stop
  | doConnect (c : Config)
  | revoke
  | close
  | shutdown
  | startCommand
  | deliver
  | writePid (task : Task) (pid : Nat)
  | exec (i : Nat) (env : Env)

/-- The guard of `binder.start` and `binder.stop`. -/
def State.accepts (s : State) : Bool := s != .connecting && s != .stopping

/-- The request that an action gets accepted. -/
def accepted (s : System) : Action → Option Request
  | .start _ => if s.mem.state.accepts then some .start else none
  | .doConnect _ => if s.mem.state.accepts then some .start else none
  | .stop => if s.mem.state.accepts then some .stop else none
  | .revoke => some .stop
  | .close => some .stop
  | .shutdown => some .stop
  | .startCommand => none
  | .deliver => none
  | .writePid _ _ => none
  | .exec _ _ => none

/-- A call enters the service on a thread of its own. -/
def System.call (s : System) (code : List Instr) : System :=
  { s with threads := s.threads ++ [⟨.caller, code, false⟩] }

/-- The main thread, when it is idle, takes up `code`. -/
def System.dispatch (s : System) (code : List Instr) : Option System :=
  match s.threads with
  | ⟨role, [], failed⟩ :: rest => some { s with threads := ⟨role, code, failed⟩ :: rest }
  | _ => none

/-- The looper runs the runnable at the head of its queue. -/
def Memory.deliver (m : Memory) : Option Memory :=
  match m.queue with
  | p :: queue => some { m with state := p.state, queue := queue }
  | [] => none

/-- Executing `instr` marks the thread as failed. -/
def Instr.fails : Instr → Bool
  | .changeState s _ => s != .connected
  | _ => false

/-- A shutdown broadcast finds a receiver. -/
def Memory.listens (m : Memory) : Bool := m.registered.any fun r => r.1 != .lockReceiver

/-- One statement of thread `i`. -/
def System.exec (mode : Mode) (s : System) (i : Nat) (env : Env) : Option System :=
  match s.threads[i]? with
  | some ⟨role, instr :: rest, failed⟩ =>
    let eff := Service.exec mode env instr rest s.mem
    some { s with
      mem := eff.mem
      threads := s.threads.set i ⟨role, eff.code, failed || instr.fails⟩ ++ eff.spawned }
  | _ => none

def next (mode : Mode) (s : System) : Action → Option System
  | .start c => if s.mem.state.accepts then some (s.call (startRunner c mode)) else some s
  | .stop => if s.mem.state.accepts then some (s.call (stopRunner mode)) else some s
  | .doConnect c =>
    some (s.call ((if s.mem.state.accepts then startRunner c mode else []) ++ [.startService]))
  | .revoke => if mode = .vpn then some (s.call (stopRunner mode)) else none
  | .close =>
    if mode = .vpn then s.dispatch (stopRunner mode ++ [.stopTimer])
    else if s.mem.listens then s.dispatch (stopRunner mode) else none
  | .shutdown => if s.mem.listens then s.dispatch (stopRunner mode) else none
  | .startCommand =>
    if s.mem.commands = 0 then none
    else ({ s with mem.commands := s.mem.commands - 1 } : System).dispatch [.checkExpiration]
  | .deliver => do
    let s' ← s.dispatch []
    let m ← s.mem.deliver
    some { s' with mem := m }
  | .writePid task pid =>
    if (task, pid) ∈ s.mem.unwritten then some { s with mem := s.mem.writePid task pid } else none
  | .exec i env => s.exec mode i env

/-- The transition function: `next`, with the history of requests kept. -/
def step (mode : Mode) (s : System) (a : Action) : Option System :=
  (next mode s a).map fun t => { t with last := (accepted s a).or s.last }

/-! ### Values for concrete runs -/

def sampleConfig : Config where
  isUdpDns := true
  proxy := lit "203.0.113.7"
  sitekey := lit "key"
  encMethod := lit "aes-256-cfb"
  route := .all
  remotePort := 8388
  localPort := 1080

/-- A platform on which everything works. -/
def sampleEnv : Env where
  prepared := true
  publicServer := none
  isIPv4Address := true
  isIPv6Address := false
  resolve := none
  daemonUp := true
  establish := .descriptor

/-- Thread `i` executes `n` statements. -/
def statements (i n : Nat) : List Action := List.replicate n (.exec i sampleEnv)

end Service
