/-
What one step of the service system can do.

* `View` — every transition of `step`, spelled out: a call that enters on a
  thread of its own, a call that is refused, a message taken up by the idle
  main thread, a delivered runnable, a pid file that is written, or one
  statement of one thread;
* `step_view` — `step` has no other transitions;
* `exec_code` — how a thread goes on behind a statement: with one of the
  `expansions` of the statement, or on the error path, or not at all;
* `exec_state`, …, `exec_spawned` — which statement can change which field;
* `exec_frame_queue`, `exec_frame_daemons` — which fields no statement depends on;
* `Memory.final` — the state once all posted runnables are delivered;
* `busy_split` — a statement is executed by the only busy thread, if there is
  only one.

A statement of thread `i` is presented as a split `l ++ th :: r` of the thread
list, so that facts about all threads fall into facts about `l`, `th` and `r`.
-/
import ReShadowsocks.Service

namespace Service

variable {mode : Mode} {s t : System} {a : Action}

/-- The code with which a call enters the service. -/
inductive Called (mode : Mode) (s : System) : Action → List Instr → Prop
  | start (c : Config) : s.mem.state.accepts → Called mode s (.start c) (startRunner c mode)
  | connect (c : Config) : s.mem.state.accepts →
      Called mode s (.doConnect c) (startRunner c mode ++ [.startService])
  | refused (c : Config) : s.mem.state.accepts = false →
      Called mode s (.doConnect c) [.startService]
  | stop : s.mem.state.accepts → Called mode s .stop (stopRunner mode)
  | revoke : mode = .vpn → Called mode s .revoke (stopRunner mode)

/-- A call of the binder that finds its guard closed. -/
inductive Refused (s : System) : Action → Prop
  | start (c : Config) : s.mem.state.accepts = false → Refused s (.start c)
  | stop : s.mem.state.accepts = false → Refused s .stop

/-- The code that a broadcast starts on the main thread. -/
inductive Received (mode : Mode) (s : System) : Action → List Instr → Prop
  | close : mode = .vpn → Received mode s .close (stopRunner mode ++ [.stopTimer])
  | closeNat : mode ≠ .vpn → s.mem.listens → Received mode s .close (stopRunner mode)
  | shutdown : s.mem.listens → Received mode s .shutdown (stopRunner mode)

/-- The transitions of the service system. -/
inductive View (mode : Mode) (s : System) : Action → System → Prop
  | call {a : Action} {code : List Instr} : Called mode s a code →
      View mode s a ⟨s.mem, s.threads ++ [⟨.caller, code, false⟩], (accepted s a).or s.last⟩
  | refused {a : Action} : Refused s a → View mode s a s
  | receive {a : Action} {code : List Instr} {role : Role} {failed : Bool} {r : List Thread} :
      s.threads = ⟨role, [], failed⟩ :: r → Received mode s a code →
      View mode s a ⟨s.mem, ⟨role, code, failed⟩ :: r, some .stop⟩
  | command {n : Nat} {role : Role} {failed : Bool} {r : List Thread} :
      s.threads = ⟨role, [], failed⟩ :: r → s.mem.commands = n + 1 →
      View mode s .startCommand
        ⟨{ s.mem with commands := n }, ⟨role, [.checkExpiration], failed⟩ :: r, s.last⟩
  | deliver {p : Post} {queue : List Post} : s.mem.queue = p :: queue →
      View mode s .deliver ⟨{ s.mem with state := p.state, queue := queue }, s.threads, s.last⟩
  | write {task : Task} {pid : Nat} : (task, pid) ∈ s.mem.unwritten →
      View mode s (.writePid task pid) ⟨s.mem.writePid task pid, s.threads, s.last⟩
  | exec {env : Env} {instr : Instr} {rest : List Instr} {role : Role} {failed : Bool}
      {l r : List Thread} : s.threads = l ++ ⟨role, instr :: rest, failed⟩ :: r →
      View mode s (.exec l.length env)
        ⟨(exec mode env instr rest s.mem).mem,
          l ++ ⟨role, (exec mode env instr rest s.mem).code, failed || instr.fails⟩ :: r ++
            (exec mode env instr rest s.mem).spawned, s.last⟩

theorem dispatch_eq_some {code : List Instr} (h : s.dispatch code = some t) :
    ∃ role failed r, s.threads = ⟨role, [], failed⟩ :: r ∧
      t = { s with threads := ⟨role, code, failed⟩ :: r } := by
  unfold System.dispatch at h
  split at h
  · rename_i role failed r hth
    rw [Option.some_inj] at h
    exact ⟨role, failed, r, hth, h.symm⟩
  · exact absurd h (by simp)

theorem deliver_eq_some {m m' : Memory} (h : m.deliver = some m') :
    ∃ p queue, m.queue = p :: queue ∧ m' = { m with state := p.state, queue := queue } := by
  unfold Memory.deliver at h
  split at h
  · rename_i p queue hq
    rw [Option.some_inj] at h
    exact ⟨p, queue, hq, h.symm⟩
  · exact absurd h (by simp)

theorem systemExec_eq_some {i : Nat} {env : Env} (h : s.exec mode i env = some t) :
    ∃ l instr rest role failed r, l.length = i ∧
      s.threads = l ++ ⟨role, instr :: rest, failed⟩ :: r ∧
      t = ⟨(exec mode env instr rest s.mem).mem,
          l ++ ⟨role, (exec mode env instr rest s.mem).code, failed || instr.fails⟩ :: r ++
            (exec mode env instr rest s.mem).spawned, s.last⟩ := by
  unfold System.exec at h
  split at h
  · rename_i role instr rest failed hget
    rw [Option.some_inj] at h
    obtain ⟨l, r, hlen, hsplit, hset⟩ := Transition.exists_split_of_getElem? hget
    exact ⟨l, instr, rest, role, failed, r, hlen, hsplit, by rw [← h, hset]⟩
  · exact absurd h (by simp)

/-- `step` makes the transitions of `View` and no others. -/
theorem step_view (h : step mode s a = some t) : View mode s a t := by
  obtain ⟨u, hu, rfl⟩ := Option.map_eq_some_iff.mp h
  cases a with
  | start c =>
    by_cases hacc : s.mem.state.accepts
    · rw [next, if_pos hacc, Option.some_inj] at hu
      exact hu ▸ .call (.start c hacc)
    · rw [next, if_neg hacc, Option.some_inj] at hu
      have hnone : accepted s (.start c) = none := by simp [accepted, hacc]
      rw [hnone, ← hu]
      exact .refused (.start c (Bool.eq_false_iff.mpr hacc))
  | stop =>
    by_cases hacc : s.mem.state.accepts
    · rw [next, if_pos hacc, Option.some_inj] at hu
      exact hu ▸ .call (.stop hacc)
    · rw [next, if_neg hacc, Option.some_inj] at hu
      have hnone : accepted s .stop = none := by simp [accepted, hacc]
      rw [hnone, ← hu]
      exact .refused (.stop (Bool.eq_false_iff.mpr hacc))
  | doConnect c =>
    rw [next, Option.some_inj] at hu
    by_cases hacc : s.mem.state.accepts
    · rw [if_pos hacc] at hu
      exact hu ▸ .call (.connect c hacc)
    · rw [if_neg hacc] at hu
      exact hu ▸ .call (.refused c (by simpa using hacc))
  | revoke =>
    by_cases hm : mode = .vpn
    · rw [next, if_pos hm, Option.some_inj] at hu
      exact hu ▸ .call (.revoke hm)
    · rw [next, if_neg hm] at hu
      exact absurd hu (by simp)
  | close =>
    by_cases hm : mode = .vpn
    · rw [next, if_pos hm] at hu
      obtain ⟨role, failed, r, hth, rfl⟩ := dispatch_eq_some hu
      exact .receive hth (.close hm)
    · rw [next, if_neg hm] at hu
      split at hu
      · rename_i hl
        obtain ⟨role, failed, r, hth, rfl⟩ := dispatch_eq_some hu
        exact .receive hth (.closeNat hm hl)
      · exact absurd hu (by simp)
  | shutdown =>
    rw [next] at hu
    split at hu
    · rename_i hl
      obtain ⟨role, failed, r, hth, rfl⟩ := dispatch_eq_some hu
      exact .receive hth (.shutdown hl)
    · exact absurd hu (by simp)
  | startCommand =>
    rw [next] at hu
    split at hu
    · exact absurd hu (by simp)
    · rename_i hc
      obtain ⟨n, hn⟩ := Nat.exists_eq_succ_of_ne_zero hc
      obtain ⟨role, failed, r, hth, rfl⟩ := dispatch_eq_some hu
      have hview : View mode s .startCommand _ := .command (s := s) hth hn
      simpa [accepted, hn] using hview
  | deliver =>
    rw [next] at hu
    simp only [Option.bind_eq_bind, Option.bind_eq_some_iff] at hu
    obtain ⟨s', hs', m, hm, hu⟩ := hu
    obtain ⟨role, failed, r, hth, rfl⟩ := dispatch_eq_some hs'
    obtain ⟨p, queue, hq, rfl⟩ := deliver_eq_some hm
    rw [Option.some_inj] at hu
    have hview : View mode s .deliver _ := .deliver hq
    rw [hth] at hview
    exact hu ▸ hview
  | writePid task pid =>
    obtain ⟨hmem, hu⟩ := Option.ite_none_right_eq_some.mp hu
    exact Option.some.inj hu ▸ .write hmem
  | exec i env =>
    obtain ⟨l, instr, rest, role, failed, r, rfl, hth, rfl⟩ := systemExec_eq_some hu
    exact .exec hth

/-! ### The state in the making -/

/-- The state once every posted runnable is delivered. -/
def Memory.final (m : Memory) : State := (m.queue.getLast?.map Post.state).getD m.state

@[simp] theorem final_post (m : Memory) (p : Post) :
    Memory.final { m with queue := m.queue ++ [p] } = p.state := by
  simp [Memory.final]

theorem final_deliver {m : Memory} {p : Post} {queue : List Post} (h : m.queue = p :: queue) :
    Memory.final { m with state := p.state, queue := queue } = m.final := by
  rw [Memory.final, Memory.final, h]
  cases queue with
  | nil => rfl
  | cons q queue => simp [List.getLast?_eq_some_getLast]

theorem final_of_queue_nil {m : Memory} (h : m.queue = []) : m.final = m.state := by
  simp [Memory.final, h]

/-! ### What a statement does -/

/-- What a statement may put in front of the code behind it. -/
def Instr.expansions (mode : Mode) : Instr → List (List Instr)
  | .ifConn => [[], [.closeConn, .clearConn]]
  | .ifReceiver slot => [[], [.unregisterReceiver slot, .clearReceiver slot]]
  | .prepare => [[], connect]
  | .ifPublic => [[], [.getPublicConfig]]
  | .getPublicConfig => [[], serviceFailed mode ++ [.clearConfig]]
  | .unlessUdpDns tasks => [[], tasks.map .startDaemon]
  | .establish => [[], [.changeState .stopped (some .exception), .clearConn], [.clearConn]]
  | .ifTunnel => [[.getFd, .startDaemon .tun2socks], stopRunner mode]
  | _ => [[]]

/-- Statements that can end their thread. -/
def Instr.mayEnd : Instr → Bool
  | .closeConn => true
  | .unregisterReceiver _ => true
  | .ifPublic => true
  | .ifConfig => true
  | .resolve => true
  | .startDaemon _ => true
  | .unlessUdpDns _ => true
  | .establish => true
  | .getFd => true
  | _ => false

/-- How a thread goes on behind `instr`. -/
inductive Continues (mode : Mode) (instr : Instr) (rest : List Instr) : List Instr → Prop
  | goes {p : List Instr} : p ∈ instr.expansions mode → Continues mode instr rest (p ++ rest)
  | fails : instr = .resolve → Continues mode instr rest (serviceFailed mode)
  | ends : instr.mayEnd → Continues mode instr rest []

section Frame

variable {env : Env} {instr : Instr} {rest : List Instr} {m : Memory}

theorem exec_code : Continues mode instr rest (exec mode env instr rest m).code := by
  cases instr
  case getPublicConfig =>
    simp only [exec]
    split
    · exact .goes (p := []) (by simp [Instr.expansions])
    · rw [← List.singleton_append, ← List.append_assoc]
      exact .goes (by simp [Instr.expansions])
  all_goals
    simp only [exec]
    repeat' split
  all_goals first
    | exact .goes (p := []) (by simp [Instr.expansions])
    | exact .ends rfl
    | exact .fails rfl
    | exact .goes (p := [_]) (by simp [Instr.expansions])
    | exact .goes (p := [_, _]) (by simp [Instr.expansions])
    | exact .goes (by simp [Instr.expansions])

/-- What a statement leaves as it was. -/
structure Untouched (instr : Instr) (m : Memory) (eff : Effect) : Prop where
  state : eff.mem.state = m.state
  queue : (∀ s msg, instr ≠ .changeState s msg) → eff.mem.queue = m.queue
  conn : instr ≠ .establish → instr ≠ .clearConn → eff.mem.conn = m.conn
  running : (∀ task, instr ≠ .startDaemon task) → eff.mem.running ⊆ m.running
  pidFile : (∀ task, instr ≠ .startDaemon task) → eff.mem.pidFile = m.pidFile
  unwritten : (∀ task, instr ≠ .startDaemon task) → eff.mem.unwritten = m.unwritten
  timer : instr ≠ .checkExpiration → instr ≠ .stopTimer → eff.mem.timer = m.timer
  commands : instr ≠ .startService → eff.mem.commands = m.commands
  spawned : instr ≠ .spawn → eff.spawned = []

theorem exec_untouched : Untouched instr m (exec mode env instr rest m) := by
  cases instr <;> simp only [exec] <;> repeat' split
  all_goals
    refine ⟨rfl, fun h => ?_, fun h h' => ?_, fun h => ?_, fun h => ?_, fun h => ?_,
      fun h h' => ?_, fun h => ?_, fun h => ?_⟩
  all_goals first
    | rfl
    | exact List.Subset.refl _
    | exact List.filter_subset_self _
    | exact absurd rfl h
    | exact absurd rfl h'
    | exact absurd rfl (h _)
    | exact absurd rfl (h _ _)

theorem exec_state : (exec mode env instr rest m).mem.state = m.state :=
  Untouched.state exec_untouched

theorem exec_queue (h : ∀ s msg, instr ≠ .changeState s msg) :
    (exec mode env instr rest m).mem.queue = m.queue :=
  Untouched.queue exec_untouched h

theorem exec_conn (h : instr ≠ .establish) (h' : instr ≠ .clearConn) :
    (exec mode env instr rest m).mem.conn = m.conn :=
  Untouched.conn exec_untouched h h'

theorem exec_running (h : ∀ task, instr ≠ .startDaemon task) :
    (exec mode env instr rest m).mem.running ⊆ m.running :=
  Untouched.running exec_untouched h

theorem exec_pidFile (h : ∀ task, instr ≠ .startDaemon task) :
    (exec mode env instr rest m).mem.pidFile = m.pidFile :=
  Untouched.pidFile exec_untouched h

theorem exec_unwritten (h : ∀ task, instr ≠ .startDaemon task) :
    (exec mode env instr rest m).mem.unwritten = m.unwritten :=
  Untouched.unwritten exec_untouched h

theorem exec_timer (h : instr ≠ .checkExpiration) (h' : instr ≠ .stopTimer) :
    (exec mode env instr rest m).mem.timer = m.timer :=
  Untouched.timer exec_untouched h h'

theorem exec_commands (h : instr ≠ .startService) :
    (exec mode env instr rest m).mem.commands = m.commands :=
  Untouched.commands exec_untouched h

theorem exec_spawned (h : instr ≠ .spawn) : (exec mode env instr rest m).spawned = [] :=
  Untouched.spawned exec_untouched h

/-- No statement reads the state or the queue, and only `changeState` writes
the queue. -/
theorem exec_frame_queue {st : State} {queue : List Post}
    (h : ∀ st msg, instr ≠ .changeState st msg) :
    exec mode env instr rest { m with state := st, queue := queue } =
      ⟨{ (exec mode env instr rest m).mem with state := st, queue := queue },
        (exec mode env instr rest m).code, (exec mode env instr rest m).spawned⟩ := by
  -- taking the memory apart makes both sides inspect the same variables
  obtain ⟨_, _, _, _, config, conn, _, receiver, _, pidFile, _, _, _, _, _⟩ := m
  cases instr
  case changeState st msg => exact absurd rfl (h st msg)
  case killProcess task => simp only [exec]; cases pidFile task <;> rfl
  case closeConn => cases conn <;> rfl
  case ifPublic => cases config <;> rfl
  case unlessUdpDns => cases config <;> rfl
  case registerReceiver slot => simp only [exec]; cases receiver slot <;> rfl
  case startDaemon task =>
    cases config with
    | none => rfl
    | some c => simp only [exec]; split <;> rfl
  case getPublicConfig =>
    cases config with
    | none => rfl
    | some c => simp only [exec]; cases env.publicServer <;> rfl
  case establish =>
    cases config with
    | none => rfl
    | some c => simp only [exec]; cases env.establish <;> rfl
  case unregisterReceiver slot =>
    simp only [exec]
    cases receiver slot with
    | none => rfl
    | some n => simp only; split <;> rfl
  case resolve =>
    cases config with
    | none => rfl
    | some c =>
      simp only [exec]
      split
      · rfl
      · cases env.resolve <;> rfl
  all_goals rfl

/-- The daemons and their pid files are read by `killProcess` only, which does
nothing but end daemons. -/
theorem exec_frame_daemons {running unwritten : List (Task × Nat)} {pidFile : Task → Option Nat} :
    ∃ running' unwritten' pidFile',
      exec mode env instr rest
          { m with running := running, unwritten := unwritten, pidFile := pidFile } =
        ⟨{ (exec mode env instr rest m).mem with
            running := running', unwritten := unwritten', pidFile := pidFile' },
          (exec mode env instr rest m).code, (exec mode env instr rest m).spawned⟩ := by
  obtain ⟨_, _, _, _, config, conn, _, receiver, _, files, _, _, _, _, _⟩ := m
  cases instr
  case killProcess task =>
    simp only [exec]
    cases pidFile task <;> cases files task <;> exact ⟨_, _, _, rfl⟩
  case closeConn => cases conn <;> exact ⟨_, _, _, rfl⟩
  case ifPublic => cases config <;> exact ⟨_, _, _, rfl⟩
  case unlessUdpDns => cases config <;> exact ⟨_, _, _, rfl⟩
  case registerReceiver slot =>
    simp only [exec]
    cases receiver slot <;> exact ⟨_, _, _, rfl⟩
  case startDaemon task =>
    cases config with
    | none => exact ⟨_, _, _, rfl⟩
    | some c => simp only [exec]; split <;> exact ⟨_, _, _, rfl⟩
  case getPublicConfig =>
    cases config with
    | none => exact ⟨_, _, _, rfl⟩
    | some c => simp only [exec]; cases env.publicServer <;> exact ⟨_, _, _, rfl⟩
  case establish =>
    cases config with
    | none => exact ⟨_, _, _, rfl⟩
    | some c => simp only [exec]; cases env.establish <;> exact ⟨_, _, _, rfl⟩
  case unregisterReceiver slot =>
    simp only [exec]
    cases receiver slot with
    | none => exact ⟨_, _, _, rfl⟩
    | some n => simp only; split <;> exact ⟨_, _, _, rfl⟩
  case resolve =>
    cases config with
    | none => exact ⟨_, _, _, rfl⟩
    | some c =>
      simp only [exec]
      split
      · exact ⟨_, _, _, rfl⟩
      · cases env.resolve <;> exact ⟨_, _, _, rfl⟩
  all_goals exact ⟨_, _, _, rfl⟩

end Frame

/-- The statement that thread `i` executes next. -/
def System.statement (s : System) (i : Nat) : Option Instr := s.threads[i]?.bind (·.code.head?)

/-! ### Starts in progress -/

/-- Statements of `startRunner` that lead to a worker. -/
def Instr.isStart : Instr → Bool
  | .prepare => true
  | .spawn => true
  | _ => false

/-- A connect worker that has not ended. -/
def Thread.working (th : Thread) : Bool := th.role == .worker && !th.code.isEmpty

/-- The thread is inside `startRunner`, or is a worker that has not ended. -/
def Thread.starting (th : Thread) : Bool :=
  (th.role == .worker && !th.code.isEmpty) || th.code.any Instr.isStart

/-- A start is in progress. -/
def System.starting (s : System) : Bool := s.threads.any Thread.starting

/-- No thread has anything left to do and no runnable waits. -/
def System.quiescent (s : System) : Bool :=
  s.threads.all (fun th => th.code.isEmpty) && s.mem.queue.isEmpty

theorem isStart_expansions {instr : Instr} {p : List Instr} (hi : instr ≠ .prepare)
    (h : p ∈ instr.expansions mode) : ∀ i ∈ p, i.isStart = false := by
  cases instr
  case prepare => exact absurd rfl hi
  case unlessUdpDns tasks =>
    simp only [Instr.expansions, List.mem_cons, List.not_mem_nil, or_false] at h
    rcases h with rfl | rfl
    · simp
    · intro i hi
      obtain ⟨task, -, rfl⟩ := List.mem_map.mp hi
      rfl
  case getPublicConfig =>
    revert p
    rcases mode with _ | _ | _ <;> decide
  case ifTunnel =>
    revert p
    rcases mode with _ | _ | _ <;> decide
  all_goals
    revert p
    simp [Instr.expansions, Instr.isStart]

theorem isStart_serviceFailed : ∀ i ∈ serviceFailed mode, i.isStart = false := by
  rcases mode with _ | _ | _ <;> decide

theorem isStart_exec {env : Env} {instr : Instr} {rest : List Instr} {m : Memory}
    (h : ∀ i ∈ instr :: rest, i.isStart = false) :
    ∀ i ∈ (exec mode env instr rest m).code, i.isStart = false := by
  have hcode : Continues mode instr rest (exec mode env instr rest m).code := exec_code
  generalize (exec mode env instr rest m).code = code at hcode
  cases hcode with
  | goes hp =>
    have hne : instr ≠ .prepare := by
      rintro rfl
      exact absurd (h _ List.mem_cons_self) (by simp [Instr.isStart])
    intro i hi
    rcases List.mem_append.mp hi with hi | hi
    · exact isStart_expansions hne hp i hi
    · exact h i (List.mem_cons_of_mem _ hi)
  | fails _ => exact isStart_serviceFailed
  | ends _ => simp

theorem isStart_stopRunner : ∀ i ∈ stopRunner mode, i.isStart = false := by
  rcases mode with _ | _ | _ <;> decide

/-! ### Busy threads -/

/-- The threads that have something left to do. -/
def busy (ths : List Thread) : List Thread := ths.filter fun th => !th.code.isEmpty

@[simp] theorem busy_nil : busy [] = [] := rfl

@[simp] theorem busy_idle {role : Role} {failed : Bool} {ths : List Thread} :
    busy (⟨role, [], failed⟩ :: ths) = busy ths := rfl

@[simp] theorem busy_cons {role : Role} {instr : Instr} {rest : List Instr} {failed : Bool}
    {ths : List Thread} :
    busy (⟨role, instr :: rest, failed⟩ :: ths) = ⟨role, instr :: rest, failed⟩ :: busy ths := rfl

@[simp] theorem busy_append {l r : List Thread} : busy (l ++ r) = busy l ++ busy r :=
  List.filter_append _ _

theorem busy_eq_nil {ths : List Thread} : busy ths = [] ↔ ∀ th ∈ ths, th.code = [] := by
  simp [busy]

theorem mem_busy {ths : List Thread} {th : Thread} : th ∈ busy ths ↔ th ∈ ths ∧ th.code ≠ [] := by
  simp [busy]

theorem idle_of_quiescent (h : s.quiescent) : busy s.threads = [] ∧ s.mem.queue = [] := by
  rw [System.quiescent, Bool.and_eq_true] at h
  exact ⟨busy_eq_nil.mpr (by simpa using h.1), by simpa using h.2⟩

/-- If only one thread is busy, then the one that executes a statement is it. -/
theorem busy_split {l r : List Thread} {role : Role} {instr : Instr} {rest : List Instr}
    {failed : Bool} {th : Thread}
    (h : busy (l ++ ⟨role, instr :: rest, failed⟩ :: r) = [th]) :
    th = ⟨role, instr :: rest, failed⟩ ∧ busy l = [] ∧ busy r = [] := by
  rw [busy_append, busy_cons] at h
  have hlen := congrArg List.length h
  rw [List.length_append, List.length_cons, List.length_singleton] at hlen
  have hl : busy l = [] := List.eq_nil_of_length_eq_zero (by omega)
  have hr : busy r = [] := List.eq_nil_of_length_eq_zero (by omega)
  rw [hl, hr, List.nil_append] at h
  exact ⟨((List.cons.inj h).1).symm, hl, hr⟩

theorem busy_alone {l r : List Thread} {th : Thread} (hl : busy l = []) (hr : busy r = []) :
    busy (l ++ th :: r) = busy [th] := by
  rw [busy_append, hl, List.nil_append, ← List.singleton_append, busy_append, hr, List.append_nil]

end Service
