/-
The pid files of the daemons of `ShadowsocksVpnService`.

A daemon writes its pid to a file, and `killProcesses` reads there whom to signal.  It does so
on the start path and on the stop path, and removes no file; and a file outlives the daemon, the
process of the app and a reboot.  `Device` adds to the service system what happens around it and
the history of the files: what was written to them, when a round of `killProcesses` began, and
which pids were signalled in it.

Rounds are taken one at a time here (`serially`): no round begins, no pid file is written or
replaced, and the process of the app does not end while another round is under way.

* `Turn` — the rounds and the writes by themselves; `Serial.turn`, `Ready.turn`, `Stale.turn` say
  what is signalled in a round, and what is written between two rounds;
* `between_exec`, `comes_serially` — `killProcesses` is executed as a whole, and a step of the
  device is a turn;
* `signalled_once_iff` — no pid is signalled twice in a run exactly if every file that holds a pid
  when a round begins was written after the last round;
* `signalled_again` — a start after a stop signals the pid that the stop has signalled.
-/
import ReShadowsocks.VpnThreads

namespace PidFiles

open Transition Service

/-! ### The device -/

inductive Event
  /-- A daemon of `task` wrote its pid file. -/
  | wrote (task : Task) (pid : Nat)
  /-- An empty file was put in the place of the pid file of `task`. -/
  | emptied (task : Task)
  /-- `killProcesses` was entered. -/
  | round
  /-- `killProcesses` read `pid` from the file of `task` and signalled it. -/
  | signalled (task : Task) (pid : Nat)
  deriving DecidableEq

structure Device where
  system : System
  /-- The history, the latest event first. -/
  log : List Event

def Device.initial : Device := ⟨System.initial, []⟩

inductive Action
  /-- A request, a delivery, a write of a pid file or a statement of the service. -/
  | service (a : Service.Action)
  /-- A daemon exits. -/
  | exits (pid : Nat)
  /-- The process of the app ends, and the daemons go on. -/
  | dies
  | reboot

/-- What a statement does to the pid files or with them, the latest event first. -/
def events (m : Memory) (env : Env) : Instr → List Event
  | .killProcess task =>
    (m.pidFile task).toList.map (.signalled task) ++ if task = .ssLocal then [.round] else []
  | .startDaemon task =>
    if m.config.isSome ∧ env.daemonUp ∧ task.recreatesPidFile then [.emptied task] else []
  | _ => []

def eventsOf (s : System) : Service.Action → List Event
  | .writePid task pid => [.wrote task pid]
  | .exec i env => (s.statement i).elim [] (events s.mem env)
  | _ => []

def step (s : Device) : Action → Option Device
  | .service a => (Service.step .vpn s.system a).map fun t => ⟨t, eventsOf s.system a ++ s.log⟩
  | .exits pid =>
    some { s with system.mem.running := s.system.mem.running.filter fun d => d.2 ≠ pid }
  | .dies =>
    some { s with system := { System.initial with mem := { Memory.initial with
                    pidFile := s.system.mem.pidFile
                    running := s.system.mem.running
                    unwritten := s.system.mem.unwritten
                    fresh := s.system.mem.fresh } } }
  -- pids are given out anew
  | .reboot =>
    some { s with system := { System.initial with mem := { Memory.initial with
                    pidFile := s.system.mem.pidFile } } }

/-! ### The history -/

/-- The tasks that wrote their file. -/
def written (log : List Event) : List Task :=
  log.filterMap fun
    | .wrote task _ => some task
    | _ => none

def Event.signals (task : Task) : Event → Bool
  | .signalled task' _ => task' == task
  | _ => false

/-- The file of `task` was written since the pid read from it was last signalled. -/
def WrittenSince (task : Task) (log : List Event) : Prop :=
  task ∈ written (log.takeWhile fun e => !e.signals task)

instance (task : Task) (log : List Event) : Decidable (WrittenSince task log) :=
  inferInstanceAs (Decidable (task ∈ _))

/-- A signal needs a file that was written since the last one. -/
def Justified : Event → List Event → Prop
  | .signalled task _, before => WrittenSince task before
  | _, _ => True

/-- **Every recorded pid is signalled at most once.** -/
def SignalledOnce (s : Device) : Prop := Follows Justified s.log

/-! ### Rounds -/

/-- The tasks that `killProcesses` goes through. -/
def tasks : List Task := [.ssLocal, .ssTunnel, .pdnsd, .tun2socks]

/-- The tasks of the `killProcess` statements that come next. -/
def leading : List Instr → List Task
  | .killProcess task :: rest => task :: leading rest
  | _ => []

/-- The tasks that a round under way has yet to come to. -/
def remaining (code : List Instr) : List Task :=
  if leading code = tasks then [] else leading code

def inRound (th : Thread) : Bool := !(remaining th.code).isEmpty

/-- The tasks that the rounds of all threads have yet to come to. -/
def current (s : System) : List Task := s.threads.flatMap fun th => remaining th.code

/-- The action begins a round. -/
def beginsRound (s : System) : Service.Action → Bool
  | .exec i _ => s.statement i == some (.killProcess .ssLocal)
  | _ => false

/-- The action writes a pid file or replaces it. -/
def touchesFile (s : System) : Service.Action → Bool
  | .writePid _ _ => true
  | .exec i _ => s.statement i == some (.startDaemon .pdnsd)
  | _ => false

/-- Rounds are taken one at a time, and nothing happens to the files meanwhile. -/
def InTurn (s : Device) : Action → Prop
  | .service a => beginsRound s.system a || touchesFile s.system a → current s.system = []
  | .exits _ => True
  | .dies => current s.system = []
  | .reboot => current s.system = []

instance (s : Device) : ∀ a, Decidable (InTurn s a)
  | .service _ => inferInstanceAs (Decidable (_ → _))
  | .exits _ => inferInstanceAs (Decidable True)
  | .dies => inferInstanceAs (Decidable (_ = _))
  | .reboot => inferInstanceAs (Decidable (_ = _))

def serially (s : Device) (a : Action) : Option Device := if InTurn s a then step s a else none

/-- The file of the task holds a pid: the last one that was put there was not an empty one. -/
def holdsPid (task : Task) : List Event → Bool
  | [] => false
  | .wrote task' _ :: log => task' == task || holdsPid task log
  | .emptied task' :: log => task' != task && holdsPid task log
  | _ :: log => holdsPid task log

/-- What has happened since the last round began. -/
def sinceRound (log : List Event) : List Event := log.takeWhile fun e => e != .round

/-- When a round begins, every file that holds a pid was written since the last round. -/
def Renewed (s : Device) : Action → Prop
  | .service a => beginsRound s.system a →
      ∀ task ∈ tasks, holdsPid task s.log → task ∈ written (sinceRound s.log)
  | _ => True

instance (s : Device) : ∀ a, Decidable (Renewed s a)
  | .service _ => inferInstanceAs (Decidable (_ → _))
  | .exits _ | .dies | .reboot => inferInstanceAs (Decidable True)

/-! ### The history, event by event -/

section History

variable {task task' : Task} {pid : Nat} {log : List Event} {e : Event}

@[simp] theorem written_nil : written [] = [] := rfl

@[simp] theorem written_wrote : written (.wrote task pid :: log) = task :: written log := rfl

@[simp] theorem written_emptied : written (.emptied task :: log) = written log := rfl

@[simp] theorem written_signalled : written (.signalled task pid :: log) = written log := rfl

@[simp] theorem sinceRound_round : sinceRound (.round :: log) = [] := rfl

@[simp] theorem sinceRound_wrote :
    sinceRound (.wrote task pid :: log) = .wrote task pid :: sinceRound log := rfl

@[simp] theorem sinceRound_emptied :
    sinceRound (.emptied task :: log) = .emptied task :: sinceRound log := rfl

@[simp] theorem sinceRound_signalled :
    sinceRound (.signalled task pid :: log) = .signalled task pid :: sinceRound log := rfl

theorem writtenSince_cons (h : e.signals task = false) :
    WrittenSince task (e :: log) ↔ task ∈ written [e] ∨ WrittenSince task log := by
  rw [WrittenSince, List.takeWhile_cons_of_pos (by rw [h]; rfl), WrittenSince,
    ← List.singleton_append, written, List.filterMap_append, List.mem_append]
  rfl

@[simp] theorem writtenSince_wrote :
    WrittenSince task (.wrote task' pid :: log) ↔ task = task' ∨ WrittenSince task log := by
  rw [writtenSince_cons rfl, written_wrote, written_nil, List.mem_singleton]

@[simp] theorem writtenSince_emptied :
    WrittenSince task (.emptied task' :: log) ↔ WrittenSince task log := by
  rw [writtenSince_cons rfl, written_emptied, written_nil, or_iff_right List.not_mem_nil]

@[simp] theorem writtenSince_round : WrittenSince task (.round :: log) ↔ WrittenSince task log := by
  rw [writtenSince_cons rfl]
  exact or_iff_right List.not_mem_nil

@[simp] theorem writtenSince_signalled_self : ¬ WrittenSince task (.signalled task pid :: log) := by
  rw [WrittenSince, List.takeWhile_cons_of_neg (by simp [Event.signals])]
  exact List.not_mem_nil

theorem writtenSince_signalled (h : task' ≠ task) :
    WrittenSince task (.signalled task' pid :: log) ↔ WrittenSince task log := by
  rw [writtenSince_cons (by simpa [Event.signals] using h), written_signalled, written_nil,
    or_iff_right List.not_mem_nil]

end History

/-! ### The code of the threads -/

/-- `killProcesses` is executed as a whole. -/
def roundRule (instr : Instr) (rest : List Instr) : Prop :=
  match instr with
  | .killProcess .ssLocal => leading rest = [.ssTunnel, .pdnsd, .tun2socks]
  | .killProcess .ssTunnel => leading rest = [.pdnsd, .tun2socks]
  | .killProcess .pdnsd => leading rest = [.tun2socks]
  | .killProcess .tun2socks => leading rest = []
  | .killProcess .redsocks => False
  | _ => leading rest = [] ∨ leading rest = tasks

def isKill : Instr → Bool
  | .killProcess _ => true
  | _ => false

/-- No round is under way behind the statement, and the code is of the right shape. -/
structure Between (code : List Instr) : Prop where
  follows : Follows roundRule code
  ahead : leading code = [] ∨ leading code = tasks

theorem between_nil : Between [] := ⟨follows_nil, .inl rfl⟩

theorem Between.remaining {code : List Instr} (h : Between code) : remaining code = [] := by
  rcases h.ahead with hnil | hall
  · rw [PidFiles.remaining, hnil]
    rfl
  · rw [PidFiles.remaining, if_pos hall]

theorem Between.cons {instr : Instr} {rest : List Instr} (h : Between rest)
    (hi : isKill instr = false) : Between (instr :: rest) := by
  refine ⟨follows_cons.mpr ⟨?_, h.follows⟩, .inl ?_⟩
  · cases instr
    case killProcess => exact nomatch hi
    all_goals exact h.ahead
  · cases instr
    case killProcess => exact nomatch hi
    all_goals rfl

theorem Between.append {p rest : List Instr} (h : Between rest) (hp : ∀ i ∈ p, isKill i = false) :
    Between (p ++ rest) := by
  induction p with
  | nil => exact h
  | cons i p ih =>
    obtain ⟨hi, hp⟩ := List.forall_mem_cons.mp hp
    exact (ih hp).cons hi

theorem Between.killProcesses {rest : List Instr} (h : Between rest) (hl : leading rest = []) :
    Between (killProcesses .vpn ++ rest) := by
  refine ⟨?_, .inr ?_⟩
  · simp [Service.killProcesses, roundRule, leading, hl, h.follows]
  · simp [Service.killProcesses, leading, hl, tasks]

theorem Between.stopRunner {rest : List Instr} (h : Between rest) :
    Between (stopRunner .vpn ++ rest) := by
  have htail : Between ([.ifConn, .stopSelf, .ifReceiver .receiver, .changeState .stopped none] ++
      rest) := h.append (by decide)
  exact (htail.killProcesses rfl).cons rfl

theorem Between.serviceFailed {rest : List Instr} (h : Between rest) :
    Between (serviceFailed .vpn ++ rest) := h.stopRunner.cons rfl

theorem between_worker : Between (worker .vpn) := by
  have htail : Between ([.resolve] ++ handleConnection .vpn ++ [.changeState .connected none]) :=
    between_nil.append (p := [.resolve] ++ handleConnection .vpn ++ [.changeState .connected none])
      (by decide)
  exact (htail.killProcesses rfl).append (p := [.ifPublic, .ifConfig]) (by decide)

theorem between_startRunner (c : Config) {rest : List Instr} (h : Between rest) :
    Between (startRunner c .vpn ++ rest) := h.append (by simp [startRunner, isKill])

theorem between_of_not_kill {instr : Instr} {rest : List Instr} (hi : isKill instr = false)
    (h : Follows roundRule (instr :: rest)) : Between rest := by
  obtain ⟨hrule, hrest⟩ := follows_cons.mp h
  refine ⟨hrest, ?_⟩
  cases instr
  case killProcess => exact nomatch hi
  all_goals exact hrule

/-- No statement but those of `killProcesses` leads into a round. -/
theorem between_exec {env : Env} {instr : Instr} {rest : List Instr} {m : Memory}
    (hi : isKill instr = false) (h : Follows roundRule (instr :: rest)) :
    Between (exec .vpn env instr rest m).code := by
  have hrest := between_of_not_kill hi h
  have hcode : Continues .vpn instr rest (exec .vpn env instr rest m).code := exec_code
  generalize (exec .vpn env instr rest m).code = code at hcode
  cases hcode with
  | fails _ =>
    rw [← List.append_nil (serviceFailed .vpn)]
    exact between_nil.serviceFailed
  | ends _ => exact between_nil
  | @goes p hp =>
    cases instr
    case getPublicConfig =>
      rcases List.mem_pair.mp hp with rfl | rfl
      · exact hrest
      · rw [List.append_assoc]
        exact (hrest.append (by decide)).serviceFailed
    case ifTunnel =>
      rcases List.mem_pair.mp hp with rfl | rfl
      · exact hrest.append (by decide)
      · exact hrest.stopRunner
    case unlessUdpDns tasks =>
      rcases List.mem_pair.mp hp with rfl | rfl
      · exact hrest
      · refine hrest.append fun i hi => ?_
        obtain ⟨task, -, rfl⟩ := List.mem_map.mp hi
        rfl
    all_goals
      refine hrest.append ?_
      revert p
      simp [Instr.expansions, connect, isKill]

theorem exec_killProcess_code {env : Env} {task : Task} {rest : List Instr} {m : Memory} :
    (exec .vpn env (.killProcess task) rest m).code = rest := by
  simp only [exec]
  split <;> rfl

/-! ### Rounds and writes -/

/-- What happens to the round under way and to the history; `begins` says that a round begins. -/
inductive Turn : (begins : Bool) → List Task → List Event → List Task → List Event → Prop
  | other {now : List Task} {log : List Event} : Turn false now log now log
  | write {task : Task} {pid : Nat} {log : List Event} :
      Turn false [] log [] (.wrote task pid :: log)
  | empty {task : Task} {log : List Event} : Turn false [] log [] (.emptied task :: log)
  | begin {found : Option Nat} {log : List Event} : found.isSome = holdsPid .ssLocal log →
      Turn true [] log [.ssTunnel, .pdnsd, .tun2socks]
        (found.toList.map (.signalled .ssLocal) ++ .round :: log)
  | kill {task : Task} {now : List Task} {found : Option Nat} {log : List Event} :
      found.isSome = holdsPid task log →
      Turn false (task :: now) log now (found.toList.map (.signalled task) ++ log)

/-- A round signals each file once, and nothing is written meanwhile. -/
structure Serial (now : List Task) (log : List Event) : Prop where
  suffix : now <:+ [.ssTunnel, .pdnsd, .tun2socks]
  quiet : now ≠ [] → written (sinceRound log) = []
  order : ∀ task ∈ written (sinceRound log), WrittenSince task log
  done : ∀ task ∈ tasks, holdsPid task log → task ∉ written (sinceRound log) →
    task ∈ now ∨ ¬ WrittenSince task log

/-- What the round under way has yet to signal was written since its last signal. -/
def Ready (now : List Task) (log : List Event) : Prop :=
  ∀ task ∈ now, holdsPid task log → WrittenSince task log

/-- A file that is to be signalled was not. -/
def Stale (now : List Task) (log : List Event) : Prop :=
  ∃ task ∈ now, holdsPid task log ∧ ¬ WrittenSince task log

section Turns

variable {begins : Bool} {now now' : List Task} {log log' : List Event} {task : Task}
  {found : Option Nat}

theorem holdsPid_found {task' : Task} :
    holdsPid task (found.toList.map (.signalled task') ++ log) = holdsPid task log := by
  cases found <;> rfl

theorem sinceRound_found :
    written (sinceRound (found.toList.map (.signalled task) ++ log)) =
      written (sinceRound log) := by
  cases found <;> rfl

theorem writtenSince_found {task' : Task} (h : task' ≠ task) :
    WrittenSince task (found.toList.map (.signalled task') ++ log) ↔ WrittenSince task log := by
  cases found with
  | none => exact Iff.rfl
  | some pid => exact writtenSince_signalled h

/-- The file that `killProcess` has read a pid from was not written since. -/
theorem not_writtenSince_found (h : found.isSome = holdsPid task log)
    (hholds : holdsPid task log = true) :
    ¬ WrittenSince task (found.toList.map (.signalled task) ++ log) := by
  obtain ⟨pid, rfl⟩ := Option.isSome_iff_exists.mp (h.trans hholds)
  exact writtenSince_signalled_self

theorem follows_found (h : found.isSome = holdsPid task log) :
    Follows Justified (found.toList.map (.signalled task) ++ log) ↔
      (holdsPid task log → WrittenSince task log) ∧ Follows Justified log := by
  cases found with
  | none =>
    rw [← h]
    simp
  | some pid =>
    rw [← h]
    simp [Justified]

theorem serial_nil : Serial [] [] where
  suffix := List.nil_suffix
  quiet h := absurd rfl h
  order _ h := absurd h List.not_mem_nil
  done _ _ h := nomatch h

theorem Serial.not_mem (h : Serial (task :: now) log) : task ∉ now :=
  (List.nodup_cons.mp (h.suffix.sublist.nodup (by decide))).1

/-- **Step.** -/
theorem Serial.turn (h : Serial now log) (hturn : Turn begins now log now' log') :
    Serial now' log' := by
  cases hturn with
  | other => exact h
  | @write task pid =>
    refine ⟨h.suffix, fun hne => absurd rfl hne, fun t ht => ?_, fun t ht hholds hnot => .inr ?_⟩
    · rw [sinceRound_wrote, written_wrote, List.mem_cons] at ht
      rw [writtenSince_wrote]
      exact ht.imp id (h.order t)
    · rw [sinceRound_wrote, written_wrote, List.mem_cons, not_or] at hnot
      rw [writtenSince_wrote, not_or]
      have hold : holdsPid t log = true := by simpa [holdsPid, Ne.symm hnot.1] using hholds
      exact ⟨hnot.1, (h.done t ht hold hnot.2).resolve_left List.not_mem_nil⟩
  | @empty task =>
    refine ⟨h.suffix, fun hne => absurd rfl hne, fun t ht => ?_, fun t ht hholds hnot => .inr ?_⟩
    · exact writtenSince_emptied.mpr (h.order t ht)
    · have hold : holdsPid t log = true := by
        rw [holdsPid, Bool.and_eq_true] at hholds
        exact hholds.2
      rw [writtenSince_emptied]
      exact (h.done t ht hold hnot).resolve_left List.not_mem_nil
  | @begin found _ hfound =>
    have hnone : written (sinceRound (found.toList.map (.signalled .ssLocal) ++ .round :: log)) =
        [] := sinceRound_found
    refine ⟨List.suffix_refl _, fun _ => hnone, fun t ht => ?_, fun t ht hholds _ => ?_⟩
    · rw [hnone] at ht
      exact absurd ht List.not_mem_nil
    · rw [holdsPid_found] at hholds
      rcases List.mem_cons.mp ht with rfl | ht
      · exact .inr (not_writtenSince_found hfound hholds)
      · exact .inl ht
  | @kill task _ found _ hfound =>
    have hnone := h.quiet (List.cons_ne_nil task now')
    have hnone' := (@sinceRound_found log task found).trans hnone
    refine ⟨(List.suffix_cons task now').trans h.suffix, fun _ => hnone', fun t ht => ?_,
      fun t ht hholds _ => ?_⟩
    · rw [hnone'] at ht
      exact absurd ht List.not_mem_nil
    · rw [holdsPid_found] at hholds
      -- the file that is read is signalled now, and the others stay as they were
      by_cases heq : task = t
      · subst heq
        exact .inr (not_writtenSince_found hfound hholds)
      · rw [writtenSince_found heq]
        refine (h.done t ht hholds (by rw [hnone]; exact List.not_mem_nil)).imp ?_ id
        exact fun hmem => (List.mem_cons.mp hmem).resolve_left (Ne.symm heq)

/-- **Step.**  A round that begins with files written since the last one signals them once. -/
theorem Ready.turn (hserial : Serial now log) (h : Ready now log) (honce : Follows Justified log)
    (hturn : Turn begins now log now' log')
    (hrenewed : begins → ∀ task ∈ tasks, holdsPid task log → task ∈ written (sinceRound log)) :
    Ready now' log' ∧ Follows Justified log' := by
  cases hturn with
  | other => exact ⟨h, honce⟩
  | write => exact ⟨fun _ ht => absurd ht List.not_mem_nil, follows_cons.mpr ⟨trivial, honce⟩⟩
  | empty => exact ⟨fun _ ht => absurd ht List.not_mem_nil, follows_cons.mpr ⟨trivial, honce⟩⟩
  | @begin found _ hfound =>
    have hfound : found.isSome = holdsPid .ssLocal (.round :: log) := hfound
    have hwritten : ∀ t ∈ tasks, holdsPid t log → WrittenSince t (.round :: log) :=
      fun t ht hholds => writtenSince_round.mpr (hserial.order t (hrenewed rfl t ht hholds))
    refine ⟨fun t ht hholds => ?_, (follows_found hfound).mpr ⟨?_, follows_cons.mpr
      ⟨trivial, honce⟩⟩⟩
    · rw [holdsPid_found] at hholds
      have hne : Task.ssLocal ≠ t := by
        rintro rfl
        exact absurd ht (by decide)
      exact (writtenSince_found hne).mpr (hwritten t (List.mem_cons_of_mem _ ht) hholds)
    · exact hwritten .ssLocal (by decide)
  | @kill task _ found _ hfound =>
    refine ⟨fun t ht hholds => ?_, (follows_found hfound).mpr ⟨?_, honce⟩⟩
    · rw [holdsPid_found] at hholds
      have hne : task ≠ t := by
        rintro rfl
        exact hserial.not_mem ht
      exact (writtenSince_found hne).mpr (h t (List.mem_cons_of_mem _ ht) hholds)
    · exact h task List.mem_cons_self

/-- **Step.**  The file stays until it is signalled. -/
theorem Stale.turn (h : Stale now log) (hturn : Turn begins now log now' log') :
    Stale now' log' ∨ ¬ Follows Justified log' := by
  obtain ⟨t, ht, hholds, hstale⟩ := h
  cases hturn with
  | other => exact .inl ⟨t, ht, hholds, hstale⟩
  | write => exact absurd ht List.not_mem_nil
  | empty => exact absurd ht List.not_mem_nil
  | begin => exact absurd ht List.not_mem_nil
  | @kill task _ found _ hfound =>
    by_cases heq : task = t
    · subst heq
      exact .inr fun honce => hstale (((follows_found hfound).mp honce).1 hholds)
    · refine .inl ⟨t, (List.mem_cons.mp ht).resolve_left (Ne.symm heq), ?_, ?_⟩
      · rw [holdsPid_found]
        exact hholds
      · rw [writtenSince_found heq]
        exact hstale

end Turns

/-! ### Rounds in the device -/

/-- The history tells which files hold a pid, and at most one thread is in a round. -/
structure Linked (s : Device) : Prop where
  files : ∀ task, (s.system.mem.pidFile task).isSome = holdsPid task s.log
  shape : ∀ th ∈ s.system.threads, Follows roundRule th.code
  alone : s.system.threads.countP inRound ≤ 1

/-- What a step of the device comes to. -/
structure Comes (begins : Bool) (s t : Device) : Prop where
  linked : Linked t
  turn : Turn begins (current s.system) s.log (current t.system) t.log

section Device

variable {s t : Device} {m : Memory} {log : List Event} {last : Option Request}
  {ths l r new : List Thread} {th th' : Thread} {env : Env} {instr : Instr} {rest : List Instr}

theorem inRound_eq_false : inRound th = false ↔ remaining th.code = [] := by
  simp [inRound]

theorem Between.inRound (h : Between th.code) : inRound th = false :=
  inRound_eq_false.mpr h.remaining

theorem remaining_eq_nil {ths : List Thread} (h : ∀ th ∈ ths, PidFiles.inRound th = false) :
    (ths.flatMap fun th => remaining th.code) = [] :=
  List.flatMap_eq_nil_iff.mpr fun th hth => inRound_eq_false.mp (h th hth)

/-- The only thread that may be in a round. -/
theorem alone_of_others (h : ∀ x ∈ l ++ r, inRound x = false) :
    (l ++ th :: r).countP inRound ≤ 1 ∧
      ((l ++ th :: r).flatMap fun th => remaining th.code) = remaining th.code := by
  obtain ⟨hl, hr⟩ := List.forall_mem_append.mp h
  have hcount : ∀ {ths : List Thread}, (∀ x ∈ ths, inRound x = false) → ths.countP inRound = 0 :=
    fun hths => List.countP_eq_zero.mpr fun x hx => by simp [hths x hx]
  constructor
  · rw [List.countP_append, List.countP_cons, hcount hl, hcount hr]
    split <;> decide
  · simp [remaining_eq_nil hl, remaining_eq_nil hr]

/-- A thread that is in no round goes on without being in one, and others come in so. -/
theorem alone_replace (hth : inRound th = false) (hth' : inRound th' = false)
    (hnew : ∀ th ∈ new, inRound th = false) :
    (l ++ th' :: r ++ new).countP inRound = (l ++ th :: r).countP inRound ∧
      ((l ++ th' :: r ++ new).flatMap fun th => remaining th.code) =
        (l ++ th :: r).flatMap fun th => remaining th.code := by
  have hcount : new.countP inRound = 0 :=
    List.countP_eq_zero.mpr fun th hth => by simp [hnew th hth]
  constructor
  · simp [List.countP_append, hth, hth', hcount]
  · simp [inRound_eq_false.mp hth, inRound_eq_false.mp hth', remaining_eq_nil hnew]

theorem remaining_of_not_kill (hi : isKill instr = false) : remaining (instr :: rest) = [] := by
  cases instr
  case killProcess => exact nomatch hi
  all_goals rfl

/-- A round begins with `ss-local`, and goes on with the next task. -/
theorem remaining_kill {task : Task} (h : Follows roundRule (.killProcess task :: rest)) :
    task = .ssLocal ∧ remaining (.killProcess task :: rest) = [] ∧
        remaining rest = [.ssTunnel, .pdnsd, .tun2socks] ∨
      task ≠ .ssLocal ∧ remaining (.killProcess task :: rest) = task :: remaining rest := by
  have hrule := (follows_cons.mp h).1
  cases task
  case redsocks => exact hrule.elim
  all_goals
    have hleading : leading rest = _ := hrule
    simp [remaining, leading, hleading, tasks]

theorem between_spawned (th : Thread) (h : th ∈ (exec .vpn env instr rest m).spawned) :
    Between th.code := by
  by_cases hi : instr = .spawn
  · subst hi
    rw [List.mem_singleton.mp h]
    exact between_worker
  · rw [exec_spawned hi] at h
    exact absurd h List.not_mem_nil

theorem between_called {s : System} {a : Service.Action} {code : List Instr}
    (h : Called .vpn s a code) : Between code := by
  cases h with
  | start c _ => exact List.append_nil (startRunner c .vpn) ▸ between_startRunner c between_nil
  | connect c _ => exact between_startRunner c (between_nil.cons rfl)
  | refused c _ => exact between_nil.cons rfl
  | stop _ => exact List.append_nil (stopRunner .vpn) ▸ between_nil.stopRunner
  | revoke _ => exact List.append_nil (stopRunner .vpn) ▸ between_nil.stopRunner

theorem between_received {s : System} {a : Service.Action} {code : List Instr}
    (h : Received .vpn s a code) : Between code := by
  cases h with
  | close _ => exact (between_nil.cons rfl).stopRunner
  | closeNat hm _ => exact absurd rfl hm
  | shutdown _ => exact List.append_nil (stopRunner .vpn) ▸ between_nil.stopRunner

/-- A step that has nothing to do with the files, and in which no thread enters a round. -/
theorem Linked.other (h : Linked s) {u : System} (hfiles : u.mem.pidFile = s.system.mem.pidFile)
    (hshape : ∀ th ∈ u.threads, Follows roundRule th.code)
    (halone : u.threads.countP inRound = s.system.threads.countP inRound)
    (hcurrent : current u = current s.system) : Comes false s ⟨u, s.log⟩ where
  linked := ⟨fun task => hfiles ▸ h.files task, hshape, halone ▸ h.alone⟩
  turn := by
    show Turn false _ _ (current u) _
    rw [hcurrent]
    exact .other

/-- The idle main thread takes up code. -/
theorem Linked.wake (h : Linked s) {role : Role} {failed : Bool} {code : List Instr}
    (hth : s.system.threads = ⟨role, [], failed⟩ :: r) (hcode : Between code)
    (hfiles : m.pidFile = s.system.mem.pidFile) :
    Comes false s ⟨⟨m, ⟨role, code, failed⟩ :: r, last⟩, s.log⟩ := by
  obtain ⟨hcount, hcurrent⟩ := @alone_replace [] r [] ⟨role, [], failed⟩ ⟨role, code, failed⟩
    between_nil.inRound hcode.inRound (by simp)
  rw [List.append_nil] at hcount hcurrent
  refine h.other hfiles (List.forall_mem_cons.mpr ⟨hcode.follows, fun th hmem => ?_⟩) ?_ ?_
  · exact h.shape th (hth ▸ List.mem_cons_of_mem _ hmem)
  · rw [hth]
    exact hcount
  · rw [current, current, hth]
    exact hcurrent

section Exec

variable {role : Role} {failed failed' : Bool}

/-- The threads behind a statement that is not one of `killProcesses`. -/
theorem shape_exec (h : ∀ th ∈ l ++ ⟨role, instr :: rest, failed⟩ :: r, Follows roundRule th.code)
    (hi : isKill instr = false) :
    ∀ th ∈ l ++ ⟨role, (exec .vpn env instr rest m).code, failed'⟩ :: r ++
      (exec .vpn env instr rest m).spawned, Follows roundRule th.code :=
  forall_mem_replace h (fun hself => (between_exec hi hself).follows) (fun _ _ hth => hth)
    fun th hth => (between_spawned th hth).follows

theorem alone_exec (h : ∀ th ∈ l ++ ⟨role, instr :: rest, failed⟩ :: r, Follows roundRule th.code)
    (hi : isKill instr = false) :
    (l ++ ⟨role, (exec .vpn env instr rest m).code, failed'⟩ :: r ++
        (exec .vpn env instr rest m).spawned).countP inRound =
      (l ++ ⟨role, instr :: rest, failed⟩ :: r).countP inRound ∧
    ((l ++ ⟨role, (exec .vpn env instr rest m).code, failed'⟩ :: r ++
        (exec .vpn env instr rest m).spawned).flatMap fun th => remaining th.code) =
      (l ++ ⟨role, instr :: rest, failed⟩ :: r).flatMap fun th => remaining th.code := by
  have hself := h ⟨role, instr :: rest, failed⟩ (by simp)
  refine alone_replace ?_ ?_ fun th hth => (between_spawned th hth).inRound
  · exact inRound_eq_false.mpr (remaining_of_not_kill hi)
  · exact Between.inRound (between_exec hi hself)

theorem shape_kill {task : Task}
    (h : ∀ th ∈ l ++ ⟨role, .killProcess task :: rest, failed⟩ :: r, Follows roundRule th.code) :
    ∀ th ∈ l ++ ⟨role, rest, failed'⟩ :: r, Follows roundRule th.code := by
  rw [← List.append_nil (l ++ _ :: r)]
  exact forall_mem_replace h (fun hself => (follows_cons.mp hself).2) (fun _ _ hth => hth)
    fun _ hth => absurd hth List.not_mem_nil

/-- `killProcess` reads a file and leaves it as it is. -/
theorem files_kill {task task' : Task} (h : Linked s) :
    ((exec .vpn env (.killProcess task) rest s.system.mem).mem.pidFile task').isSome =
      holdsPid task' s.log := by
  rw [exec_pidFile (by simp)]
  exact h.files task'

/-- The first statement of a round, with no other one under way. -/
theorem comes_begin (h : Linked s)
    (hth : s.system.threads = l ++ ⟨role, .killProcess .ssLocal :: rest, failed⟩ :: r)
    (hrest : remaining rest = [.ssTunnel, .pdnsd, .tun2socks]) (hnone : current s.system = []) :
    Comes true s
      ⟨⟨(exec .vpn env (.killProcess .ssLocal) rest s.system.mem).mem,
        l ++ ⟨role, rest, failed'⟩ :: r, last⟩,
        events s.system.mem env (.killProcess .ssLocal) ++ s.log⟩ := by
  have hidle := hnone
  rw [current, hth, List.flatMap_eq_nil_iff] at hidle
  obtain ⟨halone, hcurrent⟩ := @alone_of_others l r ⟨role, rest, failed'⟩ fun x hx => by
    refine inRound_eq_false.mpr (hidle x ?_)
    exact ((List.sublist_cons_self _ r).append_left l).subset hx
  have hlog : events s.system.mem env (.killProcess .ssLocal) ++ s.log =
      (s.system.mem.pidFile .ssLocal).toList.map (.signalled .ssLocal) ++ .round :: s.log := by
    simp [events]
  rw [hlog]
  refine ⟨⟨fun t => ?_, shape_kill (hth ▸ h.shape), halone⟩, ?_⟩
  · rw [holdsPid_found]
    exact files_kill h
  · have hbegin : Turn true [] s.log [.ssTunnel, .pdnsd, .tun2socks] _ := .begin (h.files .ssLocal)
    rw [← hrest, ← hnone, ← hcurrent] at hbegin
    exact hbegin

/-- The other statements of a round. -/
theorem comes_next {task : Task} (h : Linked s)
    (hth : s.system.threads = l ++ ⟨role, .killProcess task :: rest, failed⟩ :: r)
    (hne : task ≠ .ssLocal)
    (hcons : remaining (.killProcess task :: rest) = task :: remaining rest) :
    Comes false s
      ⟨⟨(exec .vpn env (.killProcess task) rest s.system.mem).mem,
        l ++ ⟨role, rest, failed'⟩ :: r, last⟩,
        events s.system.mem env (.killProcess task) ++ s.log⟩ := by
  have hin : inRound ⟨role, .killProcess task :: rest, failed⟩ = true := by
    simp [inRound, hcons]
  have hothers := not_of_countP_le_one (hth ▸ h.alone) hin
  obtain ⟨-, hbefore⟩ := @alone_of_others l r ⟨role, .killProcess task :: rest, failed⟩ hothers
  obtain ⟨halone, hcurrent⟩ := @alone_of_others l r ⟨role, rest, failed'⟩ hothers
  have hlog : events s.system.mem env (.killProcess task) ++ s.log =
      (s.system.mem.pidFile task).toList.map (.signalled task) ++ s.log := by
    simp [events, hne]
  rw [hlog]
  refine ⟨⟨fun t => ?_, shape_kill (hth ▸ h.shape), halone⟩, ?_⟩
  · rw [holdsPid_found]
    exact files_kill h
  · have hkill : Turn false (task :: remaining rest) s.log (remaining rest) _ :=
      .kill (h.files task)
    rw [← hcons, ← hcurrent] at hkill
    rw [current, hth, hbefore]
    exact hkill

/-- A statement of `killProcesses`. -/
theorem comes_kill {task : Task} (h : Linked s)
    (hth : s.system.threads = l ++ ⟨role, .killProcess task :: rest, failed⟩ :: r)
    (hturn : task = .ssLocal → current s.system = []) :
    Comes (task == .ssLocal) s
      ⟨⟨(exec .vpn env (.killProcess task) rest s.system.mem).mem,
        l ++ ⟨role, rest, failed'⟩ :: r, last⟩,
        events s.system.mem env (.killProcess task) ++ s.log⟩ := by
  have hself := h.shape ⟨role, .killProcess task :: rest, failed⟩ (by simp [hth])
  rcases remaining_kill hself with ⟨rfl, -, hrest⟩ | ⟨hne, hcons⟩
  · exact comes_begin h hth hrest (hturn rfl)
  · rw [beq_eq_false_iff_ne.mpr hne]
    exact comes_next h hth hne hcons

/-- What the start of a daemon does to the pid files. -/
theorem pidFile_startDaemon {task : Task} :
    (exec .vpn env (.startDaemon task) rest m).mem.pidFile =
      if m.config.isSome ∧ env.daemonUp ∧ task.recreatesPidFile then
        Function.update m.pidFile task none else m.pidFile := by
  cases hconfig : m.config with
  | none => simp [exec, hconfig]
  | some c =>
    cases hup : env.daemonUp with
    | false => simp [exec, hconfig, hup]
    | true => cases hrecreates : task.recreatesPidFile <;>
        simp [exec, hconfig, hup, hrecreates, Memory.launch]

/-- The start of a daemon, which may put an empty file in the place of its pid file. -/
theorem comes_startDaemon {task : Task} (h : Linked s)
    (hth : s.system.threads = l ++ ⟨role, .startDaemon task :: rest, failed⟩ :: r)
    (hturn : task.recreatesPidFile → current s.system = []) :
    Comes false s
      ⟨⟨(exec .vpn env (.startDaemon task) rest s.system.mem).mem,
        l ++ ⟨role, (exec .vpn env (.startDaemon task) rest s.system.mem).code, failed'⟩ :: r ++
          (exec .vpn env (.startDaemon task) rest s.system.mem).spawned, last⟩,
        events s.system.mem env (.startDaemon task) ++ s.log⟩ := by
  have hshape := h.shape
  rw [hth] at hshape
  have hshape' := @shape_exec s.system.mem l r env _ rest role failed failed' hshape rfl
  obtain ⟨hcount, hcurrent⟩ :=
    @alone_exec s.system.mem l r env _ rest role failed failed' hshape rfl
  rw [← hth] at hcount hcurrent
  have hpidFile := @pidFile_startDaemon s.system.mem env rest task
  rw [events]
  split at hpidFile
  · -- `pdnsd` comes up: its file is there, but holds no pid until the daemon writes it
    rename_i hempties
    have hnone := hturn hempties.2.2
    rw [if_pos hempties]
    refine ⟨⟨fun t => ?_, hshape', hcount ▸ h.alone⟩, ?_⟩
    · show (Memory.pidFile _ t).isSome = holdsPid t (.emptied task :: s.log)
      rw [hpidFile, holdsPid]
      by_cases ht : t = task
      · simp [ht]
      · simp [ht, Ne.symm ht, h.files t]
    · have hempty : Turn false [] s.log [] (.emptied task :: s.log) := .empty
      show Turn false _ _ (List.flatMap _ _) _
      rw [hcurrent]
      change Turn false (current s.system) s.log (current s.system) _
      rw [hnone]
      exact hempty
  · rename_i hempties
    rw [if_neg hempties]
    exact h.other hpidFile hshape' hcount hcurrent

/-- The other statements. -/
theorem comes_exec (h : Linked s)
    (hth : s.system.threads = l ++ ⟨role, instr :: rest, failed⟩ :: r)
    (hturn : InTurn s (.service (.exec l.length env))) :
    Comes (instr == .killProcess .ssLocal) s
      ⟨⟨(exec .vpn env instr rest s.system.mem).mem,
        l ++ ⟨role, (exec .vpn env instr rest s.system.mem).code, failed'⟩ :: r ++
          (exec .vpn env instr rest s.system.mem).spawned, last⟩,
        events s.system.mem env instr ++ s.log⟩ := by
  have hstatement : s.system.statement l.length = some instr := by simp [System.statement, hth]
  have hshape := h.shape
  rw [hth] at hshape
  by_cases hkill : ∃ task, instr = .killProcess task
  · obtain ⟨task, rfl⟩ := hkill
    have hcomes := @comes_kill s last l r env rest role failed failed' task h hth fun heq =>
      hturn (by simp [beginsRound, hstatement, heq])
    rw [exec_killProcess_code, exec_spawned (by simp), List.append_nil]
    have hbegins : (Instr.killProcess task == .killProcess .ssLocal) = (task == .ssLocal) := by
      cases task <;> rfl
    rw [hbegins]
    exact hcomes
  have hplain : isKill instr = false := by
    cases instr
    case killProcess task => exact absurd ⟨task, rfl⟩ hkill
    all_goals rfl
  have hbegins : (instr == .killProcess .ssLocal) = false :=
    beq_eq_false_iff_ne.mpr fun heq => hkill ⟨_, heq⟩
  rw [hbegins]
  by_cases hstart : ∃ task, instr = .startDaemon task
  · obtain ⟨task, rfl⟩ := hstart
    refine comes_startDaemon h hth fun hrecreates => hturn ?_
    cases task
    case pdnsd => simp [touchesFile, hstatement]
    all_goals exact nomatch hrecreates
  · have hevents : events s.system.mem env instr = [] := by
      cases instr
      case killProcess task => exact absurd ⟨task, rfl⟩ hkill
      case startDaemon task => exact absurd ⟨task, rfl⟩ hstart
      all_goals rfl
    obtain ⟨hcount, hcurrent⟩ :=
      @alone_exec s.system.mem l r env _ rest role failed failed' hshape hplain
    rw [← hth] at hcount hcurrent
    rw [hevents]
    exact h.other (exec_pidFile fun task heq => hstart ⟨task, heq⟩) (shape_exec hshape hplain)
      hcount hcurrent

end Exec

/-- The pid file of a daemon is written. -/
theorem comes_write {task : Task} {pid : Nat} (h : Linked s) (hnone : current s.system = []) :
    Comes false s ⟨⟨s.system.mem.writePid task pid, s.system.threads, last⟩,
      .wrote task pid :: s.log⟩ := by
  refine ⟨⟨fun t => ?_, h.shape, h.alone⟩, ?_⟩
  · show (Function.update s.system.mem.pidFile task (some pid) t).isSome =
      holdsPid t (.wrote task pid :: s.log)
    rw [holdsPid]
    by_cases ht : t = task
    · simp [ht]
    · simp [ht, Ne.symm ht, h.files t]
  · have hwrite : Turn false [] s.log [] (.wrote task pid :: s.log) := .write
    show Turn false (current s.system) s.log (current s.system) _
    rw [hnone]
    exact hwrite

theorem comes_service {a : Service.Action} {u : System} (h : Linked s)
    (hturn : InTurn s (.service a)) (hv : View .vpn s.system a u) :
    Comes (beginsRound s.system a) s ⟨u, eventsOf s.system a ++ s.log⟩ := by
  cases hv with
  | @call _ code hc =>
    have hcode := between_called hc
    have hquiet : beginsRound s.system a = false ∧ eventsOf s.system a = [] := by
      cases hc <;> exact ⟨rfl, rfl⟩
    rw [hquiet.1, hquiet.2]
    refine h.other rfl ?_ ?_ ?_
    · exact List.forall_mem_append.mpr ⟨h.shape, List.forall_mem_singleton.mpr hcode.follows⟩
    · have hin : inRound ⟨.caller, code, false⟩ = false := Between.inRound hcode
      simp [hin]
    · simp [current, hcode.remaining]
  | refused hr =>
    have hquiet : beginsRound s.system a = false ∧ eventsOf s.system a = [] := by
      cases hr <;> exact ⟨rfl, rfl⟩
    rw [hquiet.1, hquiet.2]
    exact h.other rfl h.shape rfl rfl
  | receive hth hr =>
    have hquiet : beginsRound s.system a = false ∧ eventsOf s.system a = [] := by
      cases hr <;> exact ⟨rfl, rfl⟩
    rw [hquiet.1, hquiet.2]
    exact h.wake hth (between_received hr) rfl
  | command hth _ => exact h.wake hth (between_nil.cons rfl) rfl
  | deliver _ => exact h.other rfl h.shape rfl rfl
  | write _ => exact comes_write h (hturn rfl)
  | @exec env instr rest role failed l r hth =>
    have hstatement : s.system.statement l.length = some instr := by simp [System.statement, hth]
    rw [beginsRound, eventsOf, hstatement]
    exact comes_exec h hth hturn

/-- The action begins a round. -/
def Action.begins (s : Device) : Action → Bool
  | .service a => beginsRound s.system a
  | _ => false

/-- **A step of the device is a turn**, if rounds are taken one at a time. -/
theorem comes_serially {a : Action} (h : Linked s) (hstep : serially s a = some t) :
    Comes (a.begins s) s t := by
  obtain ⟨hturn, hstep⟩ := Option.ite_none_right_eq_some.mp hstep
  -- where the threads are started anew, none of them was in a round
  have hreset : ∀ {m : Memory}, m.pidFile = s.system.mem.pidFile → current s.system = [] →
      Comes false s ⟨⟨m, System.initial.threads, none⟩, s.log⟩ := by
    intro m hfiles hnone
    have hmain : current ⟨m, System.initial.threads, none⟩ = [] := rfl
    have halone : System.initial.threads.countP inRound ≤ 1 := by decide
    refine ⟨⟨fun task => hfiles ▸ h.files task, by simp [System.initial], halone⟩, ?_⟩
    show Turn false _ _ (current ⟨m, System.initial.threads, none⟩) _
    rw [hmain, hnone]
    exact .other
  cases a with
  | service a =>
    obtain ⟨u, hu, rfl⟩ := Option.map_eq_some_iff.mp hstep
    exact comes_service h hturn (step_view hu)
  | exits pid =>
    obtain rfl := Option.some.inj hstep
    exact h.other rfl h.shape rfl rfl
  | dies =>
    obtain rfl := Option.some.inj hstep
    exact hreset rfl hturn
  | reboot =>
    obtain rfl := Option.some.inj hstep
    exact hreset rfl hturn

/-- What a run keeps whose rounds begin with renewed files. -/
structure Inv (s : Device) : Prop where
  linked : Linked s
  serial : Serial (current s.system) s.log
  ready : Ready (current s.system) s.log
  once : SignalledOnce s

theorem inv_initial : Inv Device.initial where
  linked := ⟨fun _ => rfl, by simp [Device.initial, System.initial], by decide⟩
  serial := serial_nil
  ready _ h := absurd h List.not_mem_nil
  once := follows_nil

theorem renewed_iff {a : Action} :
    Renewed s a ↔
      (a.begins s → ∀ task ∈ tasks, holdsPid task s.log → task ∈ written (sinceRound s.log)) := by
  cases a with
  | service a => exact Iff.rfl
  | _ => exact ⟨fun _ h => (nomatch h), fun _ => trivial⟩

/-- **Step.** -/
theorem Inv.step {a : Action} (h : Inv s) (hstep : serially s a = some t) (hok : Renewed s a) :
    Inv t := by
  obtain ⟨hlinked, hturn⟩ := comes_serially h.linked hstep
  obtain ⟨hready, honce⟩ := Ready.turn h.serial h.ready h.once hturn (renewed_iff.mp hok)
  exact ⟨hlinked, h.serial.turn hturn, hready, honce⟩

end Device

/-- A start, and a stop once it is connected. -/
def session : List Service.Action :=
  .start sampleConfig :: statements 1 6 ++ [.deliver] ++ statements 2 14 ++
    [.writePid .ssLocal 1, .writePid .tun2socks 3, .deliver, .stop] ++ statements 3 13 ++
    [.deliver, .deliver]

end PidFiles
