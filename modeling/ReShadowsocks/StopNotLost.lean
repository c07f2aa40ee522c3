/-
When a stop is lost.

Broadcasts, `onRevoke` and the binder all lead to `stopRunner`, which cleans up
what it finds and posts `STOPPED`.  Nothing cancels a connect worker, so a stop
that overtakes one is undone by it (`stop_lost`); and a stop that comes before a
daemon has written its pid file does not find the daemon (`daemon_missed`).
There is no other way:

* `stop_kept` — if requests are accepted only while no start is in progress and
  no pid file is still to be written (`Orderly`), then whenever the service is
  quiescent and the last request was a stop, there is no tunnel, no daemon runs
  and the state is `STOPPED`.

Overlapping stops are allowed.  They can raise exceptions in one another (one
closes the descriptor another has just tested), so the proof keeps track of a
thread that is not `Doomed` and will post `STOPPED`.
-/
import ReShadowsocks.VpnThreads

namespace Service

open Transition

/-- The stop requested last has taken effect. -/
def StopKept (s : System) : Prop :=
  s.quiescent → s.last = some .stop →
    s.mem.conn = none ∧ s.mem.running = [] ∧ s.mem.state = .stopped

/-- A request is accepted only while no start is in progress, and when every
daemon that was started has written its pid file. -/
def Orderly (s : System) (a : Action) : Prop :=
  (accepted s a).isSome → s.starting = false ∧ s.mem.unwritten = []

instance (s : System) (a : Action) : Decidable (Orderly s a) :=
  inferInstanceAs (Decidable (_ → _))

/-! ### Daemons and their pid files -/

/-- Every daemon that runs is the one its pid file names, or will name. -/
structure Recorded (m : Memory) : Prop where
  named : ∀ d ∈ m.running, m.pidFile d.1 = some d.2 ∨ d ∈ m.unwritten
  sole : ∀ d ∈ m.unwritten, ∀ d' ∈ m.running, d'.1 = d.1 → d' = d
  known : ∀ d ∈ m.running, d.1 ≠ .redsocks

theorem Recorded.of_mem_running {m : Memory} (h : Recorded m) {d : Task × Nat}
    (hd : d ∈ m.running) (hnone : ∀ d' ∈ m.unwritten, d'.1 ≠ d.1) :
    m.pidFile d.1 = some d.2 :=
  (h.named d hd).resolve_right fun hmem => hnone d hmem rfl

/-- No pid file is to be written of a daemon that the thread is about to start,
and none at all before it has spawned its worker. -/
structure Quiet (m : Memory) (th : Thread) : Prop where
  spawns : th.code.any Instr.isStart → m.unwritten = []
  starts : ∀ instr ∈ th.code, ∀ task ∈ instr.starts, ∀ d ∈ m.unwritten, d.1 ≠ task

theorem quiet_of_unwritten_nil {m : Memory} (h : m.unwritten = []) (th : Thread) : Quiet m th where
  spawns _ := h
  starts _ _ _ _ d hd := by
    rw [h] at hd
    exact absurd hd List.not_mem_nil

/-- A thread that is about to start a daemon has no old one running, unless it
will still kill it. -/
def Clean (m : Memory) (th : Thread) : Prop :=
  ∀ instr ∈ th.code, ∀ task ∈ instr.starts, .killProcess task ∉ th.code →
    ∀ d ∈ m.running, d.1 ≠ task

theorem caller_starts {code : List Instr} (h : Follows callerRule code) :
    ∀ instr ∈ code, instr.starts = [] := by
  refine h.forall_mem fun instr rest hrule => ?_
  cases instr <;> first | rfl | exact hrule.2.elim

/-- Only a starting thread starts daemons. -/
theorem starts_of_not_starting {th : Thread} (hshape : th.Shape) (hth : th.starting = false) :
    ∀ instr ∈ th.code, instr.starts = [] := by
  by_cases hrole : th.role = .worker
  · have hnil : th.code = [] := by
      rw [Thread.starting, Bool.or_eq_false_iff] at hth
      simpa [hrole] using hth.1
    rw [hnil]
    simp
  · rw [Thread.Shape, if_neg hrole] at hshape
    exact caller_starts hshape

theorem starts_expansions {instr : Instr} {p : List Instr} (h : p ∈ instr.expansions .vpn) :
    ∀ i ∈ p, i.starts ⊆ instr.starts := by
  cases instr
  case unlessUdpDns tasks =>
    simp only [Instr.expansions, List.mem_cons, List.not_mem_nil, or_false] at h
    rcases h with rfl | rfl
    · simp
    · intro i hi
      obtain ⟨task, htask, rfl⟩ := List.mem_map.mp hi
      simpa [Instr.starts] using htask
  all_goals
    simp [Instr.expansions, connect, serviceFailed, stopRunner, killProcesses] at h
  all_goals first
    | (subst h; simp [Instr.starts])
    | (rcases h with rfl | rfl <;> simp [Instr.starts])
    | (rcases h with rfl | rfl | rfl <;> simp [Instr.starts])

theorem starts_serviceFailed : ∀ i ∈ serviceFailed .vpn, i.starts = [] := by
  decide

/-- What a thread may start behind a statement, it could start before. -/
theorem starts_exec {env : Env} {instr : Instr} {rest : List Instr} {m : Memory} {i : Instr}
    {task : Task} (hi : i ∈ (exec .vpn env instr rest m).code) (ht : task ∈ i.starts) :
    ∃ j ∈ instr :: rest, task ∈ j.starts := by
  have hcode : Continues .vpn instr rest (exec .vpn env instr rest m).code := exec_code
  generalize (exec .vpn env instr rest m).code = code at hi hcode
  cases hcode with
  | goes hp =>
    rcases List.mem_append.mp hi with hi | hi
    · exact ⟨instr, List.mem_cons_self, starts_expansions hp i hi ht⟩
    · exact ⟨i, List.mem_cons_of_mem _ hi, ht⟩
  | fails _ =>
    rw [starts_serviceFailed i hi] at ht
    exact absurd ht List.not_mem_nil
  | ends _ => exact absurd hi List.not_mem_nil

/-- A daemon that was to be killed still is, unless nothing is started any more. -/
theorem kill_exec {env : Env} {instr : Instr} {rest : List Instr} {m : Memory} {task : Task}
    (h : .killProcess task ∈ rest) :
    .killProcess task ∈ (exec .vpn env instr rest m).code ∨
      ∀ i ∈ (exec .vpn env instr rest m).code, i.starts = [] := by
  have hcode : Continues .vpn instr rest (exec .vpn env instr rest m).code := exec_code
  generalize (exec .vpn env instr rest m).code = code at hcode
  cases hcode with
  | goes _ => exact .inl (List.mem_append_right _ h)
  | fails _ => exact .inr starts_serviceFailed
  | ends _ => exact .inr (by simp)

section Exec

variable {env : Env} {instr : Instr} {rest : List Instr} {m : Memory} {role : Role}
  {failed failed' : Bool} {l r : List Thread}

theorem startDaemon_worker {task : Task}
    (h : Thread.Shape ⟨role, .startDaemon task :: rest, failed⟩) :
    role = .worker ∧ workerRule (.startDaemon task) rest := by
  rw [Thread.Shape] at h
  split at h
  · rename_i hrole
    exact ⟨hrole, h.1⟩
  · exact h.1.2.elim

/-- Starting a daemon leaves nothing of it running but the new one. -/
theorem clean_startDaemon {task : Task}
    (hshape : Thread.Shape ⟨role, .startDaemon task :: rest, failed⟩)
    (hclean : Clean m ⟨role, .startDaemon task :: rest, failed⟩) :
    task ≠ .redsocks ∧ ∀ d ∈ m.running, d.1 ≠ task := by
  obtain ⟨-, -, -, -, -, hred, hstarts⟩ := startDaemon_worker hshape
  have hmem : task ∈ Instr.starts (.startDaemon task) := List.mem_singleton.mpr rfl
  refine ⟨fun heq => hred (heq ▸ hmem), hclean _ List.mem_cons_self task hmem ?_⟩
  simpa using (hstarts task hmem).1

theorem pidFile_launch {task task' : Task} (h : task' ≠ task) :
    (m.launch task).pidFile task' = m.pidFile task' := by
  show (if task.recreatesPidFile then _ else _ : Task → Option Nat) task' = _
  split
  · exact Function.update_of_ne h ..
  · rfl

/-- A daemon has yet to write its pid file behind the start of another one. -/
theorem mem_unwritten_launch {task : Task} {d : Task × Nat} :
    d ∈ (m.launch task).unwritten ↔
      d ∈ m.unwritten ∧ (task.recreatesPidFile = true → d.1 ≠ task) ∨ d = (task, m.fresh) := by
  show d ∈ (if _ then _ else _) ++ [(task, m.fresh)] ↔ _
  rw [List.mem_append, List.mem_singleton]
  split <;> simp_all

theorem recorded_launch {task : Task} (h : Recorded m) (hred : task ≠ .redsocks)
    (hclean : ∀ d ∈ m.running, d.1 ≠ task) (hquiet : ∀ d ∈ m.unwritten, d.1 ≠ task) :
    Recorded (m.launch task) := by
  have hrunning : ∀ {d}, d ∈ (m.launch task).running → d ∈ m.running ∨ d = (task, m.fresh) :=
    fun hd => (List.mem_append.mp hd).imp id List.mem_singleton.mp
  refine ⟨fun d hd => ?_, fun d hd d' hd' heq => ?_, fun d hd => ?_⟩
  · rcases hrunning hd with hd | rfl
    · rw [pidFile_launch (hclean d hd), mem_unwritten_launch]
      exact (h.named d hd).imp id fun hmem => .inl ⟨hmem, fun _ => hquiet d hmem⟩
    · exact .inr (mem_unwritten_launch.mpr (.inr rfl))
  · rcases mem_unwritten_launch.mp hd with ⟨hd, -⟩ | rfl
    · rcases hrunning hd' with hd' | rfl
      · exact h.sole d hd d' hd' heq
      · exact absurd heq.symm (hquiet d hd)
    · rcases hrunning hd' with hd' | rfl
      · exact absurd heq (hclean d' hd')
      · rfl
  · rcases hrunning hd with hd | rfl
    · exact h.known d hd
    · exact hred

theorem recorded_exec (h : Recorded m) (hshape : Thread.Shape ⟨role, instr :: rest, failed⟩)
    (hclean : Clean m ⟨role, instr :: rest, failed⟩)
    (hquiet : Quiet m ⟨role, instr :: rest, failed⟩) :
    Recorded (exec .vpn env instr rest m).mem := by
  by_cases hi : ∃ task, instr = .startDaemon task
  · obtain ⟨task, rfl⟩ := hi
    obtain ⟨hred, hnone⟩ := clean_startDaemon hshape hclean
    have hunwritten := hquiet.starts _ List.mem_cons_self task (List.mem_singleton.mpr rfl)
    simp only [exec]
    split
    · split
      · exact recorded_launch h hred hnone hunwritten
      · exact h
    · exact h
  · have hi : ∀ task, instr ≠ .startDaemon task := fun task heq => hi ⟨task, heq⟩
    have hsub : (exec .vpn env instr rest m).mem.running ⊆ m.running := exec_running hi
    refine ⟨fun d hd => ?_, fun d hd d' hd' => ?_, fun d hd => h.known d (hsub hd)⟩
    · rw [exec_pidFile hi, exec_unwritten hi]
      exact h.named d (hsub hd)
    · rw [exec_unwritten hi] at hd
      exact h.sole d hd d' (hsub hd')

/-- The write of a pid file names the daemon. -/
theorem recorded_write {task : Task} {pid : Nat} (h : Recorded m)
    (hmem : (task, pid) ∈ m.unwritten) : Recorded (m.writePid task pid) := by
  refine ⟨fun d hd => ?_, fun d hd d' hd' => ?_, h.known⟩
  · show Function.update m.pidFile task (some pid) d.1 = some d.2 ∨
      d ∈ m.unwritten.erase (task, pid)
    by_cases htask : d.1 = task
    · obtain rfl := h.sole _ hmem d hd htask
      exact .inl (Function.update_self ..)
    · rw [Function.update_of_ne htask]
      refine (h.named d hd).imp id fun hmem => (List.mem_erase_of_ne ?_).mpr hmem
      rintro rfl
      exact htask rfl
  · exact h.sole d (List.mem_of_mem_erase hd) d' hd'

/-- Killing the recorded pid of a task leaves none of its daemons, unless one
has yet to write its pid. -/
theorem running_killProcess {task : Task} (h : Recorded m)
    (hquiet : ∀ d ∈ m.unwritten, d.1 ≠ task) :
    ∀ d ∈ (exec .vpn env (.killProcess task) rest m).mem.running, d.1 ≠ task := by
  rintro d hd rfl
  simp only [exec] at hd
  split at hd
  · rename_i pid hpid
    rw [List.mem_filter] at hd
    have hrec := h.of_mem_running hd.1 hquiet
    rw [hpid, Option.some_inj] at hrec
    simp [hrec] at hd
  · rename_i hpid
    have hrec := h.of_mem_running hd hquiet
    rw [hpid] at hrec
    exact absurd hrec (by simp)

/-- The thread that executes a statement stays clean. -/
theorem clean_exec (h : Recorded m) (hshape : Thread.Shape ⟨role, instr :: rest, failed⟩)
    (hclean : Clean m ⟨role, instr :: rest, failed⟩)
    (hquiet : Quiet m ⟨role, instr :: rest, failed⟩) :
    Clean (exec .vpn env instr rest m).mem
      ⟨role, (exec .vpn env instr rest m).code, failed'⟩ := by
  intro i hi task ht hkill
  -- what is to start `task` now, comes from a statement that was to start it before
  obtain ⟨j, hj, htj⟩ := starts_exec hi ht
  by_cases hik : instr = .killProcess task
  · subst hik
    exact running_killProcess h (hquiet.starts j hj task htj)
  have hkill' : .killProcess task ∉ instr :: rest := by
    intro hmem
    rcases List.mem_cons.mp hmem with heq | hmem
    · exact hik heq.symm
    · rcases kill_exec hmem with hk | hk
      · exact hkill hk
      · rw [hk i hi] at ht
        exact absurd ht List.not_mem_nil
  have hold := hclean j hj task htj hkill'
  by_cases hd : ∃ u, instr = .startDaemon u
  · obtain ⟨u, rfl⟩ := hd
    -- the daemon started here is not started again behind this statement
    obtain ⟨-, -, -, -, -, -, hstarts⟩ := startDaemon_worker hshape
    have hrest : i ∈ rest := by
      simp only [exec] at hi
      split at hi
      · exact hi
      · exact absurd hi List.not_mem_nil
    have hne : task ≠ u := by
      rintro rfl
      exact (hstarts task (List.mem_singleton.mpr rfl)).2 i hrest ht
    simp only [exec]
    split
    · split
      · intro d hd
        rcases List.mem_append.mp hd with hd | hd
        · exact hold d hd
        · rw [List.mem_singleton.mp hd]
          exact hne.symm
      · exact hold
    · exact hold
  · intro d hd'
    exact hold d (exec_running (fun u heq => hd ⟨u, heq⟩) hd')

/-- The other threads stay clean: none of them starts daemons meanwhile. -/
theorem clean_others (hshape : Thread.Shape ⟨role, instr :: rest, failed⟩)
    (hunique : (l ++ ⟨role, instr :: rest, failed⟩ :: r).countP Thread.starting ≤ 1)
    {th : Thread} (hth : th ∈ l ++ r) (hs : th.Shape) (hclean : Clean m th) :
    Clean (exec .vpn env instr rest m).mem th := by
  by_cases hd : ∃ u, instr = .startDaemon u
  · obtain ⟨u, rfl⟩ := hd
    have hrole := (startDaemon_worker hshape).1
    have hnot : th.starting = false :=
      not_of_countP_le_one hunique (by simp [Thread.starting, hrole]) th hth
    intro i hi task ht
    rw [starts_of_not_starting hs hnot i hi] at ht
    exact absurd ht List.not_mem_nil
  · intro i hi task ht hkill d hd'
    exact hclean i hi task ht hkill d (exec_running (fun u heq => hd ⟨u, heq⟩) hd')

/-- The thread that executes a statement stays quiet. -/
theorem quiet_exec (hshape : Thread.Shape ⟨role, instr :: rest, failed⟩)
    (hquiet : Quiet m ⟨role, instr :: rest, failed⟩) :
    Quiet (exec .vpn env instr rest m).mem
      ⟨role, (exec .vpn env instr rest m).code, failed'⟩ := by
  by_cases hd : ∃ u, instr = .startDaemon u
  · obtain ⟨u, rfl⟩ := hd
    obtain ⟨hrole, -, -, -, -, -, hstarts⟩ := startDaemon_worker hshape
    rw [Thread.Shape, if_pos hrole] at hshape
    have hfree : ∀ i ∈ rest, i.isStart = false :=
      hshape.2.forall_mem fun i rest hrule => hrule.2.1
    have hrest : ∀ i ∈ rest, ∀ task ∈ i.starts, ∀ d ∈ (m.launch u).unwritten, d.1 ≠ task := by
      intro i hi task ht d hd
      rcases mem_unwritten_launch.mp hd with ⟨hd, -⟩ | rfl
      · exact hquiet.starts i (List.mem_cons_of_mem _ hi) task ht d hd
      · rintro rfl
        exact (hstarts u (List.mem_singleton.mpr rfl)).2 i hi ht
    have hspawns : rest.any Instr.isStart = false := List.any_eq_false.mpr fun i hi => by
      rw [hfree i hi]
      exact Bool.false_ne_true
    simp only [exec]
    split
    · split
      · exact ⟨fun hs => absurd (hspawns.symm.trans hs) (by decide), hrest⟩
      · refine ⟨fun hs => absurd (hspawns.symm.trans hs) (by decide), fun i hi => ?_⟩
        exact hquiet.starts i (List.mem_cons_of_mem _ hi)
    · exact ⟨fun hs => absurd hs Bool.false_ne_true, fun i hi => absurd hi List.not_mem_nil⟩
  · have hd : ∀ u, instr ≠ .startDaemon u := fun u heq => hd ⟨u, heq⟩
    refine ⟨fun hs => ?_, fun i hi task ht => ?_⟩
    · rw [exec_unwritten hd]
      exact hquiet.spawns (any_isStart_of_exec hs)
    · rw [exec_unwritten hd]
      obtain ⟨j, hj, htj⟩ := starts_exec hi ht
      exact hquiet.starts j hj task htj

/-- The other threads stay quiet: a daemon is started by the only thread that
starts any. -/
theorem quiet_others (hshape : Thread.Shape ⟨role, instr :: rest, failed⟩)
    (hunique : (l ++ ⟨role, instr :: rest, failed⟩ :: r).countP Thread.starting ≤ 1)
    {th : Thread} (hth : th ∈ l ++ r) (hs : th.Shape) (hquiet : Quiet m th) :
    Quiet (exec .vpn env instr rest m).mem th := by
  by_cases hd : ∃ u, instr = .startDaemon u
  · obtain ⟨u, rfl⟩ := hd
    have hrole := (startDaemon_worker hshape).1
    have hnot : th.starting = false :=
      not_of_countP_le_one hunique (by simp [Thread.starting, hrole]) th hth
    refine ⟨fun hstart => ?_, fun i hi task ht => ?_⟩
    · rw [Thread.starting, hstart, Bool.or_true] at hnot
      exact absurd hnot (by decide)
    · rw [starts_of_not_starting hs hnot i hi] at ht
      exact absurd ht List.not_mem_nil
  · have hsame := @exec_unwritten .vpn env instr rest m fun u heq => hd ⟨u, heq⟩
    exact ⟨fun hstart => hsame.trans (hquiet.spawns hstart), hsame ▸ hquiet.starts⟩

/-- A worker is spawned when all pid files are written. -/
theorem quiet_spawned (hquiet : Quiet m ⟨role, instr :: rest, failed⟩) :
    ∀ th ∈ (exec .vpn env instr rest m).spawned, Quiet (exec .vpn env instr rest m).mem th := by
  by_cases hi : instr = .spawn
  · subst hi
    exact fun th _ => quiet_of_unwritten_nil (hquiet.spawns rfl) th
  · rw [exec_spawned hi]
    simp

/-- A worker begins by killing everything it will start. -/
theorem clean_spawned : ∀ th ∈ (exec .vpn env instr rest m).spawned,
    Clean (exec .vpn env instr rest m).mem th := by
  by_cases hi : instr = .spawn
  · subst hi
    simp only [exec, List.mem_singleton, forall_eq]
    intro i hi task ht hkill
    have hall : ∀ i ∈ worker .vpn, ∀ task ∈ i.starts, Instr.killProcess task ∈ worker .vpn := by
      decide
    exact absurd (hall i hi task ht) hkill
  · rw [exec_spawned hi]
    simp

end Exec

/-! ### Receivers -/

/-- The receiver in `slot` is not registered (any more). -/
def Unlisted (m : Memory) (slot : Slot) : Prop :=
  ∀ n, m.receiver slot = some n → (slot, n) ∉ m.registered

/-- Some thread is about to register the receiver in `slot` or to forget it. -/
def Handled (ths : List Thread) (slot : Slot) : Prop :=
  ∃ th ∈ ths, th.code.head? = some (.clearReceiver slot) ∨
    th.code.head? = some (.registerReceiver slot)

/-- A receiver that is held but not registered is in the hands of a thread. -/
def Listed (m : Memory) (ths : List Thread) : Prop :=
  ∀ slot n, m.receiver slot = some n → (slot, n) ∉ m.registered → Handled ths slot

section Exec

variable {env : Env} {instr : Instr} {rest : List Instr} {m : Memory} {role : Role}
  {failed failed' : Bool} {l r new : List Thread} {code : List Instr} {slot : Slot}

theorem Handled.mono {ths ths' : List Thread} (h : Handled ths slot) (hsub : ths ⊆ ths') :
    Handled ths' slot := by
  obtain ⟨th, hth, hhead⟩ := h
  exact ⟨th, hsub hth, hhead⟩

/-- Another thread's hand is not moved by a step. -/
theorem Handled.others (h : Handled (l ++ ⟨role, instr :: rest, failed⟩ :: r) slot)
    (hc : instr ≠ .clearReceiver slot) (hr : instr ≠ .registerReceiver slot) :
    Handled (l ++ ⟨role, code, failed'⟩ :: r ++ new) slot := by
  refine exists_mem_replace h (fun hhead => ?_) fun _ _ hhead => hhead
  simp only [List.head?_cons, Option.some_inj] at hhead
  rcases hhead with hhead | hhead
  · exact absurd hhead hc
  · exact absurd hhead hr

theorem unregister_head (h : Thread.Shape ⟨role, .unregisterReceiver slot :: rest, failed⟩) :
    rest.head? = some (.clearReceiver slot) := by
  rw [Thread.Shape] at h
  split at h
  · exact h.1.1 slot rfl
  · exact h.1.2.2.2.2.2

theorem newReceiver_head (h : Thread.Shape ⟨role, .newReceiver slot :: rest, failed⟩) :
    rest.head? = some (.registerReceiver slot) := by
  rw [Thread.Shape] at h
  split at h
  · exact absurd rfl (h.1.2.2.1 slot)
  · exact h.1.2.2

theorem exec_unregister (slot : Slot) :
    (∃ n, m.receiver slot = some n ∧ (slot, n) ∈ m.registered ∧
      exec .vpn env (.unregisterReceiver slot) rest m
        = ⟨{ m with registered := m.registered.erase (slot, n) }, rest, []⟩) ∨
    (Unlisted m slot ∧ exec .vpn env (.unregisterReceiver slot) rest m = ⟨m, [], []⟩) := by
  simp only [exec]
  split
  · rename_i n hn
    split
    · rename_i hmem
      exact .inl ⟨n, hn, hmem, rfl⟩
    · rename_i hmem
      refine .inr ⟨fun n' hn' => ?_, rfl⟩
      rw [hn, Option.some_inj] at hn'
      exact hn' ▸ hmem
  · rename_i hn
    exact .inr ⟨fun n' hn' => absurd (hn.symm.trans hn') (by simp), rfl⟩

theorem exec_register (slot : Slot) :
    (∃ n, m.receiver slot = some n ∧ exec .vpn env (.registerReceiver slot) rest m
      = ⟨{ m with registered := m.registered ++ [(slot, n)] }, rest, []⟩) ∨
    (m.receiver slot = none ∧ exec .vpn env (.registerReceiver slot) rest m = ⟨m, rest, []⟩) := by
  simp only [exec]
  split
  · rename_i n hn
    exact .inl ⟨n, hn, rfl⟩
  · rename_i hn
    exact .inr ⟨hn, rfl⟩

/-- The other statements touch neither the fields nor the list of receivers. -/
theorem exec_receivers (h : ∀ slot, instr ≠ .newReceiver slot ∧ instr ≠ .clearReceiver slot ∧
      instr ≠ .registerReceiver slot ∧ instr ≠ .unregisterReceiver slot) :
    (exec .vpn env instr rest m).mem.receiver = m.receiver ∧
      (exec .vpn env instr rest m).mem.registered = m.registered := by
  cases instr
  case newReceiver slot => exact absurd rfl (h slot).1
  case clearReceiver slot => exact absurd rfl (h slot).2.1
  case registerReceiver slot => exact absurd rfl (h slot).2.2.1
  case unregisterReceiver slot => exact absurd rfl (h slot).2.2.2
  all_goals
    dsimp only [exec]
    repeat' split
  all_goals exact ⟨rfl, rfl⟩

theorem listed_exec (h : Listed m (l ++ ⟨role, instr :: rest, failed⟩ :: r))
    (hshape : Thread.Shape ⟨role, instr :: rest, failed⟩) :
    Listed (exec .vpn env instr rest m).mem
      (l ++ ⟨role, (exec .vpn env instr rest m).code, failed'⟩ :: r ++
        (exec .vpn env instr rest m).spawned) := by
  intro slot n hn hreg
  have hself : ∀ code, (code.head? = some (.clearReceiver slot) ∨
      code.head? = some (.registerReceiver slot)) →
      Handled (l ++ ⟨role, code, failed'⟩ :: r ++ (exec .vpn env instr rest m).spawned) slot :=
    fun code hcode => ⟨⟨role, code, failed'⟩, by simp, hcode⟩
  have hframe : (∀ slot, instr ≠ .newReceiver slot ∧ instr ≠ .clearReceiver slot ∧
      instr ≠ .registerReceiver slot ∧ instr ≠ .unregisterReceiver slot) →
      Handled (l ++ ⟨role, (exec .vpn env instr rest m).code, failed'⟩ :: r ++
        (exec .vpn env instr rest m).spawned) slot := by
    intro hother
    obtain ⟨hreceiver, hregistered⟩ := @exec_receivers env instr rest m hother
    rw [hreceiver] at hn
    rw [hregistered] at hreg
    exact (h slot n hn hreg).others (hother slot).2.1 (hother slot).2.2.1
  cases instr
  case unregisterReceiver slot' =>
    rcases exec_unregister slot' with ⟨n', hn', hmem, heff⟩ | ⟨-, heff⟩
    · rw [heff] at hn hreg hself ⊢
      by_cases hslot : slot' = slot
      · -- from here to `clearReceiver` this thread has the receiver in hand
        subst hslot
        exact hself _ (.inl (unregister_head hshape))
      · have hreg' : (slot, n) ∉ m.registered := by
          intro hin
          exact hreg ((List.mem_erase_of_ne (by simp [Ne.symm hslot])).mpr hin)
        exact (h slot n hn hreg').others (by simp) (by simp)
    · rw [heff] at hn hreg
      exact (h slot n hn hreg).others (by simp) (by simp)
  case clearReceiver slot' =>
    by_cases hslot : slot' = slot
    · subst hslot
      simp [exec] at hn
    · simp only [exec, Function.update_of_ne (Ne.symm hslot)] at hn hreg
      exact (h slot n hn hreg).others (by simpa using hslot) (by simp)
  case newReceiver slot' =>
    by_cases hslot : slot' = slot
    · subst hslot
      exact hself _ (.inr (newReceiver_head hshape))
    · simp only [exec, Function.update_of_ne (Ne.symm hslot)] at hn hreg
      exact (h slot n hn hreg).others (by simp) (by simp)
  case registerReceiver slot' =>
    rcases exec_register slot' with ⟨n', hn', heff⟩ | ⟨hnone, heff⟩
    · rw [heff] at hn hreg
      have hreg' : (slot, n) ∉ m.registered := fun hin => hreg (List.mem_append_left _ hin)
      have hslot : slot' ≠ slot := by
        rintro rfl
        obtain rfl : n' = n := Option.some_inj.mp (hn'.symm.trans hn)
        exact hreg (List.mem_append_right _ (List.mem_singleton.mpr rfl))
      exact (h slot n hn hreg').others (by simp) (by simpa using hslot)
    · rw [heff] at hn hreg
      have hslot : slot' ≠ slot := by
        rintro rfl
        exact absurd (hnone.symm.trans hn) (by simp)
      exact (h slot n hn hreg).others (by simp) (by simpa using hslot)
  all_goals exact hframe (by simp)

end Exec

/-! ### After the last stop -/

/-- The next statement of `code` will raise an exception. -/
def Doomed (m : Memory) (code : List Instr) : Prop :=
  (code.head? = some .closeConn ∧ m.conn = none) ∨
    ∃ slot, code.head? = some (.unregisterReceiver slot) ∧ Unlisted m slot

/-- Some thread is going to post `STOPPED`. -/
def Settling (m : Memory) (ths : List Thread) : Prop :=
  ∃ th ∈ ths, postStopped ∈ th.code ∧ ¬ Doomed m th.code

/-- What holds from the moment a stop is accepted until the next start: what is
still to be cleaned up is in the code of some thread. -/
structure Stopped (m : Memory) (ths : List Thread) : Prop where
  idle : ths.any Thread.starting = false
  written : m.unwritten = []
  closing : m.conn = none ∨ ∃ th ∈ ths, Closes th.code
  killing : ∀ d ∈ m.running, ∃ th ∈ ths, .killProcess d.1 ∈ th.code
  settling : m.final = .stopped ∨ Settling m ths

section Exec

variable {env : Env} {instr : Instr} {rest : List Instr} {m : Memory} {role : Role}
  {failed failed' : Bool} {l r new : List Thread} {code : List Instr} {slot : Slot}

/-- A step of a caller keeps the code behind the statement, unless the thread
was doomed. -/
theorem caller_continues (hrule : callerRule instr rest) :
    (∃ p, (exec .vpn env instr rest m).code = p ++ rest) ∨
      (instr.risky ∧ Doomed m (instr :: rest)) := by
  by_cases hc : instr = .closeConn
  · subst hc
    simp only [exec]
    split
    · exact .inl ⟨[], rfl⟩
    · rename_i hnone
      exact .inr ⟨rfl, .inl ⟨rfl, hnone⟩⟩
  by_cases hu : ∃ slot, instr = .unregisterReceiver slot
  · obtain ⟨slot, rfl⟩ := hu
    rcases exec_unregister slot with ⟨n, -, -, heff⟩ | ⟨hun, -⟩
    · exact .inl ⟨[], by rw [heff]; rfl⟩
    · exact .inr ⟨rfl, .inr ⟨slot, rfl, hun⟩⟩
  · have hcode : Continues .vpn instr rest (exec .vpn env instr rest m).code := exec_code
    generalize (exec .vpn env instr rest m).code = code at hcode
    cases hcode with
    | goes _ => exact .inl ⟨_, rfl⟩
    | fails hr =>
      subst hr
      exact hrule.2.elim
    | ends he =>
      cases instr
      case closeConn => exact absurd rfl hc
      case unregisterReceiver slot => exact absurd ⟨slot, rfl⟩ hu
      all_goals first | exact hrule.2.elim | exact absurd he Bool.false_ne_true

theorem caller_establish (hrule : callerRule instr rest) : instr ≠ .establish := by
  rintro rfl
  exact hrule.2.elim

theorem caller_startDaemon (hrule : callerRule instr rest) (task : Task) :
    instr ≠ .startDaemon task := by
  rintro rfl
  exact hrule.2.elim

theorem closing_exec (hrule : callerRule instr rest)
    (h : m.conn = none ∨ ∃ th ∈ l ++ ⟨role, instr :: rest, failed⟩ :: r, Closes th.code) :
    (exec .vpn env instr rest m).mem.conn = none ∨
      ∃ th ∈ l ++ ⟨role, (exec .vpn env instr rest m).code, failed'⟩ :: r ++ new,
        Closes th.code := by
  by_cases hclear : instr = .clearConn
  · subst hclear
    exact .inl rfl
  rw [exec_conn (caller_establish hrule) hclear]
  by_cases hconn : m.conn = none
  · exact .inl hconn
  right
  refine exists_mem_replace (h.resolve_left hconn) (fun hcl => ?_) fun _ _ hcl => hcl
  show Closes (exec .vpn env instr rest m).code
  by_cases hif : instr = .ifConn
  · subst hif
    simp [exec, Option.isSome_iff_ne_none.mpr hconn, Closes]
  · have hrest : Closes rest := by
      simpa [Closes, Ne.symm hif, Ne.symm hclear] using hcl
    rcases @caller_continues env instr rest m hrule with ⟨p, hp⟩ | ⟨hrisky, hd⟩
    · rw [hp]
      exact hrest.imp (List.mem_append_right _) (List.mem_append_right _)
    · -- an exception: `conn.close()` on null is excluded here, and `unregisterReceiver`
      -- comes after the tunnel has been closed
      rcases hd with ⟨-, hnone⟩ | ⟨slot, hhead, -⟩
      · exact absurd hnone hconn
      · obtain rfl : instr = .unregisterReceiver slot := by simpa using hhead
        obtain ⟨-, -, hnif, hncl, -⟩ := hrule
        exact (hrest.elim hnif hncl).elim

theorem killing_exec (hrule : callerRule instr rest) (hrec : Recorded m)
    (hwritten : m.unwritten = [])
    (h : ∀ d ∈ m.running, ∃ th ∈ l ++ ⟨role, instr :: rest, failed⟩ :: r,
      .killProcess d.1 ∈ th.code) :
    ∀ d ∈ (exec .vpn env instr rest m).mem.running,
      ∃ th ∈ l ++ ⟨role, (exec .vpn env instr rest m).code, failed'⟩ :: r ++ new,
        .killProcess d.1 ∈ th.code := by
  intro d hd
  refine exists_mem_replace (h d (exec_running (caller_startDaemon hrule) hd)) (fun hk => ?_)
    fun _ _ hk => hk
  show .killProcess d.1 ∈ (exec .vpn env instr rest m).code
  rcases List.mem_cons.mp hk with heq | hrest
  · subst heq
    exact absurd rfl (running_killProcess hrec (by simp [hwritten]) d hd)
  · rcases @caller_continues env instr rest m hrule with ⟨p, hp⟩ | ⟨hrisky, -⟩
    · rw [hp]
      exact List.mem_append_right _ hrest
    · -- only statements behind `killProcesses` can raise an exception
      cases instr
      case closeConn => exact absurd hrest (hrule.2.1 _)
      case unregisterReceiver => exact absurd hrest (hrule.2.1 _)
      all_goals exact absurd hrisky Bool.false_ne_true

theorem not_doomed_of_not_risky (h : ∀ j ∈ code, j.risky = false) : ¬ Doomed m code := by
  cases code with
  | nil => simp [Doomed]
  | cons i rest =>
    have hi := h i List.mem_cons_self
    rintro (⟨hhead, -⟩ | ⟨slot, hhead, -⟩)
    · obtain rfl : i = .closeConn := by simpa using hhead
      exact absurd hi (by decide)
    · obtain rfl : i = .unregisterReceiver slot := by simpa using hhead
      exact Bool.false_ne_true hi.symm

theorem Settling.own (hmem : postStopped ∈ code) (hd : ¬ Doomed m code) :
    Settling m (l ++ ⟨role, code, failed'⟩ :: r ++ new) :=
  ⟨⟨role, code, failed'⟩, by simp, hmem, hd⟩

/-- A thread that raises an exception leaves another one that does not. -/
theorem Settling.ended (h : Settling m (l ++ ⟨role, instr :: rest, failed⟩ :: r))
    (hd : Doomed m (instr :: rest)) :
    Settling m (l ++ ⟨role, code, failed'⟩ :: r ++ new) := by
  refine exists_mem_replace h ?_ fun _ _ h => h
  rintro ⟨-, hnd⟩
  exact absurd hd hnd

/-- Statements that change nothing an exception depends on. -/
theorem Settling.others {m' : Memory} (hconn : m'.conn = m.conn)
    (hrec : m'.receiver = m.receiver) (hreg : m'.registered = m.registered)
    (hrule : callerRule instr rest) (hpost : instr ≠ postStopped)
    (h : Settling m (l ++ ⟨role, instr :: rest, failed⟩ :: r)) :
    Settling m' (l ++ ⟨role, rest, failed'⟩ :: r ++ new) := by
  have hiff : ∀ code, Doomed m' code → Doomed m code := by
    rintro code (⟨hhead, hnone⟩ | ⟨slot, hhead, hun⟩)
    · exact .inl ⟨hhead, hconn ▸ hnone⟩
    · refine .inr ⟨slot, hhead, fun n hn => ?_⟩
      rw [← hreg]
      exact hun n (hrec ▸ hn)
  refine exists_mem_replace h ?_ fun th _ h => ⟨h.1, fun hd => h.2 (hiff _ hd)⟩
  rintro ⟨hmem, -⟩
  have hrest : postStopped ∈ rest := by simpa [Ne.symm hpost] using hmem
  exact ⟨hrest, not_doomed_of_not_risky hrule.1⟩

/-- A thread that is about to forget a receiver will post `STOPPED`. -/
theorem settling_of_handled (h : Handled (l ++ ⟨role, .ifReceiver slot :: rest, failed⟩ :: r) slot)
    (hths : ∀ th ∈ l ++ r, th.Shape ∧ th.starting = false) :
    Settling m (l ++ ⟨role, code, failed'⟩ :: r ++ new) := by
  obtain ⟨th, hth, hhead⟩ := h
  have hne : th ≠ ⟨role, .ifReceiver slot :: rest, failed⟩ := by
    rintro rfl
    simp at hhead
  have hmem : th ∈ l ++ r := by simpa [hne] using hth
  obtain ⟨hshape, hstart⟩ := hths th hmem
  obtain ⟨role', thcode, failed''⟩ := th
  cases thcode with
  | nil => simp at hhead
  | cons i tail =>
    have hrole : role' ≠ .worker := by
      rintro rfl
      simp [Thread.starting] at hstart
    rw [Thread.Shape, if_neg hrole] at hshape
    obtain ⟨hrule, -⟩ := follows_cons.mp hshape
    simp only [List.head?_cons, Option.some_inj] at hhead
    rcases hhead with rfl | rfl
    · have hsub := (List.sublist_cons_self ⟨role, code, failed'⟩ r).append_left l
      exact ⟨⟨role', .clearReceiver slot :: tail, failed''⟩,
        List.mem_append_left _ (hsub.subset hmem), List.mem_cons_of_mem _ hrule.2,
        by simp [Doomed]⟩
    · -- the thread that registers a receiver goes on to spawn the worker
      have hspawn : Instr.spawn ∈ tail := hrule.2
      simp only [Thread.starting, Bool.or_eq_false_iff, List.any_eq_false] at hstart
      exact absurd rfl (hstart.2 _ (List.mem_cons_of_mem _ hspawn))

theorem settling_exec (hrule : callerRule instr rest)
    (hns : ∀ j ∈ instr :: rest, j.isStart = false)
    (hths : ∀ th ∈ l ++ r, th.Shape ∧ th.starting = false)
    (hlisted : Listed m (l ++ ⟨role, instr :: rest, failed⟩ :: r))
    (h : m.final = .stopped ∨ Settling m (l ++ ⟨role, instr :: rest, failed⟩ :: r)) :
    (exec .vpn env instr rest m).mem.final = .stopped ∨
      Settling (exec .vpn env instr rest m).mem
        (l ++ ⟨role, (exec .vpn env instr rest m).code, failed'⟩ :: r ++ new) := by
  have hsafe : ∀ m', ¬ Doomed m' rest := fun m' => not_doomed_of_not_risky hrule.1
  have hspawn : Instr.spawn ∉ rest := fun hmem =>
    Bool.false_ne_true (hns _ (List.mem_cons_of_mem _ hmem)).symm
  cases instr
  case changeState st msg =>
    cases st
    case stopped => exact .inl (final_post m ⟨.stopped, msg⟩)
    case stopping => exact .inr (.own hrule.2 (hsafe _))
    case connecting => exact absurd hrule.2 hspawn
    all_goals exact hrule.2.elim
  case ifConn =>
    right
    simp only [exec]
    split
    · rename_i hsome
      refine .own (List.mem_cons_of_mem _ (List.mem_cons_of_mem _ hrule.2.2)) ?_
      simp [Doomed, Option.isSome_iff_ne_none.mp hsome]
    · exact .own hrule.2.2 (hsafe _)
  case closeConn =>
    -- either the thread goes on to its `STOPPED`, or it was doomed and another one settles
    simp only [exec]
    split
    · exact .inr (.own hrule.2.2.2 (hsafe _))
    · rename_i hnone
      exact h.imp id fun hs => hs.ended (.inl ⟨rfl, hnone⟩)
  case clearConn => exact .inr (.own hrule.2 (hsafe _))
  case ifReceiver slot =>
    right
    obtain ⟨-, -, -, -, hpost⟩ := hrule
    simp only [exec]
    split
    · rename_i hsome
      obtain ⟨n, hn⟩ := Option.isSome_iff_exists.mp hsome
      by_cases hreg : (slot, n) ∈ m.registered
      · refine .own (List.mem_cons_of_mem _ (List.mem_cons_of_mem _ hpost)) ?_
        rintro (⟨hhead, -⟩ | ⟨slot', hhead, hun⟩)
        · exact absurd hhead (by simp)
        · obtain rfl : slot = slot' := by simpa using hhead
          exact hun n hn hreg
      · -- another stop has unregistered this receiver and has yet to forget it
        exact settling_of_handled (hlisted slot n hn hreg) hths
    · exact .own hpost (hsafe _)
  case unregisterReceiver slot =>
    rcases exec_unregister slot with ⟨n, -, -, heff⟩ | ⟨hun, heff⟩
    · rw [heff]
      exact .inr (.own hrule.2.2.2.2.1 (hsafe _))
    · rw [heff]
      exact h.imp id fun hs => hs.ended (.inr ⟨slot, rfl, hun⟩)
  case clearReceiver slot => exact .inr (.own hrule.2 (hsafe _))
  case killProcess task =>
    simp only [exec]
    split
    · exact h.imp id (Settling.others rfl rfl rfl hrule (by simp [postStopped]))
    · exact h.imp id (Settling.others rfl rfl rfl hrule (by simp [postStopped]))
  case prepare => exact absurd (hns _ List.mem_cons_self) (by decide)
  case spawn => exact absurd (hns _ List.mem_cons_self) (by decide)
  case newReceiver slot => exact absurd hrule.2.1 hspawn
  case registerReceiver slot => exact absurd hrule.2 hspawn
  all_goals first
    | exact hrule.2.elim
    | exact h.imp id (Settling.others rfl rfl rfl hrule (by simp [postStopped]))

end Exec

/-! ### The invariant -/

structure Inv (s : System) : Prop where
  shaped : Shaped s.threads
  unique : s.threads.countP Thread.starting ≤ 1
  recorded : Recorded s.mem
  clean : ∀ th ∈ s.threads, Clean s.mem th
  quiet : ∀ th ∈ s.threads, Quiet s.mem th
  listed : Listed s.mem s.threads
  stopped : s.last = some .stop → Stopped s.mem s.threads

theorem inv_initial : Inv System.initial where
  shaped := ⟨⟨[], false, [], rfl, by simp⟩, by simp [System.initial, Thread.Shape]⟩
  unique := by decide
  recorded := ⟨fun _ h => (nomatch h), fun _ h => (nomatch h), fun _ h => (nomatch h)⟩
  clean := by simp [System.initial, Clean]
  quiet th _ := quiet_of_unwritten_nil rfl th
  listed := by simp [Listed, System.initial, Memory.initial]
  stopped := by simp [System.initial]

/-- A thread that is not starting is a caller. -/
theorem caller_of_not_starting {role : Role} {instr : Instr} {rest : List Instr} {failed : Bool}
    (hshape : Thread.Shape ⟨role, instr :: rest, failed⟩)
    (h : Thread.starting ⟨role, instr :: rest, failed⟩ = false) :
    Follows callerRule (instr :: rest) ∧ ∀ j ∈ instr :: rest, j.isStart = false := by
  simp only [Thread.starting, Bool.or_eq_false_iff, List.any_eq_false] at h
  have hrole : role ≠ .worker := by
    rintro rfl
    simp at h
  rw [Thread.Shape, if_neg hrole] at hshape
  exact ⟨hshape, fun j hj => by simpa using h.2 j hj⟩

/-- One statement of one thread keeps what holds after a stop. -/
theorem stopped_exec {env : Env} {instr : Instr} {rest : List Instr} {m : Memory} {role : Role}
    {failed failed' : Bool} {l r : List Thread}
    (hshape : ∀ th ∈ l ++ ⟨role, instr :: rest, failed⟩ :: r, th.Shape) (hrec : Recorded m)
    (hlisted : Listed m (l ++ ⟨role, instr :: rest, failed⟩ :: r))
    (h : Stopped m (l ++ ⟨role, instr :: rest, failed⟩ :: r)) :
    Stopped (exec .vpn env instr rest m).mem
      (l ++ ⟨role, (exec .vpn env instr rest m).code, failed'⟩ :: r ++
        (exec .vpn env instr rest m).spawned) := by
  have hth := hshape ⟨role, instr :: rest, failed⟩ (by simp)
  have hidle := h.idle
  rw [List.any_eq_false] at hidle
  obtain ⟨hcode, hns⟩ := caller_of_not_starting hth (by simpa using hidle _ (by simp))
  have hrule := (follows_cons.mp hcode).1
  refine ⟨?_, (exec_unwritten (caller_startDaemon hrule)).trans h.written,
    closing_exec hrule h.closing, killing_exec hrule hrec h.written h.killing,
    settling_exec hrule hns ?_ hlisted h.settling⟩
  · have hle := @countP_starting_exec env instr rest m role failed failed' l r hth
    rw [starting_eq_false.mp h.idle] at hle
    exact starting_eq_false.mpr (Nat.le_zero.mp hle)
  · intro th hmem
    have hmem' : th ∈ l ++ ⟨role, instr :: rest, failed⟩ :: r :=
      ((List.sublist_cons_self _ r).append_left l).subset hmem
    exact ⟨hshape th hmem', by simpa using hidle th hmem'⟩

/-- A stop that is accepted while no start is in progress and all pid files are
written will clean up. -/
theorem stopped_of_stop {m : Memory} {l r : List Thread} {role : Role} {code : List Instr}
    {failed : Bool} (hrole : role ≠ .worker) (hidle : (l ++ r).any Thread.starting = false)
    (hrec : Recorded m) (hwritten : m.unwritten = [])
    (hcode : code = stopRunner .vpn ∨ code = stopRunner .vpn ++ [.stopTimer]) :
    Stopped m (l ++ ⟨role, code, failed⟩ :: r) := by
  have hmem : ⟨role, code, failed⟩ ∈ l ++ (⟨role, code, failed⟩ : Thread) :: r := by simp
  have hsub : ∀ i ∈ stopRunner .vpn, i ∈ code := by
    intro i hi
    rcases hcode with rfl | rfl
    · exact hi
    · exact List.mem_append_left _ hi
  refine ⟨?_, hwritten, .inr ⟨_, hmem, .inl (hsub _ (by decide))⟩, ?_,
    .inr ⟨_, hmem, hsub _ (by decide), ?_⟩⟩
  · have hth : Thread.starting ⟨role, code, failed⟩ = false := by
      rcases hcode with rfl | rfl <;>
        simp [Thread.starting, hrole, stopRunner, killProcesses, Instr.isStart]
    simpa [hth] using hidle
  · intro d hd
    refine ⟨_, hmem, hsub _ ?_⟩
    have hred := hrec.known d hd
    generalize d.1 = task at hred
    cases task <;> first | exact absurd rfl hred | decide
  · rcases hcode with rfl | rfl <;> simp [Doomed, stopRunner]

/-- An idle thread contributes nothing, so it may take up other work. -/
theorem Stopped.wake {m : Memory} {l r : List Thread} {role : Role} {code : List Instr}
    {failed : Bool} (h : Stopped m (l ++ ⟨role, [], failed⟩ :: r))
    (hth : Thread.starting ⟨role, code, failed⟩ = false) :
    Stopped m (l ++ ⟨role, code, failed⟩ :: r) := by
  have hkeep : ∀ p : List Instr → Prop, ¬ p [] →
      (∃ th ∈ l ++ ⟨role, [], failed⟩ :: r, p th.code) →
      ∃ th ∈ l ++ ⟨role, code, failed⟩ :: r, p th.code := by
    intro p hnil hex
    rw [← List.append_nil (l ++ _ :: r)]
    exact exists_mem_replace hex (fun hp => absurd hp hnil) fun _ _ hp => hp
  refine ⟨?_, h.written, ?_,
    fun d hd => hkeep (.killProcess d.1 ∈ ·) List.not_mem_nil (h.killing d hd), ?_⟩
  · have hidle := h.idle
    simp only [List.any_append, List.any_cons, Bool.or_eq_false_iff] at hidle ⊢
    exact ⟨hidle.1, hth, hidle.2.2⟩
  · exact h.closing.imp id (hkeep _ (by simp [Closes]))
  · exact h.settling.imp id
      (hkeep (fun code => postStopped ∈ code ∧ ¬ Doomed m code) fun hp => List.not_mem_nil hp.1)

/-- A new idle thread contributes nothing either. -/
theorem Stopped.append_idle {m : Memory} {ths : List Thread} (h : Stopped m ths) :
    Stopped m (ths ++ [⟨.caller, [], false⟩]) := by
  refine ⟨?_, h.written, h.closing.imp id ?_, fun d hd => ?_, h.settling.imp id ?_⟩
  · simpa [Thread.starting] using h.idle
  · rintro ⟨th, hth, hcloses⟩
    exact ⟨th, List.mem_append_left _ hth, hcloses⟩
  · obtain ⟨th, hth, hkills⟩ := h.killing d hd
    exact ⟨th, List.mem_append_left _ hth, hkills⟩
  · rintro ⟨th, hth, hposts⟩
    exact ⟨th, List.mem_append_left _ hth, hposts⟩

/-- Callers start no daemon. -/
theorem clean_caller {m : Memory} {role : Role} {code : List Instr} {failed : Bool}
    (h : Follows callerRule code) : Clean m ⟨role, code, failed⟩ := by
  intro i hi task ht
  rw [caller_starts h i hi] at ht
  exact absurd ht List.not_mem_nil

/-- A caller is quiet: it starts no daemon, and spawns a worker only if it was
accepted when all pid files were written. -/
theorem quiet_caller {m : Memory} {role : Role} {code : List Instr} {failed : Bool}
    (h : Follows callerRule code) (hspawns : code.any Instr.isStart → m.unwritten = []) :
    Quiet m ⟨role, code, failed⟩ := by
  refine ⟨hspawns, fun i hi task ht => ?_⟩
  rw [caller_starts h i hi] at ht
  exact absurd ht List.not_mem_nil

/-- No receiver is in the hands of an idle thread. -/
theorem Listed.wake {m : Memory} {role : Role} {code : List Instr} {failed : Bool}
    {r : List Thread} (h : Listed m (⟨role, [], failed⟩ :: r)) :
    Listed m (⟨role, code, failed⟩ :: r) := by
  intro slot n hn hreg
  obtain ⟨th, hmem, hhead⟩ := h slot n hn hreg
  rcases List.mem_cons.mp hmem with rfl | hmem
  · simp at hhead
  · exact ⟨th, List.mem_cons_of_mem _ hmem, hhead⟩

/-! ### Steps -/

theorem inv_call {s : System} {a : Action} {code : List Instr} (h : Inv s) (hok : Orderly s a)
    (hc : Called .vpn s a code) (hshaped : Shaped (s.threads ++ [⟨.caller, code, false⟩])) :
    Inv ⟨s.mem, s.threads ++ [⟨.caller, code, false⟩], (accepted s a).or s.last⟩ := by
  have hidle : (accepted s a).isSome → s.threads.any Thread.starting = false :=
    fun hacc => (hok hacc).1
  refine ⟨hshaped, ?_, h.recorded, ?_, ?_, fun slot n hn hreg =>
    (h.listed slot n hn hreg).mono (List.subset_append_left _ _), ?_⟩
  · rw [List.countP_append]
    have hle := @List.countP_le_length _ Thread.starting [⟨.caller, code, false⟩]
    by_cases hacc : (accepted s a).isSome
    · rw [starting_eq_false.mp (hidle hacc)]
      simpa using hle
    · have hcnt : [(⟨.caller, code, false⟩ : Thread)].countP Thread.starting = 0 := by
        cases hc <;> simp_all [accepted, Thread.starting, Instr.isStart]
      rw [hcnt]
      exact h.unique
  · intro th hth
    rcases List.mem_append.mp hth with hth | hth
    · exact h.clean th hth
    · rw [List.mem_singleton.mp hth]
      exact clean_caller (shape_called hc)
  · refine List.forall_mem_append.mpr ⟨h.quiet, List.forall_mem_singleton.mpr ?_⟩
    refine quiet_caller (shape_called hc) fun hstart => ?_
    cases hc with
    | start c hacc => exact (hok (by simp [accepted, hacc])).2
    | connect c hacc => exact (hok (by simp [accepted, hacc])).2
    | stop hacc => exact (hok (by simp [accepted, hacc])).2
    | revoke _ => exact (hok rfl).2
    | refused c _ => exact absurd hstart (by simp [Instr.isStart])
  · intro hlast
    cases hc with
    | start c hacc => simp [accepted, hacc] at hlast
    | connect c hacc => simp [accepted, hacc] at hlast
    | refused c hacc =>
      have hold := h.stopped (by simpa [accepted, hacc] using hlast)
      exact hold.append_idle.wake rfl
    | stop hacc =>
      obtain ⟨hquiet, hwritten⟩ := hok (by simp [accepted, hacc])
      exact stopped_of_stop (by simp) (by simpa [System.starting] using hquiet) h.recorded
        hwritten (.inl rfl)
    | revoke _ =>
      obtain ⟨hquiet, hwritten⟩ := hok rfl
      exact stopped_of_stop (by simp) (by simpa [System.starting] using hquiet) h.recorded
        hwritten (.inl rfl)

theorem inv_receive {s : System} {a : Action} {role : Role} {code : List Instr} {failed : Bool}
    {r : List Thread} (h : Inv s) (hok : Orderly s a) (hth : s.threads = ⟨role, [], failed⟩ :: r)
    (hr : Received .vpn s a code) (hshaped : Shaped (⟨role, code, failed⟩ :: r)) :
    Inv ⟨s.mem, ⟨role, code, failed⟩ :: r, some .stop⟩ := by
  have hrole : role ≠ .worker := by
    rw [hshaped.head_role]
    simp
  have hcode : code = stopRunner .vpn ∨ code = stopRunner .vpn ++ [.stopTimer] := by
    cases hr with
    | close _ => exact .inr rfl
    | closeNat hm _ => exact absurd rfl hm
    | shutdown _ => exact .inl rfl
  have hsome : (accepted s a).isSome := by cases hr <;> rfl
  have hwritten := (hok hsome).2
  have hidle : (⟨role, [], failed⟩ :: r).any Thread.starting = false := hth ▸ (hok hsome).1
  rw [List.any_cons, Bool.or_eq_false_iff] at hidle
  have hstop : Stopped s.mem (⟨role, code, failed⟩ :: r) :=
    @stopped_of_stop s.mem [] r role code failed hrole hidle.2 h.recorded hwritten hcode
  have hlisted := h.listed
  rw [hth] at hlisted
  refine ⟨hshaped, ?_, h.recorded, fun th hmem => ?_,
    fun th _ => quiet_of_unwritten_nil hwritten th, hlisted.wake, fun _ => hstop⟩
  · rw [starting_eq_false.mp hstop.idle]
    exact Nat.zero_le 1
  · rcases List.mem_cons.mp hmem with rfl | hmem
    · exact clean_caller (shape_received hr)
    · exact h.clean th (hth ▸ List.mem_cons_of_mem _ hmem)

theorem inv_command {s : System} {n : Nat} {role : Role} {failed : Bool} {r : List Thread}
    (h : Inv s) (hth : s.threads = ⟨role, [], failed⟩ :: r)
    (hshaped : Shaped (⟨role, [.checkExpiration], failed⟩ :: r)) :
    Inv ⟨{ s.mem with commands := n }, ⟨role, [.checkExpiration], failed⟩ :: r, s.last⟩ := by
  have hstarting : Thread.starting ⟨role, [.checkExpiration], failed⟩ =
      Thread.starting ⟨role, [], failed⟩ := by
    rw [hshaped.head_role]
    rfl
  have hunique := h.unique
  have hlisted := h.listed
  rw [hth] at hunique hlisted
  refine ⟨hshaped, ?_, ⟨h.recorded.named, h.recorded.sole, h.recorded.known⟩, fun th hmem => ?_,
    fun th hmem => ?_, hlisted.wake, fun hlast => ?_⟩
  · simpa [List.countP_cons, hstarting] using hunique
  · rcases List.mem_cons.mp hmem with rfl | hmem
    · simp [Clean, Instr.starts]
    · exact h.clean th (hth ▸ List.mem_cons_of_mem _ hmem)
  · rcases List.mem_cons.mp hmem with rfl | hmem
    · exact ⟨fun hs => absurd hs (by simp [Instr.isStart]), by simp [Instr.starts]⟩
    · have hold := h.quiet th (hth ▸ List.mem_cons_of_mem _ hmem)
      exact ⟨hold.spawns, hold.starts⟩
  · have hold := h.stopped hlast
    rw [hth] at hold
    have hidle := hold.idle
    rw [List.any_cons, Bool.or_eq_false_iff] at hidle
    have hnew : Stopped s.mem ([] ++ ⟨role, [.checkExpiration], failed⟩ :: r) :=
      Stopped.wake hold (hstarting.trans hidle.1)
    exact ⟨hnew.idle, hnew.written, hnew.closing, hnew.killing, hnew.settling⟩

theorem inv_exec {s : System} {env : Env} {instr : Instr} {rest : List Instr} {role : Role}
    {failed failed' : Bool} {l r : List Thread} (h : Inv s)
    (hth : s.threads = l ++ ⟨role, instr :: rest, failed⟩ :: r)
    (hshaped : Shaped (l ++ ⟨role, (exec .vpn env instr rest s.mem).code, failed'⟩ :: r ++
      (exec .vpn env instr rest s.mem).spawned)) :
    Inv ⟨(exec .vpn env instr rest s.mem).mem,
      l ++ ⟨role, (exec .vpn env instr rest s.mem).code, failed'⟩ :: r ++
        (exec .vpn env instr rest s.mem).spawned, s.last⟩ := by
  have hshapes := h.shaped.shape
  have hclean := h.clean
  have hquiet := h.quiet
  have hlisted := h.listed
  have hunique := h.unique
  have hstopped := h.stopped
  rw [hth] at hshapes hclean hquiet hlisted hunique hstopped
  have hself := hshapes ⟨role, instr :: rest, failed⟩ (by simp)
  have hself' := hquiet ⟨role, instr :: rest, failed⟩ (by simp)
  have hsub := ((List.sublist_cons_self ⟨role, instr :: rest, failed⟩ r).append_left l).subset
  refine ⟨hshaped, Nat.le_trans (countP_starting_exec hself) hunique,
    recorded_exec h.recorded hself (hclean _ (by simp)) hself', ?_, ?_,
    listed_exec hlisted hself,
    fun hlast => stopped_exec hshapes h.recorded hlisted (hstopped hlast)⟩
  · refine forall_mem_replace hclean (fun hc => clean_exec h.recorded hself hc hself')
      (fun th hmem hth => ?_) clean_spawned
    exact clean_others hself hunique hmem (hshapes th (hsub hmem)) hth
  · refine forall_mem_replace hquiet (quiet_exec hself) (fun th hmem hth => ?_)
      (quiet_spawned hself')
    exact quiet_others hself hunique hmem (hshapes th (hsub hmem)) hth

theorem inv_write {s : System} {task : Task} {pid : Nat} (h : Inv s)
    (hmem : (task, pid) ∈ s.mem.unwritten) :
    Inv ⟨s.mem.writePid task pid, s.threads, s.last⟩ := by
  have hsub : (s.mem.writePid task pid).unwritten ⊆ s.mem.unwritten := List.erase_subset
  refine ⟨h.shaped, h.unique, recorded_write h.recorded hmem, h.clean, fun th hth => ?_, h.listed,
    fun hlast => ?_⟩
  · obtain ⟨hspawns, hstarts⟩ := h.quiet th hth
    refine ⟨fun hs => List.subset_nil.mp (hspawns hs ▸ hsub), fun i hi t ht d hd => ?_⟩
    exact hstarts i hi t ht d (hsub hd)
  · -- behind a stop there is nothing left to write
    rw [(h.stopped hlast).written] at hmem
    exact absurd hmem List.not_mem_nil

/-- **Step.**  Every permitted transition keeps the invariant. -/
theorem inv_step {s t : System} {a : Action} (h : Inv s) (hok : Orderly s a)
    (hv : View .vpn s a t) : Inv t := by
  have hshaped := shape_step h.shaped hv
  cases hv with
  | call hc => exact inv_call h hok hc hshaped
  | refused _ => exact h
  | receive hth hr =>
    have hnew := inv_receive h hok hth hr hshaped
    exact hnew
  | command hth _ => exact inv_command h hth hshaped
  | @deliver p queue hq =>
    refine ⟨hshaped, h.unique, ⟨h.recorded.named, h.recorded.sole, h.recorded.known⟩, h.clean,
      fun th hth => ⟨(h.quiet th hth).spawns, (h.quiet th hth).starts⟩, h.listed, fun hlast => ?_⟩
    have hold := h.stopped hlast
    refine ⟨hold.idle, hold.written, hold.closing, hold.killing, ?_⟩
    rw [final_deliver hq]
    exact hold.settling
  | write hmem => exact inv_write h hmem
  | exec hth => exact inv_exec h hth hshaped

/-- **A stop is kept** in every run whose requests are accepted only while no
start is in progress and no pid file is to be written. -/
theorem stop_kept {s : System} (h : Reach (step .vpn) Orderly System.initial s) : StopKept s := by
  have hinv : Inv s := h.invariant inv_initial fun s a t hs hok ht => inv_step hs hok (step_view ht)
  intro hq hlast
  obtain ⟨-, -, hclosing, hkilling, hsettling⟩ := hinv.stopped hlast
  rw [System.quiescent, Bool.and_eq_true, List.all_eq_true] at hq
  have hnil : ∀ th ∈ s.threads, th.code = [] := fun th hth => by simpa using hq.1 th hth
  have hqueue : s.mem.queue = [] := by simpa using hq.2
  refine ⟨?_, ?_, ?_⟩
  · rcases hclosing with hnone | ⟨th, hth, hcl⟩
    · exact hnone
    · rw [hnil th hth] at hcl
      exact absurd hcl (by simp [Closes])
  · refine List.eq_nil_iff_forall_not_mem.mpr fun d hd => ?_
    obtain ⟨th, hth, hk⟩ := hkilling d hd
    rw [hnil th hth] at hk
    exact absurd hk List.not_mem_nil
  · rw [← final_of_queue_nil hqueue]
    rcases hsettling with hfinal | ⟨th, hth, hpost, -⟩
    · exact hfinal
    · rw [hnil th hth] at hpost
      exact absurd hpost List.not_mem_nil

/-- A session is started, runs, and is closed by a broadcast. -/
def closedSession : List Action :=
  .start sampleConfig :: statements 1 6 ++ [.deliver] ++ statements 2 14 ++
    [.writePid .ssLocal 1, .writePid .tun2socks 3, .deliver, .close] ++ statements 0 14 ++
    [.deliver, .deliver]

theorem stop_kept_closedSession :
    ∃ s, Reach (step .vpn) Orderly System.initial s ∧ s.quiescent = true ∧
      s.last = some .stop ∧ StopKept s := by
  have hrun : (runWith (step .vpn) Orderly System.initial closedSession).any
      (fun s => s.quiescent && s.last == some .stop) = true := by
    decide +kernel
  obtain ⟨s, hreach, hq⟩ := exists_reach_of_runWith hrun
  rw [Bool.and_eq_true, beq_iff_eq] at hq
  exact ⟨s, hreach, hq.1, hq.2, stop_kept hreach⟩

/-- A broadcast closes the session while the worker is still busy. -/
def overtakenWorker : List Action :=
  .start sampleConfig :: statements 1 6 ++ [.deliver] ++ statements 2 7 ++ [.close] ++
    statements 0 12 ++ [.deliver, .deliver] ++ statements 2 7 ++ [.deliver]

/-- **A stop can be lost**: the worker goes on behind it, and the session ends
up connected, with a tunnel and two daemons. -/
theorem stop_lost :
    ∃ s, Reach (step .vpn) anyStep System.initial s ∧ ¬ StopKept s ∧
      s.mem.state = .connected ∧ s.mem.running.map Prod.fst = [.ssLocal, .tun2socks] := by
  have hrun : (run (step .vpn) System.initial overtakenWorker).any
      (fun s => s.quiescent && s.last == some .stop && s.mem.state == .connected &&
        s.mem.running.map Prod.fst == [.ssLocal, .tun2socks]) = true := by
    decide +kernel
  obtain ⟨s, hreach, hq⟩ := exists_reach_of_run hrun
  simp only [Bool.and_eq_true, beq_iff_eq] at hq
  obtain ⟨⟨⟨hquiet, hlast⟩, hstate⟩, hrunning⟩ := hq
  refine ⟨s, hreach, fun hkept => ?_, hstate, hrunning⟩
  have hstopped := (hkept hquiet hlast).2.2
  rw [hstate] at hstopped
  exact absurd hstopped (by decide)

/-- A session with `pdnsd` is closed before the pid of `pdnsd` is written. -/
def closedEarly : List Action :=
  .start { sampleConfig with isUdpDns := false } :: statements 1 6 ++ [.deliver] ++
    statements 2 16 ++
    [.writePid .ssLocal 1, .writePid .ssTunnel 3, .writePid .tun2socks 5, .deliver, .close] ++
    statements 0 14 ++ [.deliver, .deliver]

/-- **A daemon is missed** by a stop that comes before its pid file is written, with no start in
progress. -/
theorem daemon_missed :
    ∃ s, Reach (step .vpn) (fun s a => (accepted s a).isSome → s.starting = false)
        System.initial s ∧ ¬ StopKept s ∧ s.mem.running.map Prod.fst = [.pdnsd] := by
  have hrun : (runWith (step .vpn) (fun s a => (accepted s a).isSome → s.starting = false)
      System.initial closedEarly).any (fun s => s.quiescent && s.last == some .stop &&
        s.mem.running.map Prod.fst == [.pdnsd]) = true := by
    decide +kernel
  obtain ⟨s, hreach, hq⟩ := exists_reach_of_runWith hrun
  simp only [Bool.and_eq_true, beq_iff_eq] at hq
  obtain ⟨⟨hquiet, hlast⟩, hrunning⟩ := hq
  refine ⟨s, hreach, fun hkept => ?_, hrunning⟩
  rw [(hkept hquiet hlast).2.1] at hrunning
  exact absurd hrunning (by simp)

end Service
