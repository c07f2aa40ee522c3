/-
The threads of the VPN service.

Two rules describe the code a thread of the VPN service can be left with:
`callerRule` for the threads of callers and the main thread, `workerRule` for
connect workers.  They say what is still to come behind a statement — for
instance that `STOPPED` is posted behind everything `stopRunner` does, or that a
daemon is killed only in front of the statement that starts it anew.

* `shape_exec`, `shape_step` — the rules are invariants of the system;
* `starting_exec` — a step never adds a start in progress: `spawn` hands it
  over from the caller to the worker.
-/
import Mathlib.Tactic.Common
import ReShadowsocks.ServiceSteps

namespace Service

open Transition

/-! ### Shapes of code -/

/-- The last statement of `stopRunner`. -/
def postStopped : Instr := .changeState .stopped none

/-- Statements that raise an exception when another thread got there first. -/
def Instr.risky : Instr → Bool
  | .closeConn => true
  | .unregisterReceiver _ => true
  | _ => false

/-- The daemons that a statement may start. -/
def Instr.starts : Instr → List Task
  | .startDaemon task => [task]
  | .unlessUdpDns tasks => tasks
  | .ifTunnel => [.tun2socks]
  | _ => []

/-- What `code` does not contain any more. -/
def NoKill (code : List Instr) : Prop := ∀ task, Instr.killProcess task ∉ code

/-- `code` will still get rid of the tunnel. -/
def Closes (code : List Instr) : Prop := .ifConn ∈ code ∨ .clearConn ∈ code

/-- Shape of the code of callers and of the main thread. -/
def callerRule (instr : Instr) (rest : List Instr) : Prop :=
  (∀ j ∈ rest, j.risky = false) ∧
  match instr with
  | .changeState .stopped _ => True
  | .changeState .stopping _ => postStopped ∈ rest
  | .changeState .connecting _ => .spawn ∈ rest
  | .changeState _ _ => False
  | .killProcess _ => True
  | .ifConn => NoKill rest ∧ postStopped ∈ rest
  | .closeConn => NoKill rest ∧ .clearConn ∈ rest ∧ postStopped ∈ rest
  | .clearConn => postStopped ∈ rest
  | .stopSelf => True
  | .ifReceiver _ => NoKill rest ∧ .ifConn ∉ rest ∧ .clearConn ∉ rest ∧ postStopped ∈ rest
  | .unregisterReceiver slot => NoKill rest ∧ .ifConn ∉ rest ∧ .clearConn ∉ rest ∧
      postStopped ∈ rest ∧ rest.head? = some (.clearReceiver slot)
  | .clearReceiver _ => postStopped ∈ rest
  | .setConfig _ => True
  | .prepare => ∀ j ∈ rest, j.isStart = false
  | .newReceiver slot => .spawn ∈ rest ∧ rest.head? = some (.registerReceiver slot)
  | .registerReceiver _ => .spawn ∈ rest
  | .spawn => ∀ j ∈ rest, j.isStart = false
  | .startService => True
  | .checkExpiration => True
  | .stopTimer => True
  | _ => False

/-- Shape of the code of connect workers. -/
def workerRule (instr : Instr) (rest : List Instr) : Prop :=
  (∀ slot, instr = .unregisterReceiver slot → rest.head? = some (.clearReceiver slot)) ∧
  instr.isStart = false ∧ (∀ slot, instr ≠ .newReceiver slot) ∧
  instr.starts.Nodup ∧ .redsocks ∉ instr.starts ∧
  ∀ task ∈ instr.starts, .killProcess task ∉ rest ∧ ∀ j ∈ rest, task ∉ j.starts

def Thread.Shape (th : Thread) : Prop :=
  if th.role = .worker then Follows workerRule th.code else Follows callerRule th.code

theorem shape_startDaemons {tasks : List Task} {rest : List Instr} (hnd : tasks.Nodup)
    (hred : .redsocks ∉ tasks)
    (hrest : ∀ task ∈ tasks, .killProcess task ∉ rest ∧ ∀ j ∈ rest, task ∉ j.starts)
    (h : Follows workerRule rest) :
    Follows workerRule (tasks.map .startDaemon ++ rest) := by
  induction tasks with
  | nil => exact h
  | cons task tasks ih =>
    obtain ⟨hnot, hnd⟩ := List.nodup_cons.mp hnd
    rw [List.map_cons, List.cons_append, follows_cons]
    refine ⟨?_, ih hnd (fun hm => hred (List.mem_cons_of_mem _ hm))
      fun t ht => hrest t (List.mem_cons_of_mem _ ht)⟩
    obtain ⟨hkill, hstart⟩ := hrest task List.mem_cons_self
    refine ⟨by simp, rfl, by simp, by simp [Instr.starts], ?_, ?_⟩
    · simp only [Instr.starts, List.mem_singleton]
      exact fun heq => hred (heq ▸ List.mem_cons_self)
    · intro t ht
      rw [Instr.starts, List.mem_singleton] at ht
      subst ht
      refine ⟨by simpa using hkill, fun j hj => ?_⟩
      rcases List.mem_append.mp hj with hj | hj
      · obtain ⟨u, hu, rfl⟩ := List.mem_map.mp hj
        simp only [Instr.starts, List.mem_singleton]
        exact fun heq => hnot (heq ▸ hu)
      · exact hstart j hj

/-- What a statement of a caller expands to fits in front of the code behind it. -/
theorem caller_expansion {instr : Instr} {p rest : List Instr} (hrule : callerRule instr rest)
    (hp : p ∈ instr.expansions .vpn) (hrest : Follows callerRule rest) :
    Follows callerRule (p ++ rest) := by
  cases instr
  case ifConn =>
    obtain ⟨hrisky, hkill, hstop⟩ := hrule
    rcases List.mem_pair.mp hp with rfl | rfl
    · exact hrest
    · refine ⟨⟨?_, ?_⟩, ⟨hrisky, hstop⟩, hrest⟩
      · simpa [Instr.risky] using hrisky
      · simpa [NoKill, postStopped] using ⟨hkill, hstop⟩
  case ifReceiver slot =>
    obtain ⟨hrisky, hkill, hconn, hclear, hstop⟩ := hrule
    rcases List.mem_pair.mp hp with rfl | rfl
    · exact hrest
    · refine ⟨⟨?_, ?_⟩, ⟨hrisky, hstop⟩, hrest⟩
      · simpa [Instr.risky] using hrisky
      · simpa [NoKill, postStopped] using ⟨hkill, hconn, hclear, hstop⟩
  case prepare =>
    obtain ⟨hrisky, hstart⟩ := hrule
    rcases List.mem_pair.mp hp with rfl | rfl
    · exact hrest
    · simp only [connect, List.cons_append, List.nil_append, follows_cons]
      refine ⟨⟨?_, ?_⟩, ⟨?_, ?_⟩, ⟨?_, ?_⟩, ⟨hrisky, hstart⟩, hrest⟩
      · simpa [Instr.risky] using hrisky
      · simp
      · simpa [Instr.risky] using hrisky
      · simp
      · simpa [Instr.risky] using hrisky
      · simp
  all_goals first
    | exact hrule.2.elim
    | exact List.mem_singleton.mp hp ▸ hrest

theorem caller_exec {env : Env} {instr : Instr} {rest : List Instr} {m : Memory}
    (h : Follows callerRule (instr :: rest)) :
    Follows callerRule (exec .vpn env instr rest m).code := by
  obtain ⟨hrule, hrest⟩ := follows_cons.mp h
  have hcode : Continues .vpn instr rest (exec .vpn env instr rest m).code := exec_code
  generalize (exec .vpn env instr rest m).code = code at hcode
  cases hcode with
  | goes hp => exact caller_expansion hrule hp hrest
  | fails hi => exact (hi ▸ hrule).2.elim
  | ends _ => exact follows_nil

/-- Statements that may stand anywhere in the code of a worker. -/
def Instr.free : Instr → Bool
  | .prepare => false
  | .spawn => false
  | .newReceiver _ => false
  | .unregisterReceiver _ => false
  | .startDaemon _ => false
  | .unlessUdpDns _ => false
  | .ifTunnel => false
  | _ => true

theorem workerRule_of_free {i : Instr} (h : i.free = true) (rest : List Instr) :
    workerRule i rest := by
  have hunregister : ∀ slot, i = .unregisterReceiver slot →
      rest.head? = some (.clearReceiver slot) := by
    rintro slot rfl
    exact nomatch h
  have hnew : ∀ slot, i ≠ .newReceiver slot := by
    rintro slot rfl
    exact nomatch h
  have hstarts : i.isStart = false ∧ i.starts = [] := by
    cases i
    all_goals first | exact ⟨rfl, rfl⟩ | exact nomatch h
  refine ⟨hunregister, hstarts.1, hnew, ?_⟩
  rw [hstarts.2]
  exact ⟨List.nodup_nil, List.not_mem_nil, fun _ hmem => absurd hmem List.not_mem_nil⟩

theorem free_serviceFailed : ∀ i ∈ serviceFailed .vpn, i.free = true := by decide

/-- What a statement of a worker expands to fits in front of the code behind it. -/
theorem worker_expansion {instr : Instr} {p rest : List Instr} (hrule : workerRule instr rest)
    (hp : p ∈ instr.expansions .vpn) (hrest : Follows workerRule rest) :
    Follows workerRule (p ++ rest) := by
  cases instr
  case prepare => exact absurd hrule.2.1 (by simp [Instr.isStart])
  case unlessUdpDns tasks =>
    obtain ⟨-, -, -, hnd, hred, hstart⟩ := hrule
    rcases List.mem_pair.mp hp with rfl | rfl
    · exact hrest
    · exact shape_startDaemons hnd hred hstart hrest
  case ifReceiver slot =>
    rcases List.mem_pair.mp hp with rfl | rfl
    · exact hrest
    · refine ⟨?_, workerRule_of_free rfl rest, hrest⟩
      simp [workerRule, Instr.starts, Instr.isStart]
  case ifTunnel =>
    obtain ⟨-, -, -, -, -, hstart⟩ := hrule
    rcases List.mem_pair.mp hp with rfl | rfl
    · refine ⟨workerRule_of_free rfl _, ?_, hrest⟩
      simpa [workerRule, Instr.starts, Instr.isStart] using hstart
    · exact hrest.append fun i hi => workerRule_of_free (by revert i; decide)
  all_goals
    refine Follows.append (fun i hi => workerRule_of_free ?_) hrest
    revert i p
    first | decide | simp [Instr.expansions]

theorem worker_exec {env : Env} {instr : Instr} {rest : List Instr} {m : Memory}
    (h : Follows workerRule (instr :: rest)) :
    Follows workerRule (exec .vpn env instr rest m).code := by
  obtain ⟨hrule, hrest⟩ := follows_cons.mp h
  have hcode : Continues .vpn instr rest (exec .vpn env instr rest m).code := exec_code
  generalize (exec .vpn env instr rest m).code = code at hcode
  cases hcode with
  | goes hp => exact worker_expansion hrule hp hrest
  | fails _ =>
    rw [← List.append_nil (serviceFailed .vpn)]
    exact Follows.append (fun i hi => workerRule_of_free (free_serviceFailed i hi)) follows_nil
  | ends _ => exact follows_nil

theorem shape_exec {env : Env} {instr : Instr} {rest : List Instr} {m : Memory} {role : Role}
    {failed failed' : Bool} (h : Thread.Shape ⟨role, instr :: rest, failed⟩) :
    Thread.Shape ⟨role, (exec .vpn env instr rest m).code, failed'⟩ := by
  unfold Thread.Shape at h ⊢
  split
  · rename_i hrole
    rw [if_pos hrole] at h
    exact worker_exec h
  · rename_i hrole
    rw [if_neg hrole] at h
    exact caller_exec h

theorem shape_spawned {env : Env} {instr : Instr} {rest : List Instr} {m : Memory} :
    ∀ th ∈ (exec .vpn env instr rest m).spawned, th.Shape := by
  by_cases hi : instr = .spawn
  · subst hi
    simp only [exec, List.mem_singleton, forall_eq]
    simp [Thread.Shape, workerRule, worker, killProcesses, handleConnection, Instr.starts,
      Instr.isStart]
  · rw [exec_spawned hi]
    simp

theorem role_spawned {env : Env} {instr : Instr} {rest : List Instr} {m : Memory} :
    ∀ th ∈ (exec .vpn env instr rest m).spawned, th.role ≠ .main := by
  by_cases hi : instr = .spawn
  · subst hi
    simp [exec]
  · rw [exec_spawned hi]
    simp

theorem shape_stopRunner : Follows callerRule (stopRunner .vpn ++ [.stopTimer]) ∧
    Follows callerRule (stopRunner .vpn) := by
  simp [stopRunner, killProcesses, callerRule, postStopped, Instr.risky, NoKill]

theorem shape_called {s : System} {a : Action} {code : List Instr} (h : Called .vpn s a code) :
    Follows callerRule code := by
  cases h with
  | start c _ => simp [startRunner, callerRule, Instr.risky]
  | connect c _ => simp [startRunner, callerRule, Instr.risky, Instr.isStart]
  | refused c _ => simp [callerRule]
  | stop _ => exact shape_stopRunner.2
  | revoke _ => exact shape_stopRunner.2

theorem shape_received {s : System} {a : Action} {code : List Instr}
    (h : Received .vpn s a code) : Follows callerRule code := by
  cases h with
  | close _ => exact shape_stopRunner.1
  | closeNat hm _ => exact absurd rfl hm
  | shutdown _ => exact shape_stopRunner.2

/-- The main thread comes first, and every thread has the shape of its role. -/
structure Shaped (ths : List Thread) : Prop where
  main : ∃ code failed r, ths = ⟨.main, code, failed⟩ :: r ∧ ∀ th ∈ r, th.role ≠ .main
  shape : ∀ th ∈ ths, th.Shape

/-- The thread that takes up broadcasts and commands is the main thread. -/
theorem Shaped.head_role {role : Role} {code : List Instr} {failed : Bool} {r : List Thread}
    (h : Shaped (⟨role, code, failed⟩ :: r)) : role = .main := by
  obtain ⟨mcode, mfailed, others, hmain, -⟩ := h.main
  obtain ⟨hhead, -⟩ := List.cons.inj hmain
  exact (Thread.mk.inj hhead).1

/-- The main thread may take up other work that has the shape of a caller's. -/
theorem Shaped.replace_head {role : Role} {code code' : List Instr} {failed : Bool}
    {r : List Thread} (h : Shaped (⟨role, code, failed⟩ :: r)) (hcode : Follows callerRule code') :
    Shaped (⟨role, code', failed⟩ :: r) := by
  have hrole := h.head_role
  subst hrole
  obtain ⟨mcode, mfailed, others, hmain, hothers⟩ := h.main
  obtain ⟨-, rfl⟩ := List.cons.inj hmain
  refine ⟨⟨code', failed, r, rfl, hothers⟩, fun th hth => ?_⟩
  rcases List.mem_cons.mp hth with rfl | hth
  · rw [Thread.Shape, if_neg (by simp)]
    exact hcode
  · exact h.shape th (List.mem_cons_of_mem _ hth)

theorem Shaped.append_caller {ths : List Thread} {code : List Instr} (h : Shaped ths)
    (hcode : Follows callerRule code) : Shaped (ths ++ [⟨.caller, code, false⟩]) := by
  obtain ⟨⟨mcode, mfailed, others, rfl, hothers⟩, hshape⟩ := h
  refine ⟨⟨mcode, mfailed, others ++ [⟨.caller, code, false⟩], rfl, fun th hth => ?_⟩,
    fun th hth => ?_⟩
  · rcases List.mem_append.mp hth with hth | hth
    · exact hothers th hth
    · rw [List.mem_singleton.mp hth]
      simp
  · rcases List.mem_append.mp hth with hth | hth
    · exact hshape th hth
    · rw [List.mem_singleton.mp hth, Thread.Shape, if_neg (by simp)]
      exact hcode

theorem shaped_exec {env : Env} {instr : Instr} {rest : List Instr} {m : Memory} {role : Role}
    {failed failed' : Bool} {l r : List Thread}
    (h : Shaped (l ++ ⟨role, instr :: rest, failed⟩ :: r)) :
    Shaped (l ++ ⟨role, (exec .vpn env instr rest m).code, failed'⟩ :: r ++
      (exec .vpn env instr rest m).spawned) := by
  obtain ⟨⟨mcode, mfailed, others, hmain, hothers⟩, hshape⟩ := h
  constructor
  · cases l with
    | nil =>
      obtain ⟨hhead, rfl⟩ := List.cons.inj hmain
      obtain ⟨rfl, rfl, rfl⟩ := Thread.mk.inj hhead
      refine ⟨_, _, r ++ _, rfl, fun th hth => ?_⟩
      rcases List.mem_append.mp hth with hth | hth
      · exact hothers th hth
      · exact role_spawned th hth
    | cons x l =>
      obtain ⟨rfl, rfl⟩ := List.cons.inj hmain
      refine ⟨mcode, mfailed, l ++ ⟨role, (exec .vpn env instr rest m).code, failed'⟩ :: r ++
        (exec .vpn env instr rest m).spawned, rfl, fun th hth => ?_⟩
      exact forall_mem_replace hothers id (fun _ _ h => h) role_spawned th hth
  · exact forall_mem_replace hshape shape_exec (fun _ _ h => h) shape_spawned

/-- **The rules are invariants.** -/
theorem shape_step {s t : System} {a : Action} (h : Shaped s.threads) (hv : View .vpn s a t) :
    Shaped t.threads := by
  cases hv with
  | call hc => exact h.append_caller (shape_called hc)
  | refused _ => exact h
  | receive hth hr =>
    rw [hth] at h
    exact h.replace_head (shape_received hr)
  | command hth _ =>
    rw [hth] at h
    exact h.replace_head (by simp [callerRule])
  | deliver _ => exact h
  | write _ => exact h
  | exec hth =>
    rw [hth] at h
    exact shaped_exec h

/-! ### A start in progress has one owner -/

theorem any_isStart_of_exec {env : Env} {instr : Instr} {rest : List Instr} {m : Memory}
    (hs : (exec .vpn env instr rest m).code.any Instr.isStart) :
    (instr :: rest).any Instr.isStart := by
  obtain ⟨i, hi, hstart⟩ := List.any_eq_true.mp hs
  by_contra hnone
  have hfree : ∀ j ∈ instr :: rest, j.isStart = false := by
    intro j hj
    rw [List.any_eq_true, not_exists] at hnone
    exact Bool.eq_false_iff.mpr fun hj' => hnone j ⟨hj, hj'⟩
  exact nomatch hstart.symm.trans (isStart_exec hfree i hi)

/-- A step of a thread does not add starts in progress: `spawn` passes the one
of the caller on to the worker. -/
theorem starting_exec {env : Env} {instr : Instr} {rest : List Instr} {m : Memory} {role : Role}
    {failed failed' : Bool} (h : Thread.Shape ⟨role, instr :: rest, failed⟩) :
    (⟨role, (exec .vpn env instr rest m).code, failed'⟩ ::
      (exec .vpn env instr rest m).spawned).countP Thread.starting ≤
      [(⟨role, instr :: rest, failed⟩ : Thread)].countP Thread.starting := by
  by_cases hrole : role = .worker
  · rw [Thread.Shape, if_pos hrole] at h
    have hi : instr ≠ .spawn := by
      rintro rfl
      exact absurd h.1.2.1 (by decide)
    have hth : Thread.starting ⟨role, instr :: rest, failed⟩ := by simp [Thread.starting, hrole]
    rw [exec_spawned hi, List.countP_cons_of_pos hth]
    exact Nat.le_trans List.countP_le_length (by simp)
  · rw [Thread.Shape, if_neg hrole] at h
    by_cases hi : instr = .spawn
    · subst hi
      have hrest : rest.any Instr.isStart = false := by
        simpa [List.any_eq_false] using h.1.2
      have hth : ¬ Thread.starting ⟨role, rest, failed'⟩ := by
        simp [Thread.starting, hrole, hrest]
      have hth' : Thread.starting ⟨role, .spawn :: rest, failed⟩ := by
        simp [Thread.starting, Instr.isStart]
      rw [exec, List.countP_cons_of_neg hth, List.countP_cons_of_pos hth']
      exact Nat.le_trans List.countP_le_length (by simp)
    · rw [exec_spawned hi]
      by_cases hs : (exec .vpn env instr rest m).code.any Instr.isStart
      · have hth : Thread.starting ⟨role, instr :: rest, failed⟩ := by
          rw [Thread.starting, any_isStart_of_exec hs, Bool.or_true]
        rw [List.countP_cons_of_pos hth]
        exact Nat.le_trans List.countP_le_length (by simp)
      · have hth : ¬ Thread.starting ⟨role, (exec .vpn env instr rest m).code, failed'⟩ := by
          simpa [Thread.starting, hrole] using hs
        rw [List.countP_cons_of_neg hth]
        simp

theorem countP_starting_exec {env : Env} {instr : Instr} {rest : List Instr} {m : Memory}
    {role : Role} {failed failed' : Bool} {l r : List Thread}
    (h : Thread.Shape ⟨role, instr :: rest, failed⟩) :
    (l ++ ⟨role, (exec .vpn env instr rest m).code, failed'⟩ :: r ++
      (exec .vpn env instr rest m).spawned).countP Thread.starting ≤
      (l ++ ⟨role, instr :: rest, failed⟩ :: r).countP Thread.starting := by
  have hle := @starting_exec env instr rest m role failed failed' h
  simp only [List.countP_append, List.countP_cons, List.countP_nil] at hle ⊢
  omega

theorem starting_eq_false {ths : List Thread} :
    ths.any Thread.starting = false ↔ ths.countP Thread.starting = 0 := by
  rw [List.any_eq_false, List.countP_eq_zero]

end Service
