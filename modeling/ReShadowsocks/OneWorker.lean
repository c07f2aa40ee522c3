/-
How many connect workers there are.

`binder.start` and `binder.stop` look at `state`, but `changeState` only posts a
runnable that writes it.  Until the runnable is delivered the guards read a
stale state, and two starts can both pass them (`two_workers`).

* `one_worker` — if no request is accepted on a stale state (`NotStale`), there
  is never more than one active worker, in either service.

The proof follows the service through the phases of a start: a caller on its
way through `startRunner`, `CONNECTING` posted, a worker that has posted nothing
yet, and the rest.
-/
import Mathlib.Tactic.Common
import ReShadowsocks.ServiceSteps

namespace Service

open Transition

/-- At most one connect worker is active. -/
def OneWorker (s : System) : Prop := s.threads.countP Thread.working ≤ 1

/-- Calls of `binder.start` and `binder.stop`, accepted while `state` is up to
date.  A start: every posted runnable is delivered, no other call is being
executed, and no worker is still cleaning up after the failure it has posted.
A stop: no call is on its way to `CONNECTING` and none is undelivered. -/
def NotStale (s : System) : Action → Prop
  | .start _ => s.mem.state.accepts → s.mem.queue = [] ∧
      ∀ th ∈ s.threads, th.role ≠ .worker ∨ th.failed → th.code = []
  | .stop => s.mem.state.accepts → (∀ p ∈ s.mem.queue, p.state ≠ .connecting) ∧
      ∀ th ∈ s.threads, ∀ i ∈ th.code, i.isStart = false
  | .deliver => True
  | .writePid _ _ => True
  | .exec _ _ => True
  | _ => False

instance : ∀ s a, Decidable (NotStale s a)
  | _, .start _ => inferInstanceAs (Decidable (_ → _))
  | _, .stop => inferInstanceAs (Decidable (_ → _))
  | _, .deliver => inferInstanceAs (Decidable True)
  | _, .writePid _ _ => inferInstanceAs (Decidable True)
  | _, .exec _ _ => inferInstanceAs (Decidable True)
  | _, .doConnect _ => inferInstanceAs (Decidable False)
  | _, .revoke => inferInstanceAs (Decidable False)
  | _, .close => inferInstanceAs (Decidable False)
  | _, .shutdown => inferInstanceAs (Decidable False)
  | _, .startCommand => inferInstanceAs (Decidable False)

/-! ### Phases of a start -/

/-- Statements in front of the post of `CONNECTING`. -/
def Instr.enters : Instr → Bool
  | .setConfig _ => true
  | .newReceiver _ => true
  | .registerReceiver _ => true
  | _ => false

/-- What is left of `startRunner` until `CONNECTING` is posted. -/
def Entry (code : List Instr) : Prop :=
  ∃ p tail, code = p ++ tail ∧ (∀ i ∈ p, i.enters = true) ∧
    (tail = [.prepare] ∨ tail = [.changeState .connecting none, .spawn])

/-- `CONNECTED` is the last thing a worker posts. -/
def connectedLast (instr : Instr) (rest : List Instr) : Prop :=
  ∀ msg, instr = .changeState .connected msg → rest = []

inductive Phase (m : Memory) (ths : List Thread) : Prop
  | resting (free : ∀ th ∈ ths, ∀ i ∈ th.code, i.isStart = false)
      (failed : ∀ th ∈ ths, th.working = true → th.failed = true)
      (unique : ths.countP Thread.working ≤ 1) : Phase m ths
  | entering {role : Role} {code : List Instr} {failed : Bool}
      (lone : busy ths = [⟨role, code, failed⟩]) (caller : role ≠ .worker)
      (entry : Entry code) : Phase m ths
  | spawning {role : Role} {failed : Bool} (lone : busy ths = [⟨role, [.spawn], failed⟩])
      (caller : role ≠ .worker) (posted : m.final = .connecting) : Phase m ths
  | connecting {code : List Instr} (lone : busy ths = [⟨.worker, code, false⟩])
      (free : ∀ i ∈ code, i.isStart = false) (last : Follows connectedLast code)
      (posted : m.final = .connecting) : Phase m ths

theorem not_working_of_idle {th : Thread} (h : th.code = []) : th.working = false := by
  simp [Thread.working, h]

theorem countP_working_le (ths : List Thread) :
    ths.countP Thread.working ≤ (busy ths).length := by
  rw [busy, ← List.countP_eq_length_filter]
  refine List.countP_mono_left fun o _ ho => ?_
  rw [Thread.working, Bool.and_eq_true] at ho
  exact ho.2

/-- Threads that have ended will start nothing, and none of them is an active worker. -/
theorem ended_of_idle {ths : List Thread} (h : busy ths = []) :
    (∀ th ∈ ths, ∀ i ∈ th.code, i.isStart = false) ∧
      ∀ th ∈ ths, th.working = true → th.failed = true := by
  have hnil := busy_eq_nil.mp h
  refine ⟨fun th hth i hi => ?_, fun th hth hw => ?_⟩
  · rw [hnil th hth] at hi
    exact absurd hi List.not_mem_nil
  · rw [not_working_of_idle (hnil th hth)] at hw
    exact absurd hw Bool.false_ne_true

theorem phase_idle {m : Memory} {ths : List Thread} (h : busy ths = []) : Phase m ths := by
  obtain ⟨hfree, hfailed⟩ := ended_of_idle h
  refine .resting hfree hfailed ?_
  have hle := countP_working_le ths
  rw [h, List.length_nil] at hle
  omega

theorem one_worker_of_phase {s : System} (h : Phase s.mem s.threads) : OneWorker s := by
  have hlone : ∀ {th : Thread}, busy s.threads = [th] → OneWorker s := by
    intro th hbusy
    have hle := countP_working_le s.threads
    rw [hbusy] at hle
    exact hle
  cases h with
  | resting _ _ hunique => exact hunique
  | entering h _ _ => exact hlone h
  | spawning h _ _ => exact hlone h
  | connecting h _ _ _ => exact hlone h

/-! ### Statements -/

theorem connected_expansions {mode : Mode} {instr : Instr} {p : List Instr}
    (h : p ∈ instr.expansions mode) : ∀ i ∈ p, ∀ rest, connectedLast i rest := by
  have hall : ∀ i ∈ p, ∀ msg, i ≠ .changeState .connected msg := by
    cases instr
    case unlessUdpDns tasks =>
      simp only [Instr.expansions, List.mem_cons, List.not_mem_nil, or_false] at h
      rcases h with rfl | rfl
      · simp
      · intro i hi msg
        obtain ⟨task, -, rfl⟩ := List.mem_map.mp hi
        simp
    all_goals
      revert p
      rcases mode with _ | _ | _ <;>
        simp [Instr.expansions, connect, serviceFailed, stopRunner, killProcesses]
  exact fun i hi rest msg heq => absurd heq (hall i hi msg)

theorem connectedLast_exec {mode : Mode} {env : Env} {instr : Instr} {rest : List Instr}
    {m : Memory} (h : Follows connectedLast (instr :: rest)) :
    Follows connectedLast (exec mode env instr rest m).code := by
  have hcode : Continues mode instr rest (exec mode env instr rest m).code := exec_code
  generalize (exec mode env instr rest m).code = code at hcode
  cases hcode with
  | goes hp => exact h.2.append (connected_expansions hp)
  | fails _ =>
    have hp : serviceFailed mode ++ [.clearConfig] ∈ Instr.expansions mode .getPublicConfig := by
      simp [Instr.expansions]
    rw [← List.append_nil (serviceFailed mode)]
    exact follows_nil.append fun i hi => connected_expansions hp i (List.mem_append_left _ hi)
  | ends _ => exact follows_nil

theorem final_exec {mode : Mode} {env : Env} {instr : Instr} {rest : List Instr} {m : Memory}
    (h : ∀ st msg, instr ≠ .changeState st msg) :
    (exec mode env instr rest m).mem.final = m.final := by
  rw [Memory.final, Memory.final, exec_queue h, exec_state]

section Exec

variable {mode : Mode} {env : Env} {instr : Instr} {rest : List Instr} {m : Memory} {role : Role}
  {failed : Bool} {l r : List Thread}

theorem resting_exec (free : ∀ th ∈ l ++ ⟨role, instr :: rest, failed⟩ :: r, ∀ i ∈ th.code,
      i.isStart = false)
    (hfailed : ∀ th ∈ l ++ ⟨role, instr :: rest, failed⟩ :: r, th.working = true →
      th.failed = true)
    (unique : (l ++ (⟨role, instr :: rest, failed⟩ : Thread) :: r).countP Thread.working ≤ 1)
    (m' : Memory) :
    Phase m' (l ++ ⟨role, (exec mode env instr rest m).code, failed || instr.fails⟩ :: r) := by
  rw [List.forall_mem_append, List.forall_mem_cons] at free hfailed
  refine .resting ?_ ?_ ?_
  · rw [List.forall_mem_append, List.forall_mem_cons]
    exact ⟨free.1, isStart_exec free.2.1, free.2.2⟩
  · rw [List.forall_mem_append, List.forall_mem_cons]
    refine ⟨hfailed.1, fun hw => ?_, hfailed.2.2⟩
    -- a worker that goes on had failed before
    have hrole : (role == .worker) = true := by
      rw [Thread.working, Bool.and_eq_true] at hw
      exact hw.1
    have hf : failed = true := hfailed.2.1 (by simp [Thread.working, hrole])
    rw [hf]
    rfl
  · refine Nat.le_trans ?_ unique
    simp only [List.countP_append, List.countP_cons]
    have hle : (if Thread.working ⟨role, (exec mode env instr rest m).code,
        failed || instr.fails⟩ = true then 1 else 0)
        ≤ if Thread.working ⟨role, instr :: rest, failed⟩ = true then 1 else 0 := by
      cases hrole : role == .worker
      · simp [Thread.working, hrole]
      · simp only [Thread.working, hrole, List.isEmpty_cons, Bool.not_false, Bool.and_self, if_true]
        split <;> omega
    omega

/-- A caller on its way to `CONNECTING`. -/
theorem entering_exec (hentry : Entry (instr :: rest)) (hrole : role ≠ .worker)
    (hl : busy l = []) (hr : busy r = []) (failed' : Bool) :
    Phase (exec mode env instr rest m).mem
      (l ++ ⟨role, (exec mode env instr rest m).code, failed'⟩ :: r) := by
  obtain ⟨p, tail, hcode, hp, htail⟩ := hentry
  cases p with
  | cons i p =>
    rw [List.cons_append] at hcode
    obtain ⟨rfl, rfl⟩ := List.cons.inj hcode
    have hrest : (exec mode env instr (p ++ tail) m).code = p ++ tail := by
      have henters := hp instr List.mem_cons_self
      cases instr <;> first | exact absurd henters Bool.false_ne_true | rfl | skip
      simp only [exec]
      split <;> rfl
    rw [hrest]
    have hne : p ++ tail ≠ [] := by rcases htail with rfl | rfl <;> simp
    obtain ⟨j, code, hj⟩ := List.exists_cons_of_ne_nil hne
    have hbusy : busy (l ++ ⟨role, p ++ tail, failed'⟩ :: r) = [⟨role, p ++ tail, failed'⟩] := by
      rw [busy_alone hl hr, hj, busy_cons, busy_nil]
    have hp' : ∀ i ∈ p, i.enters = true := fun i hi => hp i (List.mem_cons_of_mem _ hi)
    exact .entering hbusy hrole ⟨p, tail, rfl, hp', htail⟩
  | nil =>
    rcases htail with rfl | rfl
    · obtain ⟨rfl, rfl⟩ := List.cons.inj hcode
      -- `VpnService.prepare`: the caller goes on, or it is left to the user
      by_cases hprep : env.prepared
      · simp only [exec, hprep, if_true]
        have hentry : Entry (connect ++ []) :=
          ⟨[.newReceiver .receiver, .registerReceiver .receiver], _, rfl, by simp [Instr.enters],
            .inr rfl⟩
        have hbusy : busy (l ++ ⟨role, connect ++ [], failed'⟩ :: r)
            = [⟨role, connect ++ [], failed'⟩] := busy_alone hl hr
        exact .entering hbusy hrole hentry
      · simp only [exec, hprep]
        exact phase_idle (busy_alone hl hr)
    · obtain ⟨rfl, rfl⟩ := List.cons.inj hcode
      exact .spawning (busy_alone hl hr) hrole (final_post _ _)

/-- A worker that has posted nothing so far. -/
theorem connecting_exec (free : ∀ i ∈ instr :: rest, i.isStart = false)
    (last : Follows connectedLast (instr :: rest)) (posted : m.final = .connecting)
    (hl : busy l = []) (hr : busy r = []) :
    Phase (exec mode env instr rest m).mem
      (l ++ ⟨.worker, (exec mode env instr rest m).code, false || instr.fails⟩ :: r) := by
  by_cases hpost : ∃ st msg, instr = .changeState st msg
  · obtain ⟨st, msg, rfl⟩ := hpost
    by_cases hst : st = .connected
    · subst hst
      obtain rfl : rest = [] := last.1 msg rfl
      exact phase_idle (busy_alone hl hr)
    · -- from here on the worker counts as failed
      have hfails : (false || Instr.fails (.changeState st msg)) = true := by
        simpa [Instr.fails] using hst
      rw [hfails]
      obtain ⟨hlfree, hlfailed⟩ := ended_of_idle hl
      obtain ⟨hrfree, hrfailed⟩ := ended_of_idle hr
      refine .resting ?_ ?_ ?_
      · rw [List.forall_mem_append, List.forall_mem_cons]
        exact ⟨hlfree, fun i hi => free i (List.mem_cons_of_mem _ hi), hrfree⟩
      · rw [List.forall_mem_append, List.forall_mem_cons]
        exact ⟨hlfailed, fun _ => rfl, hrfailed⟩
      · refine Nat.le_trans (countP_working_le _) ?_
        rw [busy_alone hl hr]
        exact List.length_filter_le _ _
  · have hne : ∀ st msg, instr ≠ .changeState st msg := fun st msg h => hpost ⟨st, msg, h⟩
    have hfails : (false || instr.fails) = false := by
      cases instr <;> first | rfl | exact absurd rfl (hne _ _)
    have hfree := @isStart_exec mode env instr rest m free
    have hlast := @connectedLast_exec mode env instr rest m last
    have hfinal := (@final_exec mode env instr rest m hne).trans posted
    rw [hfails]
    generalize (exec mode env instr rest m).code = code at hfree hlast
    cases code with
    | nil => exact phase_idle (busy_alone hl hr)
    | cons i code => exact .connecting (busy_alone hl hr) hfree hlast hfinal

end Exec

/-! ### The run -/

theorem entry_startRunner (c : Config) (mode : Mode) : Entry (startRunner c mode) := by
  rcases mode with _ | lollipop
  · exact ⟨[.setConfig c], [.prepare], rfl, by simp [Instr.enters], .inl rfl⟩
  · refine ⟨[.setConfig c, .newReceiver .closeReceiver, .registerReceiver .closeReceiver] ++
      (if lollipop then [.newReceiver .lockReceiver, .registerReceiver .lockReceiver] else []),
      _, by simp [startRunner], ?_, .inr rfl⟩
    cases lollipop <;> simp [Instr.enters]

theorem isStart_of_entry {code : List Instr} (h : Entry code) : ∃ i ∈ code, i.isStart = true := by
  obtain ⟨p, tail, rfl, -, htail⟩ := h
  rcases htail with rfl | rfl
  · exact ⟨.prepare, by simp, rfl⟩
  · exact ⟨.spawn, by simp, rfl⟩

/-- With `CONNECTING` posted last, the guards refuse, unless it is undelivered. -/
theorem connecting_mem_queue {m : Memory} (h : m.final = .connecting) (hacc : m.state.accepts) :
    ∃ p ∈ m.queue, p.state = .connecting := by
  rcases List.eq_nil_or_concat m.queue with hnil | ⟨queue, p, hq⟩
  · rw [final_of_queue_nil hnil] at h
    rw [h] at hacc
    exact absurd hacc (by decide)
  · refine ⟨p, by simp [hq], ?_⟩
    simpa [Memory.final, hq] using h

theorem phase_start {mode : Mode} {s : System} {c : Config} (h : Phase s.mem s.threads)
    (hok : NotStale s (.start c)) (hacc : s.mem.state.accepts) :
    Phase s.mem (s.threads ++ [⟨.caller, startRunner c mode, false⟩]) := by
  obtain ⟨hqueue, hcalls⟩ := hok hacc
  have hlone : ∀ {th : Thread}, busy s.threads = [th] → th.role = .worker := by
    intro th hth
    obtain ⟨hmem, hne⟩ := mem_busy.mp (hth ▸ List.mem_singleton.mpr rfl)
    by_contra hrole
    exact hne (hcalls th hmem (.inl hrole))
  cases h with
  | resting _ hfailed _ =>
    have hidle : busy s.threads = [] := by
      refine busy_eq_nil.mpr fun th hth => ?_
      by_contra hne
      have hw : th.working = true := by
        have hrole : th.role = .worker := by
          by_contra hrole
          exact hne (hcalls th hth (.inl hrole))
        simp [Thread.working, hrole, hne]
      exact hne (hcalls th hth (.inr (hfailed th hth hw)))
    have hbusy : busy (s.threads ++ [⟨.caller, startRunner c mode, false⟩])
        = [⟨.caller, startRunner c mode, false⟩] := by
      rw [busy_append, hidle, List.nil_append]
      rcases mode with _ | _ <;> rfl
    exact .entering hbusy (by simp) (entry_startRunner c mode)
  | entering lone caller _ => exact absurd (hlone lone) caller
  | spawning lone caller _ => exact absurd (hlone lone) caller
  | connecting _ _ _ posted =>
    obtain ⟨p, hp, -⟩ := connecting_mem_queue posted hacc
    rw [hqueue] at hp
    exact absurd hp List.not_mem_nil

theorem phase_stop {mode : Mode} {s : System} (h : Phase s.mem s.threads)
    (hok : NotStale s .stop) (hacc : s.mem.state.accepts) :
    Phase s.mem (s.threads ++ [⟨.caller, stopRunner mode, false⟩]) := by
  obtain ⟨hqueue, hcalls⟩ := hok hacc
  have hlone : ∀ {th : Thread}, busy s.threads = [th] → ∀ i ∈ th.code, i.isStart = false :=
    fun hth => hcalls _ (mem_busy.mp (hth ▸ List.mem_singleton.mpr rfl)).1
  cases h with
  | resting _ hfailed hunique =>
    refine .resting (fun th hth => ?_) (fun th hth hw => ?_) ?_
    · rcases List.mem_append.mp hth with hth | hth
      · exact hcalls th hth
      · rw [List.mem_singleton.mp hth]
        exact isStart_stopRunner
    · rcases List.mem_append.mp hth with hth | hth
      · exact hfailed th hth hw
      · rw [List.mem_singleton.mp hth] at hw
        exact absurd hw (by simp [Thread.working])
    · simpa [List.countP_append, Thread.working] using hunique
  | entering lone _ entry =>
    obtain ⟨i, hi, hstart⟩ := isStart_of_entry entry
    exact absurd (hlone lone i hi) (by simp [hstart])
  | spawning lone _ _ =>
    exact absurd (hlone lone .spawn List.mem_cons_self) (by simp [Instr.isStart])
  | connecting _ _ _ posted =>
    obtain ⟨p, hp, hst⟩ := connecting_mem_queue posted hacc
    exact absurd hst (hqueue p hp)

/-- One statement of one thread leads from phase to phase. -/
theorem phase_exec {mode : Mode} {env : Env} {instr : Instr} {rest : List Instr} {m : Memory}
    {role : Role} {failed : Bool} {l r : List Thread}
    (h : Phase m (l ++ ⟨role, instr :: rest, failed⟩ :: r)) :
    Phase (exec mode env instr rest m).mem
      (l ++ ⟨role, (exec mode env instr rest m).code, failed || instr.fails⟩ :: r ++
        (exec mode env instr rest m).spawned) := by
  cases h with
  | resting free hfailed unique =>
    have hspawn : instr ≠ .spawn := by
      rintro rfl
      have hfree := free ⟨role, .spawn :: rest, failed⟩ (by simp) .spawn List.mem_cons_self
      exact absurd hfree (by simp [Instr.isStart])
    simp only [exec_spawned hspawn, List.append_nil]
    exact resting_exec free hfailed unique _
  | entering lone caller entry =>
    obtain ⟨heq, hl, hr⟩ := busy_split lone
    obtain ⟨rfl, rfl, rfl⟩ := Thread.mk.inj heq
    have hspawn : instr ≠ .spawn := by
      rintro rfl
      obtain ⟨p, tail, hcode, hp, htail⟩ := entry
      cases p with
      | nil => rcases htail with rfl | rfl <;> exact absurd (List.cons.inj hcode).1 (by simp)
      | cons i p =>
        have henters := hp i List.mem_cons_self
        rw [← (List.cons.inj hcode).1] at henters
        exact absurd henters Bool.false_ne_true
    simp only [exec_spawned hspawn, List.append_nil]
    exact entering_exec entry caller hl hr _
  | spawning lone caller posted =>
    obtain ⟨heq, hl, hr⟩ := busy_split lone
    obtain ⟨rfl, hcode, rfl⟩ := Thread.mk.inj heq
    obtain ⟨rfl, rfl⟩ := List.cons.inj hcode
    -- the caller has ended, and only its worker is left
    refine @Phase.connecting _ _ (worker mode) ?_ ?_ ?_ posted
    · simp only [exec, busy_append, busy_idle, hl, hr, List.nil_append]
      rcases mode with _ | _ <;> rfl
    · rcases mode with _ | _ | _ <;> decide
    · rcases mode with _ | _ <;>
        simp [worker, killProcesses, handleConnection, connectedLast]
  | connecting lone free last posted =>
    obtain ⟨heq, hl, hr⟩ := busy_split lone
    obtain ⟨rfl, rfl, rfl⟩ := Thread.mk.inj heq
    have hspawn : instr ≠ .spawn := by
      rintro rfl
      exact absurd (free .spawn List.mem_cons_self) (by simp [Instr.isStart])
    simp only [exec_spawned hspawn, List.append_nil]
    exact connecting_exec free last posted hl hr

/-- **Step.**  Every permitted transition leads from phase to phase. -/
theorem phase_step {mode : Mode} {s t : System} {a : Action} (h : Phase s.mem s.threads)
    (hok : NotStale s a) (hv : View mode s a t) : Phase t.mem t.threads := by
  cases hv with
  | call hc =>
    cases hc with
    | start c hacc => exact phase_start h hok hacc
    | stop hacc => exact phase_stop h hok hacc
    | connect _ _ => exact hok.elim
    | refused _ _ => exact hok.elim
    | revoke _ => exact hok.elim
  | refused _ => exact h
  | receive _ hr => cases hr <;> exact hok.elim
  | command _ _ => exact hok.elim
  | deliver hq =>
    cases h with
    | resting free failed unique => exact .resting free failed unique
    | entering lone caller entry => exact .entering lone caller entry
    | spawning lone caller posted => exact .spawning lone caller ((final_deliver hq).trans posted)
    | connecting lone free last posted =>
      exact .connecting lone free last ((final_deliver hq).trans posted)
  | write _ =>
    cases h with
    | resting free failed unique => exact .resting free failed unique
    | entering lone caller entry => exact .entering lone caller entry
    | spawning lone caller posted => exact .spawning lone caller posted
    | connecting lone free last posted => exact .connecting lone free last posted
  | exec hth =>
    rw [hth] at h
    exact phase_exec h

/-- **At most one connect worker** is active in every run in which no request is
accepted on a stale state. -/
theorem one_worker {mode : Mode} {s : System}
    (h : Reach (step mode) NotStale System.initial s) : OneWorker s := by
  refine one_worker_of_phase (h.invariant (I := fun s => Phase s.mem s.threads) ?_ ?_)
  · exact phase_idle rfl
  · exact fun s a t hs hok ht => phase_step hs hok (step_view ht)

/-- A start, a stop once it is connected, and another start. -/
def restart : List Action :=
  .start sampleConfig :: statements 1 6 ++ [.deliver] ++ statements 2 14 ++ [.deliver, .stop] ++
    statements 3 13 ++ [.deliver, .deliver, .start sampleConfig] ++ statements 4 6

theorem one_worker_restart :
    ∃ s, Reach (step .vpn) NotStale System.initial s ∧ s.threads.countP Thread.working = 1 ∧
      OneWorker s := by
  have hrun : (runWith (step .vpn) NotStale System.initial restart).any
      (fun s => s.threads.countP Thread.working == 1) = true := by
    decide +kernel
  obtain ⟨s, hreach, hcount⟩ := exists_reach_of_runWith hrun
  exact ⟨s, hreach, beq_iff_eq.mp hcount, one_worker hreach⟩

/-- Two calls of `binder.start`, whose `startRunner` has `n` statements, before
`CONNECTING` is delivered. -/
def doubleStart (n : Nat) : List Action :=
  [.start sampleConfig] ++ statements 1 n ++ [.start sampleConfig] ++ statements 3 n

/-- **Two workers** are active after two starts in a row, in both services. -/
theorem two_workers :
    (∃ s, Reach (step .vpn) anyStep System.initial s ∧ ¬ OneWorker s) ∧
      ∃ s, Reach (step (.nat false)) anyStep System.initial s ∧ ¬ OneWorker s := by
  have htwo : ∀ {mode : Mode} {n : Nat}, ((run (step mode) System.initial (doubleStart n)).any
      fun s => s.threads.countP Thread.working == 2) = true →
      ∃ s, Reach (step mode) anyStep System.initial s ∧ ¬ OneWorker s := by
    intro mode n hrun
    obtain ⟨s, hreach, hcount⟩ := exists_reach_of_run hrun
    refine ⟨s, hreach, ?_⟩
    rw [OneWorker, beq_iff_eq.mp hcount]
    omega
  constructor
  · exact htwo (n := 6) (by decide +kernel)
  · exact htwo (n := 5) (by decide +kernel)

end Service
