/-
Sessions and the expiration timer.

`doConnect` calls `binder.start` and then `startService`; the timers start only
when the main thread takes up the `onStartCommand` of it, and a `CLOSE`
broadcast runs `stopRunner` and then `stopTimer`.  A worker that a `CLOSE` does
not cancel brings its tunnel up with the timer gone (`unsupervised_session`).

* `session_supervised` — if a `CLOSE` finds a start in progress only while an
  `onStartCommand` is still to come (`ClosesInTime`), then a tunnel never
  outlives its timer.

The invariant speaks of commands that are `pending`: sent and not taken up, or
still to be sent or executed by some thread.
-/
import ReShadowsocks.VpnThreads

namespace Service

open Transition

/-- Statements that lead to a start of the timer. -/
def Instr.commands : Instr → Bool
  | .startService => true
  | .checkExpiration => true
  | _ => false

/-- An `onStartCommand` is still to be completed. -/
def pending (m : Memory) (ths : List Thread) : Bool :=
  m.commands != 0 || ths.any fun th => th.code.any Instr.commands

/-- With no worker running, no `onStartCommand` to come and an empty queue, a
tunnel has its timer. -/
def Supervised (s : System) : Prop :=
  s.threads.any Thread.working = false → pending s.mem s.threads = false → s.mem.queue = [] →
    s.mem.conn ≠ none → s.mem.timer = true

/-- Sessions are started by `doConnect`, and a `CLOSE` broadcast that finds a
start in progress also finds an `onStartCommand` to come. -/
def ClosesInTime (s : System) : Action → Prop
  | .start _ => False
  | .close => s.starting = true → pending s.mem s.threads = true
  | _ => True

instance : ∀ s a, Decidable (ClosesInTime s a)
  | _, .start _ => inferInstanceAs (Decidable False)
  | _, .close => inferInstanceAs (Decidable (_ → _))
  | _, .stop => inferInstanceAs (Decidable True)
  | _, .deliver => inferInstanceAs (Decidable True)
  | _, .writePid _ _ => inferInstanceAs (Decidable True)
  | _, .exec _ _ => inferInstanceAs (Decidable True)
  | _, .doConnect _ => inferInstanceAs (Decidable True)
  | _, .revoke => inferInstanceAs (Decidable True)
  | _, .shutdown => inferInstanceAs (Decidable True)
  | _, .startCommand => inferInstanceAs (Decidable True)

theorem pending_iff {m : Memory} {ths : List Thread} :
    pending m ths = true ↔ m.commands ≠ 0 ∨ ∃ th ∈ ths, ∃ i ∈ th.code, i.commands = true := by
  simp [pending, List.any_eq_true]

/-! ### Timers and commands in the code of threads -/

/-- Statements that only `ReindeerVpnService` and its connector add. -/
def Instr.outer : Instr → Bool
  | .startService => true
  | .checkExpiration => true
  | .stopTimer => true
  | _ => false

/-- Statements of `startRunner`. -/
def Instr.calls : Instr → Bool
  | .setConfig _ => true
  | .prepare => true
  | .newReceiver _ => true
  | .registerReceiver _ => true
  | .changeState _ _ => true
  | .spawn => true
  | _ => false

/-- `startService` is reached, and the timer is dealt with last. -/
def timerRule (instr : Instr) (rest : List Instr) : Prop :=
  (.startService ∈ rest → instr.calls = true) ∧ .checkExpiration ∉ rest ∧
    (instr = .checkExpiration ∨ instr = .stopTimer → rest = [])

/-- Only the main thread deals with the timer. -/
structure Thread.Timed (th : Thread) : Prop where
  follows : Follows timerRule th.code
  main : th.role ≠ .main → .checkExpiration ∉ th.code ∧ .stopTimer ∉ th.code

theorem outer_expansions {instr : Instr} {p : List Instr} (h : p ∈ instr.expansions .vpn) :
    ∀ i ∈ p, i.outer = false := by
  cases instr
  case unlessUdpDns tasks =>
    simp only [Instr.expansions, List.mem_cons, List.not_mem_nil, or_false] at h
    rcases h with rfl | rfl
    · simp
    · intro i hi
      obtain ⟨task, -, rfl⟩ := List.mem_map.mp hi
      rfl
  all_goals
    revert p
    simp only [Instr.expansions, List.forall_mem_cons]
    simp [connect, serviceFailed, stopRunner, killProcesses, Instr.outer]

theorem outer_serviceFailed : ∀ i ∈ serviceFailed .vpn, i.outer = false := by
  decide

theorem timerRule_append {p rest : List Instr} (hp : ∀ i ∈ p, i.outer = false)
    (hcalls : .startService ∈ rest → ∀ i ∈ p, i.calls = true) (hexp : .checkExpiration ∉ rest)
    (h : Follows timerRule rest) : Follows timerRule (p ++ rest) := by
  induction p with
  | nil => exact h
  | cons i p ih =>
    have hp' : ∀ j ∈ p, j.outer = false := fun j hj => hp j (List.mem_cons_of_mem _ hj)
    refine follows_cons.mpr ⟨⟨fun hmem => ?_, fun hmem => ?_, fun hi => ?_⟩, ih hp' fun hs j hj =>
      hcalls hs j (List.mem_cons_of_mem _ hj)⟩
    · rcases List.mem_append.mp hmem with hmem | hmem
      · exact absurd (hp' _ hmem) (by simp [Instr.outer])
      · exact hcalls hmem i List.mem_cons_self
    · rcases List.mem_append.mp hmem with hmem | hmem
      · exact absurd (hp' _ hmem) (by simp [Instr.outer])
      · exact hexp hmem
    · have hout := hp i List.mem_cons_self
      rcases hi with rfl | rfl <;> exact absurd hout (by simp [Instr.outer])

section Exec

variable {env : Env} {instr : Instr} {rest : List Instr} {m : Memory} {role : Role}
  {failed failed' : Bool} {l r : List Thread}

/-- What the outer statements are behind a step, they were before. -/
theorem outer_exec {i : Instr} (hi : i ∈ (exec .vpn env instr rest m).code)
    (hout : i.outer = true) : i ∈ rest := by
  have hcode : Continues .vpn instr rest (exec .vpn env instr rest m).code := exec_code
  generalize (exec .vpn env instr rest m).code = code at hi hcode
  cases hcode with
  | goes hp =>
    rcases List.mem_append.mp hi with hi | hi
    · exact absurd (outer_expansions hp i hi) (by simp [hout])
    · exact hi
  | fails _ => exact absurd (outer_serviceFailed i hi) (by simp [hout])
  | ends _ => exact absurd hi List.not_mem_nil

theorem timed_exec (h : Thread.Timed ⟨role, instr :: rest, failed⟩) :
    Thread.Timed ⟨role, (exec .vpn env instr rest m).code, failed'⟩ := by
  obtain ⟨⟨hrule, hrest⟩, hmain⟩ := h
  refine ⟨?_, fun hrole => ?_⟩
  · have hcode : Continues .vpn instr rest (exec .vpn env instr rest m).code := exec_code
    show Follows timerRule (exec .vpn env instr rest m).code
    generalize (exec .vpn env instr rest m).code = code at hcode
    cases hcode with
    | @goes p hp =>
      refine timerRule_append (outer_expansions hp) (fun hs => ?_) hrule.2.1 hrest
      -- a statement in front of `startService` expands to such statements only
      have hcalls := hrule.1 hs
      cases instr <;> simp [Instr.calls] at hcalls <;> simp [Instr.expansions] at hp
      all_goals first
        | (subst hp; simp)
        | (rcases hp with rfl | rfl <;> simp [connect, Instr.calls])
    | fails _ =>
      rw [← List.append_nil (serviceFailed .vpn)]
      exact timerRule_append outer_serviceFailed (by simp) (by simp) follows_nil
    | ends _ => exact follows_nil
  · have hold := hmain hrole
    simp only [List.mem_cons, not_or] at hold
    exact ⟨fun hi => hold.1.2 (outer_exec hi rfl), fun hi => hold.2.2 (outer_exec hi rfl)⟩

theorem timed_spawned : ∀ th ∈ (exec .vpn env instr rest m).spawned, th.Timed := by
  by_cases hi : instr = .spawn
  · subst hi
    simp only [exec, List.mem_singleton, forall_eq]
    have hout : ∀ i ∈ worker .vpn, i.outer = false := by decide
    refine ⟨?_, fun _ => ⟨fun hi => ?_, fun hi => ?_⟩⟩
    · have happ := timerRule_append hout (by simp) (by simp) follows_nil
      rwa [List.append_nil] at happ
    · exact absurd (hout _ hi) (by simp [Instr.outer])
    · exact absurd (hout _ hi) (by simp [Instr.outer])
  · rw [exec_spawned hi]
    simp

/-- A command stays pending until `checkExpiration` is executed. -/
theorem pending_exec (hth : Thread.Timed ⟨role, instr :: rest, failed⟩)
    (hi : instr ≠ .checkExpiration) (new : List Thread)
    (h : pending m (l ++ ⟨role, instr :: rest, failed⟩ :: r) = true) :
    pending (exec .vpn env instr rest m).mem
      (l ++ ⟨role, (exec .vpn env instr rest m).code, failed'⟩ :: r ++ new) = true := by
  rw [pending_iff] at h ⊢
  by_cases hs : instr = .startService
  · subst hs
    exact .inl (Nat.succ_ne_zero _)
  · rw [exec_commands hs]
    refine h.imp id fun h => exists_mem_replace h ?_ fun _ _ h => h
    rintro ⟨i, hmi, hcmd⟩
    refine ⟨i, ?_, hcmd⟩
    obtain ⟨⟨hrule, -⟩, -⟩ := hth
    have hmi' : i ∈ rest := by
      rcases List.mem_cons.mp hmi with rfl | hmi
      · cases i <;> simp [Instr.commands] at hcmd
        · exact absurd rfl hs
        · exact absurd rfl hi
      · exact hmi
    -- behind a statement stands at most the `startService` of the call it belongs to
    have hstart : i = .startService := by
      cases i <;> simp [Instr.commands] at hcmd
      · rfl
      · exact absurd hmi' hrule.2.1
    subst hstart
    have hcalls := hrule.1 hmi'
    show _ ∈ (exec .vpn env instr rest m).code
    cases instr <;> simp [Instr.calls] at hcalls <;> simp only [exec]
    all_goals (repeat' split) <;> simp [hmi']

/-- A thread that will close the tunnel still will, as long as there is one and
the thread has not ended. -/
theorem closes_exec (h : Closes (instr :: rest)) (hconn : m.conn ≠ none)
    (hconn' : (exec .vpn env instr rest m).mem.conn ≠ none)
    (hstop : .stopTimer ∈ (exec .vpn env instr rest m).code) :
    Closes (exec .vpn env instr rest m).code := by
  by_cases hif : instr = .ifConn
  · subst hif
    obtain ⟨fd, hfd⟩ := Option.ne_none_iff_exists'.mp hconn
    right
    simp [exec, hfd]
  · by_cases hclear : instr = .clearConn
    · subst hclear
      exact absurd rfl hconn'
    · have hrest : Closes rest := by
        simpa [Closes, Ne.symm hif, Ne.symm hclear] using h
      have hcode : Continues .vpn instr rest (exec .vpn env instr rest m).code := exec_code
      generalize (exec .vpn env instr rest m).code = code at hstop hcode
      cases hcode with
      | goes _ => exact hrest.imp (List.mem_append_right _) (List.mem_append_right _)
      | fails _ => exact absurd hstop (by decide)
      | ends _ => exact absurd hstop List.not_mem_nil

end Exec

/-! ### The invariant -/

/-- What starts or has started is timed, or will be.  A thread that is going to
cancel the timer leaves no tunnel behind, or a command is pending. -/
structure Watched (m : Memory) (ths : List Thread) : Prop where
  shaped : Shaped ths
  timed : ∀ th ∈ ths, th.Timed
  watched : ths.any Thread.starting = true ∨ m.conn ≠ none →
    m.timer = true ∨ pending m ths = true
  started : ∀ th ∈ ths, .stopTimer ∈ th.code →
    ths.any Thread.starting = true → pending m ths = true
  closing : ∀ th ∈ ths, .stopTimer ∈ th.code →
    m.conn ≠ none → Closes th.code ∨ pending m ths = true

/-- Once a command is pending, nothing more is asked for. -/
theorem watched_of_pending {m : Memory} {ths : List Thread} (hshaped : Shaped ths)
    (htimed : ∀ th ∈ ths, th.Timed) (h : pending m ths = true) : Watched m ths :=
  ⟨hshaped, htimed, fun _ => .inr h, fun _ _ _ _ => h, fun _ _ _ _ => .inr h⟩

/-- In a system, a thread that deals with the timer is the first one. -/
theorem timer_main {ths : List Thread} (h : Shaped ths) (htimed : ∀ th ∈ ths, th.Timed)
    {l r : List Thread} {th o : Thread} (hths : ths = l ++ th :: r) (hth : th.role = .main)
    (ho : o ∈ l ++ r) : .stopTimer ∉ o.code := by
  obtain ⟨code, failed, others, hmain, hothers⟩ := h.main
  have hrole : o.role ≠ .main := by
    subst hths
    cases l with
    | nil =>
      obtain ⟨-, rfl⟩ := List.cons.inj hmain
      exact hothers o ho
    | cons first l =>
      -- the first thread is the main one, so `th` cannot be
      obtain ⟨-, rfl⟩ := List.cons.inj hmain
      exact absurd hth (hothers th (by simp))
  have hmem : o ∈ ths := by
    rw [hths]
    rcases List.mem_append.mp ho with ho | ho <;> simp [ho]
  exact ((htimed o hmem).main hrole).2

section ExecWatched

variable {env : Env} {instr : Instr} {rest : List Instr} {m : Memory} {role : Role}
  {failed : Bool} {l r : List Thread}

/-- Where `establish` stands, a start is in progress. -/
theorem starting_of_establish (h : Thread.Shape ⟨role, .establish :: rest, failed⟩) :
    (l ++ (⟨role, .establish :: rest, failed⟩ : Thread) :: r).any Thread.starting = true := by
  have hrole : role = .worker := by
    by_contra hrole
    rw [Thread.Shape, if_neg hrole] at h
    exact h.1.2.elim
  simp [Thread.starting, hrole]

theorem starting_of_exec {failed' : Bool} (h : Thread.Shape ⟨role, instr :: rest, failed⟩)
    (hs : (l ++ ⟨role, (exec .vpn env instr rest m).code, failed'⟩ :: r ++
      (exec .vpn env instr rest m).spawned).any Thread.starting = true) :
    (l ++ ⟨role, instr :: rest, failed⟩ :: r).any Thread.starting = true := by
  by_contra hno
  have hzero := starting_eq_false.mp (Bool.eq_false_iff.mpr hno)
  have hle := @countP_starting_exec env instr rest m role failed failed' l r h
  rw [hzero] at hle
  have hfalse := starting_eq_false.mpr (Nat.le_zero.mp hle)
  rw [hs] at hfalse
  exact absurd hfalse (by simp)

/-- Where there is a tunnel behind a statement, there was one, or a start in
progress. -/
theorem tunnel_of_exec (h : Thread.Shape ⟨role, instr :: rest, failed⟩)
    (hconn : (exec .vpn env instr rest m).mem.conn ≠ none) :
    m.conn ≠ none ∨
      (l ++ (⟨role, instr :: rest, failed⟩ : Thread) :: r).any Thread.starting = true := by
  by_cases hest : instr = .establish
  · subst hest
    exact .inr (starting_of_establish h)
  · by_cases hclear : instr = .clearConn
    · subst hclear
      exact absurd rfl hconn
    · rw [exec_conn hest hclear] at hconn
      exact .inl hconn

theorem timed_threads_exec {failed' : Bool}
    (h : ∀ th ∈ l ++ ⟨role, instr :: rest, failed⟩ :: r, th.Timed) :
    ∀ th ∈ l ++ ⟨role, (exec .vpn env instr rest m).code, failed'⟩ :: r ++
      (exec .vpn env instr rest m).spawned, th.Timed :=
  forall_mem_replace h timed_exec (fun _ _ h => h) timed_spawned

/-- A statement on the timer is the last one of the main thread, and no other
thread will stop the timer. -/
theorem watched_exec_timer {failed' : Bool}
    (h : Watched m (l ++ ⟨role, instr :: rest, failed⟩ :: r))
    (hlast : instr = .checkExpiration ∨ instr = .stopTimer)
    (hshaped : Shaped (l ++ ⟨role, (exec .vpn env instr rest m).code, failed'⟩ :: r ++
      (exec .vpn env instr rest m).spawned)) :
    Watched (exec .vpn env instr rest m).mem
      (l ++ ⟨role, (exec .vpn env instr rest m).code, failed'⟩ :: r ++
        (exec .vpn env instr rest m).spawned) := by
  have hself := h.timed ⟨role, instr :: rest, failed⟩ (by simp)
  have hshape := h.shaped.shape ⟨role, instr :: rest, failed⟩ (by simp)
  have hrest : rest = [] := hself.follows.1.2.2 hlast
  have hrole : role = .main := by
    by_contra hrole
    obtain ⟨hexp, hstop⟩ := hself.main hrole
    rcases hlast with rfl | rfl
    · exact hexp List.mem_cons_self
    · exact hstop List.mem_cons_self
  have hspawned : (exec .vpn env instr rest m).spawned = [] := by
    rcases hlast with rfl | rfl <;> rfl
  have hcode : (exec .vpn env instr rest m).code = [] := by
    rcases hlast with rfl | rfl <;> exact hrest
  have hno : ∀ th ∈ l ++ ⟨role, (exec .vpn env instr rest m).code, failed'⟩ :: r ++
      (exec .vpn env instr rest m).spawned, .stopTimer ∉ th.code := by
    rw [hspawned, List.append_nil, hcode, List.forall_mem_append, List.forall_mem_cons]
    refine ⟨fun th hth => ?_, List.not_mem_nil, fun th hth => ?_⟩
    · exact timer_main h.shaped h.timed rfl hrole (List.mem_append_left _ hth)
    · exact timer_main h.shaped h.timed rfl hrole (List.mem_append_right _ hth)
  refine ⟨hshaped, timed_threads_exec h.timed, fun hw => ?_,
    fun th hth hs => absurd hs (hno th hth), fun th hth hs => absurd hs (hno th hth)⟩
  rcases hlast with rfl | rfl
  · exact .inl rfl
  · right
    refine pending_exec hself (by simp) _ ?_
    have hmem : (⟨role, .stopTimer :: rest, failed⟩ : Thread) ∈
        l ++ ⟨role, .stopTimer :: rest, failed⟩ :: r := by simp
    rcases hw with hs | hconn
    · exact h.started _ hmem List.mem_cons_self (starting_of_exec hshape hs)
    · rcases h.closing _ hmem List.mem_cons_self hconn with hcl | hp
      · exact absurd hcl (by simp [Closes, hrest])
      · exact hp

/-- A thread that will stop the timer was to stop it before, and will still close
the tunnel if it would then. -/
theorem stopTimer_exec {failed' : Bool} {th : Thread}
    (hth : th ∈ l ++ ⟨role, (exec .vpn env instr rest m).code, failed'⟩ :: r ++
      (exec .vpn env instr rest m).spawned) (hs : .stopTimer ∈ th.code) :
    ∃ o ∈ l ++ ⟨role, instr :: rest, failed⟩ :: r, .stopTimer ∈ o.code ∧
      (m.conn ≠ none → (exec .vpn env instr rest m).mem.conn ≠ none → Closes o.code →
        Closes th.code) := by
  simp only [List.mem_append, List.mem_cons] at hth
  rcases hth with (hth | rfl | hth) | hth
  · exact ⟨th, by simp [hth], hs, fun _ _ hcl => hcl⟩
  · exact ⟨⟨role, instr :: rest, failed⟩, by simp, List.mem_cons_of_mem _ (outer_exec hs rfl),
      fun hconn hconn' hcl => closes_exec hcl hconn hconn' hs⟩
  · exact ⟨th, by simp [hth], hs, fun _ _ hcl => hcl⟩
  · have hworker := role_spawned th hth
    exact absurd hs ((timed_spawned th hth).main hworker).2

theorem watched_exec {failed' : Bool}
    (h : Watched m (l ++ ⟨role, instr :: rest, failed⟩ :: r))
    (hshaped : Shaped (l ++ ⟨role, (exec .vpn env instr rest m).code, failed'⟩ :: r ++
      (exec .vpn env instr rest m).spawned)) :
    Watched (exec .vpn env instr rest m).mem
      (l ++ ⟨role, (exec .vpn env instr rest m).code, failed'⟩ :: r ++
        (exec .vpn env instr rest m).spawned) := by
  by_cases hlast : instr = .checkExpiration ∨ instr = .stopTimer
  · exact watched_exec_timer h hlast hshaped
  · rw [not_or] at hlast
    have hself := h.timed ⟨role, instr :: rest, failed⟩ (by simp)
    have hshape := h.shaped.shape ⟨role, instr :: rest, failed⟩ (by simp)
    have hpend := fun hp => @pending_exec env instr rest m role failed failed' l r hself hlast.1
      (exec .vpn env instr rest m).spawned hp
    refine ⟨hshaped, timed_threads_exec h.timed, fun hw => ?_, fun th hth hs hst => ?_,
      fun th hth hs hconn => ?_⟩
    · rw [exec_timer hlast.1 hlast.2]
      refine (h.watched ?_).imp id hpend
      rcases hw with hs | hconn
      · exact .inl (starting_of_exec hshape hs)
      · exact (tunnel_of_exec hshape hconn).symm
    · obtain ⟨o, ho, hso, -⟩ := @stopTimer_exec _ _ _ _ _ failed _ _ _ _ hth hs
      exact hpend (h.started o ho hso (starting_of_exec hshape hst))
    · obtain ⟨o, ho, hso, hcl⟩ := @stopTimer_exec _ _ _ _ _ failed _ _ _ _ hth hs
      rcases @tunnel_of_exec env instr rest m role failed l r hshape hconn with hc | hst
      · exact (h.closing o ho hso hc).imp (hcl hc hconn) hpend
      · exact .inr (hpend (h.started o ho hso hst))

end ExecWatched

/-! ### The run -/

theorem timed_of_outer {role : Role} {code : List Instr} {failed : Bool}
    (h : ∀ i ∈ code, i.outer = false) : Thread.Timed ⟨role, code, failed⟩ := by
  refine ⟨?_, fun _ => ⟨fun hi => ?_, fun hi => ?_⟩⟩
  · have happ := timerRule_append h (by simp) (by simp) follows_nil
    rwa [List.append_nil] at happ
  · exact absurd (h _ hi) (by simp [Instr.outer])
  · exact absurd (h _ hi) (by simp [Instr.outer])

theorem outer_stopRunner : ∀ i ∈ stopRunner .vpn, i.outer = false := by
  decide

/-- A step that concerns neither starts, nor commands, nor the timer. -/
theorem Watched.transfer {m : Memory} {ths ths' : List Thread} (h : Watched m ths)
    (hshaped : Shaped ths') (htimed : ∀ th ∈ ths', th.Timed)
    (hstart : ths'.any Thread.starting = ths.any Thread.starting)
    (hpend : pending m ths' = pending m ths)
    (hstop : ∀ th ∈ ths', .stopTimer ∈ th.code → th ∈ ths) : Watched m ths' := by
  refine ⟨hshaped, htimed, ?_, fun th hth hs => ?_, fun th hth hs => ?_⟩
  · rw [hstart, hpend]
    exact h.watched
  · rw [hstart, hpend]
    exact h.started th (hstop th hth hs) hs
  · rw [hpend]
    exact h.closing th (hstop th hth hs) hs

theorem starting_stopRunner {role : Role} {code : List Instr} {failed : Bool}
    (hrole : role ≠ .worker) (hcode : code.any Instr.isStart = false) :
    Thread.starting ⟨role, code, failed⟩ = false := by
  rw [Thread.starting, hcode, beq_false_of_ne hrole]
  rfl

theorem watched_call {s : System} {code : List Instr} {a : Action} (h : Watched s.mem s.threads)
    (hok : ClosesInTime s a) (hc : Called .vpn s a code)
    (hshaped : Shaped (s.threads ++ [⟨.caller, code, false⟩])) :
    Watched s.mem (s.threads ++ [⟨.caller, code, false⟩]) := by
  have htimed : Thread.Timed ⟨.caller, code, false⟩ →
      ∀ th ∈ s.threads ++ [⟨.caller, code, false⟩], th.Timed := by
    intro hnew th hth
    rcases List.mem_append.mp hth with hth | hth
    · exact h.timed th hth
    · exact List.mem_singleton.mp hth ▸ hnew
  have hcommand : .startService ∈ code →
      pending s.mem (s.threads ++ [⟨.caller, code, false⟩]) = true :=
    fun hmem => pending_iff.mpr (.inr ⟨⟨.caller, code, false⟩, by simp, .startService, hmem, rfl⟩)
  have hstopped : code = stopRunner .vpn →
      Watched s.mem (s.threads ++ [⟨.caller, code, false⟩]) := by
    rintro rfl
    refine h.transfer hshaped (htimed (timed_of_outer outer_stopRunner)) ?_ ?_ fun th hth hs => ?_
    · rw [List.any_append, List.any_cons, starting_stopRunner (by simp) (by decide)]
      simp
    · have hcode : (stopRunner .vpn).any Instr.commands = false := by decide
      simp [pending, hcode]
    · rcases List.mem_append.mp hth with hth | hth
      · exact hth
      · rw [List.mem_singleton.mp hth] at hs
        exact absurd (outer_stopRunner _ hs) (by simp [Instr.outer])
  cases hc with
  | start _ _ => exact hok.elim
  -- the caller has its `startService` still in front of it
  | connect c _ =>
    refine watched_of_pending hshaped (htimed ⟨?_, ?_⟩) (hcommand (by simp))
    · simp [startRunner, timerRule, Instr.calls]
    · simp [startRunner]
  | refused c _ =>
    refine watched_of_pending hshaped (htimed ⟨?_, ?_⟩) (hcommand (by simp))
    · simp [timerRule]
    · simp
  | stop _ => exact hstopped rfl
  | revoke _ => exact hstopped rfl

theorem watched_receive {s : System} {code : List Instr} {a : Action} {role : Role} {failed : Bool}
    {r : List Thread} (h : Watched s.mem s.threads) (hok : ClosesInTime s a)
    (hth : s.threads = ⟨role, [], failed⟩ :: r) (hr : Received .vpn s a code)
    (hshaped : Shaped (⟨role, code, failed⟩ :: r)) :
    Watched s.mem (⟨role, code, failed⟩ :: r) := by
  have hrole := hshaped.head_role
  have hstart : ∀ code : List Instr, code.any Instr.isStart = false →
      (⟨role, code, failed⟩ :: r).any Thread.starting = s.threads.any Thread.starting := by
    intro code hcode
    rw [hth, List.any_cons, List.any_cons, starting_stopRunner (by simp [hrole]) hcode,
      starting_stopRunner (by simp [hrole]) rfl]
  have hpend : ∀ code : List Instr, code.any Instr.commands = false →
      pending s.mem (⟨role, code, failed⟩ :: r) = pending s.mem s.threads := by
    intro code hcode
    simp [pending, hth, hcode]
  have hothers : ∀ th ∈ r, .stopTimer ∉ th.code := fun th hmem =>
    timer_main h.shaped h.timed (l := []) hth hrole hmem
  have htimed : Thread.Timed ⟨role, code, failed⟩ → ∀ th ∈ ⟨role, code, failed⟩ :: r, th.Timed := by
    intro hnew th hmem
    rcases List.mem_cons.mp hmem with rfl | hmem
    · exact hnew
    · exact h.timed th (hth ▸ List.mem_cons_of_mem _ hmem)
  cases hr with
  | closeNat hm _ => exact absurd rfl hm
  | shutdown _ =>
    refine h.transfer hshaped (htimed (timed_of_outer outer_stopRunner)) (hstart _ (by decide))
      (hpend _ (by decide)) fun th hmem hs => ?_
    rcases List.mem_cons.mp hmem with rfl | hmem
    · exact absurd (outer_stopRunner _ hs) (by simp [Instr.outer])
    · exact absurd hs (hothers th hmem)
  | close _ =>
    have hfollows : Follows timerRule (stopRunner .vpn ++ [.stopTimer]) :=
      timerRule_append outer_stopRunner (by simp) (by simp) (by simp [timerRule])
    refine ⟨hshaped, htimed ⟨hfollows, fun hne => absurd hrole hne⟩, ?_, fun th hmem hs => ?_,
      fun th hmem hs _ => ?_⟩
    · rw [hstart _ (by decide), hpend _ (by decide)]
      exact h.watched
    · rw [hstart _ (by decide), hpend _ (by decide)]
      exact hok
    · rcases List.mem_cons.mp hmem with rfl | hmem
      · exact .inl (.inl (by simp [stopRunner]))
      · exact absurd hs (hothers th hmem)

/-- **Step.**  Every permitted transition keeps the invariant. -/
theorem watched_step {s t : System} {a : Action} (h : Watched s.mem s.threads)
    (hok : ClosesInTime s a) (hv : View .vpn s a t) : Watched t.mem t.threads := by
  have hshaped := shape_step h.shaped hv
  cases hv with
  | call hc => exact watched_call h hok hc hshaped
  | refused _ => exact h
  | receive hth hr =>
    have hnew := watched_receive h hok hth hr hshaped
    exact hnew
  | @command n role failed r hth hn =>
    refine watched_of_pending hshaped (fun th hmem => ?_) ?_
    · rcases List.mem_cons.mp hmem with rfl | hmem
      · exact ⟨by simp [timerRule], fun hne => absurd hshaped.head_role hne⟩
      · exact h.timed th (hth ▸ List.mem_cons_of_mem _ hmem)
    · exact pending_iff.mpr
        (.inr ⟨_, List.mem_cons_self, .checkExpiration, List.mem_cons_self, rfl⟩)
  | deliver hq => exact ⟨h.shaped, h.timed, h.watched, h.started, h.closing⟩
  | write _ => exact ⟨h.shaped, h.timed, h.watched, h.started, h.closing⟩
  | exec hth =>
    rw [hth] at h
    exact watched_exec h hshaped

/-- **No unsupervised session** in every run in which a `CLOSE` finds a start in
progress only while an `onStartCommand` is to come. -/
theorem session_supervised {s : System}
    (h : Reach (step .vpn) ClosesInTime System.initial s) : Supervised s := by
  have hinv : Watched s.mem s.threads := by
    refine h.invariant (I := fun s => Watched s.mem s.threads) ?_
      fun s a t hs hok ht => watched_step hs hok (step_view ht)
    refine ⟨⟨⟨[], false, [], rfl, by simp⟩, ?_⟩, ?_, ?_, ?_, ?_⟩
    all_goals simp [System.initial, Memory.initial, Thread.Shape, Thread.starting]
    exact timed_of_outer (by simp)
  intro _ hpend _ hconn
  rcases hinv.watched (.inr hconn) with htimer | hp
  · exact htimer
  · rw [hpend] at hp
    exact absurd hp Bool.false_ne_true

/-- A session that comes up with its timer. -/
def timedSession : List Action :=
  .doConnect sampleConfig :: statements 1 7 ++ [.startCommand] ++ statements 0 1 ++ [.deliver] ++
    statements 2 14 ++ [.deliver]

theorem session_supervised_timed :
    ∃ s, Reach (step .vpn) ClosesInTime System.initial s ∧ s.mem.conn ≠ none ∧
      pending s.mem s.threads = false ∧ s.quiescent = true ∧ Supervised s := by
  have hrun : (runWith (step .vpn) ClosesInTime System.initial timedSession).any
      (fun s => s.mem.conn != none && !pending s.mem s.threads && s.quiescent) = true := by
    decide +kernel
  obtain ⟨s, hreach, hq⟩ := exists_reach_of_runWith hrun
  simp only [Bool.and_eq_true, bne_iff_ne, Bool.not_eq_true'] at hq
  exact ⟨s, hreach, hq.1.1, hq.1.2, hq.2, session_supervised hreach⟩

/-- The timer is started, then a `CLOSE` overtakes the worker. -/
def closedTooEarly : List Action :=
  .doConnect sampleConfig :: statements 1 7 ++ [.startCommand] ++ statements 0 1 ++ [.deliver] ++
    statements 2 7 ++ [.close] ++ statements 0 12 ++ [.deliver, .deliver] ++ statements 2 7 ++
    [.deliver]

/-- **A session without its timer**: the worker brings the tunnel up behind the
`CLOSE` that has cancelled the timer. -/
theorem unsupervised_session :
    ∃ s, Reach (step .vpn) anyStep System.initial s ∧ ¬ Supervised s := by
  have hrun : (run (step .vpn) System.initial closedTooEarly).any
      (fun s => !s.threads.any Thread.working && !pending s.mem s.threads &&
        s.mem.queue.isEmpty && s.mem.conn != none && !s.mem.timer) = true := by
    decide +kernel
  obtain ⟨s, hreach, hq⟩ := exists_reach_of_run hrun
  simp only [Bool.and_eq_true, bne_iff_ne, Bool.not_eq_true', List.isEmpty_iff] at hq
  obtain ⟨⟨⟨⟨hworker, hpend⟩, hqueue⟩, hconn⟩, htimer⟩ := hq
  refine ⟨s, hreach, fun hsup => ?_⟩
  have htrue := hsup hworker hpend hqueue hconn
  rw [htimer] at htrue
  exact absurd htrue Bool.false_ne_true

end Service
