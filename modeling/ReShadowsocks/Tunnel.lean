/-
What `CONNECTED` says about the tunnel.

One start request, with nothing else in flight, is executed by one thread at a
time: `startRunner` spawns the connect worker as its last statement.  Only the
deliveries of the main looper and the writes of pid files interleave with it,
and they commute with its statements (`exec_interferes`).  So a run is described
by the sequential rules of `Ends`, one for each method of the source.

* `connected_iff_tunnel` — once the worker has ended and every runnable is
  delivered, the state agrees with the tunnel exactly if `builder.establish()`
  is not reached or returns a descriptor;
* `connected_without_tunnel` — otherwise `startVpn` runs `stopRunner` and
  returns, `handleConnection` answers `true` all the same, and the worker posts
  `CONNECTED` behind `STOPPED`.
-/
import Mathlib.Tactic.Common
import ReShadowsocks.ServiceSteps

namespace Service

open Transition

/-- The state is `CONNECTED` exactly if there is a tunnel, and otherwise it is
`STOPPED`. -/
def TunnelAgrees (s : System) : Prop :=
  (s.mem.state = .connected ↔ s.mem.conn ≠ none) ∧ (s.mem.conn = none → s.mem.state = .stopped)

/-- `builder.establish()` is called: a server of the public list was found where
one was asked for, and the server's name was resolved. -/
def EstablishCalled (c : Config) (e : Env) : Prop :=
  (c.proxy = publicProxy → e.publicServer ≠ none) ∧
    (e.isIPv4Address || e.isIPv6Address || e.resolve.isSome) = true

/-- The actions of a run of one request, in which the platform answers as `e`
does.  Whether a daemon comes up may differ from one daemon to the next. -/
def OneRequest (e : Env) (_ : System) : Action → Prop
  | .deliver => True
  | .writePid _ _ => True
  | .exec _ env => ∃ up, env = { e with daemonUp := up }
  | _ => False

instance (e : Env) : ∀ s a, Decidable (OneRequest e s a)
  | _, .deliver => inferInstanceAs (Decidable True)
  | _, .writePid _ _ => inferInstanceAs (Decidable True)
  | _, .exec _ env => inferInstanceAs (Decidable (∃ up, env = { e with daemonUp := up }))
  | _, .start _ => inferInstanceAs (Decidable False)
  | _, .stop => inferInstanceAs (Decidable False)
  | _, .doConnect _ => inferInstanceAs (Decidable False)
  | _, .revoke => inferInstanceAs (Decidable False)
  | _, .close => inferInstanceAs (Decidable False)
  | _, .shutdown => inferInstanceAs (Decidable False)
  | _, .startCommand => inferInstanceAs (Decidable False)

/-! ### The only thread -/

/-- `code` is all that is left to do. -/
def Lone (ths : List Thread) (code : List Instr) : Prop :=
  ∃ th, th.code = code ∧ busy ths = busy [th]

theorem lone_call {ths : List Thread} {role : Role} {code : List Instr} {failed : Bool}
    (h : busy ths = []) : Lone (ths ++ [⟨role, code, failed⟩]) code := by
  refine ⟨⟨role, code, failed⟩, rfl, ?_⟩
  rw [busy_append, h, List.nil_append]

theorem lone_idle {ths : List Thread} {code : List Instr} (h : Lone ths code)
    (hidle : busy ths = []) : code = [] := by
  obtain ⟨⟨role, code, failed⟩, rfl, hbusy⟩ := h
  cases code with
  | nil => rfl
  | cons i rest => exact absurd (hidle.symm.trans hbusy) (by simp)

/-- A new thread is spawned by the last statement only. -/
def spawnsLast (instr : Instr) (rest : List Instr) : Prop := instr.isStart → rest = []

theorem spawnsLast_of_not_isStart {p : List Instr} (h : ∀ i ∈ p, i.isStart = false) :
    ∀ i ∈ p, ∀ rest, spawnsLast i rest :=
  fun i hi _ hstart => absurd (h i hi) (by simp [hstart])

theorem spawnsLast_startRunner (c : Config) : Follows spawnsLast (startRunner c .vpn) := by
  simp [startRunner, spawnsLast, Instr.isStart]

theorem spawnsLast_exec {env : Env} {instr : Instr} {rest : List Instr} {m : Memory}
    (h : Follows spawnsLast (instr :: rest)) :
    Follows spawnsLast (exec .vpn env instr rest m).code := by
  obtain ⟨hi, hrest⟩ := follows_cons.mp h
  have hcode : Continues .vpn instr rest (exec .vpn env instr rest m).code := exec_code
  generalize (exec .vpn env instr rest m).code = code at hcode
  cases hcode with
  | @goes p hp =>
    by_cases hprepare : instr = .prepare
    · subst hprepare
      rw [hi rfl, List.append_nil]
      simp only [Instr.expansions, List.mem_cons, List.not_mem_nil, or_false] at hp
      rcases hp with rfl | rfl
      · exact follows_nil
      · simp [connect, spawnsLast, Instr.isStart]
    · exact hrest.append (spawnsLast_of_not_isStart (isStart_expansions hprepare hp))
  | fails _ =>
    rw [← List.append_nil (serviceFailed .vpn)]
    exact follows_nil.append (spawnsLast_of_not_isStart isStart_serviceFailed)
  | ends _ => exact follows_nil

/-- What a statement of the only thread can leave behind it.  The code of a
spawned worker is all there is to do then. -/
def alone (e : Env) (instr : Instr) (rest : List Instr) (m m' : Memory) (code : List Instr) :
    Prop :=
  ∃ up, m' = (exec .vpn { e with daemonUp := up } instr rest m).mem ∧
    code = (exec .vpn { e with daemonUp := up } instr rest m).code ++
      (exec .vpn { e with daemonUp := up } instr rest m).spawned.flatMap Thread.code

/-- What happens to the memory between two statements of the only thread: the
looper delivers one runnable, or something becomes of the daemons. -/
inductive Interferes (m : Memory) : Memory → Prop
  | deliver {p : Post} {queue : List Post} : m.queue = p :: queue →
      Interferes m { m with state := p.state, queue := queue }
  | daemons (running unwritten : List (Task × Nat)) (pidFile : Task → Option Nat) :
      Interferes m { m with running := running, unwritten := unwritten, pidFile := pidFile }

/-- A delivery commutes with every statement: nothing a statement does depends
on the state or on the head of the queue.  And the daemons decide nothing but
which of them are left. -/
theorem exec_interferes {env : Env} {instr : Instr} {rest : List Instr} {m m' : Memory}
    (h : Interferes m m') :
    (exec .vpn env instr rest m').code = (exec .vpn env instr rest m).code ∧
      (exec .vpn env instr rest m').spawned = (exec .vpn env instr rest m).spawned ∧
      Interferes (exec .vpn env instr rest m).mem (exec .vpn env instr rest m').mem := by
  cases h with
  | @deliver p queue hq =>
    by_cases hch : ∃ st msg, instr = .changeState st msg
    · obtain ⟨st, msg, rfl⟩ := hch
      have hq' : m.queue ++ [⟨st, msg⟩] = p :: (queue ++ [⟨st, msg⟩]) := by
        rw [hq, List.cons_append]
      exact ⟨rfl, rfl, .deliver (m := { m with queue := m.queue ++ [⟨st, msg⟩] }) hq'⟩
    · have hne : ∀ st msg, instr ≠ .changeState st msg := fun st msg h => hch ⟨st, msg, h⟩
      rw [exec_frame_queue hne]
      exact ⟨rfl, rfl, .deliver ((exec_queue hne).trans hq)⟩
  | daemons running unwritten pidFile =>
    obtain ⟨running', unwritten', pidFile', heff⟩ := @exec_frame_daemons .vpn env instr rest m
      running unwritten pidFile
    rw [heff]
    exact ⟨rfl, rfl, .daemons running' unwritten' pidFile'⟩

theorem ends_interferes {e : Env} {post : Memory → Prop} {code : List Instr} {m m' : Memory}
    (hpost : ∀ m m', Interferes m m' → post m → post m') (h : Ends (alone e) post code m)
    (hd : Interferes m m') : Ends (alone e) post code m' := by
  refine h.simulate hd hpost ?_
  rintro i rest m m' n' code hd ⟨up, rfl, rfl⟩
  obtain ⟨hcode, hspawned, hmem⟩ := @exec_interferes { e with daemonUp := up } i rest m m' hd
  exact ⟨_, ⟨up, rfl, by rw [hcode, hspawned]⟩, hmem⟩

/-- The run so far, and what it will come to. -/
structure Settles (e : Env) (post : Memory → Prop) (s : System) (code : List Instr) : Prop where
  lone : Lone s.threads code
  last : Follows spawnsLast code
  ends : Ends (alone e) post code s.mem

theorem lone_exec {l r : List Thread} {role : Role} {instr : Instr} {rest code : List Instr}
    {failed : Bool} (h : Lone (l ++ ⟨role, instr :: rest, failed⟩ :: r) code) :
    code = instr :: rest ∧ busy l = [] ∧ busy r = [] := by
  obtain ⟨⟨role', code', failed'⟩, rfl, hbusy⟩ := h
  cases code' with
  | nil => simp at hbusy
  | cons i rest' =>
    rw [busy_cons, busy_nil] at hbusy
    obtain ⟨heq, hl, hr⟩ := busy_split hbusy
    exact ⟨congrArg Thread.code heq, hl, hr⟩

/-- A statement of the only thread leaves one thread to run: the worker, if it was spawned. -/
theorem lone_statement {env : Env} {instr : Instr} {rest code : List Instr} {role : Role}
    {failed : Bool} {l r : List Thread} {m : Memory}
    (hlone : Lone (l ++ ⟨role, instr :: rest, failed⟩ :: r) code)
    (hlast : Follows spawnsLast code) :
    code = instr :: rest ∧
      Lone (l ++ ⟨role, (exec .vpn env instr rest m).code, failed || instr.fails⟩ :: r ++
        (exec .vpn env instr rest m).spawned)
        ((exec .vpn env instr rest m).code ++
          (exec .vpn env instr rest m).spawned.flatMap Thread.code) ∧
      Follows spawnsLast ((exec .vpn env instr rest m).code ++
        (exec .vpn env instr rest m).spawned.flatMap Thread.code) := by
  obtain ⟨rfl, hl, hr⟩ := lone_exec hlone
  refine ⟨rfl, ?_⟩
  by_cases hspawn : instr = .spawn
  · -- the caller ends here, and the worker takes over
    subst hspawn
    obtain rfl : rest = [] := hlast.1 rfl
    refine ⟨⟨⟨.worker, worker .vpn, false⟩, by simp [exec], ?_⟩, ?_⟩
    · simp only [busy_append, exec, busy_idle, hl, hr, List.nil_append]
    · simp [exec, worker, killProcesses, handleConnection, spawnsLast, Instr.isStart]
  · rw [exec_spawned hspawn, List.flatMap_nil, List.append_nil, List.append_nil]
    exact ⟨⟨_, rfl, busy_alone hl hr⟩, spawnsLast_exec hlast⟩

/-- **Step.**  The prospect of a run does not change along it. -/
theorem settles_step {e : Env} {post : Memory → Prop} {s t : System} {a : Action}
    {code : List Instr} (hpost : ∀ m m', Interferes m m' → post m → post m')
    (h : Settles e post s code) (hok : OneRequest e s a) (hv : View .vpn s a t) :
    ∃ code, Settles e post t code := by
  cases hv with
  | call hc => cases hc <;> exact hok.elim
  | refused hr => cases hr <;> exact hok.elim
  | receive _ hr => cases hr <;> exact hok.elim
  | command _ _ => exact hok.elim
  | @deliver p queue hq =>
    exact ⟨code, h.lone, h.last, ends_interferes hpost h.ends (.deliver hq)⟩
  | write _ => exact ⟨code, h.lone, h.last, ends_interferes hpost h.ends (.daemons _ _ _)⟩
  | @exec env instr rest role failed l r hth =>
    obtain ⟨up, rfl⟩ := hok
    have hlone := h.lone
    rw [hth] at hlone
    obtain ⟨rfl, hlone, hlast⟩ := lone_statement hlone h.last
    exact ⟨_, hlone, hlast, ends_cons.mp h.ends _ _ ⟨up, rfl, rfl⟩⟩

/-! ### One rule for each method -/

/-- The service's own receiver, if there is one, is registered. -/
def Announced (m : Memory) : Prop :=
  ∀ n, m.receiver .receiver = some n → (.receiver, n) ∈ m.registered

section Rules

variable {e : Env} {post : Memory → Prop} {rest : List Instr} {m : Memory}

theorem ends_exec {instr : Instr} (hi : instr ≠ .spawn)
    (h : ∀ up, Ends (alone e) post (exec .vpn { e with daemonUp := up } instr rest m).code
      (exec .vpn { e with daemonUp := up } instr rest m).mem) :
    Ends (alone e) post (instr :: rest) m := by
  refine ends_cons.mpr ?_
  rintro m' code ⟨up, rfl, rfl⟩
  rw [exec_spawned hi, List.flatMap_nil, List.append_nil]
  exact h up

theorem ends_killProcess {task : Task}
    (h : ∀ running, Ends (alone e) post rest { m with running := running }) :
    Ends (alone e) post (.killProcess task :: rest) m := by
  refine ends_exec (by simp) fun up => ?_
  simp only [exec]
  split
  · exact h _
  · exact h m.running

theorem ends_killProcesses
    (h : ∀ running, Ends (alone e) post rest { m with running := running }) :
    Ends (alone e) post (killProcesses .vpn ++ rest) m :=
  ends_killProcess fun _ => ends_killProcess fun _ => ends_killProcess fun _ =>
    ends_killProcess h

/-- Closing the tunnel. -/
theorem ends_ifConn (h : ∀ fds, Ends (alone e) post rest { m with conn := none, fds := fds }) :
    Ends (alone e) post (.ifConn :: rest) m := by
  refine ends_exec (by simp) fun _ => ?_
  cases hconn : m.conn with
  | none =>
    simp only [exec, hconn, Option.isSome_none, Bool.false_eq_true, if_false]
    have hm : { m with conn := none, fds := m.fds } = m := by rw [← hconn]
    exact hm ▸ h m.fds
  | some fd =>
    simp only [exec, hconn, Option.isSome_some, if_true]
    refine ends_exec (by simp) fun _ => ?_
    simp only [exec, hconn]
    exact ends_exec (by simp) fun _ => h _

/-- Unregistering the receiver, which is registered. -/
theorem ends_ifReceiver (hm : Announced m)
    (h : ∀ receiver registered,
      Ends (alone e) post rest { m with receiver := receiver, registered := registered }) :
    Ends (alone e) post (.ifReceiver .receiver :: rest) m := by
  refine ends_exec (by simp) fun _ => ?_
  cases hrec : m.receiver .receiver with
  | none =>
    simp only [exec, hrec, Option.isSome_none, Bool.false_eq_true, if_false]
    exact h m.receiver m.registered
  | some n =>
    simp only [exec, hrec, Option.isSome_some, if_true]
    refine ends_exec (by simp) fun _ => ?_
    simp only [exec, hrec, if_pos (hm n hrec)]
    exact ends_exec (by simp) fun _ => h _ _

theorem ends_stopRunner (hm : Announced m)
    (h : ∀ m' : Memory, m'.conn = none → m'.final = .stopped → m'.config = m.config →
      Ends (alone e) post rest m') :
    Ends (alone e) post (stopRunner .vpn ++ rest) m := by
  refine ends_exec (by simp) fun _ => ?_
  refine ends_killProcesses fun _ => ends_ifConn fun _ => ends_exec (by simp) fun _ => ?_
  refine ends_ifReceiver hm fun _ _ => ends_exec (by simp) fun _ => ?_
  exact h _ rfl (final_post _ _) rfl

theorem ends_serviceFailed (hm : Announced m)
    (h : ∀ m' : Memory, m'.conn = none → m'.final = .stopped → Ends (alone e) post rest m') :
    Ends (alone e) post (serviceFailed .vpn ++ rest) m :=
  ends_exec (by simp) fun _ => ends_stopRunner hm fun m' hconn hfinal _ => h m' hconn hfinal

/-- The memory of a worker that is about to connect. -/
structure Ready (m : Memory) : Prop where
  config : m.config ≠ none
  announced : Announced m

theorem ends_startDaemon {task : Task} (hm : Ready m)
    (h : ∀ m' : Memory, Ready m' → m'.conn = m.conn → Ends (alone e) post rest m') :
    Ends (alone e) post (.startDaemon task :: rest) m := by
  refine ends_exec (by simp) fun up => ?_
  obtain ⟨c, hc⟩ := Option.ne_none_iff_exists'.mp hm.config
  simp only [exec, hc]
  split
  · exact h _ ⟨hm.config, hm.announced⟩ rfl
  · exact h m hm rfl

theorem ends_startDaemons {tasks : List Task} (hm : Ready m)
    (h : ∀ m' : Memory, Ready m' → m'.conn = m.conn → Ends (alone e) post rest m') :
    Ends (alone e) post (tasks.map .startDaemon ++ rest) m := by
  induction tasks generalizing m with
  | nil => exact h m hm rfl
  | cons task tasks ih =>
    refine ends_startDaemon hm fun m' hm' hconn => ih hm' fun m'' hm'' hconn' => ?_
    exact h m'' hm'' (hconn'.trans hconn)

theorem ends_unlessUdpDns {tasks : List Task} (hm : Ready m)
    (h : ∀ m' : Memory, Ready m' → Ends (alone e) post rest m') :
    Ends (alone e) post (.unlessUdpDns tasks :: rest) m := by
  refine ends_exec (by simp) fun up => ?_
  obtain ⟨c, hc⟩ := Option.ne_none_iff_exists'.mp hm.config
  simp only [exec, hc]
  split
  · exact h m hm
  · exact ends_startDaemons hm fun m' hm' _ => h m' hm'

/-- With a descriptor, `startVpn` starts `tun2socks` and keeps the tunnel. -/
theorem ends_startVpn_descriptor (hm : Ready m) (he : e.establish = .descriptor)
    (h : ∀ m' : Memory, m'.conn ≠ none → Ends (alone e) post rest m') :
    Ends (alone e) post (.establish :: .ifTunnel :: rest) m := by
  refine ends_exec (by simp) fun _ => ?_
  obtain ⟨c, hc⟩ := Option.ne_none_iff_exists'.mp hm.config
  simp only [exec, hc, he]
  refine ends_exec (by simp) fun _ => ?_
  simp only [exec, Option.isSome_some, if_true]
  refine ends_exec (by simp) fun _ => ?_
  simp only [exec, Option.isSome_some, if_true]
  refine ends_startDaemon ⟨by simp, hm.announced⟩ fun m' _ hconn => h m' ?_
  rw [hconn]
  exact Option.some_ne_none _

/-- Without one, it cleans up, and its caller is not told. -/
theorem ends_startVpn_failed (hm : Ready m) (he : e.establish ≠ .descriptor)
    (h : ∀ m' : Memory, m'.conn = none → Ends (alone e) post rest m') :
    Ends (alone e) post (.establish :: .ifTunnel :: rest) m := by
  have htunnel : ∀ m' : Memory, m'.conn = none → Announced m' →
      Ends (alone e) post (.ifTunnel :: rest) m' := by
    intro m' hconn hann
    refine ends_exec (by simp) fun _ => ?_
    simp only [exec, hconn, Option.isSome_none, Bool.false_eq_true, if_false]
    exact ends_stopRunner hann fun m'' hconn' _ _ => h m'' hconn'
  refine ends_exec (by simp) fun _ => ?_
  obtain ⟨c, hc⟩ := Option.ne_none_iff_exists'.mp hm.config
  cases hest : e.establish with
  | descriptor => exact absurd hest he
  | null =>
    simp only [exec, hc]
    exact htunnel _ rfl hm.announced
  | illegalState =>
    simp only [exec, hc]
    exact ends_exec (by simp) fun _ => ends_exec (by simp) fun _ => htunnel _ rfl hm.announced
  | exception =>
    simp only [exec, hc]
    exact ends_exec (by simp) fun _ => htunnel _ rfl hm.announced

/-- The worker gets as far as `handleConnection`. -/
theorem ends_lookup {c : Config} (hc : m.config = some c) (hm : Announced m)
    (hcalled : EstablishCalled c e) (h : ∀ m' : Memory, Ready m' → Ends (alone e) post rest m') :
    Ends (alone e) post (.ifPublic :: .ifConfig :: (killProcesses .vpn ++ .resolve :: rest)) m := by
  have hresolve : ∀ m' : Memory, Ready m' → Ends (alone e) post
      (.ifConfig :: (killProcesses .vpn ++ .resolve :: rest)) m' := by
    intro m' hm'
    obtain ⟨c', hc'⟩ := Option.ne_none_iff_exists'.mp hm'.config
    refine ends_exec (by simp) fun _ => ?_
    simp only [exec, hc', Option.isSome_some, if_true]
    refine ends_killProcesses fun _ => ends_exec (by simp) fun _ => ?_
    simp only [exec, hc']
    split
    · exact h _ ⟨by simp, hm'.announced⟩
    · rename_i hip
      have hsome : e.resolve.isSome = true := by simpa [hip] using hcalled.2
      obtain ⟨addr, haddr⟩ := Option.isSome_iff_exists.mp hsome
      simp only [haddr]
      exact h _ ⟨by simp, hm'.announced⟩
  refine ends_exec (by simp) fun _ => ?_
  simp only [exec, hc]
  split
  · rename_i hproxy
    obtain ⟨p, hp⟩ := Option.ne_none_iff_exists'.mp (hcalled.1 hproxy)
    refine ends_exec (by simp) fun _ => ?_
    simp only [exec, hc, hp]
    exact hresolve _ ⟨by simp, hm⟩
  · exact hresolve m ⟨by simp [hc], hm⟩

/-- The worker fails before `handleConnection`. -/
theorem ends_lookup_failed {c : Config} (hc : m.config = some c) (hm : Announced m)
    (hcalled : ¬ EstablishCalled c e)
    (h : ∀ m' : Memory, m'.conn = none → m'.final = .stopped → post m') :
    Ends (alone e) post (.ifPublic :: .ifConfig :: (killProcesses .vpn ++ .resolve :: rest)) m := by
  have hresolve : ∀ m' : Memory, Ready m' →
      (e.isIPv4Address || e.isIPv6Address || e.resolve.isSome) = false → Ends (alone e) post
        (.ifConfig :: (killProcesses .vpn ++ .resolve :: rest)) m' := by
    intro m' hm' hunknown
    obtain ⟨c', hc'⟩ := Option.ne_none_iff_exists'.mp hm'.config
    obtain ⟨hip, hname⟩ := Bool.or_eq_false_iff.mp hunknown
    refine ends_exec (by simp) fun _ => ?_
    simp only [exec, hc', Option.isSome_some, if_true]
    refine ends_killProcesses fun _ => ends_exec (by simp) fun _ => ?_
    have hnone : e.resolve = none := by simpa using hname
    simp only [exec, hc', hip, hnone, Bool.false_eq_true, if_false]
    rw [← List.append_nil (serviceFailed .vpn)]
    exact ends_serviceFailed hm'.announced fun m'' hconn hfinal => .nil (h m'' hconn hfinal)
  refine ends_exec (by simp) fun _ => ?_
  simp only [exec, hc]
  split
  · rename_i hproxy
    refine ends_exec (by simp) fun _ => ?_
    cases hp : e.publicServer with
    | none =>
      -- `config` is cleared behind the failure, so the worker ends at its next test
      simp only [exec, hc]
      refine ends_serviceFailed hm fun m' hconn hfinal => ends_exec (by simp) fun _ => ?_
      exact ends_exec (by simp) fun _ => .nil (h _ hconn hfinal)
    | some p =>
      simp only [exec, hc]
      refine hresolve _ ⟨by simp, hm⟩ ?_
      simpa [EstablishCalled, hp] using hcalled
  · rename_i hproxy
    refine hresolve m ⟨by simp [hc], hm⟩ ?_
    simpa [EstablishCalled, hproxy] using hcalled

theorem ends_startRunner {c : Config} (he : e.prepared = true)
    (h : ∀ m' : Memory, m'.config = some c → Announced m' →
      Ends (alone e) post (worker .vpn) m') :
    Ends (alone e) post (startRunner c .vpn) m := by
  refine ends_exec (by simp) fun _ => ends_exec (by simp) fun _ => ?_
  simp only [exec, he, if_true]
  refine ends_exec (by simp) fun _ => ends_exec (by simp) fun _ => ?_
  simp only [exec, Function.update_self]
  refine ends_exec (by simp) fun _ => ends_cons.mpr ?_
  rintro m' code ⟨up, rfl, rfl⟩
  refine h _ rfl fun n hn => ?_
  rw [← Option.some.inj (hn : some m.fresh = some n)]
  exact List.mem_append_right _ (List.mem_singleton.mpr rfl)

end Rules

/-! ### One start request -/

section Run

variable {e : Env} {c : Config} {post : Memory → Prop} {s₀ s₁ s : System}

/-- **Run.**  What the sequential rules promise holds once the run is over. -/
theorem post_of_run (hpost : ∀ m m', Interferes m m' → post m → post m')
    (hends : Ends (alone e) post (startRunner c .vpn) s₀.mem) (hquiet : s₀.quiescent)
    (haccepts : s₀.mem.state.accepts) (hstart : step .vpn s₀ (.start c) = some s₁)
    (hrun : Reach (step .vpn) (OneRequest e) s₁ s) (hq : s.quiescent) :
    post s.mem ∧ s.mem.state = s.mem.final := by
  have h₁ : ∃ code, Settles e post s₁ code := by
    rw [step, next, if_pos haccepts, Option.map_some, Option.some_inj] at hstart
    rw [← hstart]
    exact ⟨startRunner c .vpn, lone_call (idle_of_quiescent hquiet).1, spawnsLast_startRunner c,
      hends⟩
  have hinv : ∃ code, Settles e post s code := by
    refine hrun.invariant (I := fun s => ∃ code, Settles e post s code) h₁ ?_
    rintro s a t ⟨code, hcode⟩ hok ht
    exact settles_step hpost hcode hok (step_view ht)
  obtain ⟨code, h⟩ := hinv
  obtain ⟨hidle, hqueue⟩ := idle_of_quiescent hq
  obtain rfl := lone_idle h.lone hidle
  exact ⟨ends_nil.mp h.ends, (final_of_queue_nil hqueue).symm⟩

/-- How a memory looks when everything is delivered, up to the deliveries. -/
def ComesTo (final : State) (tunnel : Bool) (m : Memory) : Prop :=
  m.final = final ∧ m.conn.isSome = tunnel

theorem comesTo_interferes {final : State} {tunnel : Bool} {m m' : Memory}
    (hd : Interferes m m') (h : ComesTo final tunnel m) : ComesTo final tunnel m' := by
  cases hd with
  | deliver hq => exact ⟨(final_deliver hq).trans h.1, h.2⟩
  | daemons _ _ _ => exact h

theorem ends_connected {m : Memory} (he : e.prepared = true) (hcalled : EstablishCalled c e)
    (hest : e.establish = .descriptor) :
    Ends (alone e) (ComesTo .connected true) (startRunner c .vpn) m := by
  refine ends_startRunner he fun m' hc hann => ends_lookup hc hann hcalled fun m'' hm => ?_
  refine ends_startDaemon hm fun _ hm _ => ends_unlessUdpDns hm fun _ hm => ?_
  refine ends_startVpn_descriptor hm hest fun m hconn => ends_exec (by simp) fun _ => .nil ?_
  exact ⟨final_post _ _, Option.isSome_iff_ne_none.mpr hconn⟩

theorem ends_untunnelled {m : Memory} (he : e.prepared = true) (hcalled : EstablishCalled c e)
    (hest : e.establish ≠ .descriptor) :
    Ends (alone e) (ComesTo .connected false) (startRunner c .vpn) m := by
  refine ends_startRunner he fun m' hc hann => ends_lookup hc hann hcalled fun m'' hm => ?_
  refine ends_startDaemon hm fun _ hm _ => ends_unlessUdpDns hm fun _ hm => ?_
  refine ends_startVpn_failed hm hest fun m hconn => ends_exec (by simp) fun _ => .nil ?_
  exact ⟨final_post _ _, Option.isSome_eq_false_iff.mpr (Option.isNone_iff_eq_none.mpr hconn)⟩

theorem ends_stopped {m : Memory} (he : e.prepared = true) (hcalled : ¬ EstablishCalled c e) :
    Ends (alone e) (ComesTo .stopped false) (startRunner c .vpn) m := by
  refine ends_startRunner he fun m' hc hann => ?_
  refine ends_lookup_failed hc hann hcalled fun m hconn hfinal => ⟨hfinal, ?_⟩
  exact Option.isSome_eq_false_iff.mpr (Option.isNone_iff_eq_none.mpr hconn)

/-- **`CONNECTED` means there is a tunnel** exactly if `builder.establish()` is
not reached or returns a descriptor. -/
theorem connected_iff_tunnel (hquiet : s₀.quiescent) (haccepts : s₀.mem.state.accepts)
    (he : e.prepared = true) (hstart : step .vpn s₀ (.start c) = some s₁)
    (hrun : Reach (step .vpn) (OneRequest e) s₁ s) (hq : s.quiescent) :
    TunnelAgrees s ↔ (EstablishCalled c e → e.establish = .descriptor) := by
  have hpost : ∀ {final tunnel}, Ends (alone e) (ComesTo final tunnel) (startRunner c .vpn) s₀.mem →
      s.mem.state = final ∧ s.mem.conn.isSome = tunnel := by
    intro final tunnel hends
    obtain ⟨⟨hfinal, hconn⟩, hstate⟩ := post_of_run (fun _ _ => comesTo_interferes) hends hquiet
      haccepts hstart hrun hq
    exact ⟨hstate.trans hfinal, hconn⟩
  by_cases hcalled : EstablishCalled c e
  · by_cases hest : e.establish = .descriptor
    · obtain ⟨hstate, hconn⟩ := hpost (ends_connected he hcalled hest)
      have hne : s.mem.conn ≠ none := Option.isSome_iff_ne_none.mp hconn
      exact ⟨fun _ _ => hest, fun _ => ⟨⟨fun _ => hne, fun _ => hstate⟩, fun h => absurd h hne⟩⟩
    · obtain ⟨hstate, hconn⟩ := hpost (ends_untunnelled he hcalled hest)
      have hnone : s.mem.conn = none := by simpa using hconn
      exact ⟨fun hagrees => absurd hnone (hagrees.1.mp hstate), fun h => absurd (h hcalled) hest⟩
  · obtain ⟨hstate, hconn⟩ := hpost (ends_stopped he hcalled)
    have hnone : s.mem.conn = none := by simpa using hconn
    have hne : s.mem.state ≠ .connected := by
      rw [hstate]
      exact State.noConfusion
    exact ⟨fun _ h => absurd h hcalled,
      fun _ => ⟨⟨fun h => absurd h hne, fun h => absurd hnone h⟩, fun _ => hstate⟩⟩

end Run

/-- `startRunner` runs to its end, then `n` statements of the worker, and `k`
runnables are delivered. -/
def wholeRun (e : Env) (n k : Nat) : List Action :=
  List.replicate 6 (.exec 1 e) ++ List.replicate n (.exec 2 e) ++ List.replicate k .deliver

theorem connected_iff_tunnel_sample :
    ∃ s₁ s, step .vpn System.initial (.start sampleConfig) = some s₁ ∧
      Reach (step .vpn) (OneRequest sampleEnv) s₁ s ∧ s.quiescent = true ∧ TunnelAgrees s := by
  have hrun : ((step .vpn System.initial (.start sampleConfig)).bind fun s₁ =>
      runWith (step .vpn) (OneRequest sampleEnv) s₁ (wholeRun sampleEnv 14 2)).any
        System.quiescent = true := by
    decide +kernel
  obtain ⟨s, hs, hq⟩ := (Option.any_eq_true _ _).mp hrun
  obtain ⟨s₁, hstart, hs⟩ := Option.bind_eq_some_iff.mp hs
  have hreach := reach_of_runWith hs
  exact ⟨s₁, s, hstart, hreach, hq,
    (connected_iff_tunnel rfl rfl rfl hstart hreach hq).mpr fun _ => rfl⟩

/-- **`CONNECTED` without a tunnel**: `builder.establish()` returns `null`. -/
theorem connected_without_tunnel :
    ∃ s₁ s, step .vpn System.initial (.start sampleConfig) = some s₁ ∧
      Reach (step .vpn) (OneRequest { sampleEnv with establish := .null }) s₁ s ∧
      s.quiescent = true ∧ s.mem.state = .connected ∧ s.mem.conn = none ∧ ¬ TunnelAgrees s := by
  have hrun : ((step .vpn System.initial (.start sampleConfig)).bind fun s₁ =>
      runWith (step .vpn) (OneRequest { sampleEnv with establish := .null }) s₁
        (wholeRun { sampleEnv with establish := .null } 23 4)).any
        (fun s => s.quiescent && s.mem.state == .connected && s.mem.conn == none) = true := by
    decide +kernel
  obtain ⟨s, hs, hq⟩ := (Option.any_eq_true _ _).mp hrun
  obtain ⟨s₁, hstart, hs⟩ := Option.bind_eq_some_iff.mp hs
  simp only [Bool.and_eq_true, beq_iff_eq] at hq
  obtain ⟨⟨hquiet, hstate⟩, hconn⟩ := hq
  refine ⟨s₁, s, hstart, reach_of_runWith hs, hquiet, hstate, hconn, fun hagrees => ?_⟩
  exact absurd hconn (hagrees.1.mp hstate)

end Service
