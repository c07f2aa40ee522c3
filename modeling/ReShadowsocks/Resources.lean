/-
The shutdown receiver and the tunnel descriptor of the VPN service.

`startRunner` registers a receiver and keeps it in a field, the worker keeps what
`builder.establish()` returns in another, and `stopRunner` gives back what it finds there.  Requests
are made one at a time here, each behind the worker and the posted state changes of the last one,
so that one thread runs at a time (`Lone`) and a request is described by the rules of `Keeps`, one
for each method of the source.

* `Balanced` — what is registered and open is what the fields hold, and nothing behind a stop;
* `balanced_iff` — it holds throughout a run exactly if `startRunner` goes past
  `VpnService.prepare` only while no receiver is registered;
* `leak_after_restart` — a start in state `CONNECTED` overwrites both fields, and the receiver and
  the descriptor of the first session are never given back.
-/
import ReShadowsocks.Tunnel

namespace Service

open Transition

/-! ### Requests, one at a time -/

/-- A request is made only when the last one has run to its end. -/
def OneAtATime (s : System) : Action → Prop
  | .start _ => s.quiescent
  | .stop => s.quiescent
  | .deliver => True
  | .writePid _ _ => True
  | .exec _ _ => True
  | _ => False

instance : ∀ s a, Decidable (OneAtATime s a)
  | s, .start _ => inferInstanceAs (Decidable (s.quiescent = true))
  | s, .stop => inferInstanceAs (Decidable (s.quiescent = true))
  | _, .deliver => inferInstanceAs (Decidable True)
  | _, .writePid _ _ => inferInstanceAs (Decidable True)
  | _, .exec _ _ => inferInstanceAs (Decidable True)
  | _, .doConnect _ => inferInstanceAs (Decidable False)
  | _, .revoke => inferInstanceAs (Decidable False)
  | _, .close => inferInstanceAs (Decidable False)
  | _, .shutdown => inferInstanceAs (Decidable False)
  | _, .startCommand => inferInstanceAs (Decidable False)

/-- The VPN service under start and stop requests that are made one at a time. -/
def sequentially (s : System) (a : Action) : Option System :=
  if OneAtATime s a then step .vpn s a else none

/-- What is registered and open is what the fields hold. -/
structure Owned (m : Memory) : Prop where
  registered : m.registered = [] ∨
    ∃ r, m.receiver .receiver = some r ∧ m.registered = [(.receiver, r)]
  fds : m.fds = [] ∨ ∃ fd, m.conn = some fd ∧ m.fds = [fd]

/-- The resources of the service are balanced: it owns what is registered and open, a request that
may be made is taken up, and behind a stop nothing is registered or open. -/
structure Balanced (s : System) : Prop where
  owned : Owned s.mem
  taken : s.quiescent → s.mem.state.accepts
  released : s.quiescent → s.last = some .stop → s.mem.registered = [] ∧ s.mem.fds = []

/-- `startRunner` makes a receiver only while none is registered. -/
def NoSession (s : System) : Action → Prop
  | .exec i _ => s.statement i = some (.newReceiver .receiver) → s.mem.registered = []
  | _ => True

instance : ∀ s a, Decidable (NoSession s a)
  | s, .exec i _ => inferInstanceAs
      (Decidable (s.statement i = some (.newReceiver .receiver) → s.mem.registered = []))
  | _, .start _ => inferInstanceAs (Decidable True)
  | _, .stop => inferInstanceAs (Decidable True)
  | _, .deliver => inferInstanceAs (Decidable True)
  | _, .writePid _ _ => inferInstanceAs (Decidable True)
  | _, .doConnect _ => inferInstanceAs (Decidable True)
  | _, .revoke => inferInstanceAs (Decidable True)
  | _, .close => inferInstanceAs (Decidable True)
  | _, .shutdown => inferInstanceAs (Decidable True)
  | _, .startCommand => inferInstanceAs (Decidable True)

/-! ### What the service holds -/

/-- What the service holds, and what there is. -/
def Memory.held (m : Memory) : Option Nat × List (Slot × Nat) × Option Nat × List Nat :=
  (m.receiver .receiver, m.registered, m.conn, m.fds)

/-- The receiver and the descriptor that the service holds, which are all there are. -/
structure Holds (r? fd? : Option Nat) (m : Memory) : Prop where
  receiver : m.receiver .receiver = r?
  registered : m.registered = r?.toList.map (Slot.receiver, ·)
  conn : m.conn = fd?
  fds : m.fds = fd?.toList

/-- How a request leaves the memory: with a whole session, or with nothing, which is so behind a
stop. -/
structure Settled (last : Option Request) (m : Memory) : Prop where
  session : Holds none none m ∨ ∃ r fd, Holds (some r) (some fd) m
  stopped : last = some .stop → Holds none none m
  final : m.final.accepts

section Rules

variable {r? fd? : Option Nat} {rest : List Instr} {m m' : Memory} {post : Memory → Prop}

theorem held_eq_iff : m'.held = m.held ↔ m'.receiver .receiver = m.receiver .receiver ∧
    m'.registered = m.registered ∧ m'.conn = m.conn ∧ m'.fds = m.fds := by
  simp only [Memory.held, Prod.mk.injEq]

theorem Holds.congr (h : Holds r? fd? m) (hsame : m'.held = m.held) : Holds r? fd? m' := by
  obtain ⟨hreceiver, hregistered, hconn, hfds⟩ := held_eq_iff.mp hsame
  exact ⟨hreceiver.trans h.receiver, hregistered.trans h.registered, hconn.trans h.conn,
    hfds.trans h.fds⟩

theorem Settled.session_congr {last : Option Request} (h : Settled last m)
    (hsame : m'.held = m.held) :
    Holds none none m' ∨ ∃ r fd, Holds (some r) (some fd) m' := by
  rcases h.session with hnone | ⟨r, fd, hsome⟩
  · exact .inl (hnone.congr hsame)
  · exact .inr ⟨r, fd, hsome.congr hsame⟩

theorem Holds.owned (h : Holds r? fd? m) : Owned m := by
  constructor
  · cases r? with
    | none => exact .inl h.registered
    | some r => exact .inr ⟨r, h.receiver, h.registered⟩
  · cases fd? with
    | none => exact .inl h.fds
    | some fd => exact .inr ⟨fd, h.conn, h.fds⟩

/-- What a statement of the only thread can leave behind it, if `startRunner` finds no session. -/
def unopened (instr : Instr) (rest : List Instr) (m m' : Memory) (code : List Instr) : Prop :=
  (instr = .newReceiver .receiver → m.registered = []) ∧
    ∃ env, m' = (exec .vpn env instr rest m).mem ∧
      code = (exec .vpn env instr rest m).code ++
        (exec .vpn env instr rest m).spawned.flatMap Thread.code

theorem keeps_exec {instr : Instr} (hi : instr ≠ .spawn) (hm : Owned m)
    (h : ∀ env, (instr = .newReceiver .receiver → m.registered = []) →
      Keeps unopened Owned post (exec .vpn env instr rest m).code
        (exec .vpn env instr rest m).mem) :
    Keeps unopened Owned post (instr :: rest) m := by
  refine .cons hm ?_
  rintro m' code ⟨hnew, env, rfl, rfl⟩
  rw [exec_spawned hi, List.flatMap_nil, List.append_nil]
  exact h env hnew

/-- Statements that touch neither the receiver nor the descriptor. -/
def Instr.plain : Instr → Bool
  | .changeState _ _ => true
  | .killProcess _ => true
  | .stopSelf => true
  | .startDaemon _ => true
  | _ => false

theorem exec_plain {env : Env} {instr : Instr} (hp : instr.plain)
    (hc : ∀ task, instr = .startDaemon task → m.config ≠ none) (hm : Holds r? fd? m) :
    (exec .vpn env instr rest m).code = rest ∧ Holds r? fd? (exec .vpn env instr rest m).mem ∧
      (exec .vpn env instr rest m).mem.config = m.config := by
  cases instr
  case changeState => exact ⟨rfl, hm.congr rfl, rfl⟩
  case stopSelf => exact ⟨rfl, hm.congr rfl, rfl⟩
  case killProcess =>
    simp only [exec]
    split
    · exact ⟨rfl, hm.congr rfl, rfl⟩
    · exact ⟨rfl, hm, rfl⟩
  case startDaemon task =>
    obtain ⟨c, hsome⟩ := Option.ne_none_iff_exists'.mp (hc task rfl)
    simp only [exec, hsome, true_and]
    split
    · exact ⟨hm.congr rfl, hsome⟩
    · exact ⟨hm, hsome⟩
  all_goals exact absurd hp (by simp [Instr.plain])

theorem keeps_plain {p : List Instr} (hp : ∀ i ∈ p, i.plain)
    (hc : ∀ task, .startDaemon task ∈ p → m.config ≠ none) (hm : Holds r? fd? m)
    (h : ∀ m', Holds r? fd? m' → m'.config = m.config → Keeps unopened Owned post rest m') :
    Keeps unopened Owned post (p ++ rest) m := by
  induction p generalizing m with
  | nil => exact h m hm rfl
  | cons i p ih =>
    rw [List.cons_append]
    have hplain := hp i List.mem_cons_self
    refine keeps_exec ?_ hm.owned fun env _ => ?_
    · rintro rfl
      exact absurd hplain (by simp [Instr.plain])
    · obtain ⟨hcode, hholds, hconfig⟩ := @exec_plain r? fd? (p ++ rest) m env i hplain
        (fun task hi => hc task (hi ▸ List.mem_cons_self)) hm
      rw [hcode]
      refine ih (fun j hj => hp j (List.mem_cons_of_mem _ hj)) ?_ hholds fun m' hm' hc' => ?_
      · intro task htask
        rw [hconfig]
        exact hc task (List.mem_cons_of_mem _ htask)
      · exact h m' hm' (hc'.trans hconfig)

/-- Closing the tunnel. -/
theorem keeps_ifConn (hm : Holds r? fd? m)
    (h : ∀ m', Holds r? none m' → m'.config = m.config → Keeps unopened Owned post rest m') :
    Keeps unopened Owned post (.ifConn :: rest) m := by
  refine keeps_exec (by simp) hm.owned fun _ _ => ?_
  cases fd? with
  | none =>
    simp only [exec, hm.conn, Option.isSome_none, Bool.false_eq_true, if_false]
    exact h m hm rfl
  | some fd =>
    have hclosed : m.fds.erase fd = [] := by rw [hm.fds, Option.toList_some, List.erase_cons_head]
    simp only [exec, hm.conn, Option.isSome_some, if_true]
    refine keeps_exec (by simp) hm.owned fun _ _ => ?_
    simp only [exec, hm.conn, hclosed]
    refine keeps_exec (by simp) ⟨hm.owned.registered, .inl rfl⟩ fun _ _ => ?_
    exact h _ ⟨hm.receiver, hm.registered, rfl, rfl⟩ rfl

/-- Unregistering the receiver. -/
theorem keeps_ifReceiver (hm : Holds r? fd? m)
    (h : ∀ m', Holds none fd? m' → m'.config = m.config → Keeps unopened Owned post rest m') :
    Keeps unopened Owned post (.ifReceiver .receiver :: rest) m := by
  refine keeps_exec (by simp) hm.owned fun _ _ => ?_
  cases r? with
  | none =>
    simp only [exec, hm.receiver, Option.isSome_none, Bool.false_eq_true, if_false]
    exact h m hm rfl
  | some r =>
    have hregistered : m.registered = [(.receiver, r)] := hm.registered
    simp only [exec, hm.receiver, Option.isSome_some, if_true]
    refine keeps_exec (by simp) hm.owned fun _ _ => ?_
    simp only [exec, hm.receiver, hregistered, List.mem_singleton, if_true, List.erase_cons_head]
    refine keeps_exec (by simp) ⟨.inl rfl, hm.owned.fds⟩ fun _ _ => ?_
    exact h _ ⟨rfl, rfl, hm.conn, hm.fds⟩ rfl

theorem keeps_stopRunner (hm : Holds r? fd? m)
    (h : ∀ m', Holds none none m' → m'.final = .stopped → m'.config = m.config →
      Keeps unopened Owned post rest m') :
    Keeps unopened Owned post (stopRunner .vpn ++ rest) m := by
  refine @keeps_plain r? fd? _ m post (.changeState .stopping none :: killProcesses .vpn)
    (by simp [killProcesses, Instr.plain]) (by simp [killProcesses]) hm fun m₁ hm₁ hc₁ => ?_
  refine keeps_ifConn hm₁ fun m₂ hm₂ hc₂ => ?_
  refine @keeps_plain r? none _ m₂ post [.stopSelf] (by simp [Instr.plain]) (by simp) hm₂
    fun m₃ hm₃ hc₃ => ?_
  refine keeps_ifReceiver hm₃ fun m₄ hm₄ hc₄ => ?_
  refine keeps_exec (by simp) hm₄.owned fun _ _ => ?_
  refine h _ (hm₄.congr rfl) (final_post _ _) ?_
  exact hc₄.trans (hc₃.trans (hc₂.trans hc₁))

theorem keeps_serviceFailed (hm : Holds r? fd? m)
    (h : ∀ m', Holds none none m' → m'.final = .stopped → Keeps unopened Owned post rest m') :
    Keeps unopened Owned post (serviceFailed .vpn ++ rest) m := by
  refine @keeps_plain r? fd? _ m post [.changeState .stopped (some .serviceFailed)]
    (by simp [Instr.plain]) (by simp) hm fun m' hm' _ => ?_
  exact keeps_stopRunner hm' fun m'' hm'' hfinal _ => h m'' hm'' hfinal

/-- `startVpn`, behind the daemons: a descriptor is kept, and without one everything is given
back. -/
theorem keeps_startVpn (hc : m.config ≠ none) (hm : Holds r? none m)
    (h : ∀ m', Holds none none m' ∨ (∃ fd, Holds r? (some fd) m') →
      Keeps unopened Owned post rest m') :
    Keeps unopened Owned post (.establish :: .ifTunnel :: rest) m := by
  have htunnel : ∀ m', Holds r? none m' → Keeps unopened Owned post (.ifTunnel :: rest) m' := by
    intro m' hm'
    refine keeps_exec (by simp) hm'.owned fun _ _ => ?_
    simp only [exec, hm'.conn, Option.isSome_none, Bool.false_eq_true, if_false]
    exact keeps_stopRunner hm' fun m'' hm'' _ _ => h m'' (.inl hm'')
  have hcleared : ∀ m', Holds r? none m' →
      Keeps unopened Owned post (.clearConn :: .ifTunnel :: rest) m' := by
    intro m' hm'
    refine keeps_exec (by simp) hm'.owned fun _ _ => htunnel _ ?_
    exact ⟨hm'.receiver, hm'.registered, rfl, hm'.fds⟩
  obtain ⟨c, hsome⟩ := Option.ne_none_iff_exists'.mp hc
  refine keeps_exec (by simp) hm.owned fun env _ => ?_
  cases hest : env.establish with
  | descriptor =>
    have hheld : Holds r? (some m.fresh)
        { m with
          config := some c
          conn := some m.fresh
          fds := m.fds ++ [m.fresh]
          fresh := m.fresh + 1 } :=
      ⟨hm.receiver, hm.registered, rfl, by rw [hm.fds]; rfl⟩
    simp only [exec, hsome, hest]
    refine keeps_exec (by simp) hheld.owned fun _ _ => ?_
    simp only [exec, Option.isSome_some, if_true]
    refine keeps_exec (by simp) hheld.owned fun _ _ => ?_
    simp only [exec, Option.isSome_some, if_true]
    refine @keeps_plain r? (some m.fresh) _ _ post [.startDaemon .tun2socks]
      (by simp [Instr.plain]) (by simp) hheld fun m' hm' _ => ?_
    exact h m' (.inr ⟨m.fresh, hm'⟩)
  | null =>
    simp only [exec, hsome, hest]
    exact htunnel _ ⟨hm.receiver, hm.registered, rfl, hm.fds⟩
  | illegalState =>
    simp only [exec, hsome, hest]
    refine @keeps_plain r? none _ m post [.changeState .stopped (some .exception)]
      (by simp [Instr.plain]) (by simp) hm fun m' hm' _ => hcleared m' hm'
  | exception =>
    simp only [exec, hsome, hest]
    exact hcleared m hm

theorem keeps_unlessUdpDns {tasks : List Task} (hc : m.config ≠ none) (hm : Holds r? fd? m)
    (h : ∀ m', Holds r? fd? m' → m'.config ≠ none → Keeps unopened Owned post rest m') :
    Keeps unopened Owned post (.unlessUdpDns tasks :: rest) m := by
  obtain ⟨c, hsome⟩ := Option.ne_none_iff_exists'.mp hc
  refine keeps_exec (by simp) hm.owned fun _ _ => ?_
  simp only [exec, hsome]
  split
  · exact h m hm hc
  · refine keeps_plain ?_ (fun _ _ => hc) hm fun m' hm' hc' => h m' hm' (hc' ▸ hc)
    intro i hi
    obtain ⟨task, -, rfl⟩ := List.mem_map.mp hi
    rfl

/-- The worker, once it has a server. -/
theorem keeps_handleConnection {r : Nat} (hc : m.config ≠ none) (hm : Holds (some r) none m)
    (h : ∀ m', Settled (some .start) m' → post m') :
    Keeps unopened Owned post (handleConnection .vpn ++ [.changeState .connected none]) m := by
  refine @keeps_plain _ _ _ m post [.startDaemon .ssLocal] (by simp [Instr.plain])
    (fun _ _ => hc) hm fun m₁ hm₁ hc₁ => ?_
  refine keeps_unlessUdpDns (hc₁ ▸ hc) hm₁ fun m₂ hm₂ hc₂ => ?_
  refine keeps_startVpn hc₂ hm₂ fun m₃ hm₃ => ?_
  -- the last statement changes the state only
  have hend : ∀ {r? fd?}, Holds r? fd? m₃ →
      (∀ m', m'.held = m₃.held → Holds none none m' ∨ ∃ r fd, Holds (some r) (some fd) m') →
      Keeps unopened Owned post [.changeState .connected none] m₃ := by
    intro r? fd? hheld hsession
    refine keeps_exec (by simp) hheld.owned fun _ _ => ?_
    refine .nil ⟨hheld.owned.registered, hheld.owned.fds⟩ (h _ ⟨hsession _ rfl, by simp, ?_⟩)
    rw [exec, final_post]
    rfl
  rcases hm₃ with hm₃ | ⟨fd, hm₃⟩
  · exact hend hm₃ fun _ hsame => .inl (hm₃.congr hsame)
  · exact hend hm₃ fun _ hsame => .inr ⟨r, fd, hm₃.congr hsame⟩

/-- The connect worker of a start that found no session. -/
theorem keeps_worker {r : Nat} (hc : m.config ≠ none) (hm : Holds (some r) none m)
    (h : ∀ m', Settled (some .start) m' → post m') :
    Keeps unopened Owned post (worker .vpn) m := by
  have hfailed : ∀ m', Holds none none m' → m'.final = .stopped → post m' := by
    intro m' hm' hfinal
    refine h m' ⟨.inl hm', by simp, ?_⟩
    rw [hfinal]
    rfl
  have hresolve : ∀ m', Holds (some r) none m' → m'.config ≠ none → Keeps unopened Owned post
      (.ifConfig :: (killProcesses .vpn ++ .resolve ::
        (handleConnection .vpn ++ [.changeState .connected none]))) m' := by
    intro m' hm' hc'
    refine keeps_exec (by simp) hm'.owned fun _ _ => ?_
    simp only [exec, Option.isSome_iff_ne_none.mpr hc', if_true]
    refine keeps_plain (by simp [killProcesses, Instr.plain]) (by simp [killProcesses]) hm'
      fun m₁ hm₁ hc₁ => ?_
    obtain ⟨c, hsome⟩ := Option.ne_none_iff_exists'.mp (hc₁ ▸ hc' : m₁.config ≠ none)
    refine keeps_exec (by simp) hm₁.owned fun env _ => ?_
    simp only [exec, hsome]
    split
    · exact keeps_handleConnection (by simp [hsome]) hm₁ h
    · cases env.resolve with
      | some addr =>
        exact keeps_handleConnection (by simp) (hm₁.congr rfl) h
      | none =>
        rw [← List.append_nil (serviceFailed .vpn)]
        exact keeps_serviceFailed hm₁ fun m₂ hm₂ hfinal => .nil hm₂.owned (hfailed m₂ hm₂ hfinal)
  obtain ⟨c, hsome⟩ := Option.ne_none_iff_exists'.mp hc
  refine keeps_exec (by simp) hm.owned fun _ _ => ?_
  simp only [exec, hsome]
  split
  · refine keeps_exec (by simp) hm.owned fun env _ => ?_
    cases hpublic : env.publicServer with
    | some p =>
      simp only [exec, hsome, hpublic]
      exact hresolve _ (hm.congr rfl) (by simp)
    | none =>
      -- `config` is cleared behind the failure, so the worker ends at its next test
      simp only [exec, hsome, hpublic]
      refine keeps_serviceFailed hm fun m₁ hm₁ hfinal => ?_
      refine keeps_exec (by simp) hm₁.owned fun _ _ => ?_
      have hm₂ : Holds none none { m₁ with config := none } := hm₁.congr rfl
      exact keeps_exec (by simp) hm₂.owned fun _ _ => .nil hm₂.owned (hfailed _ hm₂ hfinal)
  · exact hresolve m hm hc

theorem keeps_startRunner {c : Config} {last : Option Request} (hm : Settled last m)
    (h : ∀ m', Settled (some .start) m' → post m') :
    Keeps unopened Owned post (startRunner c .vpn) m := by
  have howned : Owned m := by
    rcases hm.session with h | ⟨r, fd, h⟩
    · exact h.owned
    · exact h.owned
  have howned' : Owned { m with config := some c } := ⟨howned.registered, howned.fds⟩
  refine keeps_exec (by simp) howned fun _ _ => keeps_exec (by simp) howned' fun env _ => ?_
  cases hprepared : env.prepared with
  | false =>
    simp only [exec, hprepared, Bool.false_eq_true, if_false]
    exact .nil howned' (h _ ⟨hm.session_congr rfl, by simp, hm.final⟩)
  | true =>
    simp only [exec, hprepared, if_true]
    refine keeps_exec (by simp) howned' fun _ hnew => ?_
    -- there is no session, so nothing is held
    have hnone : Holds none none m := by
      refine hm.session.resolve_right ?_
      rintro ⟨r, fd, h⟩
      have hregistered : m.registered = [(.receiver, r)] := h.registered
      exact absurd (hregistered.symm.trans (hnew rfl)) (by simp)
    refine keeps_exec (by simp) ⟨.inl hnone.registered, .inl hnone.fds⟩ fun _ _ => ?_
    simp only [exec, Function.update_self]
    have hheld : Holds (some m.fresh) none
        { m with
          config := some c
          receiver := Function.update m.receiver .receiver (some m.fresh)
          registered := m.registered ++ [(.receiver, m.fresh)]
          fresh := m.fresh + 1 } :=
      ⟨rfl, by rw [hnone.registered]; rfl, hnone.conn, hnone.fds⟩
    refine @keeps_plain _ _ _ _ post [.changeState .connecting none] (by simp [Instr.plain])
      (by simp) hheld fun m' hm' hc' => .cons hm'.owned ?_
    rintro m'' code ⟨-, env, rfl, rfl⟩
    exact keeps_worker (by simp [hc']) hm' h

end Rules

/-! ### Runs -/

section Runs

variable {s t : System} {a : Action} {code : List Instr} {last : Option Request} {m m' : Memory}

/-- Receivers are numbered below the next number. -/
def Numbered (m : Memory) : Prop := ∀ slot r, m.receiver slot = some r → r < m.fresh

theorem numbered_exec {env : Env} {instr : Instr} {rest : List Instr} (h : Numbered m) :
    Numbered (exec .vpn env instr rest m).mem := by
  have hgrows : ∀ {fresh}, m.fresh ≤ fresh → ∀ slot r, m.receiver slot = some r → r < fresh :=
    fun hle slot r hr => Nat.lt_of_lt_of_le (h slot r hr) hle
  have hupdate : ∀ slot (r? : Option Nat) fresh, (∀ r, r? = some r → r < fresh) →
      m.fresh ≤ fresh → ∀ slot' r, Function.update m.receiver slot r? slot' = some r →
        r < fresh := by
    intro slot r? fresh hnew hle slot' r hr
    by_cases heq : slot' = slot
    · subst heq
      rw [Function.update_self] at hr
      exact hnew r hr
    · rw [Function.update_of_ne heq] at hr
      exact hgrows hle slot' r hr
  cases instr
  case newReceiver slot =>
    refine hupdate slot (some m.fresh) (m.fresh + 1) (fun r hr => ?_) (Nat.le_succ _)
    rw [← Option.some.inj hr]
    exact Nat.lt_succ_self _
  case clearReceiver slot => exact hupdate slot none m.fresh (by simp) (Nat.le_refl _)
  all_goals
    simp only [exec]
    repeat' split
  all_goals first
    | exact h
    | exact hgrows (Nat.le_succ _)

/-- The run so far, and what it will come to. -/
structure Sound (s : System) (code : List Instr) : Prop where
  lone : Lone s.threads code
  last : Follows spawnsLast code
  keeps : Keeps unopened Owned (Settled s.last) code s.mem

theorem keeps_interferes (h : Keeps unopened Owned (Settled last) code m) (hd : Interferes m m') :
    Keeps unopened Owned (Settled last) code m' := by
  refine h.simulate hd ?_ ?_ ?_
  · rintro m _ (_ | _) hm
    · exact ⟨hm.registered, hm.fds⟩
    · exact ⟨hm.registered, hm.fds⟩
  · rintro m _ (hq | _) hm
    · refine ⟨hm.session_congr rfl, fun hstop => (hm.stopped hstop).congr rfl, ?_⟩
      rw [final_deliver hq]
      exact hm.final
    · exact ⟨hm.session_congr rfl, fun hstop => (hm.stopped hstop).congr rfl, hm.final⟩
  · rintro i rest m m' n' code hd ⟨hnew, env, rfl, rfl⟩
    obtain ⟨hcode, hspawned, hmem⟩ := @exec_interferes env i rest m m' hd
    refine ⟨_, ⟨fun hi => ?_, env, rfl, by rw [hcode, hspawned]⟩, hmem⟩
    cases hd with
    | deliver _ => exact hnew hi
    | daemons _ _ _ => exact hnew hi

theorem settled_of_quiescent (h : Sound s code) (hq : s.quiescent) : Settled s.last s.mem := by
  obtain rfl := lone_idle h.lone (idle_of_quiescent hq).1
  exact h.keeps.ended

theorem sound_initial : Sound System.initial [] := by
  have hnone : Holds none none System.initial.mem := ⟨rfl, rfl, rfl, rfl⟩
  refine ⟨⟨⟨.main, [], false⟩, rfl, rfl⟩, follows_nil, .nil hnone.owned ?_⟩
  exact ⟨.inl hnone, fun _ => hnone, rfl⟩

theorem balanced_of_sound (h : Sound s code) : Balanced s := by
  refine ⟨h.keeps.now, fun hq => ?_, fun hq hstop => ?_⟩
  · rw [← final_of_queue_nil (idle_of_quiescent hq).2]
    exact (settled_of_quiescent h hq).final
  · have hnone := (settled_of_quiescent h hq).stopped hstop
    exact ⟨hnone.registered, hnone.fds⟩

/-- **Step.**  The prospect of a run does not change along it. -/
theorem sound_step (h : Sound s code) (hone : OneAtATime s a) (hok : NoSession s a)
    (hv : View .vpn s a t) : ∃ code, Sound t code := by
  cases hv with
  | call hc =>
    cases hc with
    | start c hacc =>
      have hsettled := settled_of_quiescent h hone
      refine ⟨startRunner c .vpn, lone_call (idle_of_quiescent hone).1,
        spawnsLast_startRunner c, ?_⟩
      have hlast : (accepted s (.start c)).or s.last = some .start := by simp [accepted, hacc]
      rw [hlast]
      exact keeps_startRunner hsettled fun _ h => h
    | stop hacc =>
      have hsettled := settled_of_quiescent h hone
      refine ⟨stopRunner .vpn, lone_call (idle_of_quiescent hone).1, ?_, ?_⟩
      · rw [← List.append_nil (stopRunner .vpn)]
        exact follows_nil.append (spawnsLast_of_not_isStart isStart_stopRunner)
      · rw [← List.append_nil (stopRunner .vpn)]
        have hend : ∀ m', Holds none none m' → m'.final = .stopped →
            Settled ((accepted s .stop).or s.last) m' := by
          intro m' hm' hfinal
          refine ⟨.inl hm', fun _ => hm', ?_⟩
          rw [hfinal]
          rfl
        rcases hsettled.session with hheld | ⟨r, fd, hheld⟩
        · exact keeps_stopRunner hheld fun m' hm' hf _ => .nil hm'.owned (hend m' hm' hf)
        · exact keeps_stopRunner hheld fun m' hm' hf _ => .nil hm'.owned (hend m' hm' hf)
    | connect c _ => exact hone.elim
    | refused c _ => exact hone.elim
    | revoke _ => exact hone.elim
  | refused _ => exact ⟨code, h⟩
  | receive _ hr => cases hr <;> exact hone.elim
  | command _ _ => exact hone.elim
  | deliver hq => exact ⟨code, h.lone, h.last, keeps_interferes h.keeps (.deliver hq)⟩
  | write _ => exact ⟨code, h.lone, h.last, keeps_interferes h.keeps (.daemons _ _ _)⟩
  | @exec env instr rest role failed l r hth =>
    have hlone := h.lone
    rw [hth] at hlone
    obtain ⟨rfl, hlone, hlast⟩ := lone_statement hlone h.last
    refine ⟨_, hlone, hlast, h.keeps.onward ⟨fun hi => hok ?_, env, rfl, rfl⟩⟩
    simp [System.statement, hth, hi]

theorem numbered_view (h : Numbered s.mem) (hv : View .vpn s a t) : Numbered t.mem := by
  cases hv with
  | call _ => exact h
  | refused _ => exact h
  | receive _ _ => exact h
  | command _ _ => exact h
  | deliver _ => exact h
  | write _ => exact h
  | exec _ => exact numbered_exec h

/-- A receiver that is made while another one is registered takes its place in the field. -/
theorem not_balanced_of_session (h : Owned s.mem) (hnum : Numbered s.mem)
    (hok : ¬ NoSession s a) (hstep : step .vpn s a = some t) : ¬ Balanced t := by
  cases a with
  | exec i env =>
    obtain ⟨u, hu, rfl⟩ := Option.map_eq_some_iff.mp hstep
    obtain ⟨l, instr, rest, role, failed, r, rfl, hth, rfl⟩ := systemExec_eq_some hu
    have hstatement : s.statement l.length = some instr := by simp [System.statement, hth]
    rw [NoSession, hstatement] at hok
    obtain ⟨hinstr, hsession⟩ := Classical.not_imp.mp hok
    obtain rfl := Option.some.inj hinstr
    obtain ⟨n, hn, hregistered⟩ := h.registered.resolve_left hsession
    rintro ⟨⟨howned, -⟩, -, -⟩
    -- the new receiver has a number of its own
    rcases howned with hnone | ⟨n', hn', hregistered'⟩
    · exact hsession hnone
    · have hfresh : s.mem.fresh = n' := Option.some.inj hn'
      have hsame : s.mem.registered = [(.receiver, n')] := hregistered'
      rw [hregistered, List.singleton_inj, Prod.mk.injEq] at hsame
      have hlt := hnum .receiver n hn
      omega
  | start c => exact absurd trivial hok
  | stop => exact absurd trivial hok
  | doConnect c => exact absurd trivial hok
  | revoke => exact absurd trivial hok
  | close => exact absurd trivial hok
  | shutdown => exact absurd trivial hok
  | startCommand => exact absurd trivial hok
  | deliver => exact absurd trivial hok
  | writePid task pid => exact absurd trivial hok

theorem sequentially_eq_some (h : sequentially s a = some t) :
    OneAtATime s a ∧ step .vpn s a = some t := by
  unfold sequentially at h
  split at h
  · rename_i hone
    exact ⟨hone, h⟩
  · exact absurd h (by simp)

/-- **The resources are balanced throughout a run** of requests made one at a time exactly if no
start goes past `VpnService.prepare` while a session is open. -/
theorem balanced_iff {as : List Action} {s : System}
    (hrun : run sequentially System.initial as = some s) :
    Throughout sequentially Balanced System.initial as ↔
      runWith sequentially NoSession System.initial as = some s := by
  have hnumbered : Numbered System.initial.mem := fun _ _ hr => absurd hr (by simp [System.initial,
    Memory.initial])
  refine @throughout_iff_permitted _ _ sequentially NoSession _
    (fun s => (∃ code, Sound s code) ∧ Numbered s.mem) Balanced ?_ ?_ ?_ as _ s
    ⟨⟨[], sound_initial⟩, hnumbered⟩ hrun
  · rintro s ⟨⟨code, hsound⟩, -⟩
    exact balanced_of_sound hsound
  · rintro s a t ⟨⟨code, hsound⟩, hnum⟩ hstep hok
    obtain ⟨hone, hstep⟩ := sequentially_eq_some hstep
    exact ⟨sound_step hsound hone hok (step_view hstep), numbered_view hnum (step_view hstep)⟩
  · rintro s a t ⟨⟨code, hsound⟩, hnum⟩ hstep hok
    exact not_balanced_of_session hsound.keeps.now hnum hok (sequentially_eq_some hstep).2

end Runs

/-- A start up to `CONNECTED`, with every runnable delivered.  The caller is thread `i` and its
worker thread `i + 1`. -/
def startedAt (i : Nat) : List Action :=
  .start sampleConfig :: statements i 6 ++ statements (i + 1) 14 ++ [.deliver, .deliver]

/-- A stop on thread `i` that finds a session. -/
def stoppedAt (i : Nat) : List Action := .stop :: statements i 13 ++ [.deliver, .deliver]

theorem balanced_iff_one_session :
    ∃ s, run sequentially System.initial (startedAt 1 ++ stoppedAt 3) = some s ∧
      s.quiescent = true ∧
      Throughout sequentially Balanced System.initial (startedAt 1 ++ stoppedAt 3) := by
  have hany : (runWith sequentially NoSession System.initial (startedAt 1 ++ stoppedAt 3)).any
      System.quiescent = true := by
    decide +kernel
  obtain ⟨s, hpermitted, hquiet⟩ := (Option.any_eq_true _ _).mp hany
  have hrun := run_of_runWith hpermitted
  exact ⟨s, hrun, hquiet, (balanced_iff hrun).mpr hpermitted⟩

/-- **A start in state `CONNECTED` leaks the session**: behind the stop that follows, the receiver
and the descriptor of the first start are still there. -/
theorem leak_after_restart :
    ∃ s, run sequentially System.initial (startedAt 1 ++ startedAt 3 ++ stoppedAt 5) = some s ∧
      s.quiescent = true ∧ s.last = some .stop ∧ s.mem.registered = [(.receiver, 0)] ∧
      s.mem.fds = [2] ∧ ¬ Balanced s := by
  have hany : (run sequentially System.initial (startedAt 1 ++ startedAt 3 ++ stoppedAt 5)).any
      (fun s => s.quiescent && s.last == some .stop && s.mem.registered == [(.receiver, 0)] &&
        s.mem.fds == [2]) = true := by
    decide +kernel
  obtain ⟨s, hrun, hs⟩ := (Option.any_eq_true _ _).mp hany
  simp only [Bool.and_eq_true, beq_iff_eq] at hs
  obtain ⟨⟨⟨hquiet, hlast⟩, hregistered⟩, hfds⟩ := hs
  refine ⟨s, hrun, hquiet, hlast, hregistered, hfds, fun hbalanced => ?_⟩
  have hnone := (hbalanced.released hquiet hlast).2
  exact absurd (hfds.symm.trans hnone) (by simp)

end Service
