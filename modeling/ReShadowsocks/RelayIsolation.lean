/-
Who gets the answers of the UDP relay.

A connection that is reused keeps its socket, so answers to packets of its old
pair still arrive on it.  They are handed to the local address of the new pair if
they name its remote address.

* `Kept` — what the sockets were used for, against what they are bound to;
* `relay_isolated` — answers go to who asked, as long as no socket is bound again
  to a remote address for another local address;
* `leak_of_rebind` — a submission that does bind a socket so opens a leak;
* `relay_leaks` — two clients of one server, of which one gets the answer for the
  other.
-/
import ReShadowsocks.UdpRelay

namespace UdpRelay

open Transition

/-- If the datagram of `e'` answers the packet of `e`, it was handed to the
address the packet was submitted for. -/
def Matches : Event → Event → Prop
  | .sent p, .received con datagram call =>
    con = p.con → Names datagram p.conaddr.remoteAddr → call.localAddr = p.conaddr.localAddr
  | _, _ => True

/-- **Isolation**, of a history. -/
def Isolated (log : List Event) : Prop := log.Pairwise Matches

/-- The packet went from the socket `id` to the remote address of the pair, for
another local address. -/
def Event.SharesRemote (id : Nat) (conaddr : Conaddr) : Event → Prop
  | .sent p => p.con = id ∧ p.conaddr.remoteAddr = conaddr.remoteAddr ∧
      p.conaddr.localAddr ≠ conaddr.localAddr
  | .received _ _ _ => False

instance (id : Nat) (conaddr : Conaddr) : ∀ e, Decidable (Event.SharesRemote id conaddr e)
  | .sent _ => inferInstanceAs (Decidable (_ ∧ _ ∧ _))
  | .received _ _ _ => inferInstanceAs (Decidable False)

/-- The connection that a submission for the pair takes from another one. -/
def Client.evicts (c : Client) (conaddr : Conaddr) : Option Nat :=
  if c.findConnection conaddr = none ∧ c.numConnections = c.maxConnections then
    c.connectionsList.head?
  else none

/-- No socket is bound to a remote address to which it has sent for another local
address. -/
def KeepsRemote (s : System) : Action → Prop
  | .submit conaddr _ _ => ∀ id ∈ s.client.evicts conaddr, ∀ e ∈ s.log, ¬ e.SharesRemote id conaddr
  | .datagram _ _ => True

instance (s : System) : ∀ a, Decidable (KeepsRemote s a)
  | .submit conaddr _ _ => inferInstanceAs
      (Decidable (∀ id ∈ s.client.evicts conaddr, ∀ e ∈ s.log, ¬ e.SharesRemote id conaddr))
  | .datagram _ _ => inferInstanceAs (Decidable True)

/-! ### What sockets were used for -/

/-- The packet's socket still exists. -/
def Alive (c : Client) (p : Outgoing) : Prop := ∃ con, c.connection p.con = some con

/-- The packet's socket is not bound to its remote address, unless for the local
address of the packet. -/
def Kept (c : Client) (p : Outgoing) : Prop :=
  ∃ con, c.connection p.con = some con ∧
    (con.conaddr.remoteAddr = p.conaddr.remoteAddr → con.conaddr.localAddr = p.conaddr.localAddr)

section Submission

variable {c c' : Client} {conaddr : Conaddr} {id? : Option Nat} {p : Outgoing}

theorem evicts_eq (htree : c.connectionsTree conaddr = none)
    (hfull : c.numConnections = c.maxConnections) : c.evicts conaddr = c.connectionsList.head? :=
  if_pos ⟨htree, hfull⟩

/-- Only the connection that is taken from another pair is changed. -/
theorem Acquired.connection_eq {id : Nat} {con : Connection} (h : Acquired c conaddr c' id?)
    (hl : Linked c) (hcon : c.connection id = some con) (hid : id ∉ c.evicts conaddr) :
    c'.connection id = some con := by
  cases h with
  | found _ => exact hcon
  | @reused id' _ htree hfull hhead _ =>
    have hne : id ≠ id' := by
      rintro rfl
      rw [evicts_eq htree hfull] at hid
      exact hid hhead
    exact (Function.update_of_ne hne _ _).trans hcon
  | opened _ _ =>
    have hne : id ≠ c.fresh := by
      rintro rfl
      exact absurd (hl.fresh _ (Nat.le_refl _)) (by simp [hcon])
    exact (Function.update_of_ne hne _ _).trans hcon
  | failed _ _ => exact hcon

/-- The one that is taken is bound to the new pair. -/
theorem Acquired.connection_evicted {id : Nat} (h : Acquired c conaddr c' id?) (hl : Linked c)
    (hid : id ∈ c.evicts conaddr) : ∃ con, c'.connection id = some con ∧ con.conaddr = conaddr := by
  unfold Client.evicts at hid
  split at hid
  · rename_i hcond
    obtain ⟨htree, hfull⟩ := hcond
    cases h with
    | found hfound => exact absurd (htree.symm.trans hfound) (by simp)
    | @reused id' _ htree' hfull' hhead hcon =>
      have heq : id' = id := Option.some.inj (hhead.symm.trans hid)
      subst heq
      exact (Acquired.reused htree' hfull' hhead hcon).bound hl
    | opened _ hroom => exact absurd hfull hroom
    | failed _ hroom => exact absurd hfull hroom
  · exact absurd hid (by simp)

theorem Acquired.kept (h : Acquired c conaddr c' id?) (hl : Linked c) (hk : Kept c p)
    (hok : ∀ id ∈ c.evicts conaddr, ¬ (Event.sent p).SharesRemote id conaddr) : Kept c' p := by
  by_cases hid : p.con ∈ c.evicts conaddr
  · obtain ⟨con, hcon, haddr⟩ := h.connection_evicted hl hid
    refine ⟨con, hcon, fun hremote => ?_⟩
    rw [haddr] at hremote ⊢
    by_contra hne
    exact hok p.con hid ⟨rfl, hremote.symm, fun heq => hne heq.symm⟩
  · obtain ⟨con, hcon, himp⟩ := hk
    exact ⟨con, h.connection_eq hl hcon hid, himp⟩

theorem Acquired.alive (h : Acquired c conaddr c' id?) (hl : Linked c) (ha : Alive c p) :
    Alive c' p := by
  by_cases hid : p.con ∈ c.evicts conaddr
  · obtain ⟨con, hcon, -⟩ := h.connection_evicted hl hid
    exact ⟨con, hcon⟩
  · obtain ⟨con, hcon⟩ := ha
    exact ⟨con, h.connection_eq hl hcon hid⟩

/-- The packet that is sent goes out on a socket bound to its pair. -/
theorem submit_bound {data : List UInt8} {env : Env} {packet? : Option Outgoing}
    (hl : Linked c) (h : c.submitPacket conaddr data env = some (c', packet?))
    (hp : packet? = some p) :
    p.conaddr = conaddr ∧ ∃ con, c'.connection p.con = some con ∧ con.conaddr = conaddr := by
  obtain ⟨id?, hacq, hpacket⟩ := submit_cases h
  obtain ⟨id, con, rfl, hcon, rfl⟩ := hpacket p hp
  exact ⟨rfl, hacq.bound hl⟩

end Submission

/-! ### Histories -/

theorem isolated_append_sent {log : List Event} (h : Isolated log) (packet? : Option Outgoing) :
    Isolated (log ++ packet?.toList.map .sent) := by
  cases packet? with
  | none => simpa using h
  | some p =>
    refine List.pairwise_append.mpr ⟨h, List.pairwise_singleton _ _, ?_⟩
    intro e _ e' he'
    rw [List.mem_singleton.mp he']
    cases e <;> trivial

theorem mem_sent {log : List Event} {packet? : Option Outgoing} {p : Outgoing} :
    Event.sent p ∈ log ++ packet?.toList.map Event.sent ↔
      Event.sent p ∈ log ∨ packet? = some p := by
  cases packet? <;> simp [eq_comm]

theorem mem_received {log : List Event} {call? : Option Call} {id : Nat} {data : List UInt8}
    {p : Outgoing} : Event.sent p ∈ log ++ call?.toList.map (Event.received id data) ↔
      Event.sent p ∈ log := by
  cases call? <;> simp

/-- What `dgram_handler_received` hands over comes from the remote address of the
connection and goes to its local address. -/
theorem received_addrs {udpMtu : Int} {o : Connection} {data : List UInt8} {call : Call}
    (h : dgramHandlerReceived udpMtu o data = some call) :
    call.localAddr = o.conaddr.localAddr ∧
      ∃ payload, parse data = some (o.conaddr.remoteAddr, payload) := by
  unfold dgramHandlerReceived at h
  cases hp : parse data with
  | none => simp [hp] at h
  | some res =>
    obtain ⟨remoteAddr, payload⟩ := res
    simp only [hp] at h
    split at h
    · exact absurd h (by simp)
    · rename_i hremote
      split at h
      · exact absurd h (by simp)
      · rw [← Option.some.inj h]
        exact ⟨rfl, payload, by rw [not_not.mp hremote]⟩

/-! ### Runs -/

/-- Every packet that was sent is kept apart. -/
structure Safe (s : System) : Prop where
  linked : Linked s.client
  kept : ∀ p, Event.sent p ∈ s.log → Kept s.client p
  isolated : Isolated s.log

/-- **Step.**  A step that meets the condition keeps packets apart. -/
theorem safe_step {s s' : System} {a : Action} (h : Safe s) (hok : KeepsRemote s a)
    (hs : step s a = some s') : Safe s' := by
  have hl' := (linked_step hs h.linked).1
  cases a with
  | submit conaddr data env =>
    obtain ⟨packet?, hsubmit, hlog⟩ := step_submit hs
    obtain ⟨id?, hacq, -⟩ := submit_cases hsubmit
    refine ⟨hl', fun p hp => ?_, ?_⟩
    · rw [hlog, mem_sent] at hp
      -- a packet sent before may only have lost its socket to a pair of another server
      rcases hp with hp | hp
      · exact hacq.kept h.linked (h.kept p hp) fun id hid => hok id hid _ hp
      · obtain ⟨hpair, con, hcon, haddr⟩ := submit_bound h.linked hsubmit hp
        exact ⟨con, hcon, fun _ => by rw [haddr, hpair]⟩
    · rw [hlog]
      exact isolated_append_sent h.isolated packet?
  | datagram id data =>
    obtain ⟨o, ho, hclient, hlog⟩ := step_datagram hs
    refine ⟨hl', fun p hp => ?_, ?_⟩
    · rw [hlog, mem_received] at hp
      rw [hclient]
      exact h.kept p hp
    · rw [hlog]
      cases hcall : dgramHandlerReceived s.client.udpMtu o (data.take o.recvMtu.toNat) with
      | none => simpa using h.isolated
      | some call =>
        refine List.pairwise_append.mpr ⟨h.isolated, List.pairwise_singleton _ _, ?_⟩
        intro e he e' he'
        rw [List.mem_singleton.mp he']
        cases e with
        | received _ _ _ => trivial
        | sent p =>
          -- the datagram names what the socket is bound to, and answers `p`
          intro hid hnames
          obtain ⟨hlocal, payload, hparse⟩ := received_addrs hcall
          have hremote : o.conaddr.remoteAddr = p.conaddr.remoteAddr := parse_take hnames hparse
          obtain ⟨con, hcon, himp⟩ := h.kept p he
          rw [← hid, ho, Option.some_inj] at hcon
          subst hcon
          exact hlocal.trans (himp hremote)

/-- **Answers go to who asked**, in every run in which no socket is bound again
to a remote address for another local address. -/
theorem relay_isolated {udpMtu maxConnections : Int} {s : System}
    (h : Reach step KeepsRemote (System.init udpMtu maxConnections) s) : Isolated s.log := by
  have hsafe : Safe s := by
    refine h.invariant (I := Safe) ⟨linked_init udpMtu maxConnections, ?_, List.Pairwise.nil⟩
      fun _ _ _ hr hok hs => safe_step hr hok hs
    intro p hp
    exact absurd hp List.not_mem_nil
  exact hsafe.isolated

/-! ### The condition is needed -/

theorem alive_of_reach {udpMtu maxConnections : Int} {s : System}
    (h : Reach step anyStep (System.init udpMtu maxConnections) s) {p : Outgoing}
    (hp : Event.sent p ∈ s.log) : Alive s.client p := by
  have hinv : Linked s.client ∧ ∀ p, Event.sent p ∈ s.log → Alive s.client p := by
    refine h.invariant
      (I := fun s => Linked s.client ∧ ∀ p, Event.sent p ∈ s.log → Alive s.client p)
      ⟨linked_init udpMtu maxConnections, fun p hp => absurd hp List.not_mem_nil⟩ ?_
    rintro s a s' ⟨hl, ha⟩ - hs
    refine ⟨(linked_step hs hl).1, fun p hp => ?_⟩
    cases a with
    | submit conaddr data env =>
      obtain ⟨packet?, hsubmit, hlog⟩ := step_submit hs
      obtain ⟨id?, hacq, -⟩ := submit_cases hsubmit
      rw [hlog, mem_sent] at hp
      rcases hp with hp | hp
      · exact hacq.alive hl (ha p hp)
      · obtain ⟨-, con, hcon, -⟩ := submit_bound hl hsubmit hp
        exact ⟨con, hcon⟩
    | datagram id data =>
      obtain ⟨o, -, hclient, hlog⟩ := step_datagram hs
      rw [hlog, mem_received] at hp
      rw [hclient]
      exact ha p hp
  exact hinv.2 p hp

/-- A datagram that fits is handed over by the connection it names. -/
theorem received_frame {udpMtu : Int} {o : Connection} (hmtu : 22 ≤ udpMtu)
    (hrecv : o.recvMtu = udpMtu) :
    dgramHandlerReceived udpMtu o ((frame o.conaddr.remoteAddr []).take o.recvMtu.toNat) =
      some ⟨o.conaddr.localAddr, o.conaddr.remoteAddr, []⟩ := by
  have hlen : (frame o.conaddr.remoteAddr []).length ≤ o.recvMtu.toNat := by
    have hhead : o.conaddr.remoteAddr.headerLen ≤ 22 := by
      cases o.conaddr.remoteAddr <;> simp [BAddr.headerLen]
    rw [frame_length, List.length_nil]
    omega
  have hparse : parse (frame o.conaddr.remoteAddr []) = some (o.conaddr.remoteAddr, []) :=
    parse_named 0 0 _ []
  have hsmall : ¬ (((List.nil : List UInt8).length : Int) > udpMtu) := by
    rw [List.length_nil]
    omega
  rw [List.take_of_length_le hlen, dgramHandlerReceived, hparse]
  simp only [ne_eq, not_true_eq_false, if_false, if_neg hsmall]

/-- **Binding a socket so opens a leak**: the next answer to the old packet is
handed to the new local address. -/
theorem leak_of_rebind {udpMtu maxConnections : Int} {s : System} {conaddr : Conaddr}
    {data : List UInt8} {env : Env} (hmtu : 22 ≤ udpMtu)
    (h : Reach step anyStep (System.init udpMtu maxConnections) s)
    (hbad : ¬ KeepsRemote s (.submit conaddr data env)) :
    ∃ id s', run step s [.submit conaddr data env, .datagram id (frame conaddr.remoteAddr [])] =
      some s' ∧ ¬ Isolated s'.log := by
  obtain ⟨hl, hudp⟩ := linked_of_reach h
  unfold KeepsRemote at hbad
  push Not at hbad
  obtain ⟨id, hid, e, he, hshares⟩ := hbad
  cases e with
  | received _ _ _ => exact hshares.elim
  | sent p =>
    obtain ⟨rfl, hremote, hlocal⟩ := hshares
    obtain ⟨con, hcon⟩ := alive_of_reach h he
    -- the submission goes through
    obtain ⟨c, hacquire⟩ : ∃ c, s.client.acquire conaddr env.initOk = some (c, some p.con) := by
      unfold Client.evicts at hid
      split at hid
      · rename_i hcond
        have hhead : s.client.connectionsList.head? = some p.con := hid
        refine ⟨(s.client.rebind p.con con conaddr).moveToEnd p.con, ?_⟩
        simp only [Client.acquire, hcond.1, if_pos hcond.2, Client.reuseConnection, hhead, hcon,
          Option.map_some]
      · exact absurd hid (by simp)
    have hacq := acquire_cases hacquire
    obtain ⟨o, ho, haddr⟩ := hacq.bound hl
    have hrecv : o.recvMtu = c.udpMtu := ((hacq.linked hl).mtu _ o ho).2
    have hcudp : c.udpMtu = udpMtu := hacq.udpMtu.trans hudp
    obtain ⟨packet?, hsubmit⟩ : ∃ packet?,
        s.client.submitPacket conaddr data env = some (c, packet?) := by
      rw [Client.submitPacket, hacquire]
      exact ⟨_, rfl⟩
    have hcall := received_frame (o := o) (hcudp ▸ hmtu : 22 ≤ c.udpMtu) hrecv
    rw [haddr] at hcall
    have hrun : run step s
        [.submit conaddr data env, .datagram p.con (frame conaddr.remoteAddr [])] =
        some ⟨c, s.log ++ packet?.toList.map .sent ++
          [.received p.con (frame conaddr.remoteAddr [])
            ⟨conaddr.localAddr, conaddr.remoteAddr, []⟩]⟩ := by
      simp only [run, step, hsubmit, Option.map_some, Option.bind_some, ho, hcall,
        Option.toList_some, List.map_cons, List.map_nil]
    refine ⟨p.con, _, hrun, fun hiso => ?_⟩
    -- but then the old packet is answered to the new address
    have hmatch := (List.pairwise_append.mp hiso).2.2 (.sent p)
      (List.mem_append_left _ he) _ List.mem_cons_self
    exact hlocal (hmatch rfl (hremote ▸ names_frame conaddr.remoteAddr [])).symm

/-! ### Two clients of one server -/

/-- From port 4001 of the same host to the same server. -/
def otherClient : Conaddr := ⟨.ipv4 0x0A000001 4001, samplePair.remoteAddr⟩

/-- From port 4001 to another server. -/
def otherServer : Conaddr := ⟨.ipv4 0x0A000001 4001, .ipv4 0x02020202 53⟩

/-- A second pair takes over the only connection; then the two servers answer. -/
def takeover (conaddr : Conaddr) : List Action :=
  [.submit samplePair [1] ⟨true, true⟩, .submit conaddr [2] ⟨true, true⟩,
    .datagram 0 (frame samplePair.remoteAddr [3]), .datagram 0 (frame conaddr.remoteAddr [4])]

/-- With two servers the late answer is dropped and the other one handed over. -/
theorem relay_isolated_otherServer :
    ∃ s, Reach step KeepsRemote (System.init 1472 1) s ∧ s.log.length = 3 ∧ Isolated s.log := by
  have hrun : (runWith step KeepsRemote (System.init 1472 1) (takeover otherServer)).any
      (fun s => s.log.length == 3) = true := by
    decide +kernel
  obtain ⟨s, hreach, hlen⟩ := exists_reach_of_runWith hrun
  exact ⟨s, hreach, beq_iff_eq.mp hlen, relay_isolated hreach⟩

/-- **With one server the late answer goes to the other client.** -/
theorem relay_leaks :
    ∃ s, Reach step anyStep (System.init 1472 1) s ∧ ¬ Isolated s.log := by
  have hrun : (run step (System.init 1472 1) ((takeover otherClient).take 3)).any (fun s => s.log ==
      [.sent ⟨0, samplePair, frame samplePair.remoteAddr [1]⟩,
        .sent ⟨0, otherClient, frame samplePair.remoteAddr [2]⟩,
        .received 0 (frame samplePair.remoteAddr [3])
          ⟨otherClient.localAddr, samplePair.remoteAddr, [3]⟩]) = true := by
    decide +kernel
  obtain ⟨s, hreach, hlog⟩ := exists_reach_of_run hrun
  refine ⟨s, hreach, fun hiso => ?_⟩
  rw [beq_iff_eq.mp hlog] at hiso
  have hmatch := (List.pairwise_cons.mp hiso).1 _ (List.mem_cons_of_mem _ List.mem_cons_self)
  have heq : otherClient.localAddr = samplePair.localAddr := hmatch rfl (names_frame _ _)
  exact absurd heq (by decide)

end UdpRelay
