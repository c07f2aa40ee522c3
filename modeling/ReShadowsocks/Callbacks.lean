/-
The callbacks of `BaseService` and what they are told.

Clients register callbacks with the binder of a service.  `changeState` posts a runnable to
the main looper, and the runnable calls every callback that the `RemoteCallbackList` holds,
unless the counter `callbackCount`, which the service keeps beside the list, is 0.  The list
is a map keyed by binder, which drops the entry of a client that dies.

* `accounted_iff` — the counter is the number of callbacks held in every state of a run
  exactly if no call registers a callback that is held or takes out one that is not, and no
  client dies with its callback registered;
* `stopped_while_held` — a call that takes out a callback that was never registered;
* `notifications_exact` — a callback that stays registered is told exactly the values that the
  variable `state` takes.
-/
import Mathlib.Data.List.Destutter
import ReShadowsocks.Service

namespace Callbacks

open Transition Service

variable {Binder : Type} [DecidableEq Binder]

/-! ### The list -/

/-- A `RemoteCallbackList`: at most one entry for each binder. -/
structure CallbackList (Binder : Type) where
  held : List Binder
  nodup : held.Nodup
  deriving DecidableEq

namespace CallbackList

def empty : CallbackList Binder := ⟨[], List.nodup_nil⟩

def register (l : CallbackList Binder) (cb : Binder) : CallbackList Binder :=
  ⟨l.held.insert cb, l.nodup.insert⟩

def unregister (l : CallbackList Binder) (cb : Binder) : CallbackList Binder :=
  ⟨l.held.erase cb, l.nodup.erase cb⟩

end CallbackList

/-! ### The service -/

/-- What the service did, for the record. -/
inductive Event (Binder : Type)
  /-- A runnable changed the state: the callbacks held then, those it called and those whose
  call did not fail. -/
  | changed (post : Post) (held called reached : List Binder)
  /-- `stopBackgroundService` was called, with these callbacks held. -/
  | stopped (held : List Binder)
  deriving DecidableEq

/-- The part of `BaseService` that deals with callbacks. -/
structure Base (Binder : Type) where
  state : State
  callbackCount : Int
  callbacks : CallbackList Binder
  /-- The runnables posted to the main looper. -/
  queue : List Post
  log : List (Event Binder)

def Base.initial : Base Binder := ⟨.init, 0, .empty, [], []⟩

def Base.getState (s : Base Binder) : State := s.state

/-- `none` is the argument `null`. -/
def registerCallback (s : Base Binder) : Option Binder → Base Binder
  | some cb =>
    { s with callbacks := s.callbacks.register cb, callbackCount := s.callbackCount + 1 }
  | none => s

def unregisterCallback (s : Base Binder) (cb : Option Binder) : Base Binder :=
  let s := match cb with
    | some cb =>
      { s with callbacks := s.callbacks.unregister cb, callbackCount := s.callbackCount - 1 }
    | none => s
  if s.callbackCount = 0 ∧ s.state ≠ .connecting ∧ s.state ≠ .connected then
    { s with log := s.log ++ [.stopped s.callbacks.held] }
  else s

/-- `changeState` only posts. -/
def changeState (s : Base Binder) (p : Post) : Base Binder := { s with queue := s.queue ++ [p] }

/-- The runnable.  `reaches` says whose `stateChanged` does not throw; the exception of
another is ignored. -/
def runPosted (s : Base Binder) (p : Post) (reaches : Binder → Bool) : Base Binder :=
  if s.state ≠ p.state then
    let called := if s.callbackCount > 0 then s.callbacks.held else []
    { s with
      state := p.state
      log := s.log ++ [.changed p s.callbacks.held called (called.filter reaches)] }
  else s

inductive Action (Binder : Type)
  | registerCallback (cb : Option Binder)
  | unregisterCallback (cb : Option Binder)
  /-- The client of the binder dies. -/
  | died (cb : Binder)
  | changeState (post : Post)
  /-- The main looper takes the next runnable. -/
  | deliver (reaches : Binder → Bool)

def step (s : Base Binder) : Action Binder → Option (Base Binder)
  | .registerCallback cb => some (registerCallback s cb)
  | .unregisterCallback cb => some (unregisterCallback s cb)
  | .died cb => some { s with callbacks := s.callbacks.unregister cb }
  | .changeState p => some (changeState s p)
  | .deliver reaches =>
    match s.queue with
    | [] => none
    | p :: queue => some (runPosted { s with queue } p reaches)

/-! ### Accounting -/

/-- A change of state was sent to every callback held, and the service was stopped only when
none was. -/
def Event.Fair : Event Binder → Prop
  | .changed _ held called _ => held ⊆ called
  | .stopped held => held = []

instance : ∀ e : Event Binder, Decidable e.Fair
  | .changed _ held called _ => inferInstanceAs (Decidable (held ⊆ called))
  | .stopped held => inferInstanceAs (Decidable (held = []))

/-- **The counter is right**, and what is decided by it. -/
structure Accounted (s : Base Binder) : Prop where
  count : s.callbackCount = s.callbacks.held.length
  fair : ∀ e ∈ s.log, e.Fair

/-- Callbacks are registered once, and taken out by their clients. -/
def Proper (s : Base Binder) : Action Binder → Prop
  | .registerCallback cb => ∀ c ∈ cb, c ∉ s.callbacks.held
  | .unregisterCallback cb => ∀ c ∈ cb, c ∈ s.callbacks.held
  | .died cb => cb ∉ s.callbacks.held
  | _ => True

instance (s : Base Binder) : ∀ a, Decidable (Proper s a)
  | .registerCallback _ => inferInstanceAs (Decidable (∀ c ∈ _, _))
  | .unregisterCallback _ => inferInstanceAs (Decidable (∀ c ∈ _, _))
  | .died cb => inferInstanceAs (Decidable (cb ∉ s.callbacks.held))
  | .changeState _ => inferInstanceAs (Decidable True)
  | .deliver _ => inferInstanceAs (Decidable True)

section Accounting

variable {s t : Base Binder}

theorem length_register (l : CallbackList Binder) (cb : Binder) :
    (l.register cb).held.length = l.held.length + if cb ∈ l.held then 0 else 1 := by
  show (l.held.insert cb).length = _
  split
  · rename_i hmem
    rw [List.insert_of_mem hmem, Nat.add_zero]
  · rename_i hmem
    rw [List.insert_of_not_mem hmem, List.length_cons]

theorem length_unregister (l : CallbackList Binder) (cb : Binder) :
    (l.unregister cb).held.length + (if cb ∈ l.held then 1 else 0) = l.held.length := by
  show (l.held.erase cb).length + _ = _
  split
  · rename_i hmem
    have hpos := List.length_pos_of_mem hmem
    rw [List.length_erase_of_mem hmem]
    omega
  · rename_i hmem
    rw [List.erase_of_not_mem hmem, Nat.add_zero]

/-- What `unregisterCallback` does before it looks at the counter. -/
theorem unregisterCallback_cases (s : Base Binder) (cb : Option Binder) :
    (unregisterCallback s cb).callbackCount = s.callbackCount - (if cb.isSome then 1 else 0) ∧
    (unregisterCallback s cb).callbacks = cb.elim s.callbacks s.callbacks.unregister ∧
    ((unregisterCallback s cb).log = s.log ∨ (unregisterCallback s cb).callbackCount = 0 ∧
      (unregisterCallback s cb).log =
        s.log ++ [.stopped (unregisterCallback s cb).callbacks.held]) := by
  unfold unregisterCallback
  cases cb with
  | none =>
    simp only [Option.isSome_none, Option.elim_none]
    split
    · rename_i hstop
      exact ⟨by simp, rfl, .inr ⟨hstop.1, rfl⟩⟩
    · exact ⟨by simp, rfl, .inl rfl⟩
  | some cb =>
    simp only [Option.isSome_some, Option.elim_some]
    split
    · rename_i hstop
      exact ⟨by simp, rfl, .inr ⟨hstop.1, rfl⟩⟩
    · exact ⟨by simp, rfl, .inl rfl⟩

/-- The history stays fair as long as the counter is right. -/
theorem fair_unregisterCallback {cb : Option Binder} (h : ∀ e ∈ s.log, e.Fair)
    (hcount : (unregisterCallback s cb).callbackCount =
      (unregisterCallback s cb).callbacks.held.length) :
    ∀ e ∈ (unregisterCallback s cb).log, e.Fair := by
  obtain ⟨-, -, hlog | ⟨hzero, hlog⟩⟩ := unregisterCallback_cases s cb
  · rw [hlog]
    exact h
  · rw [hlog]
    intro e he
    rcases List.mem_append.mp he with he | he
    · exact h e he
    · rw [List.mem_singleton.mp he]
      refine List.eq_nil_of_length_eq_zero ?_
      omega

omit [DecidableEq Binder] in
theorem accounted_runPosted {p : Post} {reaches : Binder → Bool} (h : Accounted s) :
    Accounted (runPosted s p reaches) := by
  unfold runPosted
  split
  · refine ⟨h.count, fun e he => ?_⟩
    rcases List.mem_append.mp he with he | he
    · exact h.fair e he
    · rw [List.mem_singleton.mp he]
      show s.callbacks.held ⊆ if s.callbackCount > 0 then s.callbacks.held else []
      have hcount := h.count
      split
      · exact List.Subset.refl _
      · have hnil : s.callbacks.held = [] := List.eq_nil_of_length_eq_zero (by omega)
        rw [hnil]
        exact List.Subset.refl _
  · exact h

/-! What each request does to the difference of the counter and the list. -/

theorem count_register_iff (h : Accounted s) (cb : Binder) :
    s.callbackCount + 1 = ((s.callbacks.register cb).held.length : Int) ↔
      cb ∉ s.callbacks.held := by
  have hcount := h.count
  have hlen := length_register s.callbacks cb
  split at hlen
  · rename_i hmem
    exact ⟨fun heq => by omega, fun hnot => absurd hmem hnot⟩
  · rename_i hmem
    exact ⟨fun _ => hmem, fun _ => by omega⟩

theorem count_unregister_iff (h : Accounted s) (cb : Binder) :
    s.callbackCount - 1 = ((s.callbacks.unregister cb).held.length : Int) ↔
      cb ∈ s.callbacks.held := by
  have hcount := h.count
  have hlen := length_unregister s.callbacks cb
  split at hlen
  · rename_i hmem
    exact ⟨fun _ => hmem, fun _ => by omega⟩
  · rename_i hmem
    exact ⟨fun heq => by omega, fun hin => absurd hin hmem⟩

theorem count_died_iff (h : Accounted s) (cb : Binder) :
    s.callbackCount = ((s.callbacks.unregister cb).held.length : Int) ↔
      cb ∉ s.callbacks.held := by
  have hcount := h.count
  have hlen := length_unregister s.callbacks cb
  split at hlen
  · rename_i hmem
    exact ⟨fun heq => by omega, fun hnot => absurd hmem hnot⟩
  · rename_i hmem
    exact ⟨fun _ => hmem, fun _ => by omega⟩

/-- **Step.**  The counter stays right exactly if the step is a proper one. -/
theorem accounted_step (h : Accounted s) {a : Action Binder} (hs : step s a = some t) :
    Accounted t ↔ Proper s a := by
  cases a with
  | registerCallback cb =>
    obtain rfl := Option.some.inj hs
    cases cb with
    | none => exact ⟨fun _ c hc => absurd hc (by simp), fun _ => h⟩
    | some cb =>
      constructor
      · rintro ⟨hcount, -⟩ c hc
        obtain rfl : cb = c := Option.some.inj hc
        exact (count_register_iff h cb).mp hcount
      · intro hproper
        exact ⟨(count_register_iff h cb).mpr (hproper cb rfl), h.fair⟩
  | unregisterCallback cb =>
    obtain rfl := Option.some.inj hs
    obtain ⟨hcount, hcallbacks, -⟩ := unregisterCallback_cases s cb
    suffices hiff : (unregisterCallback s cb).callbackCount =
        (unregisterCallback s cb).callbacks.held.length ↔ Proper s (.unregisterCallback cb) from
      ⟨fun ht => hiff.mp ht.count, fun hp =>
        ⟨hiff.mpr hp, fair_unregisterCallback h.fair (hiff.mpr hp)⟩⟩
    rw [hcount, hcallbacks]
    cases cb with
    | none => exact ⟨fun _ c hc => absurd hc (by simp), fun _ => by simpa using h.count⟩
    | some cb =>
      simp only [Option.isSome_some, if_true, Option.elim_some, Proper, Option.mem_some_iff,
        forall_eq']
      exact count_unregister_iff h cb
  | died cb =>
    obtain rfl := Option.some.inj hs
    constructor
    · rintro ⟨hcount, -⟩
      exact (count_died_iff h cb).mp hcount
    · intro hproper
      exact ⟨(count_died_iff h cb).mpr hproper, h.fair⟩
  | changeState p =>
    obtain rfl := Option.some.inj hs
    exact ⟨fun _ => trivial, fun _ => ⟨h.count, h.fair⟩⟩
  | deliver reaches =>
    refine ⟨fun _ => trivial, fun _ => ?_⟩
    simp only [step] at hs
    split at hs
    · exact absurd hs (by simp)
    · rw [← Option.some.inj hs]
      exact accounted_runPosted ⟨h.count, h.fair⟩

/-- **Callback accounting.**  The counter is right throughout a run exactly if every step is
a proper one. -/
theorem accounted_iff {as : List (Action Binder)} {s : Base Binder}
    (h : run step Base.initial as = some s) :
    Throughout step Accounted Base.initial as ↔
      runWith step Proper Base.initial as = some s := by
  refine throughout_iff_runWith (fun s a t hs ht => accounted_step hs ht) ⟨rfl, ?_⟩ h
  intro e he
  exact absurd he List.not_mem_nil

end Accounting

/-- Two clients come and one goes. -/
def proper : List (Action Nat) :=
  [.registerCallback (some 1), .registerCallback (some 2), .registerCallback none,
    .unregisterCallback (some 1), .changeState ⟨.connecting, none⟩, .deliver fun _ => true]

theorem accounted_iff_proper :
    ∃ s, run step Base.initial proper = some s ∧ s.callbackCount = 1 ∧
      Throughout step Accounted Base.initial proper := by
  have hrun : (runWith step Proper Base.initial proper).any
      (fun s => s.callbackCount == 1) = true := by
    decide +kernel
  obtain ⟨s, hs, hcount⟩ := (Option.any_eq_true _ _).mp hrun
  have hplain := run_of_runWith hs
  exact ⟨s, hplain, beq_iff_eq.mp hcount, (accounted_iff hplain).mpr hs⟩

/-- A client registers; another one, which never did, takes its callback out; then the state
changes. -/
def stray : List (Action Nat) :=
  [.registerCallback (some 1), .unregisterCallback (some 2), .changeState ⟨.connecting, none⟩,
    .deliver fun _ => true]

/-- **The service is stopped while a callback is held**, which is not told of the next change
of state either. -/
theorem stopped_while_held :
    ∃ s : Base Nat, Reach step anyStep Base.initial s ∧
      s.callbackCount ≠ s.callbacks.held.length ∧
      (∃ held, .stopped held ∈ s.log ∧ held ≠ []) ∧
      ∃ post held called reached, .changed post held called reached ∈ s.log ∧
        ¬ held ⊆ called := by
  have hrun : (run step Base.initial stray).any (fun s => s.callbackCount == 0 &&
      s.callbacks.held == [1] &&
      s.log == [.stopped [1], .changed ⟨.connecting, none⟩ [1] [] []]) = true := by
    decide +kernel
  obtain ⟨s, hreach, hs⟩ := exists_reach_of_run hrun
  simp only [Bool.and_eq_true, beq_iff_eq] at hs
  obtain ⟨⟨hcount, hheld⟩, hlog⟩ := hs
  refine ⟨s, hreach, ?_, ⟨[1], by simp [hlog], by simp⟩, ?_⟩
  · rw [hcount, hheld]
    decide
  · exact ⟨⟨.connecting, none⟩, [1], [], [], by simp [hlog], by simp⟩

/-! ### Notifications -/

/-- The values that a callback was told. -/
def received (cb : Binder) (log : List (Event Binder)) : List State :=
  log.filterMap fun
    | .changed post _ _ reached => if cb ∈ reached then some post.state else none
    | .stopped _ => none

/-- The callback is registered and counted, and a call of it does not fail. -/
def Stays (cb : Binder) (s : Base Binder) (a : Action Binder) : Prop :=
  cb ∈ s.callbacks.held ∧ 1 ≤ s.callbackCount ∧
    match a with
    | .deliver reaches => reaches cb = true
    | _ => True

instance (cb : Binder) (s : Base Binder) : ∀ a, Decidable (Stays cb s a)
  | .registerCallback _ => inferInstanceAs (Decidable (_ ∧ _ ∧ True))
  | .unregisterCallback _ => inferInstanceAs (Decidable (_ ∧ _ ∧ True))
  | .died _ => inferInstanceAs (Decidable (_ ∧ _ ∧ True))
  | .changeState _ => inferInstanceAs (Decidable (_ ∧ _ ∧ True))
  | .deliver reaches => inferInstanceAs (Decidable (_ ∧ _ ∧ reaches cb = true))

section Notifications

variable {cb : Binder} {s t u : Base Binder}

/-- **Step.**  Either the state stays and the callback hears nothing, or the state changes
and the callback is told. -/
theorem told_step {a : Action Binder} (hok : Stays cb s a) (hs : step s a = some t) :
    ∃ events, t.log = s.log ++ events ∧
      ((t.state = s.state ∧ received cb events = []) ∨
        (t.state ≠ s.state ∧ received cb events = [t.state])) := by
  obtain ⟨hheld, hcount, hreach⟩ := hok
  cases a with
  | registerCallback cb' =>
    obtain rfl := Option.some.inj hs
    cases cb' <;> exact ⟨[], (List.append_nil _).symm, .inl ⟨rfl, rfl⟩⟩
  | unregisterCallback cb' =>
    obtain rfl := Option.some.inj hs
    have hstate : (unregisterCallback s cb').state = s.state := by
      unfold unregisterCallback
      cases cb' <;> simp only <;> split <;> rfl
    obtain ⟨-, -, hlog | ⟨-, hlog⟩⟩ := unregisterCallback_cases s cb'
    · exact ⟨[], by rw [hlog, List.append_nil], .inl ⟨hstate, rfl⟩⟩
    · exact ⟨_, hlog, .inl ⟨hstate, rfl⟩⟩
  | died cb' =>
    obtain rfl := Option.some.inj hs
    exact ⟨[], (List.append_nil _).symm, .inl ⟨rfl, rfl⟩⟩
  | changeState p =>
    obtain rfl := Option.some.inj hs
    exact ⟨[], (List.append_nil _).symm, .inl ⟨rfl, rfl⟩⟩
  | deliver reaches =>
    simp only [step] at hs
    split at hs
    · exact absurd hs (by simp)
    · rename_i p queue hq
      obtain rfl := Option.some.inj hs
      -- the filter is evaluated when the runnable runs, not when it is posted
      by_cases hsame : s.state = p.state
      · rw [runPosted, if_neg (by simpa using hsame)]
        exact ⟨[], (List.append_nil _).symm, .inl ⟨rfl, rfl⟩⟩
      · rw [runPosted, if_pos hsame]
        refine ⟨_, rfl, .inr ⟨Ne.symm hsame, ?_⟩⟩
        have hcalled : cb ∈ (if s.callbackCount > 0 then s.callbacks.held else []).filter
            reaches := by
          rw [if_pos (show s.callbackCount > 0 by omega)]
          exact List.mem_filter.mpr ⟨hheld, hreach⟩
        simp [received, hcalled]

/-- **Run.**  What the callback hears is what the variable goes through, without repetitions. -/
theorem told_run : ∀ {as : List (Action Binder)} {s u : Base Binder},
    runWith step (Stays cb) s as = some u →
    ∃ events, u.log = s.log ++ events ∧
      ((visited step s as).map Base.state).destutter (· ≠ ·) =
        s.state :: received cb events ∧
      (s.state :: received cb events).getLast? = some u.state
  | [], s, u, h => by
    obtain rfl : s = u := Option.some.inj h
    exact ⟨[], (List.append_nil _).symm, rfl, rfl⟩
  | a :: as, s, u, h => by
    obtain ⟨hok, t, ht, hrest⟩ := runWith_cons h
    obtain ⟨events, hlog, hcase⟩ := told_step hok ht
    obtain ⟨events', hlog', hvalues, hlast⟩ := told_run hrest
    have happ : received cb (events ++ events') = received cb events ++ received cb events' :=
      List.filterMap_append
    refine ⟨events ++ events', by rw [hlog', hlog, List.append_assoc], ?_⟩
    obtain ⟨states, hstates⟩ :
        ∃ states, (visited step t as).map Base.state = t.state :: states := by
      cases as with
      | nil => exact ⟨[], rfl⟩
      | cons b as => exact ⟨_, rfl⟩
    rw [visited_cons as ht, List.map_cons, hstates, List.destutter_cons']
    rw [hstates, List.destutter_cons'] at hvalues
    rw [happ]
    rcases hcase with ⟨hsame, hnone⟩ | ⟨hchange, hone⟩
    · rw [hnone, List.nil_append, ← hsame]
      rw [List.destutter'_cons_neg _ (by simp)]
      exact ⟨hvalues, hlast⟩
    · rw [hone, List.destutter'_cons_pos _ (Ne.symm hchange), hvalues]
      exact ⟨rfl, by simpa using hlast⟩

/-- **State notifications are exact.**  A callback that stays registered is told the values
that the variable takes after its first one, in order, none twice in a row, and the last
value is the current one. -/
theorem notifications_exact {as : List (Action Binder)} {s u : Base Binder}
    (h : runWith step (Stays cb) { s with log := [] } as = some u) :
    ((visited step { s with log := [] } as).map Base.state).destutter (· ≠ ·) =
        s.state :: received cb u.log ∧
      (s.state :: received cb u.log).IsChain (· ≠ ·) ∧
      (s.state :: received cb u.log).getLast? = some u.getState := by
  obtain ⟨events, hlog, hvalues, hlast⟩ := told_run h
  obtain rfl : u.log = events := by simpa using hlog
  refine ⟨hvalues, ?_, hlast⟩
  have hchain := List.isChain_destutter (· ≠ ·)
    ((visited step { s with log := [] } as).map Base.state)
  rw [hvalues] at hchain
  exact hchain

end Notifications

/-- The same state is posted twice, and a client comes whose calls fail. -/
def session : List (Action Nat) :=
  [.changeState ⟨.connecting, none⟩, .changeState ⟨.connecting, none⟩,
    .registerCallback (some 2), .deliver (· == 1), .changeState ⟨.connected, none⟩, .died 2,
    .deliver (· == 1), .deliver (· == 1)]

theorem notifications_exact_session :
    ∃ u : Base Nat, runWith step (Stays 1) ⟨.init, 1, ⟨[1], by simp⟩, [], []⟩ session = some u ∧
      State.init :: received 1 u.log = [.init, .connecting, .connected] ∧
      (State.init :: received 1 u.log).getLast? = some u.getState := by
  have hrun : (runWith step (Stays 1) ⟨.init, 1, ⟨[1], by simp⟩, [], []⟩ session).any
      (fun u => received 1 u.log == [.connecting, .connected]) = true := by
    decide +kernel
  obtain ⟨u, hu, hreceived⟩ := (Option.any_eq_true _ _).mp hrun
  have hexact := notifications_exact (s := ⟨.init, 1, ⟨[1], by simp⟩, [], []⟩) hu
  exact ⟨u, hu, congrArg _ (beq_iff_eq.mp hreceived), hexact.2.2⟩

end Callbacks
