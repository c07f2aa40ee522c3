/-
Closing sessions that have expired.

Two mechanisms broadcast `Action.CLOSE` when the user's time is up.  The
expiration timer of `ReindeerVpnService` looks at the stored user record every
ten seconds and at the wall clock.  An alarm, set when a configuration is
applied, goes off when the clock that counts from boot has advanced by
`expires_after`.  A later configuration replaces the alarm if it sets one; it
never cancels it.

* `configured_expiration` — the stored expiration, without overflow;
* `Timely` — what the alarm and the record have to do with each other;
* `close_justified` — sessions are closed only when they have expired, as long as
  the record asks for it: see `Honoured`;
* `close_unjustified` — a session closed by the timer, and one closed by an old
  alarm, whose user was not to be disconnected.
-/
import Mathlib.Tactic.Common
import ReShadowsocks.JavaLong
import ReShadowsocks.Transition

namespace Expiry

open JavaLong Transition

/-- The object `user` of a configuration.  Fields may be absent. -/
structure Data where
  expiresAfter : Option Int
  disconnectWhenExpire : Option Bool
  deriving DecidableEq, Repr

namespace Data

def optExpiresAfter (data : Data) : Int := data.expiresAfter.getD 0

def optDisconnectWhenExpire (data : Data) : Bool := data.disconnectWhenExpire.getD true

end Data

/-- The stored record: what the configuration had, and the local expiration time
in seconds. -/
structure User where
  data : Data
  expiration : Int
  deriving DecidableEq, Repr

/-- Java's division rounds towards zero. -/
def setCurrentUser (now : Int) (data : Data) : User where
  data := data
  expiration := (toLong (now + toLong (data.optExpiresAfter * 1000))).tdiv 1000

/-- The alarm that is pending after the call, if `alarm` was before.  It is one
`PendingIntent`, so a new alarm replaces the old one. -/
def setProfileFromConfiguration (elapsedRealtime : Int) (data : Data) (alarm : Option Int) :
    Option Int :=
  if data.optDisconnectWhenExpire then
    let distance := toLong (data.optExpiresAfter * 1000)
    if distance > 0 then some (toLong (elapsedRealtime + distance)) else alarm
  else alarm

def isVip (now : Int) (user : User) : Bool :=
  decide (toLong (user.expiration - now.tdiv 1000) > 60 * 60)

/-- The decision of the expiration timer. -/
def needClose (now : Int) : Option User → Bool
  | none => true
  | some user =>
    if isVip now user then false
    else if user.data.optDisconnectWhenExpire then
      !decide (now < toLong (user.expiration * 1000))
    else true

/-! ### Runs -/

/-- An `Action.CLOSE` broadcast, with the record and the time when it was sent. -/
structure Close where
  user : Option User
  now : Int
  deriving DecidableEq, Repr

/-- `now` is the wall clock, `elapsedRealtime` the clock that counts from boot,
both in milliseconds; `alarm` is the time of the pending alarm. -/
structure State where
  now : Int
  elapsedRealtime : Int
  user : Option User
  alarm : Option Int
  closes : List Close
  deriving DecidableEq, Repr

def State.initial (now elapsedRealtime : Int) : State := ⟨now, elapsedRealtime, none, none, []⟩

def State.close (s : State) : State := { s with closes := s.closes ++ [⟨s.user, s.now⟩] }

inductive Action
  /-- A configuration arrives; its user is stored and its alarm set. -/
  | configure (data : Data)
  /-- Time passes, and the wall clock may be set. -/
  | clock (now elapsedRealtime : Int)
  | timer
  | alarm
  deriving DecidableEq, Repr

def step (s : State) : Action → Option State
  | .configure data =>
    some { s with
      user := some (setCurrentUser s.now data)
      alarm := setProfileFromConfiguration s.elapsedRealtime data s.alarm }
  | .clock now elapsedRealtime =>
    if 0 ≤ now ∧ s.elapsedRealtime ≤ elapsedRealtime then some { s with now, elapsedRealtime }
    else none
  | .timer => some (if needClose s.now s.user then s.close else s)
  | .alarm =>
    match s.alarm with
    | none => none
    | some time => if time ≤ s.elapsedRealtime then some { s with alarm := none }.close else none

/-- The user was to be disconnected, and had expired. -/
def Close.Justified (c : Close) : Prop :=
  ∃ user ∈ c.user, user.data.optDisconnectWhenExpire = true ∧ user.expiration * 1000 ≤ c.now

/-- The times that a configuration leads to can be represented. -/
def Fits (s : State) (data : Data) : Prop :=
  IsLong (data.optExpiresAfter * 1000) ∧ IsLong (s.now + data.optExpiresAfter * 1000) ∧
    IsLong (s.elapsedRealtime + data.optExpiresAfter * 1000)

instance (s : State) (data : Data) : Decidable (Fits s data) :=
  inferInstanceAs (Decidable (_ ∧ _ ∧ _))

/-- While an alarm is pending no configuration comes that says not to disconnect,
and the wall clock does not fall behind the other one.  When the timer goes off
there is a record, and it says to disconnect or has more than an hour left. -/
def Honoured (s : State) : Action → Prop
  | .configure data => Fits s data ∧ (s.alarm = none ∨ data.optDisconnectWhenExpire = true)
  | .clock now elapsedRealtime =>
    s.alarm = none ∨ elapsedRealtime - s.elapsedRealtime ≤ now - s.now
  | .timer => ∃ user ∈ s.user, user.data.optDisconnectWhenExpire = true ∨ isVip s.now user = true
  | .alarm => True

instance (s : State) : ∀ a, Decidable (Honoured s a)
  | .configure _ => inferInstanceAs (Decidable (_ ∧ (_ ∨ _)))
  | .clock _ _ => inferInstanceAs (Decidable (_ ∨ _))
  | .timer => inferInstanceAs (Decidable (∃ user ∈ s.user, _ ∨ _))
  | .alarm => inferInstanceAs (Decidable True)

/-! ### The stored expiration -/

/-- Rounding to seconds goes towards zero. -/
theorem tdiv_mul_bounds (x : Int) :
    (0 ≤ x → 0 ≤ x.tdiv 1000 * 1000 ∧ x.tdiv 1000 * 1000 ≤ x) ∧
      (x < 0 → x ≤ x.tdiv 1000 * 1000 ∧ x.tdiv 1000 * 1000 ≤ 0) := by
  constructor
  · intro hx
    rw [Int.tdiv_eq_ediv_of_nonneg hx]
    omega
  · intro hx
    have hneg : x.tdiv 1000 = -((-x) / 1000) := by
      rw [← Int.tdiv_eq_ediv_of_nonneg (by omega), Int.neg_tdiv, Int.neg_neg]
    rw [hneg]
    omega

theorem setCurrentUser_expiration {s : State} {data : Data} (h : Fits s data) :
    (setCurrentUser s.now data).expiration = (s.now + data.optExpiresAfter * 1000).tdiv 1000 := by
  obtain ⟨hdist, hnow, -⟩ := h
  show (toLong (s.now + toLong (data.optExpiresAfter * 1000))).tdiv 1000 = _
  rw [toLong_of_isLong hdist, toLong_of_isLong hnow]

/-- **The stored expiration** is the time of the configuration plus `expires_after`,
rounded to seconds, and is a `long` in milliseconds as well. -/
theorem configured_expiration {s : State} {data : Data} (h : Fits s data) :
    IsLong ((setCurrentUser s.now data).expiration * 1000) ∧
      ((setCurrentUser s.now data).expiration * 1000 ≤ s.now + data.optExpiresAfter * 1000 ∨
        (setCurrentUser s.now data).expiration * 1000 ≤ 0) := by
  rw [setCurrentUser_expiration h]
  obtain ⟨-, ⟨hlow, hhigh⟩, -⟩ := h
  generalize s.now + data.optExpiresAfter * 1000 = x at hlow hhigh
  obtain ⟨hpos, hneg⟩ := tdiv_mul_bounds x
  by_cases hx : 0 ≤ x
  · obtain ⟨h0, hle⟩ := hpos hx
    exact ⟨⟨by omega, by omega⟩, .inl hle⟩
  · obtain ⟨hle, h0⟩ := hneg (by omega)
    exact ⟨⟨by omega, by omega⟩, .inr h0⟩

/-! ### The alarm and the record -/

/-- **The alarm is never early**: when it goes off, the user of the record is to be
disconnected and has expired. -/
structure Timely (s : State) : Prop where
  now : 0 ≤ s.now
  user : ∀ user ∈ s.user, IsLong (user.expiration * 1000)
  alarm : ∀ time ∈ s.alarm, ∃ user ∈ s.user, user.data.optDisconnectWhenExpire = true ∧
    (user.expiration * 1000 ≤ s.now ∨
      user.expiration * 1000 ≤ s.now + (time - s.elapsedRealtime))
  closes : ∀ c ∈ s.closes, c.Justified

theorem timely_configure {s : State} {data : Data} (h : Timely s) (hfits : Fits s data)
    (hok : s.alarm = none ∨ data.optDisconnectWhenExpire = true) :
    Timely { s with
      user := some (setCurrentUser s.now data)
      alarm := setProfileFromConfiguration s.elapsedRealtime data s.alarm } := by
  obtain ⟨hlong, hle⟩ := configured_expiration hfits
  refine ⟨h.now, ?_, ?_, h.closes⟩
  · intro user huser
    rw [← Option.some.inj huser]
    exact hlong
  · intro time htime
    have hnow := h.now
    have hset : setProfileFromConfiguration s.elapsedRealtime data s.alarm = some time := htime
    unfold setProfileFromConfiguration at hset
    split at hset
    · rename_i hflag
      obtain ⟨hdist, -, helapsed⟩ := hfits
      simp only [toLong_of_isLong hdist] at hset
      refine ⟨setCurrentUser s.now data, rfl, hflag, ?_⟩
      show (setCurrentUser s.now data).expiration * 1000 ≤ s.now ∨
        (setCurrentUser s.now data).expiration * 1000 ≤ s.now + (time - s.elapsedRealtime)
      split at hset
      · rw [toLong_of_isLong helapsed, Option.some_inj] at hset
        omega
      · -- the old alarm stays, but the new record has expired already
        left
        omega
    · rename_i hflag
      rcases hok with hnone | hflag'
      · rw [hnone] at hset
        exact absurd hset (by simp)
      · exact absurd hflag' hflag

theorem timely_clock {s : State} {now elapsedRealtime : Int} (h : Timely s) (hnow : 0 ≤ now)
    (helapsed : s.elapsedRealtime ≤ elapsedRealtime)
    (hok : s.alarm = none ∨ elapsedRealtime - s.elapsedRealtime ≤ now - s.now) :
    Timely { s with now, elapsedRealtime } := by
  refine ⟨hnow, h.user, fun time htime => ?_, h.closes⟩
  rcases hok with hnone | hok
  · rw [show s.alarm = some time from htime] at hnone
    exact absurd hnone (by simp)
  · obtain ⟨user, huser, hflag, hexp⟩ := h.alarm time htime
    refine ⟨user, huser, hflag, ?_⟩
    show user.expiration * 1000 ≤ now ∨
      user.expiration * 1000 ≤ now + (time - elapsedRealtime)
    omega

/-- Closing is a matter of the record and the time alone. -/
theorem Timely.close {s : State} (h : Timely s)
    (hjust : ∃ user ∈ s.user, user.data.optDisconnectWhenExpire = true ∧
      user.expiration * 1000 ≤ s.now) : Timely s.close := by
  refine ⟨h.now, h.user, h.alarm, fun c hc => ?_⟩
  rcases List.mem_append.mp hc with hc | hc
  · exact h.closes c hc
  · rw [List.mem_singleton.mp hc]
    exact hjust

/-- What the timer closes had expired, if the record says to disconnect at all. -/
theorem expired_of_needClose {now : Int} {user : User} (hlong : IsLong (user.expiration * 1000))
    (hok : user.data.optDisconnectWhenExpire = true ∨ isVip now user = true)
    (h : needClose now (some user) = true) :
    user.data.optDisconnectWhenExpire = true ∧ user.expiration * 1000 ≤ now := by
  rw [needClose] at h
  split at h
  · exact absurd h (by simp)
  · rename_i hvip
    have hflag := hok.resolve_right hvip
    rw [if_pos hflag, toLong_of_isLong hlong, Bool.not_eq_true', decide_eq_false_iff_not] at h
    exact ⟨hflag, Int.not_lt.mp h⟩

/-- **Step.** -/
theorem timely_step {s s' : State} {a : Action} (h : Timely s) (hok : Honoured s a)
    (hs : step s a = some s') : Timely s' := by
  cases a with
  | configure data =>
    rw [← Option.some.inj hs]
    exact timely_configure h hok.1 hok.2
  | clock now elapsedRealtime =>
    rw [step] at hs
    split at hs
    · rename_i hmove
      rw [← Option.some.inj hs]
      exact timely_clock h hmove.1 hmove.2 hok
    · exact absurd hs (by simp)
  | timer =>
    rw [← Option.some.inj hs]
    split
    · rename_i hclose
      obtain ⟨user, huser, hok⟩ := hok
      rw [show s.user = some user from huser] at hclose
      exact h.close ⟨user, huser, expired_of_needClose (h.user user huser) hok hclose⟩
    · exact h
  | alarm =>
    rw [step] at hs
    cases halarm : s.alarm with
    | none => simp [halarm] at hs
    | some time =>
      simp only [halarm] at hs
      split at hs
      · rename_i hdue
        rw [← Option.some.inj hs]
        obtain ⟨user, huser, hflag, hexp⟩ := h.alarm time halarm
        -- an alarm that is due has its expiration behind it
        have hcleared : Timely { s with alarm := none } :=
          ⟨h.now, h.user, fun t ht => absurd ht (by simp), h.closes⟩
        refine hcleared.close ⟨user, huser, hflag, ?_⟩
        show user.expiration * 1000 ≤ s.now
        omega
      · exact absurd hs (by simp)

/-- **Sessions are closed only when they have expired**, in every run that honours
the record. -/
theorem close_justified {now elapsedRealtime : Int} {s : State} (hnow : 0 ≤ now)
    (h : Reach step Honoured (State.initial now elapsedRealtime) s) :
    ∀ c ∈ s.closes, c.Justified := by
  have htimely : Timely s := by
    refine h.invariant (I := Timely) ⟨hnow, ?_, ?_, ?_⟩ fun _ _ _ ht hok hs => timely_step ht hok hs
    · intro user huser
      exact absurd huser (by simp [State.initial])
    · intro time htime
      exact absurd htime (by simp [State.initial])
    · intro c hc
      exact absurd hc List.not_mem_nil
  exact htimely.closes

/-! ### Two sessions -/

/-- A user with a minute left, who is to be disconnected: the timer goes off too
early and again later, and then the alarm. -/
def expiring : List Action :=
  [.configure ⟨some 60, none⟩, .timer, .clock 1000061000 161000, .timer, .alarm]

theorem close_justified_expiring :
    ∃ s, Reach step Honoured (State.initial 1000000000 100000) s ∧ s.closes.length = 2 ∧
      ∀ c ∈ s.closes, c.Justified := by
  have hrun : (runWith step Honoured (State.initial 1000000000 100000) expiring).any
      (fun s => s.closes.length == 2) = true := by
    decide +kernel
  obtain ⟨s, hreach, hlen⟩ := exists_reach_of_runWith hrun
  exact ⟨s, hreach, beq_iff_eq.mp hlen, close_justified (by decide) hreach⟩

instance (c : Close) : Decidable c.Justified :=
  inferInstanceAs (Decidable (∃ user ∈ c.user, _ ∧ _))

/-- The user is not to be disconnected and has a minute left; the timer closes
the session. -/
def unflagged : List Action := [.configure ⟨some 60, some false⟩, .timer]

/-- The user had a minute left, and then got a day and is not to be disconnected;
the old alarm closes the session. -/
def extended : List Action :=
  [.configure ⟨some 60, none⟩, .configure ⟨some 86400, some false⟩,
    .clock 1000061000 161000, .alarm]

/-- **Sessions are closed that should not be**, by the timer and by the alarm. -/
theorem close_unjustified :
    (∃ s, run step (State.initial 1000000000 100000) unflagged = some s ∧
      ∃ c ∈ s.closes, ¬ c.Justified) ∧
    ∃ s, run step (State.initial 1000000000 100000) extended = some s ∧
      ∃ c ∈ s.closes, ¬ c.Justified := by
  have hfail : ∀ {actions : List Action},
      (run step (State.initial 1000000000 100000) actions).any
        (fun s => s.closes.any fun c => !decide c.Justified) = true →
      ∃ s, run step (State.initial 1000000000 100000) actions = some s ∧
        ∃ c ∈ s.closes, ¬ c.Justified := by
    intro actions hrun
    obtain ⟨s, hs, hcloses⟩ := (Option.any_eq_true _ _).mp hrun
    obtain ⟨c, hc, hno⟩ := List.any_eq_true.mp hcloses
    exact ⟨s, hs, c, hc, by simpa using hno⟩
  constructor
  · exact hfail (by decide +kernel)
  · exact hfail (by decide +kernel)

end Expiry
