/-
The loop of `DownloaderEx.download`.

The loop copies what it reads to a file, up to a number of bytes and for a number of seconds, and
reports its progress.  The sizes and times are `int`s and `long`s; a state records besides them
what was written, what was reported and by what was divided.

* `Sound`, `no_division_by_zero` — with a clock that stays within bounds, however it jumps, there is
  no division by zero;
* `Within`, `throughout_iff_fits` — the bytes, the percents and the time limit are as they should
  be exactly if every chunk fits, and the time limit either fits in an `int` or has passed;
* `limits_respected_iff` — this, read off the limits, the sizes of the reads and the clock;
* `limits_not_respected` — a last chunk that does not fit, and the default time limit.
-/
import ReShadowsocks.JavaLong
import ReShadowsocks.Transition

namespace Download

open JavaLong Transition

/-! ### The state of the loop -/

/-- What `in.read(bytes)` puts into the buffer of `STEP` bytes. -/
structure Chunk where
  size : Nat
  pos : 1 ≤ size
  le_step : size ≤ 1024
  deriving DecidableEq

def updateInterval : Int64 := 300

structure Limits where
  contentLength : Int32
  maxBytes : Int32
  maxSeconds : Int32
  deriving DecidableEq

/-- `Math.min(totalSize, maxBytes)`. -/
def Limits.totalSize (limits : Limits) : Int32 :=
  if limits.contentLength ≤ limits.maxBytes then limits.contentLength else limits.maxBytes

/-- `maxSeconds*1000`, a product of `int`s. -/
def Limits.timeLimit (limits : Limits) : Int64 := (limits.maxSeconds * 1000).toInt64

/-- What ends the loop: one of the three tests of its condition, the test for cancellation, or an
`ArithmeticException`. -/
inductive Exit
  | endOfStream
  | bytes
  | time
  | cancelled
  | divisionByZero
  deriving DecidableEq

/-- A division, with its divisor. -/
inductive Division
  | byTotalSize (n : Int32)
  | byElapsed (n : Int64)
  | bySpeed (n : Int64)
  deriving DecidableEq

/-- The numbers of a broadcast. -/
structure Report where
  sizeTransferred : Int64
  percent : Int32
  speed : Int64
  elapsed : Int64
  remainTime : Int64
  deriving DecidableEq

structure Loop where
  sizeReceived : Int64
  startTime : Int64
  lastTime : Int64
  speed : Int64
  elapsed : Int64
  percent : Int32
  remainTime : Int64
  exit : Option Exit
  finished : Bool
  written : Nat
  reports : List Report
  divisions : List Division
  deriving DecidableEq

/-- Before the first read. -/
def Loop.start (startTime : Int64) : Loop where
  sizeReceived := 0
  startTime := startTime
  lastTime := startTime
  speed := 0
  elapsed := 0
  percent := 0
  remainTime := 0
  exit := none
  finished := false
  written := 0
  reports := []
  divisions := []

def Loop.report (s : Loop) : Report := ⟨s.sizeReceived, s.percent, s.speed, s.elapsed, s.remainTime⟩

/-! ### One iteration -/

section

variable (limits : Limits)

/-- The condition of the loop, on what was read; `none` is the end of the stream. -/
def enter (s : Loop) (c : Option Chunk) : Except Exit Chunk :=
  match c with
  | none => .error .endOfStream
  | some c =>
    if s.sizeReceived < limits.totalSize.toInt64 then
      if s.elapsed < limits.timeLimit then .ok c else .error .time
    else .error .bytes

/-- `out.write(bytes, 0, c)`. -/
def write (s : Loop) (c : Chunk) : Loop := { s with written := s.written + c.size }

/-- The size and the percent. -/
def countBytes (s : Loop) (c : Chunk) : Loop :=
  let sizeReceived := s.sizeReceived + Int64.ofNat c.size
  let divisions := s.divisions ++ [.byTotalSize limits.totalSize]
  if limits.totalSize = 0 then
    { s with sizeReceived := sizeReceived, divisions := divisions, exit := some .divisionByZero }
  else
    { s with
      sizeReceived := sizeReceived
      divisions := divisions
      percent := (sizeReceived * 100 / limits.totalSize.toInt64).toInt32 }

/-- `speed > 0 ? (totalSize-sizeReceived)/speed : -1`. -/
def remainTime (s : Loop) (speed : Int64) : Int64 :=
  if speed > 0 then (limits.totalSize.toInt64 - s.sizeReceived) / speed else -1

/-- The times, and a report if the last one is long enough ago. -/
def measure (s : Loop) (now : Int64) : Loop :=
  let dur := now - s.lastTime
  let elapsed := now - s.startTime
  if dur > updateInterval then
    if elapsed = 0 then
      { s with
        elapsed := elapsed
        divisions := s.divisions ++ [.byElapsed elapsed]
        exit := some .divisionByZero }
    else
      let speed := s.sizeReceived * 1000 / elapsed
      let s' : Loop := { s with
        elapsed := elapsed
        speed := speed
        remainTime := remainTime limits s speed
        divisions := s.divisions ++
          .byElapsed elapsed :: (if speed > 0 then [.bySpeed speed] else []) }
      { s' with reports := s.reports ++ [s'.report], lastTime := now }
  else { s with elapsed := elapsed }

/-- The part of an iteration behind the write. -/
def account (s : Loop) (c : Chunk) (now : Int64) : Loop :=
  if (countBytes limits s c).exit = none then measure limits (countBytes limits s c) now
  else countBytes limits s c

/-- An iteration.  `cancelled` is the outcome of the test of the task. -/
def iterate (s : Loop) (c : Option Chunk) (cancelled : Bool) (now : Int64) : Loop :=
  match enter limits s c with
  | .error exit => { s with exit := some exit }
  | .ok c =>
    if cancelled then { s with exit := some .cancelled } else account limits (write s c) c now

/-- An iteration, or the last broadcast. -/
inductive Action
  | iterate (c : Option Chunk) (cancelled : Bool) (now : Int64)
  | finish

def step (s : Loop) : Action → Option Loop
  | .iterate c cancelled now =>
    if s.exit = none then some (iterate limits s c cancelled now) else none
  | .finish =>
    if s.exit = none ∨ s.exit = some .divisionByZero ∨ s.finished then none
    else some { s with finished := true, reports := s.reports ++ [s.report] }

end

/-! ### What a step does -/

section

variable {limits : Limits} {s t : Loop} {c : Chunk}

/-- What the condition of the loop says when it is entered. -/
theorem enter_eq_ok {read : Option Chunk} (h : enter limits s read = .ok c) :
    s.sizeReceived.toInt < limits.totalSize.toInt := by
  unfold enter at h
  split at h
  · exact nomatch h
  · split at h
    · rename_i hsize
      rw [Int64.lt_iff_toInt_lt, Int32.toInt_toInt64] at hsize
      exact hsize
    · exact nomatch h

theorem read_of_enter {read : Option Chunk} (h : enter limits s read = .ok c) : read = some c := by
  unfold enter at h
  split at h
  · exact nomatch h
  · split at h
    · split at h
      · exact congrArg some (Except.ok.inj h)
      · exact nomatch h
    · exact nomatch h

/-- What it says when it is not. -/
theorem enter_eq_error {read : Option Chunk} {exit : Exit}
    (h : enter limits s read = .error exit) :
    exit = .endOfStream ∨ exit = .bytes ∨
      exit = .time ∧ limits.timeLimit.toInt ≤ s.elapsed.toInt := by
  unfold enter at h
  split at h
  · exact .inl (Except.error.inj h).symm
  · split at h
    · split at h
      · exact nomatch h
      · rename_i htime
        rw [Int64.lt_iff_toInt_lt, Int.not_lt] at htime
        exact .inr (.inr ⟨(Except.error.inj h).symm, htime⟩)
    · exact .inr (.inl (Except.error.inj h).symm)

theorem step_cases {a : Action} (h : step limits s a = some t) :
    (∃ read cancelled now exit, a = .iterate read cancelled now ∧
      enter limits s read = .error exit ∧ t = { s with exit := some exit }) ∨
    (∃ read now c, a = .iterate read true now ∧ enter limits s read = .ok c ∧
      t = { s with exit := some .cancelled }) ∨
    (∃ read now c, a = .iterate read false now ∧ enter limits s read = .ok c ∧ s.exit = none ∧
      t = account limits (write s c) c now) ∨
    (a = .finish ∧ t = { s with finished := true, reports := s.reports ++ [s.report] }) := by
  cases a with
  | iterate read cancelled now =>
    simp only [step] at h
    split at h
    · rename_i hexit
      obtain rfl := Option.some.inj h
      unfold iterate
      split
      · rename_i exit henter
        exact .inl ⟨read, cancelled, now, exit, rfl, henter, rfl⟩
      · rename_i c henter
        cases cancelled with
        | true => exact .inr (.inl ⟨read, now, c, rfl, henter, rfl⟩)
        | false => exact .inr (.inr (.inl ⟨read, now, c, rfl, henter, hexit, rfl⟩))
    · exact absurd h (by simp)
  | finish =>
    simp only [step] at h
    split at h
    · exact absurd h (by simp)
    · exact .inr (.inr (.inr ⟨rfl, (Option.some.inj h).symm⟩))

/-- What holds behind both parts of the accounting. -/
theorem account_of {P : Loop → Prop} {now : Int64} (hcount : P (countBytes limits s c))
    (hmeasure : P (countBytes limits s c) → (countBytes limits s c).exit = none →
      P (measure limits (countBytes limits s c) now)) : P (account limits s c now) := by
  unfold account
  split
  · rename_i hexit
    exact hmeasure hcount hexit
  · exact hcount

theorem toInt_ofNat_size (c : Chunk) : (Int64.ofNat c.size).toInt = c.size :=
  Int64.toInt_ofNat_of_lt (by have := c.le_step; omega)

/-- The size after a chunk; it is far from the end of the `long`s. -/
theorem toInt_add_size (hlo : 0 ≤ s.sizeReceived.toInt) (hhi : s.sizeReceived.toInt < 2 ^ 32)
    (c : Chunk) :
    (s.sizeReceived + Int64.ofNat c.size).toInt = s.sizeReceived.toInt + c.size := by
  have hc := toInt_ofNat_size c
  have hle := c.le_step
  rw [toInt_add ⟨by omega, by omega⟩, hc]

end

/-! ### Divisions -/

/-- The divisor is what it should be. -/
def Division.Safe : Division → Prop
  | .byTotalSize n => 0 < n
  | .byElapsed n => updateInterval < n
  | .bySpeed n => 0 < n

/-- A reading of the clock within bounds. -/
def InClock (time : Int64) : Prop := -2 ^ 62 < time.toInt ∧ time.toInt < 2 ^ 62

instance (time : Int64) : Decidable (InClock time) := inferInstanceAs (Decidable (_ ∧ _))

/-- The clock is within bounds whenever it is read. -/
def ClockOk (_ : Loop) : Action → Prop
  | .iterate _ _ now => InClock now
  | .finish => True

instance : ∀ (s : Loop) (a : Action), Decidable (ClockOk s a)
  | _, .iterate _ _ now => inferInstanceAs (Decidable (InClock now))
  | _, .finish => inferInstanceAs (Decidable True)

/-- No division by zero so far, and none to come: the last report is not before the start. -/
structure Sound (s : Loop) : Prop where
  received : 0 ≤ s.sizeReceived.toInt ∧ s.sizeReceived.toInt < 2 ^ 32
  ordered : s.startTime.toInt ≤ s.lastTime.toInt
  start : InClock s.startTime
  last : InClock s.lastTime
  exit : s.exit ≠ some .divisionByZero
  divisions : ∀ d ∈ s.divisions, d.Safe

variable {limits : Limits} {s t : Loop} {c : Chunk}

theorem sound_start {startTime : Int64} (h : InClock startTime) : Sound (Loop.start startTime) where
  received := by
    show 0 ≤ (0 : Int64).toInt ∧ (0 : Int64).toInt < 2 ^ 32
    decide
  ordered := Int.le_refl _
  start := h
  last := h
  exit := by simp [Loop.start]
  divisions _ hd := absurd hd List.not_mem_nil

theorem Sound.countBytes (h : Sound s) (henter : s.sizeReceived.toInt < limits.totalSize.toInt) :
    Sound (countBytes limits s c) := by
  obtain ⟨hlo, hhi⟩ := h.received
  have htotal := limits.totalSize.toInt_lt
  have hpos : 0 < limits.totalSize := Int32.lt_iff_toInt_lt.mpr (Int.lt_of_le_of_lt hlo henter)
  have hne : limits.totalSize ≠ 0 := (Int32.ne_of_lt hpos).symm
  have hle := c.le_step
  have hadd := toInt_add_size hlo hhi c
  rw [Download.countBytes, if_neg hne]
  refine ⟨?_, h.ordered, h.start, h.last, h.exit, ?_⟩
  · show 0 ≤ (s.sizeReceived + Int64.ofNat c.size).toInt ∧ _
    rw [hadd]
    omega
  · exact List.forall_mem_append.mpr ⟨h.divisions, List.forall_mem_singleton.mpr hpos⟩

theorem Sound.measure (h : Sound s) {now : Int64} (hnow : InClock now) :
    Sound (measure limits s now) := by
  obtain ⟨hlo, hhi⟩ := hnow
  obtain ⟨hstart, hstart'⟩ := h.start
  obtain ⟨hlast, hlast'⟩ := h.last
  have hordered := h.ordered
  have hdur : (now - s.lastTime).toInt = now.toInt - s.lastTime.toInt :=
    toInt_sub ⟨by omega, by omega⟩
  have helapsed : (now - s.startTime).toInt = now.toInt - s.startTime.toInt :=
    toInt_sub ⟨by omega, by omega⟩
  unfold Download.measure
  by_cases hlong : now - s.lastTime > updateInterval
  · -- the last report was not before the start, so the elapsed time is longer still
    have hinterval : updateInterval.toInt = 300 := by decide
    have hgt : updateInterval < now - s.startTime := by
      have hlong' := Int64.lt_iff_toInt_lt.mp hlong
      rw [Int64.lt_iff_toInt_lt]
      omega
    have hne : now - s.startTime ≠ 0 := by
      intro hzero
      rw [hzero] at hgt
      exact absurd hgt (by decide)
    simp only [if_pos hlong, if_neg hne]
    refine ⟨h.received, ?_, h.start, ⟨hlo, hhi⟩, h.exit, ?_⟩
    · show s.startTime.toInt ≤ now.toInt
      have hlong' := Int64.lt_iff_toInt_lt.mp hlong
      omega
    · refine List.forall_mem_append.mpr ⟨h.divisions, List.forall_mem_cons.mpr ⟨hgt, ?_⟩⟩
      split
      · rename_i hspeed
        exact List.forall_mem_singleton.mpr hspeed
      · exact fun d hd => absurd hd List.not_mem_nil
  · simp only [if_neg hlong]
    exact ⟨h.received, h.ordered, h.start, h.last, h.exit, h.divisions⟩

/-- **Step.** -/
theorem Sound.step {a : Action} (h : Sound s) (hclock : ClockOk s a)
    (hstep : step limits s a = some t) : Sound t := by
  rcases step_cases hstep with ⟨read, cancelled, now, exit, rfl, henter, rfl⟩ |
    ⟨read, now, c, rfl, henter, rfl⟩ | ⟨read, now, c, rfl, henter, -, rfl⟩ | ⟨rfl, rfl⟩
  · refine ⟨h.received, h.ordered, h.start, h.last, ?_, h.divisions⟩
    rcases enter_eq_error henter with rfl | rfl | ⟨rfl, -⟩ <;> simp
  · exact ⟨h.received, h.ordered, h.start, h.last, by simp, h.divisions⟩
  · have hwrite : Sound (write s c) :=
      ⟨h.received, h.ordered, h.start, h.last, h.exit, h.divisions⟩
    exact account_of (hwrite.countBytes (enter_eq_ok henter)) fun hcount _ => hcount.measure hclock
  · exact ⟨h.received, h.ordered, h.start, h.last, h.exit, h.divisions⟩

/-- **No division by zero**: for any limits, chunks and readings of a clock within bounds, the total
size is positive when the percent is computed, more than the interval has elapsed when the speed is
computed, and the speed is positive when the remaining time is computed from it. -/
theorem no_division_by_zero (limits : Limits) {startTime : Int64} (hstart : InClock startTime)
    (h : Reach (Download.step limits) ClockOk (Loop.start startTime) s) :
    s.exit ≠ some .divisionByZero ∧ ∀ d ∈ s.divisions, d.Safe := by
  have hsound : Sound s :=
    h.invariant (sound_start hstart) fun _ _ _ hs hclock hstep => hs.step hclock hstep
  exact ⟨hsound.exit, hsound.divisions⟩

/-- A buffer full of bytes. -/
def fullChunk : Chunk := ⟨1024, by decide, by decide⟩

/-- A clock that is set back after the start: nothing is divided by the negative time. -/
theorem no_division_by_zero_set_back :
    ∃ s : Loop,
      s.divisions = [.byTotalSize 5000, .byTotalSize 5000, .byElapsed 400, .bySpeed 5120] ∧
      s.exit ≠ some .divisionByZero ∧ ∀ d ∈ s.divisions, d.Safe := by
  have hrun : (runWith (step ⟨5000, 9000, 60⟩) ClockOk (Loop.start 100000)
      [.iterate (some fullChunk) false 50000, .iterate (some fullChunk) false 100400]).any
        (fun s => s.divisions =
          [.byTotalSize 5000, .byTotalSize 5000, .byElapsed 400, .bySpeed 5120]) = true := by
    decide +kernel
  obtain ⟨s, hreach, hs⟩ := exists_reach_of_runWith hrun
  exact ⟨s, of_decide_eq_true hs,
    no_division_by_zero ⟨5000, 9000, 60⟩ (by decide +kernel) hreach⟩

/-! ### Limits -/

theorem toInt_totalSize (limits : Limits) :
    limits.totalSize.toInt = min limits.contentLength.toInt limits.maxBytes.toInt := by
  unfold Limits.totalSize
  split
  · rename_i hle
    rw [Int32.le_iff_toInt_le] at hle
    omega
  · rename_i hlt
    rw [Int32.le_iff_toInt_le] at hlt
    omega

/-- The limits are respected: no byte too many, percents of a whole, and no end by the time test
before its time. -/
structure Respects (limits : Limits) (s : Loop) : Prop where
  bytes : (s.written : Int) ≤ min limits.contentLength.toInt limits.maxBytes.toInt
  percents : ∀ r ∈ s.reports, 0 ≤ r.percent.toInt ∧ r.percent.toInt ≤ 100
  time : s.exit = some .time → limits.maxSeconds.toInt * 1000 ≤ s.elapsed.toInt

/-- What the loop keeps as long as it respects its limits. -/
structure Within (limits : Limits) (s : Loop) : Prop extends Respects limits s where
  received : s.sizeReceived.toInt = s.written
  percent : 0 ≤ s.percent.toInt ∧ s.percent.toInt ≤ 100

/-- A chunk that is written fits into what is left of the bytes, and the time test ends the loop
only if the time limit is an `int` number of milliseconds or has passed. -/
def EntryFits (limits : Limits) (s : Loop) (cancelled : Bool) : Except Exit Chunk → Prop
  | .ok c => cancelled = false →
      ((s.written + c.size : Nat) : Int) ≤ min limits.contentLength.toInt limits.maxBytes.toInt
  | .error exit => exit = .time →
      limits.maxSeconds.toInt ≤ 2147483 ∨ limits.maxSeconds.toInt * 1000 ≤ s.elapsed.toInt

instance (limits : Limits) (s : Loop) (cancelled : Bool) :
    ∀ entry, Decidable (EntryFits limits s cancelled entry)
  | .ok _ => inferInstanceAs (Decidable (_ → _))
  | .error _ => inferInstanceAs (Decidable (_ → _))

def Fits (limits : Limits) (s : Loop) : Action → Prop
  | .iterate read cancelled _ => EntryFits limits s cancelled (enter limits s read)
  | .finish => True

instance (limits : Limits) : ∀ (s : Loop) (a : Action), Decidable (Fits limits s a)
  | s, .iterate read cancelled _ =>
    inferInstanceAs (Decidable (EntryFits limits s cancelled (enter limits s read)))
  | _, .finish => inferInstanceAs (Decidable True)

theorem within_start (hcontent : 0 ≤ limits.contentLength) (hbytes : 1 ≤ limits.maxBytes)
    (startTime : Int64) : Within limits (Loop.start startTime) where
  bytes := by
    rw [Int32.le_iff_toInt_le] at hcontent hbytes
    show (0 : Int) ≤ _
    have hone : (1 : Int32).toInt = 1 := by decide
    have hzero : (0 : Int32).toInt = 0 := by decide
    omega
  percents _ hr := absurd hr List.not_mem_nil
  time h := nomatch h
  received := rfl
  percent := by
    show 0 ≤ (0 : Int32).toInt ∧ (0 : Int32).toInt ≤ 100
    decide

/-- The part of a whole, in percent. -/
theorem percent_mem {n : Int64} {total : Int32} (hn : 0 ≤ n.toInt) (hle : n.toInt ≤ total.toInt) :
    0 ≤ (n * 100 / total.toInt64).toInt32.toInt ∧
      (n * 100 / total.toInt64).toInt32.toInt ≤ 100 := by
  have htotal := total.toInt_lt
  have hhundred : (100 : Int64).toInt = 100 := by decide
  have hmul : (n * 100).toInt = n.toInt * 100 := by
    rw [toInt_mul (by rw [hhundred]; exact ⟨by omega, by omega⟩), hhundred]
  have hdiv : (n * 100 / total.toInt64).toInt = n.toInt * 100 / total.toInt := by
    rw [toInt_div (by omega) (by rw [Int32.toInt_toInt64]; omega), hmul, Int32.toInt_toInt64]
  have hnonneg : 0 ≤ n.toInt * 100 / total.toInt := Int.ediv_nonneg (by omega) (by omega)
  have hhigh : n.toInt * 100 / total.toInt ≤ 100 := by
    by_cases hzero : total.toInt = 0
    · rw [hzero, Int.ediv_zero]
      decide
    · exact Int.ediv_le_of_le_mul (by omega) (by omega)
  rw [toInt_toInt32 (by omega) (by omega), hdiv]
  exact ⟨hnonneg, hhigh⟩

theorem Within.countBytes (h : Within limits s) (hexit : s.exit = none)
    (hfits : ((s.written + c.size : Nat) : Int) ≤
      min limits.contentLength.toInt limits.maxBytes.toInt) :
    Within limits (countBytes limits (write s c) c) := by
  have htotal := toInt_totalSize limits
  have hlt := limits.totalSize.toInt_lt
  have hreceived := h.received
  have hadd := @toInt_add_size s (by omega) (by omega) c
  have hnew : (s.sizeReceived + Int64.ofNat c.size).toInt = (s.written + c.size : Nat) := by
    rw [hadd, hreceived]
    omega
  unfold Download.countBytes
  split
  · exact ⟨⟨hfits, h.percents, fun h => nomatch h⟩, hnew, h.percent⟩
  · refine ⟨⟨hfits, h.percents, fun htime => ?_⟩, hnew, percent_mem ?_ ?_⟩
    · exact nomatch hexit.symm.trans htime
    · show 0 ≤ (s.sizeReceived + Int64.ofNat c.size).toInt
      omega
    · show (s.sizeReceived + Int64.ofNat c.size).toInt ≤ _
      omega

theorem Within.measure (h : Within limits s) (hexit : s.exit = none) (now : Int64) :
    Within limits (measure limits s now) := by
  have htime : ∀ {n : Int}, s.exit = some .time → limits.maxSeconds.toInt * 1000 ≤ n :=
    fun htime => nomatch hexit.symm.trans htime
  simp only [Download.measure]
  split
  · split
    · exact ⟨⟨h.bytes, h.percents, fun h => nomatch h⟩, h.received, h.percent⟩
    · refine ⟨⟨h.bytes, ?_, htime⟩, h.received, h.percent⟩
      exact List.forall_mem_append.mpr ⟨h.percents, List.forall_mem_singleton.mpr h.percent⟩
  · exact ⟨⟨h.bytes, h.percents, htime⟩, h.received, h.percent⟩

/-- A time limit that is an `int` number of milliseconds. -/
theorem toInt_timeLimit (hpos : 1 ≤ limits.maxSeconds)
    (hfits : limits.maxSeconds.toInt ≤ 2147483) :
    limits.timeLimit.toInt = limits.maxSeconds.toInt * 1000 := by
  have hthousand : (1000 : Int32).toInt = 1000 := by decide
  have hone : (1 : Int32).toInt = 1 := by decide
  rw [Int32.le_iff_toInt_le, hone] at hpos
  rw [Limits.timeLimit, Int32.toInt_toInt64, Int32.toInt_mul, hthousand]
  exact Int.bmod_eq_of_le (by omega) (by omega)

/-- **Step.**  A step that fits keeps the loop within its limits. -/
theorem Within.step {a : Action} (hseconds : 1 ≤ limits.maxSeconds) (h : Within limits s)
    (hstep : step limits s a = some t) (hfits : Fits limits s a) : Within limits t := by
  rcases step_cases hstep with ⟨read, cancelled, now, exit, rfl, henter, rfl⟩ |
    ⟨read, now, c, rfl, henter, rfl⟩ | ⟨read, now, c, rfl, henter, hexit, rfl⟩ | ⟨rfl, rfl⟩
  · rw [Fits, henter] at hfits
    refine ⟨⟨h.bytes, h.percents, ?_⟩, h.received, h.percent⟩
    intro htime
    obtain rfl : exit = .time := Option.some.inj htime
    rcases hfits rfl with hint | hpassed
    · rcases enter_eq_error henter with hne | hne | ⟨-, hlimit⟩
      · exact nomatch hne
      · exact nomatch hne
      · exact toInt_timeLimit hseconds hint ▸ hlimit
    · exact hpassed
  · exact ⟨⟨h.bytes, h.percents, fun h => nomatch h⟩, h.received, h.percent⟩
  · rw [Fits, henter] at hfits
    exact account_of (h.countBytes hexit (hfits rfl)) fun hcount hexit => hcount.measure hexit now
  · refine ⟨⟨h.bytes, ?_, h.time⟩, h.received, h.percent⟩
    exact List.forall_mem_append.mpr ⟨h.percents, List.forall_mem_singleton.mpr h.percent⟩

theorem written_account (s : Loop) (c : Chunk) (now : Int64) :
    (account limits s c now).written = s.written := by
  refine @account_of limits s c (fun t => t.written = s.written) now ?_ ?_
  · unfold countBytes
    split
    · rfl
    · rfl
  · intro hcount _
    simp only [measure]
    split
    · split
      · exact hcount
      · exact hcount
    · exact hcount

/-- A step that does not fit breaks the limits. -/
theorem not_respects_of_not_fits {a : Action} (hstep : step limits s a = some t)
    (hfits : ¬ Fits limits s a) : ¬ Respects limits t := by
  intro h
  rcases step_cases hstep with ⟨read, cancelled, now, exit, rfl, henter, rfl⟩ |
    ⟨read, now, c, rfl, henter, rfl⟩ | ⟨read, now, c, rfl, henter, hexit, rfl⟩ | ⟨rfl, rfl⟩
  · rw [Fits, henter] at hfits
    refine hfits fun htime => ?_
    exact .inr (h.time (congrArg some htime))
  · rw [Fits, henter] at hfits
    exact hfits fun h => nomatch h
  · rw [Fits, henter] at hfits
    have hbytes := h.bytes
    rw [written_account] at hbytes
    exact hfits fun _ => hbytes
  · exact hfits trivial

/-- The limits are respected throughout exactly if every chunk that is written fits, and the loop is
not ended by a time limit that overflowed. -/
theorem throughout_iff_fits (hcontent : 0 ≤ limits.contentLength) (hbytes : 1 ≤ limits.maxBytes)
    (hseconds : 1 ≤ limits.maxSeconds) (startTime : Int64) {actions : List Action}
    (hrun : run (step limits) (Loop.start startTime) actions = some s) :
    Throughout (step limits) (Respects limits) (Loop.start startTime) actions ↔
      runWith (step limits) (Fits limits) (Loop.start startTime) actions = some s :=
  throughout_iff_permitted (I := Within limits) (fun _ h => h.toRespects)
    (fun _ _ _ h hstep hfits => h.step hseconds hstep hfits)
    (fun _ _ _ _ hstep hfits => not_respects_of_not_fits hstep hfits)
    (within_start hcontent hbytes startTime) hrun

/-! ### Limits, from the reads and the clock -/

/-- The bytes of a read, and what the clock says behind it. -/
def Action.size : Action → Nat
  | .iterate (some c) _ _ => c.size
  | _ => 0

def Action.now : Action → Option Int64
  | .iterate _ _ now => some now
  | .finish => none

/-- The sum of the reads. -/
def bytesRead (before : List Action) : Nat := before.foldl (fun n a => n + a.size) 0

/-- From the start to the last reading of the clock. -/
def timeElapsed (startTime : Int64) (before : List Action) : Int64 :=
  (before.filterMap Action.now).getLastD startTime - startTime

/-- A read that comes before the limits of the condition of the loop are reached fits into what is
left of the bytes; and a read that comes after the time limit, as it was computed, comes after the
time limit, if this is not an `int` number of milliseconds. -/
def ReadFits (limits : Limits) (startTime : Int64) (before : List Action) : Action → Prop
  | .iterate (some c) cancelled _ =>
    (bytesRead before : Int) < min limits.contentLength.toInt limits.maxBytes.toInt →
      (timeElapsed startTime before < limits.timeLimit → cancelled = false →
        ((bytesRead before + c.size : Nat) : Int) ≤
          min limits.contentLength.toInt limits.maxBytes.toInt) ∧
      (limits.timeLimit ≤ timeElapsed startTime before → 2147483 < limits.maxSeconds.toInt →
        limits.maxSeconds.toInt * 1000 ≤ (timeElapsed startTime before).toInt)
  | _ => True

instance (limits : Limits) (startTime : Int64) (before : List Action) :
    ∀ a, Decidable (ReadFits limits startTime before a)
  | .iterate (some _) _ _ => inferInstanceAs (Decidable (_ → _))
  | .iterate none _ _ => inferInstanceAs (Decidable True)
  | .finish => inferInstanceAs (Decidable True)

/-- As long as the loop goes on, its variables are what the actions so far say. -/
structure Tracks (startTime : Int64) (before : List Action) (s : Loop) : Prop where
  start : s.startTime = startTime
  received : s.sizeReceived.toInt = bytesRead before
  written : s.written = bytesRead before
  elapsed : s.elapsed = timeElapsed startTime before
  bounded : bytesRead before < 2 ^ 32

theorem tracks_start (startTime : Int64) : Tracks startTime [] (Loop.start startTime) where
  start := rfl
  received := rfl
  written := rfl
  elapsed := (Int64.sub_self startTime).symm
  bounded := by decide

theorem bytesRead_concat (before : List Action) (a : Action) :
    bytesRead (before ++ [a]) = bytesRead before + a.size := by
  rw [bytesRead, List.foldl_append]
  rfl

theorem timeElapsed_concat {startTime now : Int64} {before : List Action} {a : Action}
    (h : a.now = some now) : timeElapsed startTime (before ++ [a]) = now - startTime := by
  simp [timeElapsed, h]

/-- What the accounting does to the variables, unless a division fails. -/
theorem account_spec {now : Int64} (h : (account limits s c now).exit = none) :
    (account limits s c now).startTime = s.startTime ∧
      (account limits s c now).sizeReceived = s.sizeReceived + Int64.ofNat c.size ∧
      (account limits s c now).elapsed = now - s.startTime := by
  have hcount : (countBytes limits s c).startTime = s.startTime ∧
      (countBytes limits s c).sizeReceived = s.sizeReceived + Int64.ofNat c.size := by
    unfold countBytes
    split
    · exact ⟨rfl, rfl⟩
    · exact ⟨rfl, rfl⟩
  have hmeasure (t : Loop) : (measure limits t now).startTime = t.startTime ∧
      (measure limits t now).sizeReceived = t.sizeReceived ∧
      (measure limits t now).elapsed = now - t.startTime := by
    simp only [measure]
    split
    · split
      · exact ⟨rfl, rfl, rfl⟩
      · exact ⟨rfl, rfl, rfl⟩
    · exact ⟨rfl, rfl, rfl⟩
  unfold account at h ⊢
  split
  · obtain ⟨hstart, hsize, helapsed⟩ := hmeasure (countBytes limits s c)
    rw [hstart, hsize, helapsed, hcount.1]
    exact ⟨rfl, hcount.2, rfl⟩
  · rename_i hexit
    rw [if_neg hexit] at h
    exact absurd h hexit

/-- **Step.**  The variables follow the reads and the clock. -/
theorem Tracks.step {startTime : Int64} {before : List Action} {a : Action}
    (h : s.exit = none → Tracks startTime before s) (hstep : step limits s a = some t)
    (hgoes : t.exit = none) : Tracks startTime (before ++ [a]) t := by
  rcases step_cases hstep with ⟨read, cancelled, now, exit, rfl, henter, rfl⟩ |
    ⟨read, now, c, rfl, henter, rfl⟩ | ⟨read, now, c, rfl, henter, hexit, rfl⟩ | ⟨rfl, rfl⟩
  · exact nomatch hgoes
  · exact nomatch hgoes
  · obtain ⟨hstart, hsize, helapsed⟩ := account_spec hgoes
    obtain ⟨htrack, hreceived, hwritten, -, hbounded⟩ := h hexit
    obtain rfl := read_of_enter henter
    have htotal := limits.totalSize.toInt_lt
    have hlt := enter_eq_ok henter
    have hle := c.le_step
    have hread : bytesRead (before ++ [.iterate (some c) false now]) = bytesRead before + c.size :=
      bytesRead_concat before _
    refine ⟨hstart.trans htrack, ?_, ?_, ?_, ?_⟩
    · rw [hsize, hread]
      show (s.sizeReceived + Int64.ofNat c.size).toInt = _
      rw [toInt_add_size (by omega) (by omega), hreceived]
      rfl
    · rw [written_account, hread, ← hwritten]
      rfl
    · rw [helapsed, timeElapsed_concat rfl, ← htrack]
      rfl
    · rw [hread]
      omega
  · -- the last broadcast comes when the loop has ended
    simp only [step] at hstep
    split at hstep
    · exact nomatch hstep
    · rename_i hexit
      exact absurd (.inl hgoes) hexit

/-- What a step asks of the state, it asks of the actions before it. -/
theorem fits_iff_readFits {startTime : Int64} {before : List Action} {a : Action}
    (h : s.exit = none → Tracks startTime before s) (hstep : step limits s a = some t) :
    Fits limits s a ↔ ReadFits limits startTime before a := by
  cases a with
  | finish => exact Iff.rfl
  | iterate read cancelled now =>
    cases read with
    | none => exact iff_of_true (fun h => nomatch h) trivial
    | some c =>
      have hexit : s.exit = none := by
        by_contra hne
        simp [step, hne] at hstep
      obtain ⟨-, hreceived, hwritten, helapsed, -⟩ := h hexit
      have hbytes : (s.written : Int) < min limits.contentLength.toInt limits.maxBytes.toInt ↔
          s.sizeReceived < limits.totalSize.toInt64 := by
        rw [Int64.lt_iff_toInt_lt, Int32.toInt_toInt64, toInt_totalSize, hreceived, hwritten]
      simp only [Fits, ReadFits, enter, ← helapsed, ← hwritten, hbytes]
      by_cases hsize : s.sizeReceived < limits.totalSize.toInt64
      · by_cases htime : s.elapsed < limits.timeLimit
        · have hnot : ¬ limits.timeLimit ≤ s.elapsed := Int64.not_le.mpr htime
          simp [hsize, htime, hnot, EntryFits]
        · have hle : limits.timeLimit ≤ s.elapsed := Int64.not_lt.mp htime
          simp only [hsize, htime, hle, if_true, if_false, EntryFits, forall_const, false_imp_iff,
            true_and]
          rw [← Int.not_lt, or_iff_not_imp_left, not_not]
      · simp [hsize, EntryFits]

/-- **When the limits are respected throughout**, from the limits, the sizes of the reads and the
readings of the clock. -/
theorem limits_respected_iff (hcontent : 0 ≤ limits.contentLength) (hbytes : 1 ≤ limits.maxBytes)
    (hseconds : 1 ≤ limits.maxSeconds) (startTime : Int64) {actions : List Action}
    (hrun : run (step limits) (Loop.start startTime) actions = some s) :
    Throughout (step limits) (Respects limits) (Loop.start startTime) actions ↔
      EachAfter (ReadFits limits startTime) [] actions := by
  rw [throughout_iff_fits hcontent hbytes hseconds startTime hrun]
  refine runWith_iff_eachAfter (I := fun before s => s.exit = none → Tracks startTime before s)
    ?_ ?_ (fun _ => tracks_start startTime) hrun
  · exact fun before s a t h hstep hgoes => Tracks.step h hstep hgoes
  · exact fun before s a t h hstep => fits_iff_readFits h hstep

/-- A download of 2000 bytes with limits that it does not come to. -/
theorem limits_respected_small :
    Throughout (step ⟨2000, 5000, 60⟩) (Respects ⟨2000, 5000, 60⟩) (Loop.start 0)
      [.iterate (some fullChunk) false 200, .iterate (some ⟨976, by decide, by decide⟩) false 400,
        .iterate none false 500, .finish] := by
  have hsome : (run (step ⟨2000, 5000, 60⟩) (Loop.start 0)
      [.iterate (some fullChunk) false 200, .iterate (some ⟨976, by decide, by decide⟩) false 400,
        .iterate none false 500, .finish]).isSome = true := by
    decide +kernel
  obtain ⟨s, hs⟩ := Option.isSome_iff_exists.mp hsome
  refine (limits_respected_iff (by decide) (by decide) (by decide) 0 hs).mpr ?_
  decide +kernel

/-- The limits of an intent that gives none. -/
def defaultLimits (contentLength : Int32) : Limits := ⟨contentLength, 2147483647, 2147483647⟩

/-- **A chunk that does not fit, and the default time limit**: 1024 bytes are written where 1000 are
the limit, and the loop is ended by the time test at once, since `Integer.MAX_VALUE*1000` is
negative. -/
theorem limits_not_respected :
    ((run (step ⟨5000, 1000, 60⟩) (Loop.start 0) [.iterate (some fullChunk) false 400]).map
        fun s => (s.written, s.reports.map (·.percent))) = some (1024, [102]) ∧
      ((run (step (defaultLimits 5000)) (Loop.start 0)
        [.iterate (some fullChunk) false 400]).map
        fun s => (s.exit, s.elapsed, s.written)) = some (some .time, 0, 0) := by
  decide +kernel

end Download
