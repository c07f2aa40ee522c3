/-
The speed test of the routes, as `NasFragment` follows it.

A broadcast of the downloader tells the progress of one route, which is recorded in the list.  When
a download has finished, the fastest route of the whole list becomes the current one, if the user
may use it.

* `fastestNas_eq_some_iff` — the scan finds the first of the fastest;
* `onReceive_cases` — all that a broadcast can do;
* `inRange_of_reach` — recorded speeds are read as they were written, in every run;
* `fastest_selected_iff` — when the current route is the fastest that the user may use;
* `slow_route_not_selected` — a paid route that is faster keeps a free one from being selected.
-/
import ReShadowsocks.Config
import ReShadowsocks.JavaLong
import ReShadowsocks.Transition

namespace SpeedTest

open Transition

/-! ### Routes and broadcasts -/

/-- The fields of a route that the test reads or writes; `none` is a key that is not there. -/
structure Nas where
  ip : JString
  free : Bool
  percent : Option Int64 := none
  speed : Option Int64 := none
  failed : Option JString := none
  started : Option Bool := none
  finished : Option Bool := none
  deriving DecidableEq

/-- `optInt` of the speed: the low half of the number, 0 if there is none. -/
def Nas.optSpeed (nas : Nas) : Int32 := nas.speed.elim 0 Int64.toInt32

/-- The speed that was recorded. -/
def Nas.recordedSpeed (nas : Nas) : Int := nas.speed.elim 0 Int64.toInt

structure User where
  isLimited : Bool
  deriving DecidableEq

/-- A broadcast, with the defaults of what it does not tell. -/
structure Intent where
  id : Option JString := none
  elapsed : Int64 := 0
  speed : Int64 := 0
  failed : Option JString := none
  started : Bool := false
  finished : Bool := false
  deriving DecidableEq

/-- What `reportSpeed` sends: the route, its speed and the seconds. -/
structure Report where
  ip : JString
  speed : Int64
  seconds : Int64
  deriving DecidableEq

structure State where
  mListData : List Nas
  /-- As it was when it was chosen. -/
  currentNas : Option Nas
  testingRouteIndex : Int
  reports : List Report
  deriving DecidableEq

/-! ### The handler -/

def testSeconds : Int64 := 6

def nasIsAvailable (user : Option User) (nas : Nas) : Bool :=
  match user with
  | none => true
  | some user => !user.isLimited || nas.free

/-- The loop of `fastestNas`. -/
def fastestFrom : Int32 → Option Nas → List Nas → Option Nas
  | _, result, [] => result
  | maxSpeed, result, nas :: rest =>
    if maxSpeed < nas.optSpeed then fastestFrom nas.optSpeed (some nas) rest
    else fastestFrom maxSpeed result rest

def fastestNas (mListData : List Nas) : Option Nas := fastestFrom 0 none mListData

def getNasByIp (mListData : List Nas) (ip : JString) : Option Nas :=
  mListData.find? fun nas => nas.ip == ip

def getRouteIndex (mListData : List Nas) (ip : JString) : Int :=
  (mListData.findIdx? fun nas => nas.ip == ip).elim (-1) fun i => (i : Int)

/-- The first route with the address is changed. -/
def putNas (ip : JString) (change : Nas → Nas) : List Nas → List Nas
  | [] => []
  | nas :: rest => if nas.ip = ip then change nas :: rest else nas :: putNas ip change rest

section

variable (errDownloadFailed : JString)

/-- What a broadcast records, one `put` after the other. -/
def record (intent : Intent) (nas : Nas) : Nas :=
  let nas := { nas with
    percent := some (100 * intent.elapsed / 1000 / testSeconds)
    speed := some intent.speed }
  let nas :=
    if intent.failed.isSome then
      { nas with failed := some errDownloadFailed, speed := some 0, finished := some true }
    else nas
  let nas :=
    if intent.started then { nas with started := some true, finished := some false } else nas
  if intent.finished then { nas with finished := some true } else nas

/-- The current route, once a download has finished. -/
def select (user : Option User) (mListData : List Nas) (currentNas : Option Nas) : Option Nas :=
  match fastestNas mListData with
  | none => currentNas
  | some nas => if nasIsAvailable user nas then some nas else currentNas

def setProgressData (user : Option User) (s : State) (id : JString) (intent : Intent) : State :=
  match getNasByIp s.mListData id with
  | none => s
  | some _ =>
    let mListData := putNas id (record errDownloadFailed intent) s.mListData
    { s with
      mListData
      currentNas := if intent.finished then select user mListData s.currentNas else s.currentNas }

def reportSpeed (s : State) (id : JString) (intent : Intent) : State :=
  match getNasByIp s.mListData id with
  | none => s
  | some nas => { s with reports := s.reports ++ [⟨nas.ip, intent.speed, intent.elapsed / 1000⟩] }

/-- A broadcast without an id only switches the buttons. -/
def onReceive (user : Option User) (s : State) (intent : Intent) : State :=
  match intent.id with
  | none => s
  | some id =>
    let s := setProgressData errDownloadFailed user s id intent
    let s :=
      if intent.started then { s with testingRouteIndex := getRouteIndex s.mListData id } else s
    if intent.finished then reportSpeed s id intent else s

/-- The receiver takes every broadcast. -/
def step (user : Option User) (s : State) (intent : Intent) : Option State :=
  some (onReceive errDownloadFailed user s intent)

end

/-! ### The scan -/

/-- The speed is in the range of an `int`. -/
def InRange (speed : Int64) : Prop := -2 ^ 31 ≤ speed.toInt ∧ speed.toInt < 2 ^ 31

instance (speed : Int64) : Decidable (InRange speed) := inferInstanceAs (Decidable (_ ∧ _))

/-- The speeds of the list are read as they were written. -/
def SpeedsInRange (mListData : List Nas) : Prop := ∀ nas ∈ mListData, ∀ v ∈ nas.speed, InRange v

theorem toInt_optSpeed {nas : Nas} (h : ∀ v ∈ nas.speed, InRange v) :
    nas.optSpeed.toInt = nas.recordedSpeed := by
  unfold Nas.optSpeed Nas.recordedSpeed
  cases hspeed : nas.speed with
  | none => rfl
  | some v =>
    obtain ⟨hlo, hhi⟩ := h v (by rw [hspeed]; rfl)
    exact JavaLong.toInt_toInt32 hlo hhi

/-- `nas` is the first of the fastest routes of a list. -/
def Leads (speed : Nas → Int) (l : List Nas) (nas : Nas) : Prop :=
  ∃ front back, l = front ++ nas :: back ∧ (∀ other ∈ front, speed other < speed nas) ∧
    ∀ other ∈ back, speed other ≤ speed nas

theorem Leads.mem {speed : Nas → Int} {l : List Nas} {nas : Nas} (h : Leads speed l nas) :
    nas ∈ l := by
  obtain ⟨front, back, rfl, -, -⟩ := h
  exact List.mem_append_right front List.mem_cons_self

theorem Leads.le {speed : Nas → Int} {l : List Nas} {nas other : Nas} (h : Leads speed l nas)
    (hother : other ∈ l) : speed other ≤ speed nas := by
  obtain ⟨front, back, rfl, hfront, hback⟩ := h
  rcases List.mem_append.mp hother with hmem | hmem
  · exact Int.le_of_lt (hfront other hmem)
  · rcases List.mem_cons.mp hmem with rfl | hmem
    · exact Int.le_refl _
    · exact hback other hmem

theorem Leads.cons {speed : Nas → Int} {l : List Nas} {nas x : Nas} (h : Leads speed l nas)
    (hx : speed x < speed nas) : Leads speed (x :: l) nas := by
  obtain ⟨front, back, rfl, hfront, hback⟩ := h
  exact ⟨x :: front, back, rfl, List.forall_mem_cons.mpr ⟨hx, hfront⟩, hback⟩

/-- Only one route is the first of the fastest. -/
theorem Leads.unique {speed : Nas → Int} {l : List Nas} {nas nas' : Nas} (h : Leads speed l nas)
    (h' : Leads speed l nas') : nas = nas' := by
  obtain ⟨front, back, rfl, hfront, hback⟩ := h
  obtain ⟨front', back', heq, hfront', hback'⟩ := h'
  obtain ⟨mid, rfl, hmid⟩ | ⟨mid, rfl, hmid⟩ := List.append_eq_append_iff.mp heq
  · cases mid with
    | nil => exact (List.cons.inj hmid).1
    | cons x mid =>
      obtain ⟨rfl, rfl⟩ := List.cons.inj hmid
      have hlt := hfront' nas (by simp)
      exact absurd hlt (Int.not_lt.mpr (hback nas' (by simp)))
  · cases mid with
    | nil => exact (List.cons.inj hmid).1.symm
    | cons x mid =>
      obtain ⟨rfl, rfl⟩ := List.cons.inj hmid
      have hlt := hfront nas' (by simp)
      exact absurd hlt (Int.not_lt.mpr (hback' nas (by simp)))

theorem Leads.congr {speed speed' : Nas → Int} {l : List Nas} {nas : Nas} (h : Leads speed l nas)
    (hspeed : ∀ other ∈ l, speed other = speed' other) : Leads speed' l nas := by
  obtain ⟨front, back, rfl, hfront, hback⟩ := h
  obtain ⟨hsame, hrest⟩ := List.forall_mem_append.mp hspeed
  obtain ⟨hnas, hsame'⟩ := List.forall_mem_cons.mp hrest
  refine ⟨front, back, rfl, fun other hother => ?_, fun other hother => ?_⟩
  · rw [← hsame other hother, ← hnas]
    exact hfront other hother
  · rw [← hsame' other hother, ← hnas]
    exact hback other hother

/-- The first of the fastest of a list in which every route is given a new speed. -/
theorem leads_map_iff {speed : Nas → Int} {change : Nas → Nas} {l : List Nas} {nas : Nas} :
    Leads speed (l.map change) nas ↔
      ∃ old, nas = change old ∧ Leads (fun nas => speed (change nas)) l old := by
  constructor
  · rintro ⟨front, back, heq, hfront, hback⟩
    obtain ⟨front, rest, rfl, rfl, hrest⟩ := List.map_eq_append_iff.mp heq
    obtain ⟨old, back, rfl, rfl, rfl⟩ := List.map_eq_cons_iff.mp hrest
    exact ⟨old, rfl, front, back, rfl, fun other hother => hfront _ (List.mem_map_of_mem hother),
      fun other hother => hback _ (List.mem_map_of_mem hother)⟩
  · rintro ⟨old, rfl, front, back, rfl, hfront, hback⟩
    refine ⟨front.map change, back.map change, by simp, ?_, ?_⟩
    · exact List.forall_mem_map.mpr hfront
    · exact List.forall_mem_map.mpr hback

/-- **The scan**: what it has found so far stays if nothing that is left is faster; otherwise it
finds the first of the fastest. -/
theorem fastestFrom_spec (maxSpeed : Int32) (result : Option Nas) (l : List Nas) :
    (fastestFrom maxSpeed result l = result ∧ ∀ nas ∈ l, nas.optSpeed ≤ maxSpeed) ∨
      ∃ nas, Leads (fun nas => nas.optSpeed.toInt) l nas ∧
        fastestFrom maxSpeed result l = some nas ∧ maxSpeed < nas.optSpeed := by
  induction l generalizing maxSpeed result with
  | nil => exact .inl ⟨rfl, fun nas hnas => absurd hnas List.not_mem_nil⟩
  | cons nas l ih =>
    rw [fastestFrom]
    by_cases hlt : maxSpeed < nas.optSpeed
    · rw [if_pos hlt]
      obtain ⟨hresult, hle⟩ | ⟨best, hleads, hresult, hbest⟩ := ih nas.optSpeed (some nas)
      · refine .inr ⟨nas, ⟨[], l, rfl, ?_, ?_⟩, hresult, hlt⟩
        · exact fun other hother => absurd hother List.not_mem_nil
        · exact fun other hother => Int32.le_iff_toInt_le.mp (hle other hother)
      · refine .inr ⟨best, hleads.cons ?_, hresult, Int32.lt_trans hlt hbest⟩
        exact Int32.lt_iff_toInt_lt.mp hbest
    · rw [if_neg hlt]
      have hnas : nas.optSpeed ≤ maxSpeed := Int32.not_lt.mp hlt
      obtain ⟨hresult, hle⟩ | ⟨best, hleads, hresult, hbest⟩ := ih maxSpeed result
      · exact .inl ⟨hresult, List.forall_mem_cons.mpr ⟨hnas, hle⟩⟩
      · refine .inr ⟨best, hleads.cons ?_, hresult, hbest⟩
        exact Int32.lt_iff_toInt_lt.mp (Int32.lt_of_le_of_lt hnas hbest)

/-- The scan finds the first of the fastest, if its speed is positive. -/
theorem fastestNas_eq_some_iff {l : List Nas} (h : SpeedsInRange l) {nas : Nas} :
    fastestNas l = some nas ↔ Leads Nas.recordedSpeed l nas ∧ 0 < nas.recordedSpeed := by
  have hpos {nas : Nas} (hnas : nas ∈ l) : (0 : Int32) < nas.optSpeed ↔ 0 < nas.recordedSpeed := by
    rw [Int32.lt_iff_toInt_lt, toInt_optSpeed (h nas hnas)]
    rfl
  obtain ⟨hresult, hle⟩ | ⟨best, hleads, hresult, hbest⟩ := fastestFrom_spec 0 none l
  · refine ⟨fun hnas => absurd (hresult.symm.trans hnas) (Option.some_ne_none nas).symm, ?_⟩
    rintro ⟨hleads, hnas⟩
    exact absurd ((hpos hleads.mem).mpr hnas) (Int32.not_lt.mpr (hle nas hleads.mem))
  · have hbest' : Leads Nas.recordedSpeed l best :=
      hleads.congr fun other hother => toInt_optSpeed (h other hother)
    constructor
    · intro hnas
      obtain rfl : best = nas := Option.some.inj (hresult.symm.trans hnas)
      exact ⟨hbest', (hpos hbest'.mem).mp hbest⟩
    · rintro ⟨hnas, -⟩
      rw [← hbest'.unique hnas]
      exact hresult

/-! ### One broadcast -/

section

variable {errDownloadFailed : JString} {user : Option User}

@[simp] theorem mListData_reportSpeed (s : State) (id : JString) (intent : Intent) :
    (reportSpeed s id intent).mListData = s.mListData := by
  unfold reportSpeed
  split <;> rfl

@[simp] theorem currentNas_reportSpeed (s : State) (id : JString) (intent : Intent) :
    (reportSpeed s id intent).currentNas = s.currentNas := by
  unfold reportSpeed
  split <;> rfl

/-- **All that a broadcast can do** to the list and the current route: nothing if it names no
route of the list; otherwise that route is changed, and a download that has finished selects. -/
theorem onReceive_cases (s : State) (intent : Intent) :
    ((∀ id ∈ intent.id, ∀ nas ∈ s.mListData, nas.ip ≠ id) ∧
      (onReceive errDownloadFailed user s intent).mListData = s.mListData ∧
      (onReceive errDownloadFailed user s intent).currentNas = s.currentNas) ∨
    ∃ id, intent.id = some id ∧
      (onReceive errDownloadFailed user s intent).mListData =
        putNas id (record errDownloadFailed intent) s.mListData ∧
      (onReceive errDownloadFailed user s intent).currentNas =
        if intent.finished then
          select user (putNas id (record errDownloadFailed intent) s.mListData) s.currentNas
        else s.currentNas := by
  unfold onReceive
  cases hid : intent.id with
  | none => exact .inl ⟨fun id h => absurd h (by simp), rfl, rfl⟩
  | some id =>
    -- neither the index nor the report touches the list or the current route
    have hrest (t : State) :
        let t' := if intent.started then
          { t with testingRouteIndex := getRouteIndex t.mListData id } else t
        (if intent.finished then reportSpeed t' id intent else t').mListData = t.mListData ∧
          (if intent.finished then reportSpeed t' id intent else t').currentNas = t.currentNas := by
      cases intent.finished <;> cases intent.started <;> simp
    obtain ⟨hlist, hcurrent⟩ := hrest (setProgressData errDownloadFailed user s id intent)
    dsimp only at hlist hcurrent ⊢
    rw [hlist, hcurrent, setProgressData]
    cases hfind : getNasByIp s.mListData id with
    | none =>
      refine .inl ⟨?_, rfl, rfl⟩
      rintro _ ⟨rfl⟩ nas hnas hip
      exact absurd (List.find?_eq_none.mp hfind nas hnas) (by simp [hip])
    | some nas => exact .inr ⟨id, rfl, rfl, rfl⟩

@[simp] theorem ip_record (intent : Intent) (nas : Nas) :
    (record errDownloadFailed intent nas).ip = nas.ip := by
  unfold record
  cases intent.failed.isSome <;> cases intent.started <;> cases intent.finished <;> rfl

@[simp] theorem free_record (intent : Intent) (nas : Nas) :
    (record errDownloadFailed intent nas).free = nas.free := by
  unfold record
  cases intent.failed.isSome <;> cases intent.started <;> cases intent.finished <;> rfl

theorem mem_putNas {ip : JString} {change : Nas → Nas} {l : List Nas} {nas : Nas}
    (h : nas ∈ putNas ip change l) : nas ∈ l ∨ ∃ old ∈ l, nas = change old := by
  induction l with
  | nil => exact absurd h List.not_mem_nil
  | cons x l ih =>
    rw [putNas] at h
    split at h
    · rcases List.mem_cons.mp h with rfl | h
      · exact .inr ⟨x, List.mem_cons_self, rfl⟩
      · exact .inl (List.mem_cons_of_mem x h)
    · rcases List.mem_cons.mp h with rfl | h
      · exact .inl List.mem_cons_self
      · obtain h | ⟨old, hold, rfl⟩ := ih h
        · exact .inl (List.mem_cons_of_mem x h)
        · exact .inr ⟨old, List.mem_cons_of_mem x hold, rfl⟩

/-- A download that failed has speed 0. -/
theorem speed_record (intent : Intent) (nas : Nas) :
    (record errDownloadFailed intent nas).speed =
      some (if intent.failed.isSome then 0 else intent.speed) := by
  unfold record
  cases intent.failed.isSome <;> cases intent.started <;> cases intent.finished <;> rfl

theorem speedsInRange_putNas {l : List Nas} (h : SpeedsInRange l) {intent : Intent}
    (hspeed : InRange intent.speed) (id : JString) :
    SpeedsInRange (putNas id (record errDownloadFailed intent) l) := by
  intro nas hnas
  obtain hmem | ⟨old, -, rfl⟩ := mem_putNas hnas
  · exact h nas hmem
  · rw [speed_record]
    rintro v ⟨rfl⟩
    split
    · decide
    · exact hspeed

theorem map_ip_putNas {ip : JString} {change : Nas → Nas}
    (hchange : ∀ nas, (change nas).ip = nas.ip) (l : List Nas) :
    (putNas ip change l).map Nas.ip = l.map Nas.ip := by
  induction l with
  | nil => rfl
  | cons nas l ih =>
    rw [putNas]
    split
    · rw [List.map_cons, List.map_cons, hchange]
    · rw [List.map_cons, List.map_cons, ih]

/-- The addresses of the routes are distinct. -/
def Distinct (mListData : List Nas) : Prop := (mListData.map Nas.ip).Nodup

instance (mListData : List Nas) : Decidable (Distinct mListData) :=
  inferInstanceAs (Decidable (List.Nodup _))

/-- With distinct addresses, the route with the address is changed and no other. -/
theorem putNas_eq_map {ip : JString} {change : Nas → Nas} {l : List Nas} (h : Distinct l) :
    putNas ip change l = l.map fun nas => if nas.ip = ip then change nas else nas := by
  induction l with
  | nil => rfl
  | cons nas l ih =>
    obtain ⟨hnas, hl⟩ := List.nodup_cons.mp h
    rw [putNas, List.map_cons]
    by_cases hip : nas.ip = ip
    · rw [if_pos hip, if_pos hip]
      have hother : ∀ other ∈ l, (if other.ip = ip then change other else other) = other := by
        intro other hmem
        exact if_neg fun hsame => hnas (List.mem_map.mpr ⟨other, hmem, hsame.trans hip.symm⟩)
      rw [List.map_congr_left hother, List.map_id']
    · rw [if_neg hip, if_neg hip, ih hl]

/-- The step lemma. -/
theorem speedsInRange_onReceive {s : State} (h : SpeedsInRange s.mListData) {intent : Intent}
    (hspeed : InRange intent.speed) :
    SpeedsInRange (onReceive errDownloadFailed user s intent).mListData := by
  obtain ⟨-, hlist, -⟩ | ⟨id, -, hlist, -⟩ :=
    @onReceive_cases errDownloadFailed user s intent
  · rw [hlist]
    exact h
  · rw [hlist]
    exact speedsInRange_putNas h hspeed id

/-- **Recorded speeds are read as they were written**, in every run. -/
theorem inRange_of_reach {s₀ s : State} (hstart : SpeedsInRange s₀.mListData)
    (hrun : Reach (step errDownloadFailed user) (fun _ intent => InRange intent.speed) s₀ s) :
    SpeedsInRange s.mListData := by
  refine hrun.invariant (I := fun s => SpeedsInRange s.mListData) hstart ?_
  intro s intent t hs hspeed ht
  obtain rfl := Option.some.inj ht
  exact speedsInRange_onReceive hs hspeed

/-- The addresses of the list never change. -/
theorem distinct_of_reach {P : State → Intent → Prop} {s₀ s : State}
    (hstart : Distinct s₀.mListData) (hrun : Reach (step errDownloadFailed user) P s₀ s) :
    Distinct s.mListData := by
  refine hrun.invariant (I := fun s => Distinct s.mListData) hstart ?_
  intro s intent t hs _ ht
  obtain rfl := Option.some.inj ht
  obtain ⟨-, hlist, -⟩ | ⟨id, -, hlist, -⟩ := @onReceive_cases errDownloadFailed user s intent
  · rw [hlist]
    exact hs
  · rw [hlist, Distinct, map_ip_putNas (ip_record intent)]
    exact hs

/-! ### The selection -/

/-- The current route is one of those with the highest speed among the routes that the user may
use, if one of them has a positive speed. -/
def SelectsFastest (user : Option User) (s : State) : Prop :=
  (∃ nas ∈ s.mListData, nasIsAvailable user nas = true ∧ 0 < nas.recordedSpeed) →
    ∃ current ∈ s.currentNas, ∃ nas ∈ s.mListData, nas.ip = current.ip ∧
      nasIsAvailable user nas = true ∧ ∀ other ∈ s.mListData,
        nasIsAvailable user other = true → other.recordedSpeed ≤ nas.recordedSpeed

instance (user : Option User) (s : State) : Decidable (SelectsFastest user s) :=
  inferInstanceAs (Decidable (_ → _))

/-- The speed of a route once a broadcast has come: what the broadcast tells for its own route, what
is recorded for the others. -/
def measured (intent : Intent) (nas : Nas) : Int :=
  if some nas.ip = intent.id then if intent.failed.isSome then 0 else intent.speed.toInt
  else nas.recordedSpeed

/-- What a broadcast makes of a route. -/
def updated (errDownloadFailed : JString) (intent : Intent) (nas : Nas) : Nas :=
  if some nas.ip = intent.id then record errDownloadFailed intent nas else nas

@[simp] theorem ip_updated (intent : Intent) (nas : Nas) :
    (updated errDownloadFailed intent nas).ip = nas.ip := by
  unfold updated
  split <;> simp

@[simp] theorem nasIsAvailable_updated (intent : Intent) (nas : Nas) :
    nasIsAvailable user (updated errDownloadFailed intent nas) = nasIsAvailable user nas := by
  have hfree : (updated errDownloadFailed intent nas).free = nas.free := by
    unfold updated
    split <;> simp
  unfold nasIsAvailable
  rw [hfree]

@[simp] theorem recordedSpeed_updated (intent : Intent) (nas : Nas) :
    (updated errDownloadFailed intent nas).recordedSpeed = measured intent nas := by
  unfold updated measured
  split
  · rw [Nas.recordedSpeed, speed_record]
    cases intent.failed.isSome <;> rfl
  · rfl

theorem mListData_onReceive {s : State} (hdistinct : Distinct s.mListData) (intent : Intent) :
    (onReceive errDownloadFailed user s intent).mListData =
      s.mListData.map (updated errDownloadFailed intent) := by
  obtain ⟨hno, hlist, -⟩ | ⟨id, hid, hlist, -⟩ :=
    @onReceive_cases errDownloadFailed user s intent
  · have hsame : ∀ nas ∈ s.mListData, updated errDownloadFailed intent nas = nas :=
      fun nas hnas => if_neg fun hid => hno nas.ip hid.symm nas hnas rfl
    rw [hlist, List.map_congr_left hsame, List.map_id']
  · rw [hlist, putNas_eq_map hdistinct]
    simp [updated, hid]

theorem select_eq {l : List Nas} {nas : Nas} {currentNas : Option Nas}
    (hfast : fastestNas l = some nas) (havailable : nasIsAvailable user nas = true) :
    select user l currentNas = some nas := by
  rw [select, hfast]
  exact if_pos havailable

theorem select_eq_old {l : List Nas} {currentNas : Option Nas}
    (h : ¬ ∃ nas ∈ fastestNas l, nasIsAvailable user nas = true) :
    select user l currentNas = currentNas := by
  unfold select
  split
  · rfl
  · rename_i nas hfast
    exact if_neg fun havailable => h ⟨nas, hfast, havailable⟩

theorem currentNas_onReceive {s : State} {id : JString} {intent : Intent}
    (hid : intent.id = some id) (hlisted : ∃ nas ∈ s.mListData, nas.ip = id)
    (hfinished : intent.finished = true) :
    (onReceive errDownloadFailed user s intent).currentNas =
      select user (onReceive errDownloadFailed user s intent).mListData s.currentNas := by
  obtain ⟨hno, -, -⟩ | ⟨id', -, hlist, hcurrent⟩ :=
    @onReceive_cases errDownloadFailed user s intent
  · obtain ⟨nas, hnas, hip⟩ := hlisted
    exact absurd hip (hno id hid nas hnas)
  · rw [hlist, hcurrent, if_pos hfinished]

/-- What the selection makes of a list: the fastest of all routes is one that the user may use, or
the current route is the one it was. -/
theorem selectsFastest_iff {s t : State} (hrange : SpeedsInRange t.mListData)
    (hcurrent : t.currentNas = select user t.mListData s.currentNas) :
    SelectsFastest user t ↔
      (∃ nas ∈ fastestNas t.mListData, nasIsAvailable user nas = true) ∨
      SelectsFastest user { t with currentNas := s.currentNas } := by
  by_cases hfast : ∃ nas ∈ fastestNas t.mListData, nasIsAvailable user nas = true
  · refine ⟨fun _ => .inl hfast, fun _ _ => ?_⟩
    obtain ⟨nas, hnas, havailable⟩ := hfast
    obtain ⟨hleads, -⟩ := (fastestNas_eq_some_iff hrange).mp hnas
    refine ⟨nas, ?_, nas, hleads.mem, rfl, havailable, fun other hother _ => hleads.le hother⟩
    rw [hcurrent]
    exact select_eq hnas havailable
  · have hsame : t.currentNas = s.currentNas := hcurrent.trans (select_eq_old hfast)
    rw [← hsame]
    exact ⟨.inr, fun h => h.resolve_left hfast⟩

/-- **When the current route is the fastest that the user may use**, right after a download of the
list has finished: none of these routes has a positive speed; or the first of the fastest routes,
over all routes, is one of them; or the route that was selected before is, and none of these is
faster. -/
theorem fastest_selected_iff {s₀ s : State} {id : JString} {intent : Intent}
    (hdistinct : Distinct s₀.mListData) (hstart : SpeedsInRange s₀.mListData)
    (hrun : Reach (step errDownloadFailed user) (fun _ intent => InRange intent.speed) s₀ s)
    (hid : intent.id = some id) (hlisted : ∃ nas ∈ s.mListData, nas.ip = id)
    (hfinished : intent.finished = true) (hspeed : InRange intent.speed) :
    SelectsFastest user (onReceive errDownloadFailed user s intent) ↔
      (∀ nas ∈ s.mListData, nasIsAvailable user nas = true → measured intent nas ≤ 0) ∨
      (∃ nas, Leads (measured intent) s.mListData nas ∧ 0 < measured intent nas ∧
        nasIsAvailable user nas = true) ∨
      ∃ current ∈ s.currentNas, ∃ nas ∈ s.mListData, nas.ip = current.ip ∧
        nasIsAvailable user nas = true ∧ ∀ other ∈ s.mListData,
          nasIsAvailable user other = true → measured intent other ≤ measured intent nas := by
  have hrange := @speedsInRange_onReceive errDownloadFailed user s (inRange_of_reach hstart hrun)
    intent hspeed
  have hlist := @mListData_onReceive errDownloadFailed user s (distinct_of_reach hdistinct hrun)
    intent
  rw [selectsFastest_iff hrange (currentNas_onReceive hid hlisted hfinished)]
  have hfastest : (∃ nas ∈ fastestNas (onReceive errDownloadFailed user s intent).mListData,
        nasIsAvailable user nas = true) ↔
      ∃ nas, Leads (measured intent) s.mListData nas ∧ 0 < measured intent nas ∧
        nasIsAvailable user nas = true := by
    simp only [Option.mem_def, fastestNas_eq_some_iff hrange]
    rw [hlist]
    simp only [leads_map_iff]
    constructor
    · rintro ⟨_, ⟨⟨nas, rfl, hleads⟩, hpos⟩, havailable⟩
      simp only [recordedSpeed_updated, nasIsAvailable_updated] at hleads hpos havailable
      exact ⟨nas, hleads, hpos, havailable⟩
    · rintro ⟨nas, hleads, hpos, havailable⟩
      refine ⟨_, ⟨⟨nas, rfl, ?_⟩, ?_⟩, ?_⟩
      · simpa only [recordedSpeed_updated] using hleads
      · rwa [recordedSpeed_updated]
      · rwa [nasIsAvailable_updated]
  rw [hfastest, or_left_comm]
  refine or_congr_right ?_
  rw [SelectsFastest, imp_iff_not_or, hlist]
  simp

end

/-! Two routes: one that has to be paid for, and a free one. -/

def twoRoutes : State where
  mListData := [⟨lit "198.51.100.1", false, none, none, none, none, none⟩,
    ⟨lit "198.51.100.2", true, none, none, none, none, none⟩]
  currentNas := none
  testingRouteIndex := -1
  reports := []

def finishedAt (ip : JString) (speed : Int64) : Intent :=
  { id := some ip, elapsed := 6000, speed, finished := true }

/-- The free route is the only one that was measured. -/
theorem fastest_selected_iff_free :
    SelectsFastest (some ⟨true⟩)
      (onReceive [] (some ⟨true⟩) twoRoutes (finishedAt (lit "198.51.100.2") 100)) := by
  have hstart : SpeedsInRange twoRoutes.mListData := by
    intro nas hnas v hv
    have hnone : ∀ nas ∈ twoRoutes.mListData, nas.speed = none := by decide
    rw [hnone nas hnas] at hv
    exact nomatch hv
  refine (@fastest_selected_iff [] (some ⟨true⟩) twoRoutes twoRoutes (lit "198.51.100.2") _
    (by decide +kernel) hstart .refl rfl ?_ rfl (by decide)).mpr (.inr (.inl ?_))
  · decide +kernel
  · refine ⟨_, ⟨[_], [], rfl, ?_, ?_⟩, ?_⟩ <;> decide +kernel

/-- A limited user; the route that has to be paid for is faster than the free one, which is not
selected. -/
theorem slow_route_not_selected :
    ∃ t, run (step [] (some ⟨true⟩)) twoRoutes
        [finishedAt (lit "198.51.100.1") 200, finishedAt (lit "198.51.100.2") 100] = some t ∧
      t.currentNas = none ∧ ¬ SelectsFastest (some ⟨true⟩) t := by
  refine ⟨_, rfl, ?_⟩
  decide +kernel

end SpeedTest
