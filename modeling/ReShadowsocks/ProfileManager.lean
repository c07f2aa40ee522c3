/-
The two stores of the profiles: the table, and the preferences of the active profile.

The preferences are what the user edits.  `ProfileManager` copies them to the row whose id they
hold (`save`) and fills them from a row (`load`); the activity `Shadowsocks` decides when.
`given` records what the user wants: for each profile the last value that each column was given
while it was active, or the value it was created with.

* `row_updateRow`, `row_insertRow`, `row_deleteRow` — the table as a partial function;
* `columns_apply` — an edit changes the column of its key only;
* `Kept` — every row but the one being edited holds what it was given;
* `clean_save`, `kept_load` — saving takes over the edits, and with none left open a row can be
  loaded;
* `load_save_unchanged_iff` — when loading a row and saving it changes nothing;
* `load_save_resets` — a row that loses its date, its traffic and its description;
* `edits_kept` — no edit is lost if edits are made while the preferences belong to the active
  row, and no profile is deleted with edits of another left open;
* `edit_lost` — a deletion that drops the edits of another profile.
-/
import ReShadowsocks.Profile
import ReShadowsocks.Transition

namespace ProfileManager

open Transition Json JavaString

/-! ### Preferences -/

/-- The preferences; `none` is a key that is not there. -/
structure Settings where
  profileId : Option Int := none
  isGlobalProxy : Option Bool := none
  isGFWList : Option Bool := none
  isBypassApps : Option Bool := none
  isTrafficStat : Option Bool := none
  isUdpDns : Option Bool := none
  profileName : Option JString := none
  proxy : Option JString := none
  sitekey : Option JString := none
  encMethod : Option JString := none
  remotePort : Option JString := none
  localPort : Option JString := none
  proxied : Option JString := none
  route : Option JString := none
  deriving DecidableEq

/-- A port; 1984 if there is none, or none that can be read. -/
def readPort (s : Option JString) : Int32 := (parseInt (s.getD (lit "1984"))).getD 1984

def loadFromPreferences (settings : Settings) : Profile where
  id := settings.profileId.getD (-1)
  global := settings.isGlobalProxy.getD false
  chnroute := settings.isGFWList.getD false
  bypass := settings.isBypassApps.getD false
  traffic := settings.isTrafficStat.getD false
  udpdns := settings.isUdpDns.getD false
  name := settings.profileName.getD (lit "default")
  host := settings.proxy.getD (lit "127.0.0.1")
  password := settings.sitekey.getD (lit "default")
  method := settings.encMethod.getD (lit "table")
  route := settings.route.getD (lit "all")
  remotePort := readPort settings.remotePort
  localPort := readPort settings.localPort
  individual := settings.proxied.getD []

/-- The preferences that `load` writes. -/
def putProfile (profile : Profile) : Settings where
  profileId := profile.id
  isGlobalProxy := profile.global
  isGFWList := profile.chnroute
  isBypassApps := profile.bypass
  isTrafficStat := profile.traffic
  isUdpDns := profile.udpdns
  profileName := profile.name
  proxy := profile.host
  sitekey := profile.password
  encMethod := profile.method
  remotePort := decimal profile.remotePort.toInt
  localPort := decimal profile.localPort.toInt
  proxied := profile.individual
  route := profile.route

/-- The columns that have a preference. -/
structure Columns where
  global : Bool
  chnroute : Bool
  bypass : Bool
  traffic : Bool
  udpdns : Bool
  name : JString
  host : JString
  password : JString
  method : JString
  route : JString
  remotePort : Int32
  localPort : Int32
  individual : JString
  deriving DecidableEq

def columns (p : Profile) : Columns where
  global := p.global
  chnroute := p.chnroute
  bypass := p.bypass
  traffic := p.traffic
  udpdns := p.udpdns
  name := p.name
  host := p.host
  password := p.password
  method := p.method
  route := p.route
  remotePort := p.remotePort
  localPort := p.localPort
  individual := p.individual

/-- A preference that the user changes. -/
inductive Edit
  | isGlobalProxy (v : Bool)
  | isGFWList (v : Bool)
  | isBypassApps (v : Bool)
  | isTrafficStat (v : Bool)
  | isUdpDns (v : Bool)
  | profileName (v : JString)
  | proxy (v : JString)
  | sitekey (v : JString)
  | encMethod (v : JString)
  | remotePort (v : JString)
  | localPort (v : JString)
  | proxied (v : JString)
  | route (v : JString)
  deriving DecidableEq

def Edit.apply (settings : Settings) : Edit → Settings
  | .isGlobalProxy v => { settings with isGlobalProxy := v }
  | .isGFWList v => { settings with isGFWList := v }
  | .isBypassApps v => { settings with isBypassApps := v }
  | .isTrafficStat v => { settings with isTrafficStat := v }
  | .isUdpDns v => { settings with isUdpDns := v }
  | .profileName v => { settings with profileName := v }
  | .proxy v => { settings with proxy := v }
  | .sitekey v => { settings with sitekey := v }
  | .encMethod v => { settings with encMethod := v }
  | .remotePort v => { settings with remotePort := v }
  | .localPort v => { settings with localPort := v }
  | .proxied v => { settings with proxied := v }
  | .route v => { settings with route := v }

/-- The column that an edit gives a value. -/
def Edit.give (c : Columns) : Edit → Columns
  | .isGlobalProxy v => { c with global := v }
  | .isGFWList v => { c with chnroute := v }
  | .isBypassApps v => { c with bypass := v }
  | .isTrafficStat v => { c with traffic := v }
  | .isUdpDns v => { c with udpdns := v }
  | .profileName v => { c with name := v }
  | .proxy v => { c with host := v }
  | .sitekey v => { c with password := v }
  | .encMethod v => { c with method := v }
  | .remotePort v => { c with remotePort := readPort (some v) }
  | .localPort v => { c with localPort := readPort (some v) }
  | .proxied v => { c with individual := v }
  | .route v => { c with route := v }

/-! ### The stores -/

structure Store where
  settings : Settings
  /-- The table, in the order of the ids. -/
  rows : List Profile
  /-- The id that is generated next. -/
  nextId : Int
  currentProfile : Profile
  /-- What the columns of each profile were last given; nothing for one that was never there or
  was deleted.  For the record. -/
  given : Int → Option Columns

/-- Before the first run: no rows, and preferences without an id. -/
def Store.initial (settings : Settings) : Store where
  settings := { settings with profileId := none }
  rows := []
  nextId := 1
  currentProfile := {}
  given := fun _ => none

/-- The id of the active profile. -/
def Store.active (s : Store) : Int := s.currentProfile.id

def getProfile (s : Store) (id : Int) : Option Profile := s.rows.find? fun r => r.id == id

/-- The row with the profile's id is changed, if there is one. -/
def updateRow (s : Store) (profile : Profile) : Store :=
  { s with rows := s.rows.map fun r => if r.id = profile.id then profile else r }

/-- A new row under a fresh id, which the object gets too. -/
def insertRow (s : Store) (profile : Profile) : Store × Profile :=
  ({ s with
     rows := s.rows ++ [{ profile with id := s.nextId }]
     nextId := s.nextId + 1
     given := fun i => if i = s.nextId then some (columns profile) else s.given i },
   { profile with id := s.nextId })

def deleteRow (s : Store) (id : Int) : Store :=
  { s with
    rows := s.rows.filter fun r => r.id != id
    given := fun i => if i = id then none else s.given i }

def createOrUpdateProfile (s : Store) (profile : Profile) : Store × Profile :=
  match getProfile s profile.id with
  | some _ => (updateRow s profile, profile)
  | none => insertRow s profile

def save (s : Store) : Store × Profile :=
  let profile := loadFromPreferences s.settings
  (updateRow s profile, profile)

def load (s : Store) (id : Int) : Store × Profile :=
  let (s, profile) :=
    match getProfile s id with
    | some profile => (s, profile)
    | none => createOrUpdateProfile s {}
  ({ s with settings := putProfile profile }, profile)

def reload (s : Store) (id : Int) : Store × Profile := load (save s).1 id

def create (s : Store) : Store × Profile :=
  createOrUpdateProfile s (loadFromPreferences s.settings)

/-! ### The activity -/

inductive Action
  | edit (e : Edit)
  /-- The activity is created, with `currentProfile = new Profile`. -/
  | onCreate
  /-- The rest of `onCreate` at the first run of a version, which a thread does. -/
  | create
  /-- `onResume` finds another id in the preferences. -/
  | reloadProfile
  /-- The receiver of `UPDATE_PREFS`. -/
  | updatePrefs
  | updateProfile (id : Int)
  /-- A profile from a link; `Parser.parse` leaves its id at 0. -/
  | addProfile (profile : Profile)
  /-- The other `addProfile`, for an empty profile. -/
  | addProfileId (id : Int)
  /-- `delProfile`, and the dialog is confirmed. -/
  | delProfile (id : Int)
  deriving DecidableEq

/-- `currentProfile = …`. -/
def setCurrent (s : Store) (profile : Profile) : Store := { s with currentProfile := profile }

/-- The row that the preferences belong to, or else `profile`. -/
def storedProfile (s : Store) (profile : Profile) : Profile :=
  (getProfile s (s.settings.profileId.getD (-1))).getD profile

def step (s : Store) : Action → Option Store
  | .edit e =>
    some { s with
           settings := e.apply s.settings
           given := fun i => if i = s.active then (s.given i).map e.give else s.given i }
  | .onCreate => some (setCurrent s (storedProfile s {}))
  | .create =>
    let (s, profile) := create s
    some (setCurrent s profile)
  | .reloadProfile =>
    if s.settings.profileId.getD (-1) ≠ -1 ∧ s.settings.profileId.getD (-1) ≠ s.active then
      some (setCurrent s (storedProfile s s.currentProfile))
    else none
  | .updatePrefs =>
    let (s, profile) := save s
    some (setCurrent s profile)
  | .updateProfile id =>
    let (s, profile) := reload s id
    some (setCurrent s profile)
  | .addProfile profile =>
    if profile.id = 0 then
      let (s, currentProfile) := createOrUpdateProfile s profile
      let (s, _) := reload s currentProfile.id
      some (setCurrent s currentProfile)
    else none
  | .addProfileId id =>
    let (s, profile) := reload s id
    let (s, _) := save (setCurrent s profile)
    some s
  | .delProfile id =>
    match getProfile s id with
    | none => some s
    | some _ =>
      let s := deleteRow s id
      let profileId := s.rows.head?.elim (-1) fun r => r.id
      let (s, profile) := load s profileId
      some (setCurrent s profile)

/-! ### Copies -/

theorem readPort_decimal (port : Int32) : readPort (some (decimal port.toInt)) = port := by
  rw [readPort, Option.getD_some, parseInt_decimal, Option.getD_some]

/-- What `load` writes is read back. -/
theorem columns_putProfile (p : Profile) :
    columns (loadFromPreferences (putProfile p)) = columns p := by
  simp only [columns, loadFromPreferences, putProfile, readPort_decimal, Option.getD_some]

theorem id_loadFromPreferences (settings : Settings) :
    (loadFromPreferences settings).id = settings.profileId.getD (-1) := rfl

/-- An edit changes the column of its key only. -/
theorem columns_apply (e : Edit) (settings : Settings) :
    columns (loadFromPreferences (e.apply settings)) =
      e.give (columns (loadFromPreferences settings)) := by
  cases e <;> rfl

theorem profileId_apply (e : Edit) (settings : Settings) :
    (e.apply settings).profileId = settings.profileId := by
  cases e <;> rfl

/-! ### The table as a partial function -/

/-- The columns of the row with id `i`. -/
def row (s : Store) (i : Int) : Option Columns := (getProfile s i).map columns

theorem id_of_getProfile {s : Store} {i : Int} {r : Profile} (h : getProfile s i = some r) :
    r.id = i := by
  simpa using List.find?_some h

theorem isSome_row (s : Store) (i : Int) : (row s i).isSome = (getProfile s i).isSome :=
  Option.isSome_map

theorem row_updateRow (s : Store) (p : Profile) (i : Int) :
    row (updateRow s p) i = if i = p.id then (row s i).map fun _ => columns p else row s i := by
  -- the ids stay, so the row is found where it was
  have hids : ((fun r : Profile => r.id == i) ∘ fun r => if r.id = p.id then p else r) =
      fun r => r.id == i := by
    funext r
    by_cases hr : r.id = p.id
    · rw [Function.comp_apply, if_pos hr, hr]
    · rw [Function.comp_apply, if_neg hr]
  rw [row, getProfile, updateRow, List.find?_map, hids]
  cases h : getProfile s i with
  | none =>
    rw [getProfile] at h
    simp [row, getProfile, h]
  | some r =>
    have hr := id_of_getProfile h
    rw [getProfile] at h
    simp only [row, getProfile, h, Option.map_some, hr]
    split <;> rfl

theorem row_insertRow {s : Store} (h : row s s.nextId = none) (p : Profile) (i : Int) :
    row (insertRow s p).1 i = if i = s.nextId then some (columns p) else row s i := by
  rw [row, getProfile, insertRow, List.find?_append, List.find?_singleton]
  by_cases hi : i = s.nextId
  · rw [row, Option.map_eq_none_iff, getProfile] at h
    rw [hi, h, if_pos (beq_self_eq_true _), if_pos rfl]
    rfl
  · rw [if_neg (by simpa using Ne.symm hi), if_neg hi, Option.or_none]
    rfl

theorem row_deleteRow (s : Store) (id i : Int) :
    row (deleteRow s id) i = if i = id then none else row s i := by
  rw [row, getProfile, deleteRow, List.find?_filter]
  by_cases hi : i = id
  · rw [List.find?_eq_none.mpr (by simp [hi]), if_pos hi]
    rfl
  · have hsame : (fun r : Profile => decide ((r.id != id) = true ∧ (r.id == i) = true)) =
        fun r => r.id == i := by
      funext r
      by_cases hr : r.id = i
      · simp [hr, hi]
      · simp [hr]
    rw [hsame, if_neg hi]
    rfl

/-! ### What is kept -/

/-- No edit is lost: the row of a profile that is not active holds what it was given. -/
def Lossless (s : Store) : Prop :=
  ∀ i c, s.given i = some c → i ≠ s.active → row s i = some c

/-- The row of the preferences has taken over their values. -/
def Saved (s : Store) : Prop :=
  ∀ i ∈ s.settings.profileId, row s i = some (columns (loadFromPreferences s.settings))

instance (s : Store) : Decidable (Saved s) :=
  inferInstanceAs (Decidable (∀ i ∈ s.settings.profileId, _))

/-- Edits are made while the preferences belong to the active row, if there is one; and a
profile is deleted while it is active or when nothing is left to be saved. -/
def Careful (s : Store) : Action → Prop
  | .edit _ => (getProfile s s.active).isSome → s.settings.profileId = some s.active
  | .delProfile id => (getProfile s id).isSome → s.settings.profileId ≠ some id → Saved s
  | _ => True

instance (s : Store) : ∀ a, Decidable (Careful s a)
  | .edit _ => inferInstanceAs (Decidable (_ → _))
  | .delProfile _ => inferInstanceAs (Decidable (_ → _))
  | .onCreate | .create | .reloadProfile | .updatePrefs | .updateProfile _ | .addProfile _
  | .addProfileId _ => inferInstanceAs (Decidable True)

/-- Generated ids are positive and not used yet. -/
structure Fresh (s : Store) : Prop where
  next : 0 < s.nextId
  ids : ∀ i, (row s i).isSome → 0 < i ∧ i < s.nextId

/-- Every row holds what it was given. -/
def Clean (s : Store) : Prop := ∀ i, row s i = s.given i

/-- **Every row but the one being edited holds what it was given**; the preferences hold what
that row was given, and it is the active one. -/
structure Kept (s : Store) : Prop extends Fresh s where
  clean : ∀ i, s.settings.profileId ≠ some i → row s i = s.given i
  edited : ∀ i, s.settings.profileId = some i → (row s i).isSome ∧
    s.given i = some (columns (loadFromPreferences s.settings)) ∧ s.active = i

theorem Kept.lossless {s : Store} (h : Kept s) : Lossless s := by
  intro i c hgiven hactive
  rw [h.clean i fun hid => hactive (h.edited i hid).2.2.symm, hgiven]

theorem kept_initial (settings : Settings) : Kept (Store.initial settings) where
  next := Int.one_pos
  ids := fun _ h => nomatch h
  clean := fun _ _ => rfl
  edited := fun _ h => nomatch h

theorem kept_setCurrent {s : Store} (h : Kept s) {p : Profile}
    (hp : ∀ i, s.settings.profileId = some i → p.id = i) : Kept (setCurrent s p) where
  toFresh := ⟨h.next, h.ids⟩
  clean := h.clean
  edited := fun i hi => ⟨(h.edited i hi).1, (h.edited i hi).2.1, hp i hi⟩

theorem Fresh.row_eq_none {s : Store} (h : Fresh s) {i : Int} (hi : i ≤ 0 ∨ s.nextId ≤ i) :
    row s i = none := by
  rw [← Option.not_isSome_iff_eq_none]
  intro hsome
  have := h.ids i hsome
  omega

/-! ### Saving -/

/-- `save` writes what the row was given. -/
theorem clean_save {s : Store} (h : Kept s) : Clean (save s).1 := by
  intro i
  rw [save, row_updateRow]
  change (if i = s.settings.profileId.getD (-1) then _ else _) = s.given i
  cases hid : s.settings.profileId with
  | none =>
    have hclean : row s i = s.given i := h.clean i (by simp [hid])
    rw [Option.getD_none]
    split
    · rename_i hi
      -- no row has the id -1
      rw [← hclean, h.toFresh.row_eq_none (Or.inl (by omega)), Option.map_none]
    · exact hclean
  | some j =>
    rw [Option.getD_some]
    split
    · rename_i hi
      obtain ⟨hrow, hgiven, -⟩ := h.edited i (by rw [hid, hi])
      obtain ⟨c, hc⟩ := Option.isSome_iff_exists.mp hrow
      rw [hgiven, hc, Option.map_some]
    · rename_i hi
      exact h.clean i (by simpa [hid] using Ne.symm hi)

theorem fresh_updateRow {s : Store} (h : Fresh s) (p : Profile) : Fresh (updateRow s p) where
  next := h.next
  ids := by
    intro i hi
    refine h.ids i ?_
    rw [row_updateRow] at hi
    split at hi
    · rwa [Option.isSome_map] at hi
    · exact hi

theorem kept_save {s : Store} (h : Kept s) : Kept (save s).1 where
  toFresh := fresh_updateRow h.toFresh _
  clean := fun i _ => clean_save h i
  edited := by
    intro i hi
    obtain ⟨-, hgiven, hactive⟩ := h.edited i hi
    refine ⟨?_, hgiven, hactive⟩
    rw [clean_save h i]
    exact Option.isSome_iff_exists.mpr ⟨_, hgiven⟩

/-! ### Inserting and loading -/

theorem createOrUpdateProfile_of_absent {s : Store} {p : Profile} (h : row s p.id = none) :
    createOrUpdateProfile s p = insertRow s p := by
  rw [createOrUpdateProfile, Option.map_eq_none_iff.mp h]

theorem fresh_insertRow {s : Store} (h : Fresh s) (p : Profile) : Fresh (insertRow s p).1 where
  next := by
    have := h.next
    change 0 < s.nextId + 1
    omega
  ids := by
    intro i hi
    change 0 < i ∧ i < s.nextId + 1
    have hnext := h.next
    rw [row_insertRow (h.row_eq_none (Or.inr (le_refl _)))] at hi
    split at hi
    · omega
    · have := h.ids i hi
      omega

theorem row_insertRow_eq_given {s : Store} (h : Fresh s) (p : Profile) {i : Int}
    (hi : row s i = s.given i) : row (insertRow s p).1 i = (insertRow s p).1.given i := by
  rw [row_insertRow (h.row_eq_none (Or.inr (le_refl _))), hi]
  rfl

theorem kept_insertRow {s : Store} (h : Kept s) (p : Profile) : Kept (insertRow s p).1 where
  toFresh := fresh_insertRow h.toFresh p
  clean := fun i hi => row_insertRow_eq_given h.toFresh p (h.clean i hi)
  edited := by
    intro i hi
    obtain ⟨hrow, hgiven, hactive⟩ := h.edited i hi
    have hne : i ≠ s.nextId := (h.ids i hrow).2.ne
    refine ⟨?_, ?_, hactive⟩
    · rw [row_insertRow (h.row_eq_none (Or.inr (le_refl _))), if_neg hne]
      exact hrow
    · exact (if_neg hne).trans hgiven

/-- A row is loaded, a new one if need be. -/
theorem load_spec {s : Store} (hf : Fresh s) (hc : Clean s) (id : Int) :
    ∃ t, Fresh t ∧ Clean t ∧ row t (load s id).2.id = some (columns (load s id).2) ∧
      (load s id).1 = { t with settings := putProfile (load s id).2 } := by
  cases h : getProfile s id with
  | some p =>
    refine ⟨s, hf, hc, ?_, ?_⟩
    · rw [load, h, row, id_of_getProfile h, h]
      rfl
    · rw [load, h]
  | none =>
    -- a new object has the id 0, which no row has
    have habsent : row s (Profile.id {}) = none := hf.row_eq_none (Or.inl (le_refl _))
    have hload : load s id = ({ (insertRow s {}).1 with settings := putProfile (insertRow s {}).2 },
        (insertRow s {}).2) := by
      rw [load, h]
      simp only [createOrUpdateProfile_of_absent habsent]
    rw [hload]
    refine ⟨(insertRow s {}).1, fresh_insertRow hf {}, fun i => ?_, ?_, rfl⟩
    · exact row_insertRow_eq_given hf {} (hc i)
    · rw [row_insertRow (hf.row_eq_none (Or.inr (le_refl _)))]
      exact if_pos rfl

theorem id_load_of_present {s : Store} {id : Int} (h : (row s id).isSome) :
    (load s id).2.id = id := by
  rw [isSome_row] at h
  obtain ⟨p, hp⟩ := Option.isSome_iff_exists.mp h
  rw [load, hp]
  exact id_of_getProfile hp

/-- With no edits left open, a row can be loaded. -/
theorem kept_load {s : Store} (hf : Fresh s) (hc : Clean s) {id : Int} {current : Profile}
    (hcurrent : current.id = (load s id).2.id) : Kept (setCurrent (load s id).1 current) := by
  obtain ⟨t, htf, htc, hrow, hload⟩ := load_spec hf hc id
  rw [hload]
  refine ⟨⟨htf.next, htf.ids⟩, fun i _ => htc i, ?_⟩
  rintro i hi
  obtain rfl : (load s id).2.id = i := Option.some.inj hi
  refine ⟨?_, ?_, hcurrent⟩
  · exact Option.isSome_iff_exists.mpr ⟨_, hrow⟩
  · change t.given _ = some (columns (loadFromPreferences (putProfile _)))
    rw [columns_putProfile, ← htc, hrow]

theorem kept_reload {s : Store} (h : Kept s) (id : Int) :
    Kept (setCurrent (reload s id).1 (reload s id).2) :=
  kept_load (fresh_updateRow h.toFresh _) (clean_save h) rfl

/-! ### Columns without a preference -/

/-- The columns that `load` does not write; a new object has them empty. -/
def resetRest (p : Profile) : Profile :=
  { p with date := [], upload := 0, download := 0, description := [] }

theorem resetRest_eq_self_iff (p : Profile) :
    resetRest p = p ↔ p.date = [] ∧ p.upload = 0 ∧ p.download = 0 ∧ p.description = [] := by
  constructor
  · intro h
    rw [← h]
    exact ⟨rfl, rfl, rfl, rfl⟩
  · cases p
    rintro ⟨rfl, rfl, rfl, rfl⟩
    rfl

theorem loadFromPreferences_putProfile (p : Profile) :
    loadFromPreferences (putProfile p) = resetRest p := by
  simp only [loadFromPreferences, putProfile, readPort_decimal, Option.getD_some, resetRest]

theorem rows_save_load {s : Store} {id : Int} {r : Profile} (h : getProfile s id = some r) :
    (save (load s id).1).1.rows = s.rows.map fun x => if x.id = id then resetRest r else x := by
  have hid : (resetRest r).id = id := by
    show r.id = id
    exact id_of_getProfile h
  rw [load, h, save, updateRow]
  simp only [loadFromPreferences_putProfile, hid]

/-- **When loading a row and saving it changes nothing**: the object that is saved is a new one,
so the columns that have no preference must be as they are in a new object. -/
theorem load_save_unchanged_iff {s : Store} {id : Int} {r : Profile}
    (hids : (s.rows.map (·.id)).Nodup) (hrow : getProfile s id = some r) :
    (save (load s id).1).1.rows = s.rows ↔
      r.date = [] ∧ r.upload = 0 ∧ r.download = 0 ∧ r.description = [] := by
  have hmem : r ∈ s.rows := List.mem_of_find?_eq_some hrow
  have hid : r.id = id := id_of_getProfile hrow
  rw [rows_save_load hrow, ← resetRest_eq_self_iff]
  constructor
  · intro h
    have hsame := List.map_eq_map_iff.mp (h.trans (List.map_id s.rows).symm) r hmem
    rwa [if_pos hid] at hsame
  · intro h
    rw [h]
    -- no other row has the id, so the row that is written is the one that was read
    have hsame : ∀ x ∈ s.rows, (if x.id = id then r else x) = x := by
      intro x hx
      split
      · rename_i hx'
        exact List.inj_on_of_nodup_map hids hmem hx (hid.trans hx'.symm)
      · rfl
    rw [List.map_congr_left hsame, List.map_id']

/-- A store with one row. -/
def Store.single (r : Profile) : Store := { Store.initial {} with rows := [r], nextId := r.id + 1 }

/-- The first profile, with a server, as the application makes it. -/
theorem load_save_unchanged_server :
    let s := Store.single { id := 1, host := lit "203.0.113.7", remotePort := -1 }
    (save (load s 1).1).1.rows = s.rows := by
  intro s
  exact (load_save_unchanged_iff (s := s) (List.nodup_singleton _) rfl).mpr ⟨rfl, rfl, rfl, rfl⟩

/-- A row with a date, traffic and a description loses them. -/
theorem load_save_resets :
    let s := Store.single
      { id := 1, date := lit "2014-12-01", upload := 7, download := 9, description := lit "home" }
    (save (load s 1).1).1.rows = [{ id := 1 }] ∧ (save (load s 1).1).1.rows ≠ s.rows := by
  decide +kernel

/-! ### Steps -/

theorem kept_edit {s : Store} (h : Kept s) {e : Edit} (hok : Careful s (.edit e)) {t : Store}
    (hs : step s (.edit e) = some t) : Kept t := by
  obtain rfl := Option.some.inj hs
  have hid := profileId_apply e s.settings
  refine ⟨⟨h.next, h.ids⟩, fun i hi => ?_, fun i hi => ?_⟩
  · change row s i = if i = s.active then (s.given i).map e.give else s.given i
    have hclean := h.clean i (hid ▸ hi)
    rw [← hclean]
    split
    · rename_i hactive
      -- the preferences are not those of the active profile, so it has no row
      have habsent : row s i = none := by
        rw [← Option.not_isSome_iff_eq_none, isSome_row, hactive]
        exact fun hsome => hi (hid.trans (hactive ▸ hok hsome))
      rw [habsent, Option.map_none]
    · rfl
  · obtain ⟨hrow, hgiven, hactive⟩ := h.edited i (hid ▸ hi)
    refine ⟨hrow, ?_, hactive⟩
    change (if i = s.active then (s.given i).map e.give else s.given i) = _
    rw [if_pos hactive.symm, hgiven, Option.map_some, columns_apply]

/-- A row that was inserted is saved over and loaded again. -/
theorem kept_addProfile {s : Store} (h : Kept s) {p : Profile} {t : Store}
    (hs : step s (.addProfile p) = some t) : Kept t := by
  rw [step] at hs
  split at hs
  · rename_i hp
    have habsent : row s p.id = none := h.row_eq_none (Or.inl hp.le)
    rw [createOrUpdateProfile_of_absent habsent] at hs
    obtain rfl : setCurrent (reload (insertRow s p).1 s.nextId).1 (insertRow s p).2 = t :=
      Option.some.inj hs
    have hins := kept_insertRow h p
    -- `reload` saves the old preferences first, which leaves the new row where it is
    have hpresent : (row (save (insertRow s p).1).1 s.nextId).isSome := by
      rw [clean_save hins]
      exact Option.isSome_iff_exists.mpr ⟨columns p, if_pos rfl⟩
    exact kept_load (fresh_updateRow hins.toFresh _) (clean_save hins)
      (id_load_of_present hpresent).symm
  · exact nomatch hs

/-- The first run saves to the row of the preferences; if they belong to none it makes one,
but does not tell them. -/
theorem kept_create {s : Store} (h : Kept s) : Kept (setCurrent (create s).1 (create s).2) := by
  have hprefs := id_loadFromPreferences s.settings
  cases hid : s.settings.profileId with
  | none =>
    rw [hid, Option.getD_none] at hprefs
    have habsent : row s (loadFromPreferences s.settings).id = none :=
      h.row_eq_none (Or.inl (by omega))
    rw [create, createOrUpdateProfile_of_absent habsent]
    refine kept_setCurrent (kept_insertRow h _) fun i hi => ?_
    exact absurd (hid.symm.trans hi) (Option.some_ne_none i).symm
  | some j =>
    rw [hid, Option.getD_some] at hprefs
    obtain ⟨r, hr⟩ := Option.isSome_iff_exists.mp (isSome_row s j ▸ (h.edited j hid).1)
    rw [create, createOrUpdateProfile, hprefs, hr]
    refine kept_setCurrent (kept_save h) fun i hi => ?_
    rw [hprefs]
    exact Option.some.inj (hid.symm.trans hi)

theorem fresh_deleteRow {s : Store} (h : Fresh s) (id : Int) : Fresh (deleteRow s id) where
  next := h.next
  ids := by
    intro i hi
    rw [row_deleteRow] at hi
    split at hi
    · exact nomatch hi
    · exact h.ids i hi

/-- A deletion leaves nothing open, if only the deleted row was being edited. -/
theorem clean_deleteRow {s : Store} (h : Kept s) {id : Int}
    (hsaved : s.settings.profileId ≠ some id → Saved s) : Clean (deleteRow s id) := by
  intro i
  rw [row_deleteRow]
  change _ = if i = id then none else s.given i
  by_cases hi : i = id
  · rw [if_pos hi, if_pos hi]
  rw [if_neg hi, if_neg hi]
  by_cases hprefs : s.settings.profileId = some i
  · -- another row is being edited: what the preferences hold must be in it already
    rw [(h.edited i hprefs).2.1]
    refine hsaved ?_ i hprefs
    rw [hprefs]
    exact fun heq => hi (Option.some.inj heq)
  · exact h.clean i hprefs

theorem kept_delProfile {s : Store} (h : Kept s) {id : Int} (hok : Careful s (.delProfile id))
    {t : Store} (hs : step s (.delProfile id) = some t) : Kept t := by
  rw [step] at hs
  cases hrow : getProfile s id with
  | none =>
    rw [hrow] at hs
    exact Option.some.inj hs ▸ h
  | some r =>
    rw [hrow] at hs
    obtain rfl := Option.some.inj hs
    have hclean := clean_deleteRow h (hok (Option.isSome_iff_exists.mpr ⟨r, hrow⟩))
    exact kept_load (fresh_deleteRow h.toFresh id) hclean rfl

theorem id_storedProfile {s : Store} (h : Kept s) (p : Profile) {i : Int}
    (hi : s.settings.profileId = some i) : (storedProfile s p).id = i := by
  obtain ⟨r, hr⟩ := Option.isSome_iff_exists.mp (isSome_row s i ▸ (h.edited i hi).1)
  rw [storedProfile, hi, Option.getD_some, hr, Option.getD_some]
  exact id_of_getProfile hr

theorem kept_step {s : Store} (h : Kept s) {a : Action} (hok : Careful s a) {t : Store}
    (hs : step s a = some t) : Kept t := by
  cases a with
  | edit e => exact kept_edit h hok hs
  | onCreate =>
    obtain rfl := Option.some.inj hs
    exact kept_setCurrent h fun i => id_storedProfile h {}
  | create =>
    obtain rfl := Option.some.inj hs
    exact kept_create h
  | reloadProfile =>
    rw [step] at hs
    split at hs
    · obtain rfl := Option.some.inj hs
      exact kept_setCurrent h fun i => id_storedProfile h s.currentProfile
    · exact nomatch hs
  | updatePrefs =>
    obtain rfl := Option.some.inj hs
    refine kept_setCurrent (kept_save h) fun i hi => ?_
    change s.settings.profileId.getD (-1) = i
    rw [show s.settings.profileId = some i from hi, Option.getD_some]
  | updateProfile id =>
    obtain rfl := Option.some.inj hs
    exact kept_reload h id
  | addProfile p => exact kept_addProfile h hs
  | addProfileId id =>
    obtain rfl := Option.some.inj hs
    exact kept_save (kept_reload h id)
  | delProfile id => exact kept_delProfile h hok hs

/-- **No edit is lost** if edits are made while the preferences belong to the active row, and no
profile is deleted with edits of another left open. -/
theorem edits_kept (settings : Settings) {s : Store}
    (h : Reach step Careful (Store.initial settings) s) : Lossless s :=
  (h.invariant (kept_initial settings) fun _ _ _ hs hok => kept_step hs hok).lossless

/-- The second profile gets a server, then the first is chosen again. -/
theorem edits_kept_switched :
    ∃ s, Reach step Careful (Store.initial {}) s ∧ Lossless s ∧ s.active = 1 ∧
      (row s 2).map (fun c => c.host) = some (lit "203.0.113.7") := by
  have hrun : (runWith step Careful (Store.initial {})
      [.create, .onCreate, .updateProfile 1, .addProfileId 9,
        .edit (.proxy (lit "203.0.113.7")), .updateProfile 1]).any (fun s => decide
      (s.active = 1 ∧ (row s 2).map (fun c => c.host) = some (lit "203.0.113.7"))) = true := by
    decide +kernel
  obtain ⟨s, hreach, hs⟩ := exists_reach_of_runWith hrun
  exact ⟨s, hreach, edits_kept {} hreach, of_decide_eq_true hs⟩

/-- The second of three profiles is edited and the third deleted: the first is loaded over the
edits, which no row has. -/
theorem edit_lost :
    ∃ s, Reach step anyStep (Store.initial {}) s ∧ ¬ Lossless s ∧ s.active = 1 ∧
      (s.given 2).map (fun c => c.host) = some (lit "203.0.113.7") ∧
      (row s 2).map (fun c => c.host) = some [] := by
  have hrun : (run step (Store.initial {})
      [.create, .onCreate, .updateProfile 1, .addProfileId 9, .addProfileId 9, .updateProfile 2,
        .edit (.proxy (lit "203.0.113.7")), .delProfile 3]).any (fun s => decide (s.active = 1 ∧
      (s.given 2).map (fun c => c.host) = some (lit "203.0.113.7") ∧
      (row s 2).map (fun c => c.host) = some [])) = true := by
    decide +kernel
  obtain ⟨s, hreach, hs⟩ := exists_reach_of_run hrun
  obtain ⟨hactive, hgiven, hrow⟩ := of_decide_eq_true hs
  refine ⟨s, hreach, fun hlossless => ?_, hactive, hgiven, hrow⟩
  obtain ⟨c, hc, hhost⟩ := Option.map_eq_some_iff.mp hgiven
  rw [hlossless 2 c hc (by rw [hactive]; decide), Option.map_some, hhost] at hrow
  exact absurd hrow (by decide +kernel)

-- The first run does not give the preferences an id, so what is edited next is saved nowhere.
example : (run step (Store.initial {})
    [.create, .edit (.proxy (lit "203.0.113.7")), .updatePrefs, .addProfileId 9]).any (fun s =>
      decide (s.active = 2 ∧ (s.given 1).map (fun c => c.host) = some (lit "203.0.113.7") ∧
        (row s 1).map (fun c => c.host) = some (lit "127.0.0.1"))) = true := by
  decide +kernel

end ProfileManager
