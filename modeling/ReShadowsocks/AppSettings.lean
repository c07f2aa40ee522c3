/-
The per-app settings, from the list of apps to the preference and back.

`AppManager` writes the uids of the proxied apps, each followed by a bar.  The menu copies the
preference to the clipboard, with the bypass flag in front, and takes it back from there.

* `split_savedUids` — the parts of the saved text;
* `mem_split_savedUids_iff` — a uid is one of them if an app with it was proxied;
* `importSettings_exportSettings` — the clipboard gives back what it was given;
* `settings_read_back` — the flags that both readers see, and after the clipboard too.
-/
import ReShadowsocks.AppManager
import ReShadowsocks.ProfileManager

namespace AppManager

open Json JavaString BinarySearch
open ProfileManager (Settings)

/-! ### The list -/

/-- An installed app, as the list asks for it. -/
structure ListedApp where
  uid : Nat
  /-- `getApplicationLabel`, which may be null. -/
  label : Option JString
  /-- Whether `getApplicationIcon` gives one. -/
  hasIcon : Bool
  packageName : JString
  deriving DecidableEq

/-- The apps that `loadApps` lists. -/
def ListedApp.shown (a : ListedApp) : Bool := 10000 ≤ a.uid && a.label.isSome && a.hasIcon

/-- Only apps with a label are left when it is asked for again. -/
def loadApps (installed : List ListedApp) (prefs : Settings) : List ProxiedApp :=
  let proxiedApps := sortedUids (prefs.proxied.getD [])
  (installed.filter ListedApp.shown).map fun a =>
    ⟨a.uid, a.label.getD [], a.packageName, 0 ≤ binarySearch proxiedApps (decimalNat a.uid)⟩

/-- The text that `saveAppSettings` builds. -/
def savedUids (apps : List ProxiedApp) : JString :=
  apps.flatMap fun app => if app.proxied then decimalNat app.uid ++ [bar] else []

/-- Nothing is written before the list is loaded. -/
def saveAppSettings (prefs : Settings) (apps : Option (List ProxiedApp)) : Settings :=
  match apps with
  | none => prefs
  | some apps => { prefs with proxied := some (savedUids apps) }

/-! ### The clipboard -/

/-- `Key.proxied`. -/
def proxiedKey : JString := lit "Proxyed"

structure Clip where
  label : Option JString
  text : Option JString
  deriving DecidableEq

def boolText (b : Bool) : JString := if b then lit "true" else lit "false"

def exportSettings (prefs : Settings) : Clip where
  label := some proxiedKey
  text := some (boolText (prefs.isBypassApps.getD false) ++ space :: prefs.proxied.getD [])

/-- The lower case, as far as the two words need it: only ASCII letters have theirs in them. -/
def lowerCase (s : JString) : JString :=
  s.map fun c => if 0x41 ≤ c && c ≤ 0x5A then c + 0x20 else c

/-- `none` is an `IllegalArgumentException`. -/
def toBoolean (s : JString) : Option Bool :=
  if lowerCase s = lit "true" then some true
  else if lowerCase s = lit "false" then some false
  else none

/-- The preferences, and whether the menu item reports success; `none` is an exception. -/
def importSettings (prefs : Settings) (clip : Option Clip) : Option (Settings × Bool) :=
  match clip with
  | none => some (prefs, false)
  | some clip =>
    if clip.label = some proxiedKey then
      match clip.text with
      | none | some [] => some (prefs, false)
      | some proxiedAppString =>
        match split [space] proxiedAppString with
        -- a text of spaces only
        | [] => none
        | word :: rest =>
          (toBoolean word).map fun bypass =>
            ({ prefs with isBypassApps := some bypass, proxied := some (rest.head?.getD []) },
              true)
    else some (prefs, false)

/-! ### The saved text -/

theorem savedUids_eq_flatMap (apps : List ProxiedApp) :
    savedUids apps =
      ((apps.filter (·.proxied)).map fun app => decimalNat app.uid).flatMap (· ++ [bar]) := by
  induction apps with
  | nil => rfl
  | cons app apps ih =>
    rw [savedUids] at ih ⊢
    rw [List.flatMap_cons, ih]
    by_cases hproxied : app.proxied = true
    · rw [if_pos hproxied, List.filter_cons_of_pos hproxied, List.map_cons, List.flatMap_cons]
    · rw [if_neg hproxied, List.filter_cons_of_neg hproxied, List.nil_append]

/-- **The parts of the saved text**: one for each proxied app, or an empty one. -/
theorem split_savedUids (apps : List ProxiedApp) :
    split [bar] (savedUids apps) =
      if (apps.filter (·.proxied)) = [] then [[]]
      else (apps.filter (·.proxied)).map fun app => decimalNat app.uid := by
  rw [savedUids_eq_flatMap]
  split
  · rename_i hnone
    rw [hnone]
    rfl
  · rename_i hsome
    refine split_lines (fun p hp => ?_) (by simpa using hsome)
    obtain ⟨app, -, rfl⟩ := List.mem_map.mp hp
    exact ⟨not_mem_decimalNat (by decide) app.uid, decimalNat_ne_nil app.uid⟩

theorem decimalNat_injective : Function.Injective decimalNat :=
  Function.LeftInverse.injective natOf_decimalNat

/-- A uid is one of the parts if an app with it was proxied. -/
theorem mem_split_savedUids_iff (apps : List ProxiedApp) (uid : Nat) :
    decimalNat uid ∈ split [bar] (savedUids apps) ↔
      (apps.any fun app => app.uid == uid && app.proxied) = true := by
  have hparts : decimalNat uid ∈ (apps.filter (·.proxied)).map (fun app => decimalNat app.uid) ↔
      (apps.any fun app => app.uid == uid && app.proxied) = true := by
    simp only [List.mem_map, List.mem_filter, decimalNat_injective.eq_iff, List.any_eq_true,
      Bool.and_eq_true, beq_iff_eq]
    constructor
    · rintro ⟨app, ⟨hmem, hproxied⟩, huid⟩
      exact ⟨app, hmem, huid, hproxied⟩
    · rintro ⟨app, hmem, huid, hproxied⟩
      exact ⟨app, ⟨hmem, hproxied⟩, huid⟩
  rw [split_savedUids, ← hparts]
  split
  · rename_i hnone
    rw [hnone, List.mem_singleton]
    exact ⟨fun h => absurd h (decimalNat_ne_nil uid), fun h => absurd h List.not_mem_nil⟩
  · rfl

theorem space_not_mem_savedUids (apps : List ProxiedApp) : space ∉ savedUids apps := by
  intro hmem
  obtain ⟨app, -, happ⟩ := List.mem_flatMap.mp hmem
  split at happ
  · rcases List.mem_append.mp happ with hdigit | hbar
    · exact not_mem_decimalNat (by decide) app.uid hdigit
    · exact absurd (List.mem_singleton.mp hbar) (by decide)
  · exact absurd happ List.not_mem_nil

/-! ### Reading back -/

theorem toBoolean_boolText (b : Bool) :
    toBoolean (boolText b) = some b ∧ boolText b ≠ [] ∧ space ∉ boolText b := by
  cases b <;> decide +kernel

/-- **The clipboard gives back what it was given**, if the preference has no spaces. -/
theorem importSettings_exportSettings {prefs : Settings} (h : space ∉ prefs.proxied.getD []) :
    importSettings prefs (some (exportSettings prefs)) =
      some ({ prefs with
              isBypassApps := some (prefs.isBypassApps.getD false)
              proxied := some (prefs.proxied.getD []) }, true) := by
  set word := boolText (prefs.isBypassApps.getD false) with hword
  obtain ⟨hread, hne, hspace⟩ := toBoolean_boolText (prefs.isBypassApps.getD false)
  rw [← hword] at hread hne hspace
  have hsplit := split_pair hspace h hne
  obtain ⟨c, t, hct⟩ := List.exists_cons_of_ne_nil hne
  rw [importSettings, exportSettings]
  simp only [if_true, ← hword]
  rw [hct, List.cons_append] at hsplit ⊢
  by_cases hempty : prefs.proxied.getD [] = []
  · -- the text ends in the space, so there is one part only
    rw [if_pos hempty] at hsplit
    simp only [hsplit, ← hct, hread]
    rw [hempty]
    rfl
  · rw [if_neg hempty] at hsplit
    simp only [hsplit, ← hct, hread]
    rfl

theorem loadApps_saved (installed : List ListedApp) {prefs : Settings} {apps : List ProxiedApp}
    (h : prefs.proxied = some (savedUids apps)) :
    loadApps installed prefs = (installed.filter ListedApp.shown).map fun a =>
      ⟨a.uid, a.label.getD [], a.packageName,
        apps.any fun app => app.uid == a.uid && app.proxied⟩ := by
  rw [loadApps, h]
  refine List.map_congr_left fun a _ => ?_
  congr 1
  rw [Bool.eq_iff_iff, decide_eq_true_iff, Option.getD_some, binarySearch_sortedUids,
    mem_split_savedUids_iff]

theorem getProxiedApps_saved (installed : List ApplicationInfo) (apps : List ProxiedApp) :
    getProxiedApps installed (savedUids apps) = (installed.filter fun a => 10000 ≤ a.uid).map
      fun a => ⟨a.uid, a.label, a.packageName,
        apps.any fun app => app.uid == a.uid && app.proxied⟩ := by
  rw [getProxiedApps]
  refine List.map_congr_left fun a _ => ?_
  congr 1
  rw [Bool.eq_iff_iff, decide_eq_true_iff, binarySearch_sortedUids, mem_split_savedUids_iff]

/-- **Saved settings are read back.**  Both readers mark an installed app exactly if an app with
its uid was proxied when the list was saved; and they do so, with the same bypass flag, after the
preference went through the clipboard. -/
theorem settings_read_back (prefs : Settings) (apps : List ProxiedApp) :
    let saved := saveAppSettings prefs (some apps)
    let marked (uid : Nat) : Bool := apps.any fun app => app.uid == uid && app.proxied
    ∃ after, importSettings saved (some (exportSettings saved)) = some (after, true) ∧
      after.isBypassApps.getD false = saved.isBypassApps.getD false ∧
      ∀ s ∈ [saved, after],
        (∀ installed, loadApps installed s = (installed.filter ListedApp.shown).map fun a =>
          ⟨a.uid, a.label.getD [], a.packageName, marked a.uid⟩) ∧
        (∀ installed, getProxiedApps installed (s.proxied.getD []) =
          (installed.filter fun a => 10000 ≤ a.uid).map fun a =>
            ⟨a.uid, a.label, a.packageName, marked a.uid⟩) := by
  intro saved marked
  have hsaved : saved.proxied = some (savedUids apps) := rfl
  have himport := @importSettings_exportSettings saved (space_not_mem_savedUids apps)
  refine ⟨_, himport, rfl, ?_⟩
  have hread : ∀ s : Settings, s.proxied = some (savedUids apps) →
      (∀ installed, loadApps installed s = (installed.filter ListedApp.shown).map fun a =>
        ⟨a.uid, a.label.getD [], a.packageName, marked a.uid⟩) ∧
      (∀ installed, getProxiedApps installed (s.proxied.getD []) =
        (installed.filter fun a => 10000 ≤ a.uid).map fun a =>
          ⟨a.uid, a.label, a.packageName, marked a.uid⟩) := by
    intro s hs
    refine ⟨fun installed => loadApps_saved installed hs, fun installed => ?_⟩
    rw [hs]
    exact getProxiedApps_saved installed apps
  exact List.forall_mem_cons.mpr ⟨hread saved hsaved, List.forall_mem_singleton.mpr (hread _ rfl)⟩

end AppManager
