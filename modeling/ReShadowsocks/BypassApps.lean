/-
The apps that bypass the VPN.

`App.saveSelectedApp` keeps their names in one preference, a text with a line for each name.
`App.isSelected` and `App.getSelectedAppsCount` read it, and so does
`ShadowsocksVpnService.startVpn`, which passes every line to `addDisallowedApplication`.

* `Represents.saveSelectedApp` — a call keeps the text in the form of distinct names in lines;
* `represents_afterCalls` — so do any calls, and the names are those that were selected last;
* `preference_is_set` — what is read from the preference after any calls;
* `excludesSelected_iff` — when `startVpn` passes the selected names and its own;
* `empty_name_passed` — the empty preference.
-/
import Mathlib.Data.Set.Card
import ReShadowsocks.Config
import ReShadowsocks.JavaString

namespace BypassApps

open Json JavaString

/-- The name of a package: it is not empty and has no white space, which is what `trim` takes
away. -/
structure PackageName where
  text : JString
  ne_nil : text ≠ []
  not_space : ∀ c ∈ text, ¬ c ≤ 0x20

section

/-! `fold` maps a character to the lower case of its upper case.  Nothing depends on which
characters it takes together. -/

variable (fold : UInt16 → UInt16)

/-- `equalsIgnoreCase`, which compares the folded characters one by one. -/
def equalsIgnoreCase (s t : JString) : Bool := s.map fold == t.map fold

/-- A name without regard to case. -/
def PackageName.key (p : PackageName) : JString := p.text.map fold

/-! ### The preference -/

def isSelected (appsString packageName : JString) : Bool :=
  (split [newline] appsString).any fun app => equalsIgnoreCase fold app packageName

/-- The new value of the preference. -/
def saveSelectedApp (appsString packageName : JString) (selected : Bool) : JString :=
  let apps := split [newline] appsString
  let buf := (apps.filter fun app => !equalsIgnoreCase fold app packageName).flatMap
    (· ++ [newline])
  trim (if selected then buf ++ packageName else buf)

def getSelectedAppsCount (appsString : JString) : Nat :=
  if appsString.isEmpty then 0 else (split [newline] appsString).length

/-- A call of `saveSelectedApp`. -/
structure Call where
  packageName : PackageName
  selected : Bool

/-- The preference after some calls, from the empty one. -/
def afterCalls (calls : List Call) : JString :=
  calls.foldl (fun appsString call =>
    saveSelectedApp fold appsString call.packageName.text call.selected) []

/-! ### What the calls mean -/

/-- What the last call for a name said. -/
def lastSelected (calls : List Call) (q : JString) : Bool :=
  (calls.reverse.find? fun call => equalsIgnoreCase fold call.packageName.text q).elim false
    (·.selected)

/-- The names that are selected, without regard to case. -/
def selectedNames (calls : List Call) : Set JString :=
  {k | ∃ q : PackageName, q.key fold = k ∧ lastSelected fold calls q.text = true}

theorem lastSelected_append (calls : List Call) (call : Call) (q : JString) :
    lastSelected fold (calls ++ [call]) q =
      if equalsIgnoreCase fold call.packageName.text q then call.selected
      else lastSelected fold calls q := by
  rw [lastSelected, List.reverse_append, List.reverse_singleton, List.singleton_append,
    List.find?_cons]
  cases equalsIgnoreCase fold call.packageName.text q with
  | true => rfl
  | false => rfl

theorem equalsIgnoreCase_iff {s t : JString} :
    equalsIgnoreCase fold s t = true ↔ s.map fold = t.map fold := beq_iff_eq

theorem afterCalls_append (calls : List Call) (call : Call) :
    afterCalls fold (calls ++ [call]) =
      saveSelectedApp fold (afterCalls fold calls) call.packageName.text call.selected := by
  rw [afterCalls, List.foldl_append]
  rfl

end

/-! ### Names in lines -/

/-- The text with a line for each name. -/
def joined (names : List PackageName) : JString := [newline].intercalate (names.map (·.text))

theorem PackageName.newline_not_mem (p : PackageName) : newline ∉ p.text :=
  fun h => p.not_space newline h (by decide)

theorem split_joined {names : List PackageName} (hne : names ≠ []) :
    split [newline] (joined names) = names.map (·.text) := by
  refine split_intercalate (fun p hp => ?_) (by simpa using hne)
  obtain ⟨q, -, rfl⟩ := List.mem_map.mp hp
  exact ⟨q.newline_not_mem, q.ne_nil⟩

theorem joined_append (names : List PackageName) (p : PackageName) :
    joined (names ++ [p]) = (names.map (·.text)).flatMap (· ++ [newline]) ++ p.text := by
  rw [flatMap_append_eq_intercalate, joined, List.map_append]
  rfl

/-- A text of names begins and ends with a character of a name. -/
theorem joined_ends (names : List PackageName) :
    (∀ c ∈ (joined names).head?, ¬ c ≤ 0x20) ∧ ∀ c ∈ (joined names).getLast?, ¬ c ≤ 0x20 := by
  constructor
  · cases names with
    | nil => exact fun c hc => nomatch hc
    | cons p names =>
      have hstart : ∃ rest, joined (p :: names) = p.text ++ rest := by
        cases names with
        | nil => exact ⟨[], by simp [joined]⟩
        | cons q names => exact ⟨newline :: joined (q :: names), by simp [joined]⟩
      obtain ⟨rest, hrest⟩ := hstart
      rw [hrest, List.head?_append_of_ne_nil _ p.ne_nil]
      exact fun c hc => p.not_space c (List.mem_of_mem_head? hc)
  · cases names using List.reverseRecOn with
    | nil => exact fun c hc => nomatch hc
    | append_singleton names p =>
      rw [joined_append, List.getLast?_append_of_ne_nil _ p.ne_nil]
      exact fun c hc => p.not_space c (List.mem_of_mem_getLast? hc)

theorem joined_eq_nil_iff {names : List PackageName} : joined names = [] ↔ names = [] := by
  cases names using List.reverseRecOn with
  | nil => exact iff_of_true rfl rfl
  | append_singleton names p =>
    rw [joined_append]
    simp [p.ne_nil]

/-- White space around a text of names is taken away. -/
theorem trim_joined {a b : JString} (names : List PackageName) (ha : ∀ c ∈ a, c ≤ 0x20)
    (hb : ∀ c ∈ b, c ≤ 0x20) : trim (a ++ (joined names ++ b)) = joined names :=
  trim_append ha hb (joined_ends names).1 (joined_ends names).2

section

variable {fold : UInt16 → UInt16} {appsString : JString} {names : List PackageName}

/-- The preference is a text of names that are distinct without regard to case. -/
structure Represents (fold : UInt16 → UInt16) (appsString : JString) (names : List PackageName) :
    Prop where
  text : appsString = joined names
  distinct : (names.map (·.key fold)).Nodup

/-- The names without one. -/
def without (fold : UInt16 → UInt16) (names : List PackageName) (p : PackageName) :
    List PackageName :=
  names.filter fun q => !equalsIgnoreCase fold q.text p.text

/-- The names after a call: the one it is for is at the end, if it is selected. -/
def update (fold : UInt16 → UInt16) (names : List PackageName) (call : Call) : List PackageName :=
  without fold names call.packageName ++ if call.selected then [call.packageName] else []

/-- The lines that `saveSelectedApp` keeps, behind an empty one if the preference was empty. -/
theorem exists_kept_lines (names : List PackageName) (p : PackageName) :
    ∃ a : JString, (∀ c ∈ a, c ≤ 0x20) ∧
      ((split [newline] (joined names)).filter fun app =>
          !equalsIgnoreCase fold app p.text).flatMap (· ++ [newline]) =
        a ++ ((without fold names p).map (·.text)).flatMap (· ++ [newline]) := by
  by_cases hne : names = []
  · subst hne
    have hsplit : split [newline] (joined []) = [[]] := rfl
    refine ⟨[newline], List.forall_mem_singleton.mpr (by decide), ?_⟩
    rw [hsplit]
    simp [equalsIgnoreCase, p.ne_nil, without]
  · refine ⟨[], by simp, ?_⟩
    rw [split_joined hne, List.filter_map]
    rfl

/-- The last line ends in white space. -/
theorem exists_flatMap_eq_joined (names : List PackageName) :
    ∃ b : JString, (∀ c ∈ b, c ≤ 0x20) ∧
      (names.map (·.text)).flatMap (· ++ [newline]) = joined names ++ b := by
  cases names using List.reverseRecOn with
  | nil => exact ⟨[], by simp, rfl⟩
  | append_singleton names p =>
    refine ⟨[newline], List.forall_mem_singleton.mpr (by decide), ?_⟩
    rw [joined_append]
    simp

theorem mem_map_key_without_iff {names : List PackageName} {p : PackageName} {k : JString} :
    k ∈ (without fold names p).map (·.key fold) ↔
      k ≠ p.key fold ∧ k ∈ names.map (·.key fold) := by
  have hother : ∀ q : PackageName,
      (!equalsIgnoreCase fold q.text p.text) = true ↔ q.key fold ≠ p.key fold := by
    intro q
    rw [Bool.not_eq_true', ← Bool.not_eq_true, equalsIgnoreCase_iff]
    rfl
  constructor
  · intro hk
    obtain ⟨q, hq, rfl⟩ := List.mem_map.mp hk
    obtain ⟨hq, hne⟩ := List.mem_filter.mp hq
    exact ⟨(hother q).mp hne, List.mem_map_of_mem hq⟩
  · rintro ⟨hne, hk⟩
    obtain ⟨q, hq, rfl⟩ := List.mem_map.mp hk
    exact List.mem_map_of_mem (List.mem_filter.mpr ⟨hq, (hother q).mpr hne⟩)

theorem mem_map_key_update_iff {names : List PackageName} {call : Call} {k : JString} :
    k ∈ (update fold names call).map (·.key fold) ↔
      k = call.packageName.key fold ∧ call.selected = true ∨
        k ≠ call.packageName.key fold ∧ k ∈ names.map (·.key fold) := by
  have hadded : k ∈ (if call.selected then [call.packageName] else []).map (·.key fold) ↔
      k = call.packageName.key fold ∧ call.selected = true := by
    cases call.selected with
    | true => simp
    | false => simp
  rw [update, List.map_append, List.mem_append, mem_map_key_without_iff, hadded, or_comm]

/-- **Step.**  A call keeps the form of the preference. -/
theorem Represents.saveSelectedApp (h : Represents fold appsString names) (call : Call) :
    Represents fold (saveSelectedApp fold appsString call.packageName.text call.selected)
      (update fold names call) := by
  have hdistinct : ((without fold names call.packageName).map (·.key fold)).Nodup :=
    h.distinct.sublist (List.filter_sublist.map _)
  obtain ⟨a, ha, hlines⟩ := @exists_kept_lines fold names call.packageName
  rw [BypassApps.saveSelectedApp, h.text]
  simp only [hlines, update]
  cases call.selected with
  | true =>
    constructor
    · have hbuf := trim_joined (without fold names call.packageName ++ [call.packageName]) ha
        fun c (hc : c ∈ []) => absurd hc List.not_mem_nil
      rw [List.append_nil, joined_append, ← List.append_assoc, ← joined_append] at hbuf
      exact hbuf
    · show (List.map _ (_ ++ [call.packageName])).Nodup
      rw [List.map_append, List.map_singleton, ← List.concat_eq_append]
      exact hdistinct.concat fun hmem => (mem_map_key_without_iff.mp hmem).1 rfl
  | false =>
    obtain ⟨b, hb, hkept⟩ := exists_flatMap_eq_joined (without fold names call.packageName)
    simp only [Bool.false_eq_true, if_false, List.append_nil, hkept]
    exact ⟨trim_joined _ ha hb, hdistinct⟩

/-- **Run.**  After any calls the preference holds the names that were selected last. -/
theorem represents_afterCalls (fold : UInt16 → UInt16) (calls : List Call) :
    ∃ names, Represents fold (afterCalls fold calls) names ∧
      ∀ q : JString, (q.map fold ∈ names.map (·.key fold)) ↔
        lastSelected fold calls q = true := by
  induction calls using List.reverseRecOn with
  | nil => exact ⟨[], ⟨rfl, List.nodup_nil⟩, fun q => iff_of_false List.not_mem_nil (nomatch ·)⟩
  | append_singleton calls call ih =>
    obtain ⟨names, hnames, hlast⟩ := ih
    refine ⟨update fold names call, ?_, fun q => ?_⟩
    · rw [afterCalls_append]
      exact hnames.saveSelectedApp call
    · rw [mem_map_key_update_iff, lastSelected_append, hlast]
      by_cases hq : call.packageName.key fold = q.map fold
      · rw [if_pos ((equalsIgnoreCase_iff fold).mpr hq)]
        simp [hq]
      · rw [if_neg (mt (equalsIgnoreCase_iff fold).mp hq)]
        simp [Ne.symm hq]

/-! ### Reading the preference -/

theorem Represents.isSelected_iff (h : Represents fold appsString names) (q : PackageName) :
    isSelected fold appsString q.text = true ↔
      q.key fold ∈ names.map (·.key fold) := by
  rw [isSelected, h.text, List.any_eq_true]
  simp only [equalsIgnoreCase_iff]
  by_cases hne : names = []
  · -- the empty text is one empty line
    subst hne
    have hsplit : split [newline] (joined []) = [[]] := rfl
    rw [hsplit]
    simp [q.ne_nil]
  · rw [split_joined hne]
    simp [PackageName.key]

theorem Represents.getSelectedAppsCount (h : Represents fold appsString names) :
    getSelectedAppsCount appsString = names.length := by
  rw [BypassApps.getSelectedAppsCount, h.text]
  by_cases hne : names = []
  · subst hne
    rfl
  · rw [if_neg (by simpa [joined_eq_nil_iff] using hne), split_joined hne, List.length_map]

/-- The names in the preference are those that are selected. -/
theorem mem_selectedNames_iff {calls : List Call}
    (hlast : ∀ q : JString, (q.map fold ∈ names.map (·.key fold)) ↔
      lastSelected fold calls q = true) (k : JString) :
    k ∈ selectedNames fold calls ↔ k ∈ names.map (·.key fold) := by
  constructor
  · rintro ⟨q, rfl, hq⟩
    exact (hlast q.text).mpr hq
  · intro hk
    obtain ⟨p, -, rfl⟩ := List.mem_map.mp hk
    exact ⟨p, rfl, (hlast p.text).mp hk⟩

theorem Represents.ncard_selectedNames {calls : List Call} (h : Represents fold appsString names)
    (hlast : ∀ q : JString, (q.map fold ∈ names.map (·.key fold)) ↔
      lastSelected fold calls q = true) : (selectedNames fold calls).ncard = names.length := by
  have hset : selectedNames fold calls = ↑(names.map (·.key fold)).toFinset := by
    ext k
    rw [mem_selectedNames_iff hlast, Finset.mem_coe, List.mem_toFinset]
  rw [hset, Set.ncard_coe_finset, List.toFinset_card_of_nodup h.distinct, List.length_map]

end

/-- **The preference behaves as a set**: after any calls a name is selected if the last call for it
said so, the count is that of the selected names, a call for a name changes no other one, and no
name is stored twice. -/
theorem preference_is_set (fold : UInt16 → UInt16) (calls : List Call) :
    (∀ q : PackageName, isSelected fold (afterCalls fold calls) q.text =
        lastSelected fold calls q.text) ∧
      getSelectedAppsCount (afterCalls fold calls) = (selectedNames fold calls).ncard ∧
      (∀ (call : Call) (q : PackageName),
        equalsIgnoreCase fold call.packageName.text q.text = false →
          isSelected fold (afterCalls fold (calls ++ [call])) q.text =
            isSelected fold (afterCalls fold calls) q.text) ∧
      (split [newline] (afterCalls fold calls)).Pairwise
        fun p q => equalsIgnoreCase fold p q = false := by
  have hstatus : ∀ (calls : List Call) (q : PackageName),
      isSelected fold (afterCalls fold calls) q.text = lastSelected fold calls q.text := by
    intro calls q
    obtain ⟨names, hnames, hlast⟩ := represents_afterCalls fold calls
    exact Bool.eq_iff_iff.mpr ((hnames.isSelected_iff q).trans (hlast q.text))
  obtain ⟨names, hnames, hlast⟩ := represents_afterCalls fold calls
  refine ⟨hstatus calls, ?_, ?_, ?_⟩
  · rw [hnames.getSelectedAppsCount, hnames.ncard_selectedNames hlast]
  · intro call q hother
    rw [hstatus, hstatus, lastSelected_append, hother]
    rfl
  · rw [hnames.text]
    by_cases hne : names = []
    · subst hne
      exact List.pairwise_singleton _ _
    · rw [split_joined hne, List.pairwise_map]
      refine (List.pairwise_map.mp hnames.distinct).imp fun hpq => ?_
      rw [← Bool.not_eq_true, equalsIgnoreCase_iff]
      exact hpq

/-! ### Passing the names to the system -/

/-- The calls of `addDisallowedApplication`, which throws for a package that is not installed. -/
def addDisallowed (installed : JString → Bool) : List JString → List JString
  | [] => []
  | app :: apps => app :: if installed app then addDisallowed installed apps else []

/-- The names that `startVpn` passes to `addDisallowedApplication`. -/
def disallowedApps (installed : JString → Bool) (packageName appsString : JString) :
    List JString :=
  addDisallowed installed (split [newline] appsString ++ [packageName])

theorem addDisallowed_append (installed : JString → Bool) {apps : List JString} (own : JString)
    (h : ∀ app ∈ apps, installed app = true) :
    addDisallowed installed (apps ++ [own]) = apps ++ [own] := by
  induction apps with
  | nil => cases hown : installed own <;> simp [addDisallowed, hown]
  | cons app apps ih =>
    obtain ⟨happ, happs⟩ := List.forall_mem_cons.mp h
    rw [List.cons_append, addDisallowed, if_pos happ, ih happs]

/-- A name that is not installed ends the calls. -/
theorem length_addDisallowed_le (installed : JString → Bool) {apps : List JString} (own : JString)
    (h : ∃ app ∈ apps, installed app = false) :
    (addDisallowed installed (apps ++ [own])).length ≤ apps.length := by
  induction apps with
  | nil => exact absurd h (by simp)
  | cons app apps ih =>
    rw [List.cons_append, addDisallowed, List.length_cons, List.length_cons]
    by_cases happ : installed app = true
    · rw [if_pos happ]
      refine Nat.succ_le_succ (ih ?_)
      obtain ⟨other, hother, hnot⟩ := h
      rcases List.mem_cons.mp hother with rfl | hmem
      · exact absurd happ (by simp [hnot])
      · exact ⟨other, hmem, hnot⟩
    · rw [if_neg happ]
      exact Nat.succ_le_succ (Nat.zero_le _)

/-- What `startVpn` should pass: the selected names, each once, and then its own. -/
def ExcludesSelected (fold : UInt16 → UInt16) (installed : JString → Bool) (own : PackageName)
    (calls : List Call) : Prop :=
  let passed := disallowedApps installed own.text (afterCalls fold calls)
  (∃ names : List JString, passed = names ++ [own.text] ∧ (names.map (·.map fold)).Nodup ∧
    {k | k ∈ names.map (·.map fold)} = selectedNames fold calls) ∧
  passed.length = getSelectedAppsCount (afterCalls fold calls) + 1 ∧ [] ∉ passed

/-- **When the selected names are passed**: some name is selected, and every line of the preference
is the name of an installed package. -/
theorem excludesSelected_iff (fold : UInt16 → UInt16) (installed : JString → Bool)
    (own : PackageName) (calls : List Call) :
    ExcludesSelected fold installed own calls ↔
      (selectedNames fold calls).Nonempty ∧
        ∀ app ∈ split [newline] (afterCalls fold calls), installed app = true := by
  obtain ⟨names, hnames, hlast⟩ := represents_afterCalls fold calls
  have hmem := mem_selectedNames_iff hlast
  have hcount := hnames.getSelectedAppsCount
  simp only [ExcludesSelected, disallowedApps, hcount]
  rw [hnames.text]
  by_cases hne : names = []
  · -- the empty preference is one empty line, which is passed first
    subst hne
    have hsplit : split [newline] (joined []) = [[]] := rfl
    refine iff_of_false (fun h => h.2.2 ?_) ?_
    · rw [hsplit]
      exact List.mem_cons_self
    · rintro ⟨⟨k, hk⟩, -⟩
      exact absurd ((hmem k).mp hk) List.not_mem_nil
  · rw [split_joined hne]
    constructor
    · rintro ⟨-, hlength, -⟩
      refine ⟨?_, ?_⟩
      · obtain ⟨p, ps, rfl⟩ := List.exists_cons_of_ne_nil hne
        exact ⟨p.key fold, (hmem _).mpr List.mem_cons_self⟩
      · by_contra hnot
        have hsome : ∃ app ∈ names.map (·.text), installed app = false := by simpa using hnot
        have hle := length_addDisallowed_le installed own.text hsome
        rw [List.length_map] at hle
        omega
    · rintro ⟨-, hinstalled⟩
      rw [addDisallowed_append installed own.text hinstalled]
      refine ⟨⟨_, rfl, ?_, ?_⟩, ?_, ?_⟩
      · rw [List.map_map]
        exact hnames.distinct
      · ext k
        rw [hmem k, Set.mem_ofPred_eq, List.map_map]
        exact Iff.rfl
      · simp
      · simp only [List.mem_append, List.mem_map, List.mem_singleton, not_or, not_exists, not_and]
        exact ⟨fun p _ => p.ne_nil, fun h => own.ne_nil h.symm⟩

/-- **The empty preference**: the empty name is passed, which is not installed, so that the own name
is not passed at all. -/
theorem empty_name_passed :
    disallowedApps (fun app => app != []) (lit "com.biganiseed.reindeer") (afterCalls id []) =
        [[]] ∧
      getSelectedAppsCount (afterCalls id []) = 0 :=
  ⟨rfl, rfl⟩

end BypassApps
