/-
A map from keys to tasks, beside a queue with one worker.

A submitter looks a key up, submits a task if there is no entry for it, and enters the task
afterwards.  The worker takes the tasks in their order and removes the entry of the key at some
time; so may others.  Tasks are numbered as they are submitted.

* `Restartable` — an entry stands for a task that waits or runs, or a submission is on its way;
* `WellKept` — what keeps it so: the entries are the newest tasks of their keys, and are not over;
* `WellKept.change`, `not_restartable` — a change keeps this exactly if it does not enter a task
  that is over, and does not let a task go whose entry is still there;
* `Exclusive.change` — if a task is entered only when no other one of the key is left, then the
  entry of a key belongs to each task of the key that waits or runs;
* `Retired.change` — and a task whose entry was removed has none from then on.
-/
import Mathlib.Data.List.Basic
import Mathlib.Logic.Function.Basic

namespace TaskMap

variable {κ : Type*}

structure Registry (κ : Type*) where
  /-- The entries. -/
  map : κ → Option Nat
  /-- The keys of the tasks that were submitted. -/
  keys : List κ
  /-- The number of tasks that were taken from the queue. -/
  turn : Nat
  running : Option Nat
  /-- The key of a submission on its way, and its task once it is submitted. -/
  starting : Option (κ × Option Nat)

namespace Registry

variable (r : Registry κ)

/-- The task waits or runs. -/
def Alive (k : Nat) : Prop := r.turn ≤ k ∧ k < r.keys.length ∨ r.running = some k

instance (k : Nat) : Decidable (r.Alive k) := inferInstanceAs (Decidable (_ ∨ _))

/-- The task is the one that is entered for its key. -/
def Mapped (k : Nat) : Prop := r.keys[k]?.bind r.map = some k

instance (k : Nat) : Decidable (r.Mapped k) := inferInstanceAs (Decidable (_ = _))

/-- A key without a task that waits or runs, and without a submission on its way, has no entry. -/
def Restartable : Prop :=
  ∀ key, (∀ k, r.Alive k → r.keys[k]? ≠ some key) → (∀ k, r.starting ≠ some (key, k)) →
    r.map key = none

end Registry

/-! ### Changes -/

inductive Change (κ : Type*)
  | begin (key : κ)
  | submit
  | put
  | unmap (key : κ)
  | take
  | drop
  | finish

section

variable [DecidableEq κ]

def change (r : Registry κ) : Change κ → Option (Registry κ)
  | .begin key =>
    if r.starting = none ∧ r.map key = none then some { r with starting := some (key, none) }
    else none
  | .submit =>
    match r.starting with
    | some (key, none) =>
      some { r with keys := r.keys ++ [key], starting := some (key, some r.keys.length) }
    | _ => none
  | .put =>
    match r.starting with
    | some (key, some k) =>
      some { r with map := Function.update r.map key (some k), starting := none }
    | _ => none
  | .unmap key => some { r with map := Function.update r.map key none }
  | .take =>
    if r.running = none ∧ r.turn < r.keys.length then
      some { r with turn := r.turn + 1, running := some r.turn }
    else none
  | .drop =>
    if r.running = none ∧ r.turn < r.keys.length then some { r with turn := r.turn + 1 } else none
  | .finish => if r.running = none then none else some { r with running := none }

/-- A task is not entered when it is over, and is not over while it is entered. -/
def Orderly (r : Registry κ) : Change κ → Prop
  | .put => ∀ k ∈ r.starting.bind Prod.snd, r.Alive k
  | .drop => ¬ r.Mapped r.turn
  | .finish => ∀ k ∈ r.running, ¬ r.Mapped k
  | _ => True

instance (r : Registry κ) : ∀ c, Decidable (Orderly r c)
  | .begin _ | .submit | .unmap _ | .take => inferInstanceAs (Decidable True)
  | .put => inferInstanceAs (Decidable (∀ k ∈ r.starting.bind Prod.snd, r.Alive k))
  | .drop => inferInstanceAs (Decidable (¬ _))
  | .finish => inferInstanceAs (Decidable (∀ k ∈ r.running, ¬ r.Mapped k))

end

/-! ### What every change keeps -/

/-- The tasks are taken one by one, and a submission enters its own task. -/
structure Tidy (r : Registry κ) : Prop where
  bound : r.turn ≤ r.keys.length
  current : ∀ k, r.running = some k → k + 1 = r.turn
  submitted : ∀ key k, r.starting = some (key, some k) →
    k + 1 = r.keys.length ∧ r.keys[k]? = some key
  fresh : ∀ key k, r.starting = some (key, k) → r.map key = none
  keyed : ∀ key k, r.map key = some k → r.keys[k]? = some key

/-- The entries are the last tasks of their keys, and wait or run. -/
structure WellKept (r : Registry κ) : Prop extends Tidy r where
  alive : ∀ key k, r.map key = some k → r.Alive k
  last : ∀ key k, r.map key = some k → ∀ k', r.keys[k']? = some key → k' ≤ k

/-- The entry of a key is each of its tasks that wait or run. -/
def Exclusive (r : Registry κ) : Prop :=
  ∀ key n k, r.map key = some n → r.Alive k → r.keys[k]? = some key → k = n

section

variable {r : Registry κ} {key key' : κ} {k n : Nat}

theorem Tidy.lt_length (h : Tidy r) (hk : r.Alive k) : k < r.keys.length := by
  have hbound := h.bound
  rcases hk with ⟨-, hlt⟩ | hrun
  · exact hlt
  · have := h.current k hrun
    omega

/-- The key of a submission on its way has no entry. -/
theorem Tidy.ne_starting (h : Tidy r) {k : Option Nat} (hs : r.starting = some (key, k))
    (hentry : r.map key' = some n) : key' ≠ key := by
  rintro rfl
  exact nomatch (h.fresh _ k hs).symm.trans hentry

theorem WellKept.restartable (h : WellKept r) : r.Restartable := by
  intro key hnone _
  cases hk : r.map key with
  | none => rfl
  | some k => exact absurd (h.keyed key k hk) (hnone k (h.alive key k hk))

theorem getElem?_append_ne {keys : List κ} (h : (keys ++ [key])[k]? = some key')
    (hne : key' ≠ key) : keys[k]? = some key' := by
  by_cases hlt : k < keys.length
  · rwa [List.getElem?_append_left hlt] at h
  · rw [List.getElem?_append_right (Nat.le_of_not_lt hlt)] at h
    exact absurd (List.mem_singleton.mp (List.mem_of_getElem? h)) hne

end

section

variable [DecidableEq κ] {r r' : Registry κ} {c : Change κ}

/-- The changes, each with the registry it leads to. -/
inductive Changed (r : Registry κ) : Change κ → Registry κ → Prop
  | begin {key : κ} : r.starting = none → r.map key = none →
      Changed r (.begin key) { r with starting := some (key, none) }
  | submit {key : κ} : r.starting = some (key, none) →
      Changed r .submit
        { r with keys := r.keys ++ [key], starting := some (key, some r.keys.length) }
  | put {key : κ} {k : Nat} : r.starting = some (key, some k) →
      Changed r .put { r with map := Function.update r.map key (some k), starting := none }
  | unmap {key : κ} : Changed r (.unmap key) { r with map := Function.update r.map key none }
  | take : r.running = none → r.turn < r.keys.length →
      Changed r .take { r with turn := r.turn + 1, running := some r.turn }
  | drop : r.running = none → r.turn < r.keys.length →
      Changed r .drop { r with turn := r.turn + 1 }
  | finish {k : Nat} : r.running = some k → Changed r .finish { r with running := none }

theorem changed (h : change r c = some r') : Changed r c r' := by
  cases c with
  | begin key =>
    obtain ⟨⟨hs, hnone⟩, h⟩ := Option.ite_none_right_eq_some.mp h
    obtain rfl := Option.some.inj h
    exact .begin hs hnone
  | submit =>
    simp only [change] at h
    split at h
    · rename_i key hs
      obtain rfl := Option.some.inj h
      exact .submit hs
    · exact nomatch h
  | put =>
    simp only [change] at h
    split at h
    · rename_i key k hs
      obtain rfl := Option.some.inj h
      exact .put hs
    · exact nomatch h
  | unmap key =>
    obtain rfl := Option.some.inj h
    exact .unmap
  | take =>
    obtain ⟨⟨hidle, hlt⟩, h⟩ := Option.ite_none_right_eq_some.mp h
    obtain rfl := Option.some.inj h
    exact .take hidle hlt
  | drop =>
    obtain ⟨⟨hidle, hlt⟩, h⟩ := Option.ite_none_right_eq_some.mp h
    obtain rfl := Option.some.inj h
    exact .drop hidle hlt
  | finish =>
    obtain ⟨hbusy, h⟩ := Option.ite_none_left_eq_some.mp h
    obtain ⟨k, hk⟩ := Option.ne_none_iff_exists'.mp hbusy
    obtain rfl := Option.some.inj h
    exact .finish hk

section

variable {map : κ → Option Nat} {key key' : κ} {n : Nat}

theorem update_eq_some {v : Option Nat} (h : Function.update map key v key' = some n) :
    key' = key ∧ v = some n ∨ map key' = some n := by
  by_cases hkey : key' = key
  · subst hkey
    rw [Function.update_self] at h
    exact .inl ⟨rfl, h⟩
  · rw [Function.update_of_ne hkey] at h
    exact .inr h

theorem of_update_none (h : Function.update map key none key' = some n) : map key' = some n :=
  (update_eq_some h).resolve_left fun hnone => nomatch hnone.2

theorem update_none_eq_none (h : map key' = none) : Function.update map key none key' = none := by
  cases hn : Function.update map key none key' with
  | none => rfl
  | some n => exact nomatch h.symm.trans (of_update_none hn)

end

/-- **Step.** -/
theorem Tidy.change (h : Tidy r) (hc : change r c = some r') : Tidy r' := by
  have hbound := h.bound
  cases changed hc with
  | begin hidle hnone =>
    refine ⟨hbound, h.current, fun _ _ hs => (nomatch hs), ?_, h.keyed⟩
    rintro key k ⟨⟩
    exact hnone
  | @submit key hs =>
    refine ⟨?_, h.current, ?_, ?_, ?_⟩
    · show r.turn ≤ (r.keys ++ [key]).length
      rw [List.length_append]
      omega
    · rintro key' k ⟨⟩
      exact ⟨by simp, by simp⟩
    · rintro key' k ⟨⟩
      exact h.fresh key none hs
    · intro key' n hentry
      have hold := h.keyed key' n hentry
      exact (List.getElem?_append_left (List.getElem?_eq_some_iff.mp hold).1).trans hold
  | @put key k hs =>
    refine ⟨hbound, h.current, fun _ _ hs => (nomatch hs), fun _ _ hs => (nomatch hs), ?_⟩
    intro key' n hentry
    rcases update_eq_some hentry with ⟨rfl, hn⟩ | hold
    · exact Option.some.inj hn ▸ (h.submitted _ k hs).2
    · exact h.keyed key' n hold
  | unmap =>
    refine ⟨hbound, h.current, h.submitted, ?_, ?_⟩
    · exact fun key' k hs => update_none_eq_none (h.fresh key' k hs)
    · exact fun key' n hentry => h.keyed key' n (of_update_none hentry)
  | take hidle hlt =>
    refine ⟨hlt, fun k hk => ?_, h.submitted, h.fresh, h.keyed⟩
    exact congrArg (· + 1) (Option.some.inj hk).symm
  | drop hidle hlt =>
    exact ⟨hlt, fun k hk => (nomatch hidle.symm.trans hk), h.submitted, h.fresh, h.keyed⟩
  | finish hrun => exact ⟨hbound, fun _ hk => (nomatch hk), h.submitted, h.fresh, h.keyed⟩

/-! ### Entries of tasks that are not over -/

omit [DecidableEq κ] in
theorem Tidy.mapped (h : Tidy r) {key : κ} {n : Nat} (hentry : r.map key = some n) :
    r.Mapped n := by
  rw [Registry.Mapped, h.keyed key n hentry, Option.bind_some, hentry]

/-- A task is entered by its own submission only. -/
theorem mapped_of_change (h : Tidy r) (hc : change r c = some r') {n : Nat}
    (hmapped : r'.Mapped n) :
    r.Mapped n ∨ c = .put ∧ ∃ key, r.starting = some (key, some n) := by
  obtain ⟨key', -, hentry⟩ := Option.bind_eq_some_iff.mp hmapped
  cases changed hc with
  | put hs =>
    rcases update_eq_some hentry with ⟨rfl, hn⟩ | hold
    · exact .inr ⟨rfl, key', hn ▸ hs⟩
    · exact .inl (h.mapped hold)
  | unmap => exact .inl (h.mapped (of_update_none hentry))
  | _ => exact .inl (h.mapped hentry)

/-- An orderly change lets no task go that is entered. -/
theorem WellKept.alive_change (h : WellKept r) (hc : change r c = some r') (ho : Orderly r c)
    {key' : κ} {n : Nat} (hentry : r'.map key' = some n) : r'.Alive n := by
  cases changed hc with
  | begin => exact h.alive key' n hentry
  | @submit key hs =>
    refine (h.alive key' n hentry).imp_left fun hwaits => ⟨hwaits.1, ?_⟩
    show n < (r.keys ++ [key]).length
    rw [List.length_append]
    exact Nat.lt_of_lt_of_le hwaits.2 (Nat.le_add_right _ _)
  | put hs =>
    rcases update_eq_some hentry with ⟨rfl, hn⟩ | hold
    · exact ho n (by rw [hs]; exact hn)
    · exact h.alive key' n hold
  | unmap => exact h.alive key' n (of_update_none hentry)
  | take hidle hlt =>
    rcases h.alive key' n hentry with ⟨hle, hlt'⟩ | hrun
    · by_cases hn : n = r.turn
      · exact .inr (congrArg some hn.symm)
      · exact .inl ⟨Nat.lt_of_le_of_ne hle (Ne.symm hn), hlt'⟩
    · exact nomatch hidle.symm.trans hrun
  | drop hidle hlt =>
    rcases h.alive key' n hentry with ⟨hle, hlt'⟩ | hrun
    · refine .inl ⟨Nat.lt_of_le_of_ne hle ?_, hlt'⟩
      rintro rfl
      exact ho (h.mapped hentry)
    · exact .inr hrun
  | finish hrun =>
    rcases h.alive key' n hentry with hwaits | hrun'
    · exact .inl hwaits
    · exact absurd (h.mapped hentry) (ho n hrun')

/-- **Step.**  An orderly change keeps the entries to the last tasks of their keys. -/
theorem WellKept.change (h : WellKept r) (hc : change r c = some r') (ho : Orderly r c) :
    WellKept r' := by
  refine ⟨h.toTidy.change hc, fun _ _ hentry => h.alive_change hc ho hentry, ?_⟩
  intro key' n hentry k' hk'
  cases changed hc with
  | submit hs =>
    exact h.last key' n hentry k' (getElem?_append_ne hk' (h.ne_starting hs hentry))
  | @put key k hs =>
    rcases update_eq_some hentry with ⟨rfl, hn⟩ | hold
    · have hlt : k' < r.keys.length := (List.getElem?_eq_some_iff.mp hk').1
      have hlast := (h.submitted _ k hs).1
      obtain rfl := Option.some.inj hn
      omega
    · exact h.last key' n hold k' hk'
  | unmap => exact h.last key' n (of_update_none hentry) k' hk'
  | _ => exact h.last key' n hentry k' hk'

omit [DecidableEq κ] in
/-- The entry of a task that is over makes its key useless, if no later task has the key. -/
theorem Registry.not_restartable {key : κ} {n : Nat} (hentry : r'.map key = some n)
    (hover : ∀ k, r'.keys[k]? = some key → ¬ r'.Alive k)
    (hstarting : ∀ k, r'.starting ≠ some (key, k)) : ¬ r'.Restartable := by
  intro h
  have hnone := h key (fun k halive hk => hover k hk halive) hstarting
  exact nomatch hentry.symm.trans hnone

/-- **Step.**  A change that is not orderly leaves the entry of a task that is over. -/
theorem WellKept.not_restartable (h : WellKept r) (hc : TaskMap.change r c = some r')
    (ho : ¬ Orderly r c) : ¬ r'.Restartable := by
  have hentry : ∀ {n}, r.Mapped n → ∃ key, r.map key = some n := fun hmapped => by
    obtain ⟨key, -, hkey⟩ := Option.bind_eq_some_iff.mp hmapped
    exact ⟨key, hkey⟩
  have hstarting : ∀ {key n}, r.map key = some n → ∀ k, r.starting ≠ some (key, k) :=
    fun hkey k hs => h.ne_starting hs hkey rfl
  cases changed hc with
  | @put key k hs =>
    -- the task that is entered is the last one of the queue, and is over
    have hover : ¬ r.Alive k := by
      intro halive
      refine ho fun n hn => ?_
      rw [hs] at hn
      exact Option.some.inj hn ▸ halive
    refine Registry.not_restartable (Function.update_self ..) (fun k' hk' halive => ?_) (by simp)
    have hlast := (h.submitted key k hs).1
    have hlt : k' < r.keys.length := (List.getElem?_eq_some_iff.mp hk').1
    rw [Registry.Alive, not_or, not_and] at hover
    rcases halive with ⟨hle, -⟩ | hrun
    · have hle' : r.turn ≤ k' := hle
      exact hover.1 (by omega) (by omega)
    · have hturn := h.current k' hrun
      by_cases hk : k' = k
      · exact hover.2 (hk ▸ hrun)
      · exact hover.1 (by omega) (by omega)
  | drop hidle hlt =>
    obtain ⟨key, hkey⟩ := hentry (not_not.mp ho)
    refine Registry.not_restartable hkey (fun k' hk' halive => ?_) (hstarting hkey)
    have hle := h.last key _ hkey k' hk'
    rcases halive with ⟨hlt', -⟩ | hrun
    · have hlt' : r.turn + 1 ≤ k' := hlt'
      omega
    · exact nomatch hidle.symm.trans hrun
  | @finish k hrun =>
    have hmapped : r.Mapped k := by
      refine not_not.mp fun hnot => ho fun n hn => ?_
      exact Option.some.inj (hrun.symm.trans hn) ▸ hnot
    obtain ⟨key, hkey⟩ := hentry hmapped
    refine Registry.not_restartable hkey (fun k' hk' halive => ?_) (hstarting hkey)
    have hle := h.last key _ hkey k' hk'
    have hturn := h.current k hrun
    rcases halive with ⟨hle', -⟩ | hrun'
    · have hle' : r.turn ≤ k' := hle'
      omega
    · exact nomatch hrun'
  | _ => exact absurd trivial ho

/-! ### Entries of one task at a time -/

/-- A task is entered only when no other one of its key waits or runs. -/
def Sole (r : Registry κ) : Change κ → Prop
  | .put => ∀ p ∈ r.starting, ∀ k ∈ p.2, ∀ k' < r.keys.length,
      r.Alive k' → r.keys[k']? = some p.1 → k' = k
  | _ => True

instance (r : Registry κ) : ∀ c, Decidable (Sole r c)
  | .begin _ | .submit | .unmap _ | .take | .drop | .finish => inferInstanceAs (Decidable True)
  | .put => inferInstanceAs (Decidable (∀ p ∈ r.starting, ∀ k ∈ p.2, ∀ k' < r.keys.length,
      r.Alive k' → r.keys[k']? = some p.1 → k' = k))

omit [DecidableEq κ] in
theorem Sole.eq (h : Sole r .put) {key : κ} {k k' : Nat} (hs : r.starting = some (key, some k))
    (halive : r.Alive k') (hkey : r.keys[k']? = some key) : k' = k :=
  h _ hs k rfl k' (List.getElem?_eq_some_iff.mp hkey).1 halive hkey

theorem keys_change {k : Nat} (hlt : k < r.keys.length) (hc : change r c = some r') :
    r'.keys[k]? = r.keys[k]? := by
  cases changed hc with
  | submit => exact List.getElem?_append_left hlt
  | _ => rfl

/-- No task comes to life again. -/
theorem alive_of_change {k : Nat} (hlt : k < r.keys.length) (hc : change r c = some r')
    (halive : r'.Alive k) : r.Alive k := by
  cases changed hc with
  | submit => exact halive.imp_left fun hwaits => ⟨hwaits.1, hlt⟩
  | take =>
    rcases halive with ⟨hle, -⟩ | hrun
    · exact .inl ⟨Nat.le_of_succ_le hle, hlt⟩
    · obtain rfl := Option.some.inj hrun
      exact .inl ⟨Nat.le_refl _, hlt⟩
  | drop => exact halive.imp_left fun hwaits => ⟨Nat.le_of_succ_le hwaits.1, hlt⟩
  | finish => exact .inl (halive.resolve_right fun hrun => nomatch hrun)
  | _ => exact halive

/-- **Step.** -/
theorem Exclusive.change (h : Exclusive r) (htidy : Tidy r) (hc : change r c = some r')
    (hsole : Sole r c) : Exclusive r' := by
  intro key' n k' hentry halive hk'
  have hlives : r.keys[k']? = some key' → r.Alive k' := fun hkey =>
    alive_of_change (List.getElem?_eq_some_iff.mp hkey).1 hc halive
  cases changed hc with
  | submit hs =>
    have hold := getElem?_append_ne hk' (htidy.ne_starting hs hentry)
    exact h key' n k' hentry (hlives hold) hold
  | put hs =>
    rcases update_eq_some hentry with ⟨rfl, hn⟩ | hold
    · exact (hsole.eq hs halive hk').trans (Option.some.inj hn)
    · exact h key' n k' hold halive hk'
  | unmap => exact h key' n k' (of_update_none hentry) halive hk'
  | _ => exact h key' n k' hentry (hlives hk') hk'

/-! ### Tasks whose entry was removed -/

/-- The task has been entered at some time. -/
structure Entered (r : Registry κ) (k : Nat) : Prop where
  lt_length : k < r.keys.length
  not_starting : ∀ key, r.starting ≠ some (key, some k)

/-- There is no entry for the key of the task as long as it waits or runs. -/
structure Retired (r : Registry κ) (k : Nat) : Prop extends Entered r k where
  unmapped : r.Alive k → ∀ key, r.keys[k]? = some key → r.map key = none

variable {k : Nat}

omit [DecidableEq κ] in
theorem Tidy.entered (h : Tidy r) {key : κ} (hentry : r.map key = some k) : Entered r k := by
  have hkey := h.keyed key k hentry
  refine ⟨(List.getElem?_eq_some_iff.mp hkey).1, fun key' hs => ?_⟩
  have hkey' := (h.submitted key' k hs).2
  exact h.ne_starting hs hentry (Option.some.inj (hkey.symm.trans hkey'))

/-- **Step.** -/
theorem Entered.change (h : Entered r k) (hc : change r c = some r') : Entered r' k := by
  have hlt := h.lt_length
  cases changed hc with
  | begin => exact ⟨hlt, fun _ hs => (nomatch hs)⟩
  | @submit key hs =>
    refine ⟨?_, ?_⟩
    · show k < (r.keys ++ [key]).length
      rw [List.length_append]
      exact Nat.lt_add_right _ hlt
    · rintro key' ⟨⟩
      exact Nat.lt_irrefl _ hlt
  | put => exact ⟨hlt, fun _ hs => (nomatch hs)⟩
  | _ => exact ⟨hlt, h.not_starting⟩

/-- **Step.** -/
theorem Retired.change (h : Retired r k) (hc : change r c = some r') (hsole : Sole r c) :
    Retired r' k := by
  refine ⟨h.toEntered.change hc, fun halive key hkey => ?_⟩
  rw [keys_change h.lt_length hc] at hkey
  have halive := alive_of_change h.lt_length hc halive
  have hnone := h.unmapped halive key hkey
  cases changed hc with
  | @put key' n hs =>
    -- only the task that is entered could have this key
    have hne : key ≠ key' := by
      rintro rfl
      obtain rfl := hsole.eq hs halive hkey
      exact h.not_starting _ hs
    exact (Function.update_of_ne hne ..).trans hnone
  | unmap => exact update_none_eq_none hnone
  | _ => exact hnone

/-- A task that has been entered is not entered again. -/
theorem Entered.not_mapped_change (h : Entered r k) (htidy : Tidy r) (hnot : ¬ r.Mapped k)
    (hc : TaskMap.change r c = some r') : ¬ r'.Mapped k := by
  intro hmapped
  rcases mapped_of_change htidy hc hmapped with hold | ⟨-, key, hs⟩
  · exact hnot hold
  · exact h.not_starting key hs

theorem not_mapped_unmap {key : κ} (hkey : r.keys[k]? = some key)
    (hc : change r (.unmap key) = some r') : ¬ r'.Mapped k := by
  obtain rfl := Option.some.inj hc
  have hnone : Function.update r.map key none key = none := Function.update_self ..
  rw [Registry.Mapped, hkey, Option.bind_some]
  exact fun hmapped => nomatch hnone.symm.trans hmapped

/-- A removal retires the task of the key. -/
theorem Entered.retired (h : Entered r k) {key : κ} (hkey : r.keys[k]? = some key)
    (hc : TaskMap.change r (.unmap key) = some r') : Retired r' k := by
  refine ⟨h.change hc, fun _ key' hkey' => ?_⟩
  obtain rfl := Option.some.inj hc
  obtain rfl := Option.some.inj (hkey.symm.trans hkey')
  exact Function.update_self ..

end

end TaskMap
