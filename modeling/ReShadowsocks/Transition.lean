/-
Transition systems given by a partial step function.

`step s a = some t` says that action `a` is enabled in `s` and leads to `t`.
The file fixes the two notions of execution used later:

* `run` — the executable one, over an explicit list of actions;
* `Reach` — the states reached by steps that all satisfy a side condition
  `ok` on the state before the step and the action.

Results:

* `Reach.invariant` — what holds initially and is preserved by every
  permitted step holds in every reached state;
* `exists_run` — a step that is never stuck as long as an invariant holds can be repeated for
  every list of actions;
* `exists_reach_of_run`, `exists_reach_of_runWith` — a run that ends in a state
  that passes a test shows that such a state is reached;
* `throughout_iff_permitted` — a property that permitted steps keep and others
  break holds throughout exactly the runs of permitted steps;
* `throughout_iff_runWith` — if a step keeps an invariant exactly when it meets `ok`,
  then a run keeps it throughout exactly when all its steps do;
* `runWith_iff_eachAfter` — a test of the states that can be read off the actions alone.

The second part is about straight-line code, a list of statements executed from
its head: `Follows rule code` says that every statement of `code` stands in
relation `rule` to the statements behind it.  It is inherited by what is left
after a step, so it can serve as an invariant of a running thread.  `Ends` is
total correctness: every execution of the code ends, and ends well.

* `Ends.simulate` — `Ends` is kept when the memory changes by a simulation.

The third part is about a pool of threads, a list of which a step replaces one
element and to which it may add others: what is said of all elements
(`forall_mem_replace`) or of some element (`exists_mem_replace`) is followed
across such a step by looking at the replaced element alone.
-/
import Mathlib.Data.List.Basic
import Mathlib.Data.List.Nodup

namespace Transition

variable {σ α : Type*} {step : σ → α → Option σ} {ok : σ → α → Prop}

/-- The state after the actions `as`, if each of them is enabled in turn. -/
def run (step : σ → α → Option σ) : σ → List α → Option σ
  | s, [] => some s
  | s, a :: as => (step s a).bind fun t => run step t as

/-- `run`, stopped at the first action that fails the test `ok`. -/
def runWith (step : σ → α → Option σ) (ok : σ → α → Prop) [∀ s a, Decidable (ok s a)] :
    σ → List α → Option σ
  | s, [] => some s
  | s, a :: as => if ok s a then (step s a).bind fun t => runWith step ok t as else none

/-- `t` is reached from `s` by steps that all satisfy `ok`. -/
inductive Reach (step : σ → α → Option σ) (ok : σ → α → Prop) (s : σ) : σ → Prop
  | refl : Reach step ok s s
  | tail {t u : σ} {a : α} :
      Reach step ok s t → ok t a → step t a = some u → Reach step ok s u

/-- The unrestricted side condition. -/
def anyStep (_ : σ) (_ : α) : Prop := True

/-- **Invariant rule.** -/
theorem Reach.invariant {I : σ → Prop} {s t : σ} (h : Reach step ok s t) (h0 : I s)
    (hstep : ∀ s a t, I s → ok s a → step s a = some t → I t) : I t := by
  induction h with
  | refl => exact h0
  | tail _ hok hs ih => exact hstep _ _ _ ih hok hs

theorem Reach.trans {s t u : σ} (h : Reach step ok s t) (h' : Reach step ok t u) :
    Reach step ok s u := by
  induction h' with
  | refl => exact h
  | tail _ hok hs ih => exact ih.tail hok hs

theorem reach_of_run : ∀ {as : List α} {s t : σ}, run step s as = some t →
    Reach step anyStep s t
  | [], s, t, h => by
    rw [run, Option.some_inj] at h
    exact h ▸ .refl
  | a :: as, s, t, h => by
    rw [run, Option.bind_eq_some_iff] at h
    obtain ⟨u, hu, ht⟩ := h
    exact (Reach.refl.tail trivial hu).trans (reach_of_run ht)

/-- A guarded run is taken apart at its first step. -/
theorem runWith_cons [∀ s a, Decidable (ok s a)] {s u : σ} {a : α} {as : List α}
    (h : runWith step ok s (a :: as) = some u) :
    ok s a ∧ ∃ t, step s a = some t ∧ runWith step ok t as = some u := by
  rw [runWith] at h
  split at h
  · rename_i hok
    exact ⟨hok, Option.bind_eq_some_iff.mp h⟩
  · exact absurd h (by simp)

theorem reach_of_runWith [∀ s a, Decidable (ok s a)] : ∀ {as : List α} {s t : σ},
    runWith step ok s as = some t → Reach step ok s t
  | [], s, t, h => by
    rw [runWith, Option.some_inj] at h
    exact h ▸ .refl
  | a :: as, s, t, h => by
    obtain ⟨hok, u, hu, ht⟩ := runWith_cons h
    exact (Reach.refl.tail hok hu).trans (reach_of_runWith ht)

theorem exists_reach_of_run {as : List α} {s : σ} {p : σ → Bool}
    (h : (run step s as).any p = true) : ∃ t, Reach step anyStep s t ∧ p t = true := by
  obtain ⟨t, ht, hp⟩ := (Option.any_eq_true _ _).mp h
  exact ⟨t, reach_of_run ht, hp⟩

theorem exists_reach_of_runWith [∀ s a, Decidable (ok s a)] {as : List α} {s : σ} {p : σ → Bool}
    (h : (runWith step ok s as).any p = true) : ∃ t, Reach step ok s t ∧ p t = true := by
  obtain ⟨t, ht, hp⟩ := (Option.any_eq_true _ _).mp h
  exact ⟨t, reach_of_runWith ht, hp⟩

/-- A step that is always enabled, as long as `I` holds of the actions so far and the state: every
list of actions has a run. -/
theorem exists_run_after {I : List α → σ → Prop}
    (hstep : ∀ before s a, I before s → ∃ t, step s a = some t ∧ I (before ++ [a]) t) :
    ∀ (as : List α) {before : List α} {s : σ}, I before s →
      ∃ t, run step s as = some t ∧ I (before ++ as) t
  | [], before, s, hs => ⟨s, rfl, before.append_nil.symm ▸ hs⟩
  | a :: as, before, s, hs => by
    obtain ⟨t, ht, hI⟩ := hstep before s a hs
    rw [run, ht, List.append_cons]
    exact exists_run_after hstep as hI

theorem exists_run {I : σ → Prop} (hstep : ∀ s a, I s → ∃ t, step s a = some t ∧ I t)
    (as : List α) {s : σ} (hs : I s) : ∃ t, run step s as = some t ∧ I t :=
  @exists_run_after _ _ step (fun _ => I) (fun _ => hstep) as [] s hs

/-! ### What a run passes through -/

/-- The states of a run, the first and the last included. -/
def visited (step : σ → α → Option σ) : σ → List α → List σ
  | s, [] => [s]
  | s, a :: as => s :: ((step s a).elim [] fun t => visited step t as)

/-- `I` holds in every state of a run. -/
def Throughout (step : σ → α → Option σ) (I : σ → Prop) (s : σ) (as : List α) : Prop :=
  ∀ t ∈ visited step s as, I t

theorem mem_visited_self (s : σ) (as : List α) : s ∈ visited step s as := by
  cases as with
  | nil => exact List.mem_singleton.mpr rfl
  | cons a as => exact List.mem_cons_self

theorem visited_cons {s t : σ} {a : α} (as : List α) (h : step s a = some t) :
    visited step s (a :: as) = s :: visited step t as := by
  rw [visited, h]
  rfl

theorem run_of_runWith [∀ s a, Decidable (ok s a)] : ∀ {as : List α} {s t : σ},
    runWith step ok s as = some t → run step s as = some t
  | [], _, _, h => h
  | a :: as, s, t, h => by
    obtain ⟨-, u, hu, hrest⟩ := runWith_cons h
    rw [run, hu]
    exact run_of_runWith hrest

theorem throughout_of_invariant {I : σ → Prop}
    (hstep : ∀ s a t, I s → step s a = some t → I t) :
    ∀ {as : List α} {s : σ}, I s → Throughout step I s as
  | [], s, hs, t, ht => by
    rw [List.mem_singleton.mp ht]
    exact hs
  | a :: as, s, hs, t, ht => by
    rw [visited, List.mem_cons] at ht
    cases hu : step s a with
    | none =>
      rw [hu, Option.elim_none] at ht
      obtain rfl : t = s := ht.resolve_right List.not_mem_nil
      exact hs
    | some u =>
      rw [hu, Option.elim_some] at ht
      rcases ht with rfl | ht
      · exact hs
      · exact throughout_of_invariant hstep (hstep s a u hs hu) t ht

/-- A run that leaves `D` has come past a state without `P`, if no step leaves it otherwise. -/
theorem not_throughout_of_doomed {D P : σ → Prop}
    (hdoomed : ∀ s a t, D s → step s a = some t → D t ∨ ¬ P t) :
    ∀ {as : List α} {s u : σ}, D s → run step s as = some u → ¬ D u → ¬ Throughout step P s as
  | [], s, u, hs, hrun, hu => absurd (Option.some.inj hrun ▸ hs) hu
  | a :: as, s, u, hs, hrun, hu => by
    obtain ⟨t, ht, hrest⟩ := Option.bind_eq_some_iff.mp (show (step s a).bind _ = some u from hrun)
    intro hall
    have hall' : Throughout step P t as := fun v hv => hall v (by
      rw [visited_cons as ht]
      exact List.mem_cons_of_mem s hv)
    rcases hdoomed s a t hs ht with hD | hP
    · exact not_throughout_of_doomed hdoomed hD hrest hu hall'
    · exact hP (hall' t (mem_visited_self t as))

/-- **A property holds throughout exactly the permitted runs**, if permitted steps keep an
invariant that implies it and the others lead to its being broken before the end of the run. -/
theorem throughout_iff_permitted_of_doomed [∀ s a, Decidable (ok s a)] {I P D : σ → Prop}
    (hprop : ∀ s, I s → P s) (hkeeps : ∀ s a t, I s → step s a = some t → ok s a → I t)
    (hbreaks : ∀ s a t, I s → step s a = some t → ¬ ok s a → D t ∨ ¬ P t)
    (hdoomed : ∀ s a t, D s → step s a = some t → D t ∨ ¬ P t) :
    ∀ {as : List α} {s u : σ}, I s → run step s as = some u → ¬ D u →
      (Throughout step P s as ↔ runWith step ok s as = some u)
  | [], s, u, hs, hrun, _ => by
    constructor
    · exact fun _ => hrun
    · intro _ t ht
      rw [List.mem_singleton.mp ht]
      exact hprop s hs
  | a :: as, s, u, hs, hrun, hu => by
    obtain ⟨t, ht, hrest⟩ := Option.bind_eq_some_iff.mp (show (step s a).bind _ = some u from hrun)
    have hsplit : Throughout step P s (a :: as) ↔ P s ∧ Throughout step P t as := by
      rw [Throughout, visited_cons as ht]
      exact List.forall_mem_cons
    rw [hsplit, and_iff_right (hprop s hs)]
    by_cases hok : ok s a
    · rw [runWith, if_pos hok, ht, Option.bind_some]
      exact throughout_iff_permitted_of_doomed hprop hkeeps hbreaks hdoomed
        (hkeeps s a t hs ht hok) hrest hu
    · rw [runWith, if_neg hok]
      refine ⟨fun h => absurd h ?_, fun h => absurd h (by simp)⟩
      rcases hbreaks s a t hs ht hok with hD | hP
      · exact not_throughout_of_doomed hdoomed hD hrest hu
      · exact fun h => hP (h t (mem_visited_self t as))

/-- The same, if the other steps break the property at once. -/
theorem throughout_iff_permitted [∀ s a, Decidable (ok s a)] {I P : σ → Prop}
    (hprop : ∀ s, I s → P s) (hkeeps : ∀ s a t, I s → step s a = some t → ok s a → I t)
    (hbreaks : ∀ s a t, I s → step s a = some t → ¬ ok s a → ¬ P t) {as : List α} {s u : σ}
    (hs : I s) (hrun : run step s as = some u) :
    Throughout step P s as ↔ runWith step ok s as = some u :=
  throughout_iff_permitted_of_doomed (D := fun _ => False) hprop hkeeps
    (fun s a t hs ht hok => .inr (hbreaks s a t hs ht hok)) (fun _ _ _ h => h.elim) hs hrun id

/-- **An invariant is kept throughout exactly by the permitted runs**, if it is so for one
step. -/
theorem throughout_iff_runWith [∀ s a, Decidable (ok s a)] {I : σ → Prop}
    (hstep : ∀ s a t, I s → step s a = some t → (I t ↔ ok s a)) {as : List α} {s u : σ}
    (hs : I s) (hrun : run step s as = some u) :
    Throughout step I s as ↔ runWith step ok s as = some u := by
  refine throughout_iff_permitted (fun _ h => h) ?_ ?_ hs hrun
  · exact fun s a t hs ht hok => (hstep s a t hs ht).mpr hok
  · exact fun s a t hs ht hok hi => hok ((hstep s a t hs ht).mp hi)

/-- Every action passes a test that looks at it and at the actions before it. -/
def EachAfter (okAfter : List α → α → Prop) : List α → List α → Prop
  | _, [] => True
  | before, a :: as => okAfter before a ∧ EachAfter okAfter (before ++ [a]) as

instance EachAfter.decidable {okAfter : List α → α → Prop}
    [∀ before a, Decidable (okAfter before a)] :
    ∀ before as, Decidable (EachAfter okAfter before as)
  | _, [] => inferInstanceAs (Decidable True)
  | before, a :: as =>
    have : Decidable (EachAfter okAfter (before ++ [a]) as) := EachAfter.decidable _ as
    inferInstanceAs (Decidable (_ ∧ _))

/-- **A test of the states read off the actions**: `I` relates the actions so far to the state they
lead to, and decides the test. -/
theorem runWith_iff_eachAfter [∀ s a, Decidable (ok s a)] {okAfter : List α → α → Prop}
    {I : List α → σ → Prop} (hkeeps : ∀ before s a t, I before s → step s a = some t →
      I (before ++ [a]) t)
    (hok : ∀ before s a t, I before s → step s a = some t → (ok s a ↔ okAfter before a)) :
    ∀ {as before : List α} {s u : σ}, I before s → run step s as = some u →
      (runWith step ok s as = some u ↔ EachAfter okAfter before as)
  | [], _, _, _, _, hrun => ⟨fun _ => trivial, fun _ => hrun⟩
  | a :: as, before, s, u, hs, hrun => by
    obtain ⟨t, ht, hrest⟩ := Option.bind_eq_some_iff.mp (show (step s a).bind _ = some u from hrun)
    have ih := runWith_iff_eachAfter hkeeps hok (hkeeps before s a t hs ht) hrest
    rw [runWith, EachAfter, ← ih, ← hok before s a t hs ht, ht]
    by_cases h : ok s a
    · rw [if_pos h]
      exact (and_iff_right h).symm
    · rw [if_neg h]
      exact ⟨fun hnone => absurd hnone (by simp), fun hand => absurd hand.1 h⟩

/-! ### Straight-line code -/

variable {ι : Type*} {rule : ι → List ι → Prop}

/-- Every statement stands in relation `rule` to the code behind it. -/
def Follows (rule : ι → List ι → Prop) : List ι → Prop
  | [] => True
  | i :: rest => rule i rest ∧ Follows rule rest

instance Follows.decidable [∀ i rest, Decidable (rule i rest)] :
    ∀ code, Decidable (Follows rule code)
  | [] => inferInstanceAs (Decidable True)
  | _ :: rest =>
    have := Follows.decidable rest
    inferInstanceAs (Decidable (_ ∧ _))

@[simp] theorem follows_nil : Follows rule [] := trivial

@[simp] theorem follows_cons {i : ι} {rest : List ι} :
    Follows rule (i :: rest) ↔ rule i rest ∧ Follows rule rest := Iff.rfl

/-- What the rule says of a statement whatever is behind it. -/
theorem Follows.forall_mem {p : ι → Prop} {code : List ι} (h : Follows rule code)
    (hrule : ∀ i rest, rule i rest → p i) : ∀ i ∈ code, p i := by
  induction code with
  | nil => exact fun i hi => absurd hi List.not_mem_nil
  | cons i rest ih =>
    obtain ⟨hi, hrest⟩ := follows_cons.mp h
    exact List.forall_mem_cons.mpr ⟨hrule i rest hi, ih hrest⟩

/-- Statements that may stand anywhere keep the shape of the code behind them. -/
theorem Follows.append {p rest : List ι} (hp : ∀ i ∈ p, ∀ rest, rule i rest)
    (h : Follows rule rest) : Follows rule (p ++ rest) := by
  induction p with
  | nil => exact h
  | cons i p ih =>
    refine follows_cons.mpr ⟨hp i List.mem_cons_self _, ih fun j hj => ?_⟩
    exact hp j (List.mem_cons_of_mem _ hj)

/-! ### Total correctness -/

variable {μ : Type*} {next : ι → List ι → μ → μ → List ι → Prop} {post : μ → Prop}

/-- Every execution of `code` from memory `m` ends in a memory that satisfies
`post`.  `next i rest m` relates the statement `i`, with `rest` behind it, to
the memories and the code it can leave. -/
inductive Ends (next : ι → List ι → μ → μ → List ι → Prop) (post : μ → Prop) :
    List ι → μ → Prop
  | nil {m : μ} : post m → Ends next post [] m
  | cons {i : ι} {rest : List ι} {m : μ} :
      (∀ m' code, next i rest m m' code → Ends next post code m') → Ends next post (i :: rest) m

theorem ends_nil {m : μ} : Ends next post [] m ↔ post m := by
  constructor
  · rintro (h | _)
    exact h
  · exact .nil

theorem ends_cons {i : ι} {rest : List ι} {m : μ} :
    Ends next post (i :: rest) m ↔
      ∀ m' code, next i rest m m' code → Ends next post code m' := by
  constructor
  · rintro (_ | h)
    exact h
  · exact .cons

/-- Every execution of `code` from memory `m` ends in a memory that satisfies
`post`, and passes only through memories that satisfy `inv`. -/
inductive Keeps (next : ι → List ι → μ → μ → List ι → Prop) (inv post : μ → Prop) :
    List ι → μ → Prop
  | nil {m : μ} : inv m → post m → Keeps next inv post [] m
  | cons {i : ι} {rest : List ι} {m : μ} : inv m →
      (∀ m' code, next i rest m m' code → Keeps next inv post code m') →
      Keeps next inv post (i :: rest) m

section Keeps

variable {inv : μ → Prop} {i : ι} {code rest : List ι} {m m' : μ}

theorem Keeps.now (h : Keeps next inv post code m) : inv m := by
  cases h with
  | nil hm _ => exact hm
  | cons hm _ => exact hm

theorem Keeps.ended (h : Keeps next inv post [] m) : post m := by
  cases h with
  | nil _ hp => exact hp

theorem Keeps.onward (h : Keeps next inv post (i :: rest) m) (hn : next i rest m m' code) :
    Keeps next inv post code m' := by
  cases h with
  | cons _ h => exact h m' code hn

/-- **Simulation rule.**  A memory in which every statement does what it did in
the old one, up to `R`, is as good as the old one. -/
theorem Keeps.simulate {R : μ → μ → Prop} (h : Keeps next inv post code m) (hR : R m m')
    (hinv : ∀ m m', R m m' → inv m → inv m') (hpost : ∀ m m', R m m' → post m → post m')
    (hnext : ∀ i rest m m' n' code, R m m' → next i rest m' n' code →
      ∃ n, next i rest m n code ∧ R n n') : Keeps next inv post code m' := by
  induction h generalizing m' with
  | nil hi hp => exact .nil (hinv _ _ hR hi) (hpost _ _ hR hp)
  | cons hi _ ih =>
    refine .cons (hinv _ _ hR hi) fun n' code hn' => ?_
    obtain ⟨n, hn, hRn⟩ := hnext _ _ _ _ _ _ hR hn'
    exact ih n code hn hRn

theorem ends_iff_keeps : Ends next post code m ↔ Keeps next (fun _ => True) post code m := by
  constructor
  · intro h
    induction h with
    | nil hp => exact .nil trivial hp
    | cons _ ih => exact .cons trivial ih
  · intro h
    induction h with
    | nil _ hp => exact .nil hp
    | cons _ _ ih => exact .cons ih

theorem Ends.simulate {R : μ → μ → Prop} (h : Ends next post code m) (hR : R m m')
    (hpost : ∀ m m', R m m' → post m → post m')
    (hnext : ∀ i rest m m' n' code, R m m' → next i rest m' n' code →
      ∃ n, next i rest m n code ∧ R n n') : Ends next post code m' :=
  ends_iff_keeps.mpr ((ends_iff_keeps.mp h).simulate hR (fun _ _ _ h => h) hpost hnext)

end Keeps

/-! ### Pools -/

variable {τ : Type*} {P Q : τ → Prop} {l r new : List τ} {a b : τ}

/-- The element that a step replaces, and what stands around it. -/
theorem exists_split_of_getElem? {pool : List τ} {i : Nat} (h : pool[i]? = some a) :
    ∃ l r, l.length = i ∧ pool = l ++ a :: r ∧ ∀ b, pool.set i b = l ++ b :: r := by
  obtain ⟨hlt, hget⟩ := List.getElem?_eq_some_iff.mp h
  refine ⟨pool.take i, pool.drop (i + 1), ?_, ?_, fun b => ?_⟩
  · rw [List.length_take]
    omega
  · rw [← hget, List.getElem_cons_drop, List.take_append_drop]
  · rw [List.set_eq_take_append_cons_drop, if_pos hlt]

theorem forall_mem_replace (h : ∀ x ∈ l ++ a :: r, P x) (hself : P a → Q b)
    (hothers : ∀ x ∈ l ++ r, P x → Q x) (hnew : ∀ x ∈ new, Q x) :
    ∀ x ∈ l ++ b :: r ++ new, Q x := by
  intro x hx
  simp only [List.mem_append, List.mem_cons] at hx
  rcases hx with (hx | rfl | hx) | hx
  · exact hothers x (List.mem_append_left _ hx) (h x (by simp [hx]))
  · exact hself (h a (by simp))
  · exact hothers x (List.mem_append_right _ hx) (h x (by simp [hx]))
  · exact hnew x hx

/-- What is in the pool behind a step is the element that came in, or an old one with another
key. -/
theorem eq_or_mem_of_replace {κ : Type*} {f : τ → κ} (hdistinct : ((l ++ a :: r).map f).Nodup)
    {x : τ} (hx : x ∈ l ++ b :: r) : x = b ∨ x ∈ l ++ a :: r ∧ f x ≠ f a := by
  rw [List.map_append, List.map_cons, List.nodup_middle, ← List.map_append] at hdistinct
  rcases List.mem_cons.mp (List.perm_middle.mem_iff.mp hx) with rfl | hx
  · exact .inl rfl
  · refine .inr ⟨List.perm_middle.mem_iff.mpr (List.mem_cons_of_mem a hx), fun heq => ?_⟩
    exact (List.nodup_cons.mp hdistinct).1 (heq ▸ List.mem_map_of_mem hx)

/-- When one element passes a test and only one does, the others do not. -/
theorem not_of_countP_le_one {p : τ → Bool} (h : (l ++ a :: r).countP p ≤ 1) (ha : p a) :
    ∀ x ∈ l ++ r, p x = false := by
  simp only [List.countP_append, List.countP_cons, if_pos ha] at h
  have hl : l.countP p = 0 := by omega
  have hr : r.countP p = 0 := by omega
  rw [List.countP_eq_zero] at hl hr
  intro x hx
  rcases List.mem_append.mp hx with hx | hx
  · simpa using hl x hx
  · simpa using hr x hx

theorem exists_mem_replace (h : ∃ x ∈ l ++ a :: r, P x) (hself : P a → Q b)
    (hothers : ∀ x ∈ l ++ r, P x → Q x) : ∃ x ∈ l ++ b :: r ++ new, Q x := by
  obtain ⟨x, hx, hP⟩ := h
  simp only [List.mem_append, List.mem_cons] at hx
  rcases hx with hx | rfl | hx
  · exact ⟨x, by simp [hx], hothers x (List.mem_append_left _ hx) hP⟩
  · exact ⟨b, by simp, hself hP⟩
  · exact ⟨x, by simp [hx], hothers x (List.mem_append_right _ hx) hP⟩

end Transition
