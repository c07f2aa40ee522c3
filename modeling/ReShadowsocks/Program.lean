/-
Programs that change a state and may stop with a fault.

A program is a computation in `StateT σ (Except ε)`.  A fault stands for what a C program must
never do: fail an assertion, or use an object that is gone.

* `Returns x s Q` — from the state `s` the program `x` stops without a fault, with a value and a
  state of which `Q` holds.  It is total correctness: a program that faults meets no `Q`;
* one rule for each way to build a program (`returns_bind`, `returns_require`, …), so that a
  goal about a program is taken apart by `simp`;
* `Returns.mono` — the rule of consequence;
* `returns_forM` — the loop over a list, from an invariant;
* `Ensures x s Q` — partial correctness, with the same rules.
-/
import Mathlib.Data.List.Basic

namespace Program

universe u

variable {ε σ α β : Type u} {s t : σ} {a : α} {x : StateT σ (Except ε) α}
  {P Q : α → σ → Prop}

/-- From `s` the program stops without a fault, with a value and a state that satisfy `Q`. -/
def Returns (x : StateT σ (Except ε) α) (s : σ) (Q : α → σ → Prop) : Prop :=
  ∃ r : α × σ, x s = .ok r ∧ Q r.1 r.2

/-- An assertion of the source. -/
def require (p : Prop) [Decidable p] (e : ε) : StateT σ (Except ε) PUnit :=
  if p then pure ⟨⟩ else throw e

/-- What `f` reads off the state; a fault if it is not there. -/
def fetch (f : σ → Option α) (e : ε) : StateT σ (Except ε) α := do
  match f (← get) with
  | some a => pure a
  | none => throw e

/-- A program that works on a part of the state. -/
def focus {τ : Type u} (part : τ → σ) (put : σ → τ → τ) (x : StateT σ (Except ε) α) :
    StateT τ (Except ε) α := fun t => do
  let r ← x (part t)
  pure (r.1, put r.2 t)

@[simp] theorem returns_pure : Returns (pure a : StateT σ (Except ε) α) s Q ↔ Q a s := by
  constructor
  · rintro ⟨r, hr, h⟩
    cases hr
    exact h
  · exact fun h => ⟨(a, s), rfl, h⟩

@[simp] theorem returns_throw {e : ε} :
    ¬ Returns (throw e : StateT σ (Except ε) α) s Q := by
  rintro ⟨r, hr, -⟩
  cases hr

@[simp] theorem returns_bind {f : α → StateT σ (Except ε) β} {R : β → σ → Prop} :
    Returns (x >>= f) s R ↔ Returns x s fun a t => Returns (f a) t R := by
  show (∃ r, (x s >>= fun p => f p.1 p.2) = .ok r ∧ R r.1 r.2) ↔ _
  constructor
  · rintro ⟨r, hr, h⟩
    cases hx : x s with
    | error e => rw [hx] at hr; cases hr
    | ok p =>
      rw [hx] at hr
      exact ⟨p, hx, r, hr, h⟩
  · rintro ⟨p, hp, r, hr, h⟩
    refine ⟨r, ?_, h⟩
    rw [hp]
    exact hr

@[simp] theorem returns_map {f : α → β} {R : β → σ → Prop} :
    Returns (f <$> x) s R ↔ Returns x s fun a t => R (f a) t := by
  rw [← bind_pure_comp, returns_bind]
  simp only [returns_pure]

@[simp] theorem returns_get {R : σ → σ → Prop} :
    Returns (get : StateT σ (Except ε) σ) s R ↔ R s s := by
  constructor
  · rintro ⟨r, hr, h⟩
    cases hr
    exact h
  · exact fun h => ⟨(s, s), rfl, h⟩

@[simp] theorem returns_modify {f : σ → σ} {R : PUnit → σ → Prop} :
    Returns (modify f : StateT σ (Except ε) PUnit) s R ↔ R ⟨⟩ (f s) := by
  constructor
  · rintro ⟨r, hr, h⟩
    cases hr
    exact h
  · exact fun h => ⟨(⟨⟩, f s), rfl, h⟩

@[simp] theorem returns_require {p : Prop} [Decidable p] {e : ε} {R : PUnit → σ → Prop} :
    Returns (require p e : StateT σ (Except ε) PUnit) s R ↔ p ∧ R ⟨⟩ s := by
  unfold require
  split
  · rename_i h
    rw [returns_pure, and_iff_right h]
  · rename_i h
    exact iff_of_false returns_throw fun hp => h hp.1

@[simp] theorem returns_fetch {f : σ → Option α} {e : ε} :
    Returns (fetch f e : StateT σ (Except ε) α) s Q ↔ ∃ a, f s = some a ∧ Q a s := by
  rw [fetch, returns_bind, returns_get]
  cases h : f s with
  | none =>
    refine iff_of_false returns_throw ?_
    rintro ⟨_, ha, -⟩
    cases ha
  | some a => simp

@[simp] theorem returns_focus {τ : Type u} {part : τ → σ} {put : σ → τ → τ} {t : τ}
    {R : α → τ → Prop} :
    Returns (focus part put x) t R ↔ Returns x (part t) fun a s => R a (put s t) := by
  show (∃ r, (x (part t) >>= fun p => pure (p.1, put p.2 t)) = .ok r ∧ R r.1 r.2) ↔ _
  constructor
  · rintro ⟨r, hr, h⟩
    cases hx : x (part t) with
    | error e => rw [hx] at hr; cases hr
    | ok p =>
      rw [hx] at hr
      cases hr
      exact ⟨p, hx, h⟩
  · rintro ⟨p, hp, h⟩
    refine ⟨(p.1, put p.2 t), ?_, h⟩
    rw [hp]
    rfl

/-- **Rule of consequence.** -/
theorem Returns.mono (h : Returns x s P) (himp : ∀ a t, P a t → Q a t) : Returns x s Q := by
  obtain ⟨r, hr, hP⟩ := h
  exact ⟨r, hr, himp _ _ hP⟩

/-- **Rule for loops.**  What every turn keeps, the loop keeps. -/
theorem returns_forM {f : β → StateT σ (Except ε) PUnit} {I : σ → Prop} {l : List β}
    (hstep : ∀ b ∈ l, ∀ s, I s → Returns (f b) s fun _ => I) (hs : I s) :
    Returns (l.forM f) s fun _ => I := by
  induction l generalizing s with
  | nil => exact returns_pure.mpr hs
  | cons b l ih =>
    show Returns (f b >>= fun _ => l.forM f) s _
    rw [returns_bind]
    refine (hstep b List.mem_cons_self s hs).mono fun _ t ht => ?_
    exact ih (fun b hb => hstep b (List.mem_cons_of_mem _ hb)) ht

/-! ### Partial correctness -/

/-- If the program stops without a fault, its value and its state satisfy `Q`. -/
def Ensures (x : StateT σ (Except ε) α) (s : σ) (Q : α → σ → Prop) : Prop :=
  ∀ r : α × σ, x s = .ok r → Q r.1 r.2

@[simp] theorem ensures_pure : Ensures (pure a : StateT σ (Except ε) α) s Q ↔ Q a s := by
  constructor
  · exact fun h => h (a, s) rfl
  · intro h r hr
    cases hr
    exact h

@[simp] theorem ensures_throw {e : ε} : Ensures (throw e : StateT σ (Except ε) α) s Q := by
  intro r hr
  cases hr

@[simp] theorem ensures_bind {f : α → StateT σ (Except ε) β} {R : β → σ → Prop} :
    Ensures (x >>= f) s R ↔ Ensures x s fun a t => Ensures (f a) t R := by
  show (∀ r, (x s >>= fun p => f p.1 p.2) = .ok r → R r.1 r.2) ↔ _
  constructor
  · intro h p hp r hr
    refine h r ?_
    rw [hp]
    exact hr
  · intro h r hr
    cases hx : x s with
    | error e => rw [hx] at hr; cases hr
    | ok p =>
      rw [hx] at hr
      exact h p hx r hr

@[simp] theorem ensures_get {R : σ → σ → Prop} :
    Ensures (get : StateT σ (Except ε) σ) s R ↔ R s s := by
  constructor
  · exact fun h => h (s, s) rfl
  · intro h r hr
    cases hr
    exact h

@[simp] theorem ensures_modify {f : σ → σ} {R : PUnit → σ → Prop} :
    Ensures (modify f : StateT σ (Except ε) PUnit) s R ↔ R ⟨⟩ (f s) := by
  constructor
  · exact fun h => h (⟨⟩, f s) rfl
  · intro h r hr
    cases hr
    exact h

@[simp] theorem ensures_require {p : Prop} [Decidable p] {e : ε} {R : PUnit → σ → Prop} :
    Ensures (require p e : StateT σ (Except ε) PUnit) s R ↔ (p → R ⟨⟩ s) := by
  unfold require
  split
  · rename_i h
    rw [ensures_pure, forall_prop_of_true h]
  · rename_i h
    exact iff_of_true ensures_throw fun hp => absurd hp h

@[simp] theorem ensures_fetch {f : σ → Option α} {e : ε} :
    Ensures (fetch f e : StateT σ (Except ε) α) s Q ↔ ∀ a, f s = some a → Q a s := by
  rw [fetch, ensures_bind, ensures_get]
  cases h : f s with
  | none => exact iff_of_true ensures_throw fun a ha => by cases ha
  | some a => simp

end Program
