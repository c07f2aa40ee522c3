/-
Bounded maps that drop the least recently used key.

The keys stand in a list, the least recently used one first.  `touch cap keys k` is a use of `k`:
the key moves to the end of the list, and if it is new and `cap` keys are held, the first one makes
room for it.  `age uses k` says how many uses ago `k` was used last.

* `Ordered` — the keys stand in the order of their last uses;
* `Ordered.touch`, `Ordered.skip` — it is kept by a use, and by one that has no effect because its
  key is not taken in;
* `evicted_of_touch` — only a full map drops a key, and then the one used longest ago.
-/
import Mathlib.Data.List.Nodup
import Mathlib.Tactic.Common

namespace Lru

variable {α : Type*} [DecidableEq α] {cap : Nat} {uses keys : List α} {k k' : α}

/-- The number of uses since `k` was used; that of all uses if it never was. -/
def age (uses : List α) (k : α) : Nat := uses.reverse.idxOf k

def touch (cap : Nat) (keys : List α) (k : α) : List α :=
  if k ∈ keys then keys.erase k ++ [k]
  else if keys.length = cap then keys.tail ++ [k]
  else keys ++ [k]

@[simp] theorem age_append_self : age (uses ++ [k]) k = 0 := by
  rw [age, List.reverse_concat, List.idxOf_cons_self]

theorem age_append_of_ne (h : k' ≠ k) : age (uses ++ [k]) k' = age uses k' + 1 := by
  rw [age, List.reverse_concat, List.idxOf_cons_ne _ (Ne.symm h)]
  rfl

/-- The keys were used, each later than those in front of it. -/
structure Ordered (uses keys : List α) : Prop where
  used : ∀ k ∈ keys, k ∈ uses
  later : keys.Pairwise fun k k' => age uses k' < age uses k

theorem ordered_nil : Ordered uses [] :=
  ⟨fun _ hk => absurd hk List.not_mem_nil, List.Pairwise.nil⟩

theorem Ordered.nodup (h : Ordered uses keys) : keys.Nodup := by
  refine h.later.imp fun {k k'} hlt => ?_
  rintro rfl
  exact Nat.lt_irrefl _ hlt

theorem Ordered.sublist {keys' : List α} (h : Ordered uses keys) (hsub : keys'.Sublist keys) :
    Ordered uses keys' :=
  ⟨fun k hk => h.used k (hsub.subset hk), h.later.sublist hsub⟩

/-- A use of a key that is not held does not change the order. -/
theorem Ordered.skip (h : Ordered uses keys) (hk : k ∉ keys) : Ordered (uses ++ [k]) keys := by
  refine ⟨fun k' hk' => List.mem_append_left _ (h.used k' hk'), ?_⟩
  refine h.later.imp_of_mem fun {a b} ha hb hlt => ?_
  have hage : ∀ c ∈ keys, age (uses ++ [k]) c = age uses c + 1 := by
    intro c hc
    refine age_append_of_ne ?_
    rintro rfl
    exact hk hc
  rw [hage a ha, hage b hb]
  omega

/-- The key that is used comes behind all others. -/
theorem Ordered.use (h : Ordered uses keys) (hk : k ∉ keys) :
    Ordered (uses ++ [k]) (keys ++ [k]) := by
  have hskip := h.skip hk
  constructor
  · intro k' hk'
    rcases List.mem_append.mp hk' with hk' | hk'
    · exact hskip.used k' hk'
    · exact List.mem_append_right _ hk'
  · refine List.pairwise_append.mpr ⟨hskip.later, List.pairwise_singleton _ _, ?_⟩
    intro a ha b hb
    rw [List.mem_singleton.mp hb, age_append_self]
    have hne : a ≠ k := by
      rintro rfl
      exact hk ha
    rw [age_append_of_ne hne]
    omega

/-- **A use keeps the order.** -/
theorem Ordered.touch (h : Ordered uses keys) (cap : Nat) (k : α) :
    Ordered (uses ++ [k]) (touch cap keys k) := by
  unfold Lru.touch
  split
  · exact (h.sublist List.erase_sublist).use h.nodup.not_mem_erase
  · rename_i hk
    split
    · refine (h.sublist (List.tail_sublist keys)).use fun hmem => hk (List.mem_of_mem_tail hmem)
    · exact h.use hk

/-- The first key is the one used longest ago. -/
theorem Ordered.age_le_head (h : Ordered uses (k :: keys)) :
    ∀ a ∈ k :: keys, age uses a ≤ age uses k := by
  intro a ha
  rcases List.mem_cons.mp ha with rfl | ha
  · exact Nat.le_refl _
  · exact Nat.le_of_lt ((List.pairwise_cons.mp h.later).1 a ha)

/-- **Only a full map drops a key, and then the one used longest ago.** -/
theorem evicted_of_touch (h : Ordered uses keys) (hheld : k' ∈ keys)
    (hgone : k' ∉ touch cap keys k) :
    keys.length = cap ∧ ∀ a ∈ keys, age uses a ≤ age uses k' := by
  unfold touch at hgone
  split at hgone
  · -- the key that is used stays, and so do the others
    exfalso
    by_cases hk : k' = k
    · subst hk
      exact hgone (List.mem_append_right _ (List.mem_singleton.mpr rfl))
    · exact hgone (List.mem_append_left _ ((List.mem_erase_of_ne hk).mpr hheld))
  · split at hgone
    · rename_i hfull
      refine ⟨hfull, ?_⟩
      cases keys with
      | nil => exact absurd hheld List.not_mem_nil
      | cons first rest =>
        have hfirst : k' = first := by
          rcases List.mem_cons.mp hheld with heq | hrest
          · exact heq
          · exact absurd (List.mem_append_left _ hrest) hgone
        rw [hfirst]
        exact h.age_le_head
    · exact absurd (List.mem_append_left _ hheld) hgone

end Lru
