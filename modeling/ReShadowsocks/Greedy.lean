/-
Picking from a list what is not covered yet.

`next R l picked` is the first element of `l` that no picked element covers: `R x y` says that
`y` is not picked once `x` is.  Picking goes on until there is no such element.

* `pick` — what is picked in the end, by one pass over the list;
* `Scanned` — how far the list has been gone through, and what was picked;
* `Scanned.next_some`, `Scanned.next_none` — it is kept by the next pick, and picking ends with
  what `pick` says;
* `all_picked_iff` — everything but some elements is picked exactly if no other element is covered
  by one in front of it.
-/
import Mathlib.Data.List.Basic
import Mathlib.Tactic.Common

namespace Greedy

variable {α : Type*} {R : α → α → Prop} [DecidableRel R] {l m picked back : List α} {y : α}

/-- The first element that is not covered yet. -/
def next (R : α → α → Prop) [DecidableRel R] (l picked : List α) : Option α :=
  l.find? fun y => decide (∀ x ∈ picked, ¬ R x y)

/-- What is picked in the end, if `picked` was before. -/
def pick (R : α → α → Prop) [DecidableRel R] (picked : List α) : List α → List α
  | [] => picked
  | y :: l => if ∃ x ∈ picked, R x y then pick R picked l else pick R (picked ++ [y]) l

/-! ### One pick after the other -/

theorem pick_append_of_covered (h : ∀ y ∈ l, ∃ x ∈ picked, R x y) :
    pick R picked (l ++ m) = pick R picked m := by
  induction l with
  | nil => rfl
  | cons y l ih =>
    obtain ⟨hy, hl⟩ := List.forall_mem_cons.mp h
    rw [List.cons_append, pick, if_pos hy, ih hl]

theorem not_covered_iff : (decide (∀ x ∈ picked, ¬ R x y)) = false ↔ ∃ x ∈ picked, R x y := by
  rw [decide_eq_false_iff_not]
  constructor
  · intro h
    by_contra hnone
    exact h fun x hx hxy => hnone ⟨x, hx, hxy⟩
  · rintro ⟨x, hx, hxy⟩ h
    exact h x hx hxy

/-- The list has been gone through up to `back`: all in front of it is covered, and `pick` goes on
from there. -/
structure Scanned (R : α → α → Prop) [DecidableRel R] (l picked back : List α) : Prop where
  covered : ∃ front, l = front ++ back ∧ ∀ y ∈ front, ∃ x ∈ picked, R x y
  whole : pick R picked back = pick R [] l

theorem scanned_nil : Scanned R l [] l :=
  ⟨⟨[], rfl, fun _ h => absurd h List.not_mem_nil⟩, rfl⟩

/-- **Step.**  The next pick stands in what is left, and everything in front of it is covered. -/
theorem Scanned.next_some (hrefl : ∀ x, R x x) (h : Scanned R l picked back)
    (hnext : next R l picked = some y) :
    ∃ skipped back', back = skipped ++ y :: back' ∧ Scanned R l (picked ++ [y]) back' := by
  obtain ⟨front, rfl, hfront⟩ := h.covered
  -- nothing in `front` is found, so `y` is the first element of `back` that is not covered
  have hback : back.find? (fun y => decide (∀ x ∈ picked, ¬ R x y)) = some y := by
    have hnone : front.find? (fun y => decide (∀ x ∈ picked, ¬ R x y)) = none :=
      List.find?_eq_none.mpr fun z hz => by
        rw [not_covered_iff.mpr (hfront z hz)]
        simp
    rw [next, List.find?_append, hnone, Option.none_or] at hnext
    exact hnext
  obtain ⟨hy, skipped, back', rfl, hskipped⟩ := List.find?_eq_some_iff_append.mp hback
  have hcov : ∀ z ∈ skipped, ∃ x ∈ picked, R x z := by
    intro z hz
    have hz' := hskipped z hz
    rw [Bool.not_eq_true'] at hz'
    exact not_covered_iff.mp hz'
  have hfree : ¬ ∃ x ∈ picked, R x y := fun hex => by
    rw [not_covered_iff.mpr hex] at hy
    exact Bool.false_ne_true hy
  refine ⟨skipped, back', rfl, ⟨front ++ (skipped ++ [y]), by simp, ?_⟩, ?_⟩
  · intro z hz
    rw [List.mem_append, List.mem_append, List.mem_singleton] at hz
    have hold : (∃ x ∈ picked, R x z) → ∃ x ∈ picked ++ [y], R x z :=
      fun ⟨x, hx, hxz⟩ => ⟨x, List.mem_append_left _ hx, hxz⟩
    rcases hz with hz | hz | rfl
    · exact hold (hfront z hz)
    · exact hold (hcov z hz)
    · exact ⟨z, List.mem_append_right _ List.mem_cons_self, hrefl z⟩
  · rw [← h.whole, pick_append_of_covered hcov, pick, if_neg hfree]

/-- When there is no next pick, the picks are those of `pick`. -/
theorem Scanned.next_none (h : Scanned R l picked back) (hnext : next R l picked = none) :
    picked = pick R [] l := by
  obtain ⟨front, rfl, -⟩ := h.covered
  have hcov : ∀ z ∈ back, ∃ x ∈ picked, R x z := by
    intro z hz
    have hz' := List.find?_eq_none.mp hnext z (List.mem_append_right _ hz)
    rw [Bool.not_eq_true] at hz'
    exact not_covered_iff.mp hz'
  have hall := @pick_append_of_covered _ R _ back [] picked hcov
  rw [List.append_nil] at hall
  rw [← h.whole, hall]
  rfl

/-! ### What is picked in the end -/

theorem picked_subset_pick (l : List α) : picked ⊆ pick R picked l := by
  induction l generalizing picked with
  | nil => exact fun _ h => h
  | cons y l ih =>
    rw [pick]
    split
    · exact ih
    · exact fun x hx => ih (List.mem_append_left _ hx)

theorem mem_pick (h : y ∈ pick R picked l) : y ∈ picked ∨ y ∈ l := by
  induction l generalizing picked with
  | nil => exact .inl h
  | cons z l ih =>
    rw [pick] at h
    split at h
    · exact (ih h).imp_right (List.mem_cons_of_mem z)
    · rcases ih h with hmem | hmem
      · rcases List.mem_append.mp hmem with hmem | hmem
        · exact .inl hmem
        · exact .inr (List.mem_singleton.mp hmem ▸ List.mem_cons_self)
      · exact .inr (List.mem_cons_of_mem z hmem)

/-- What is left of the list, with some elements picked before. -/
theorem all_picked_from_iff {excused : α → Prop} (htrans : ∀ x y z, R x y → R y z → R x z)
    (hnodup : l.Nodup) (hnew : ∀ y ∈ l, y ∉ picked) :
    (∀ y ∈ l, excused y ∨ y ∈ pick R picked l) ↔
      (∀ y ∈ l, excused y ∨ ∀ x ∈ picked, ¬ R x y) ∧
        l.Pairwise fun x y => excused y ∨ ¬ R x y := by
  induction l generalizing picked with
  | nil => simp
  | cons y l ih =>
    obtain ⟨hy, hl⟩ := List.forall_mem_cons.mp hnew
    obtain ⟨hyl, hnodup⟩ := List.nodup_cons.mp hnodup
    rw [pick, List.forall_mem_cons, List.forall_mem_cons, List.pairwise_cons]
    by_cases hcov : ∃ x ∈ picked, R x y
    · -- `y` is not picked, and covers nothing that is not covered already
      rw [if_pos hcov, ih hnodup hl]
      obtain ⟨x₀, hx₀, hx₀y⟩ := hcov
      have hnot : y ∉ pick R picked l := fun hmem => (mem_pick hmem).elim hy hyl
      constructor
      · rintro ⟨hexc, hfree, hpair⟩
        refine ⟨⟨.inl (hexc.resolve_right hnot), hfree⟩, fun z hz => ?_, hpair⟩
        exact (hfree z hz).imp_right fun hno hyz => hno x₀ hx₀ (htrans x₀ y z hx₀y hyz)
      · rintro ⟨⟨hexc, hfree⟩, -, hpair⟩
        exact ⟨.inl (hexc.resolve_right fun hno => hno x₀ hx₀ hx₀y), hfree, hpair⟩
    · -- `y` is picked, and what it covers will not be
      have hnew' : ∀ z ∈ l, z ∉ picked ++ [y] := by
        intro z hz hmem
        rcases List.mem_append.mp hmem with hmem | hmem
        · exact hl z hz hmem
        · exact hyl (List.mem_singleton.mp hmem ▸ hz)
      have hpicked : y ∈ pick R (picked ++ [y]) l :=
        picked_subset_pick l (List.mem_append_right _ List.mem_cons_self)
      rw [if_neg hcov, ih hnodup hnew']
      constructor
      · rintro ⟨-, hfree, hpair⟩
        refine ⟨⟨.inr fun x hx hxy => hcov ⟨x, hx, hxy⟩, fun z hz => ?_⟩, fun z hz => ?_, hpair⟩
        · exact (hfree z hz).imp_right fun hno x hx => hno x (List.mem_append_left _ hx)
        · exact (hfree z hz).imp_right fun hno =>
            hno y (List.mem_append_right _ List.mem_cons_self)
      · rintro ⟨⟨-, hfree⟩, hapart, hpair⟩
        refine ⟨.inr hpicked, fun z hz => ?_, hpair⟩
        rcases hfree z hz with hexc | hno
        · exact .inl hexc
        · refine (hapart z hz).imp_right fun hyz x hx => ?_
          rcases List.mem_append.mp hx with hx | hx
          · exact hno x hx
          · exact List.mem_singleton.mp hx ▸ hyz

/-- **When everything is picked in the end**, but some elements that need not be. -/
theorem all_picked_iff {excused : α → Prop} (htrans : ∀ x y z, R x y → R y z → R x z)
    (hnodup : l.Nodup) :
    (∀ y ∈ l, excused y ∨ y ∈ pick R [] l) ↔ l.Pairwise fun x y => excused y ∨ ¬ R x y := by
  rw [all_picked_from_iff htrans hnodup fun _ _ => List.not_mem_nil]
  refine and_iff_right fun y _ => .inr fun x hx => absurd hx List.not_mem_nil

end Greedy
