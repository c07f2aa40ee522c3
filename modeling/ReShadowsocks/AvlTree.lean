/-
AVL trees with stored balance factors, and the repair after an insertion or a deletion.

A place in a tree is the path above it (`Context`): for each node on it the side on which the place
is, and the subtree on the other side.

* `settle` — one step of the repair: a subtree has become higher or lower by one, and its parent
  is brought into balance, by one or two rotations where that is necessary;
* `repair` — the steps up to the root;
* `elems_repair`, `balanced_repair` — the repair keeps the elements in their order, and its result
  is balanced;
* `two_pow_height_le` — a balanced tree is low.
-/
import Mathlib.Algebra.Group.Nat.Defs
import Mathlib.Algebra.Group.Int.Defs
import Mathlib.Data.List.Basic
import Mathlib.Order.Lattice
import Mathlib.Tactic.Common

namespace AvlTree

universe u

/-- A binary tree; every node carries a balance factor. -/
inductive BinTree (α : Type u)
  | leaf
  | node (l : BinTree α) (a : α) (b : Int) (r : BinTree α)
  deriving DecidableEq

variable {α : Type u} {s : Bool} {a : α} {b d : Int}

namespace BinTree

/-- The elements, from left to right. -/
def elems : BinTree α → List α
  | leaf => []
  | node l a _ r => l.elems ++ a :: r.elems

def height : BinTree α → Nat
  | leaf => 0
  | node l _ _ r => max l.height r.height + 1

/-- A node with the child `t` on the side `s` and `u` on the other one; the right side is `true`. -/
def join (s : Bool) (a : α) (b : Int) (t u : BinTree α) : BinTree α :=
  if s then node u a b t else node t a b u

/-- What `join s` puts together. -/
def view (s : Bool) : BinTree α → Option (α × Int × BinTree α × BinTree α)
  | leaf => none
  | node l a b r => some (a, b, if s then r else l, if s then l else r)

/-- Every balance factor is the difference of the heights, and at most one. -/
def Balanced : BinTree α → Prop
  | leaf => True
  | node l _ b r =>
    l.Balanced ∧ r.Balanced ∧ b = (r.height : Int) - l.height ∧ -1 ≤ b ∧ b ≤ 1

end BinTree

open BinTree

/-- A node above a place: the side on which the place is, and the rest of the node. -/
structure Frame (α : Type u) where
  side : Bool
  elem : α
  balance : Int
  sibling : BinTree α

/-- The path above a place, the nearest node first. -/
abbrev Context (α : Type u) := List (Frame α)

/-- The tree in which `t` stands at the place. -/
def plug : Context α → BinTree α → BinTree α
  | [], t => t
  | f :: c, t => plug c (join f.side f.elem f.balance t f.sibling)

/-- The elements to the left of the place. -/
def before : Context α → List α
  | [] => []
  | f :: c => before c ++ if f.side then f.sibling.elems ++ [f.elem] else []

/-- The elements to the right of the place. -/
def after : Context α → List α
  | [] => []
  | f :: c => (if f.side then [] else f.elem :: f.sibling.elems) ++ after c

/-- `b` as it is seen from the left side. -/
def optNeg (b : Int) (s : Bool) : Int := if s then -b else b

/-- The side of a balance factor as a sign. -/
def sign (s : Bool) : Int := if s then 1 else -1

/-- The repair of a node whose child on the side `s` is higher by two than the other one; `d` is by
how much the node became higher. -/
def restore (s : Bool) (a : α) (child other : BinTree α) (d : Int) : BinTree α × Int :=
  match child.view s with
  | none => (join s a (2 * sign s) child other, d)
  | some (c, bc, outer, inner) =>
    if bc * sign s = 1 then
      (join (!s) c 0 (join s a 0 inner other) outer, d - 1)
    else if bc * sign s = 0 then
      (join (!s) c (-1 * sign s) (join s a (1 * sign s) inner other) outer, d)
    else
      match inner.view s with
      | none => (join s a (2 * sign s) child other, d)
      | some (g, bg, x, y) =>
        (join s g 0 (join s c (max 0 (-bg * sign s) * sign s) outer x)
          (join s a (-max 0 (bg * sign s) * sign s) y other), d - 1)

/-- The repair of one node, whose subtree `t` has become higher by `d`, and by how much the node has
become higher. -/
def settle (f : Frame α) (t : BinTree α) (d : Int) : BinTree α × Int :=
  let d' := max d (optNeg f.balance f.side) - max 0 (optNeg f.balance f.side)
  let b := f.balance - optNeg d f.side
  if b = 2 ∨ b = -2 then
    if decide (b = 2) = f.side then restore f.side f.elem t f.sibling d'
    else restore (!f.side) f.elem f.sibling t d'
  else (join f.side f.elem b t f.sibling, d')

/-- The repair above the place at which a subtree has become higher by `d`. -/
def repair : Context α → BinTree α → Int → BinTree α
  | [], t, _ => t
  | f :: c, t, d =>
    if d = 0 then plug (f :: c) t else repair c (settle f t d).1 (settle f t d).2

/-! ### Elements -/

@[simp] theorem elems_join (s : Bool) (a : α) (b : Int) (t u : BinTree α) :
    (join s a b t u).elems = if s then u.elems ++ a :: t.elems else t.elems ++ a :: u.elems := by
  cases s <;> rfl

theorem view_eq_some {t x y : BinTree α} (h : t.view s = some (a, b, x, y)) :
    t = join s a b x y := by
  cases t with
  | leaf => cases h
  | node l a' b' r =>
    cases s with
    | true => cases h; rfl
    | false => cases h; rfl

theorem elems_plug (c : Context α) (t : BinTree α) :
    (plug c t).elems = before c ++ (t.elems ++ after c) := by
  induction c generalizing t with
  | nil => simp [plug, before, after]
  | cons f c ih =>
    rw [plug, ih, before, after, elems_join]
    cases f.side with
    | true => simp
    | false => simp

theorem plug_append (c c' : Context α) (t : BinTree α) : plug (c ++ c') t = plug c' (plug c t) := by
  induction c generalizing t with
  | nil => rfl
  | cons f c ih => exact ih _

theorem before_append (c c' : Context α) : before (c ++ c') = before c' ++ before c := by
  induction c with
  | nil => simp [before]
  | cons f c ih => simp [before, ih]

theorem after_append (c c' : Context α) : after (c ++ c') = after c ++ after c' := by
  induction c with
  | nil => rfl
  | cons f c ih => simp [after, ih]

/-- To the right of the rightmost place there is nothing. -/
theorem after_eq_nil {c : Context α} (h : ∀ f ∈ c, f.side = true) : after c = [] := by
  induction c with
  | nil => rfl
  | cons f c ih =>
    rw [after, if_pos (h f List.mem_cons_self), ih fun g hg => h g (List.mem_cons_of_mem _ hg)]
    rfl

/-- Every element has its place. -/
theorem exists_plug {t : BinTree α} (h : a ∈ t.elems) :
    ∃ c l b r, t = plug c (node l a b r) := by
  induction t with
  | leaf => exact absurd h List.not_mem_nil
  | node l x b r ihl ihr =>
    rw [elems, List.mem_append, List.mem_cons] at h
    rcases h with h | rfl | h
    · obtain ⟨c, l', b', r', rfl⟩ := ihl h
      exact ⟨c ++ [⟨false, x, b, r⟩], l', b', r', by rw [plug_append]; rfl⟩
    · exact ⟨[], l, b, r, rfl⟩
    · obtain ⟨c, l', b', r', rfl⟩ := ihr h
      exact ⟨c ++ [⟨true, x, b, l⟩], l', b', r', by rw [plug_append]; rfl⟩

theorem elems_restore (s : Bool) (a : α) (child other : BinTree α) (d : Int) :
    (restore s a child other d).1.elems = (join s a 0 child other).elems := by
  unfold restore
  split
  · simp
  · rename_i c bc outer inner hview
    rw [view_eq_some hview]
    split
    · cases s <;> simp
    · split
      · cases s <;> simp
      · split
        · cases s <;> simp
        · rename_i g bg x y hinner
          rw [view_eq_some hinner]
          cases s <;> simp

theorem elems_settle (f : Frame α) (t : BinTree α) (d : Int) :
    (settle f t d).1.elems = (join f.side f.elem 0 t f.sibling).elems := by
  unfold settle
  dsimp only
  split
  · split
    · rw [elems_restore]
    · rw [elems_restore]
      cases f.side <;> simp
  · simp

/-- The repair keeps the elements in their order. -/
theorem elems_repair (c : Context α) (t : BinTree α) (d : Int) :
    (repair c t d).elems = before c ++ (t.elems ++ after c) := by
  induction c generalizing t d with
  | nil => simp [repair, before, after]
  | cons f c ih =>
    rw [repair]
    split
    · exact elems_plug _ _
    · rw [ih, elems_settle, before, after, elems_join]
      cases f.side <;> simp

/-! ### Balance -/

theorem balanced_join {t u : BinTree α} :
    (join s a b t u).Balanced ↔ t.Balanced ∧ u.Balanced ∧
      b * sign s = (t.height : Int) - u.height ∧ -1 ≤ b ∧ b ≤ 1 := by
  cases s with
  | true =>
    simp only [join, sign, if_true, BinTree.Balanced]
    constructor
    · rintro ⟨h1, h2, h3, h4⟩
      exact ⟨h2, h1, by omega, h4⟩
    · rintro ⟨h1, h2, h3, h4⟩
      exact ⟨h2, h1, by omega, h4⟩
  | false =>
    simp only [join, sign, Bool.false_eq_true, if_false, BinTree.Balanced]
    constructor
    · rintro ⟨h1, h2, h3, h4⟩
      exact ⟨h1, h2, by omega, h4⟩
    · rintro ⟨h1, h2, h3, h4⟩
      exact ⟨h1, h2, by omega, h4⟩

@[simp] theorem height_join (s : Bool) (a : α) (b : Int) (t u : BinTree α) :
    (join s a b t u).height = max t.height u.height + 1 := by
  cases s with
  | true => exact congrArg Nat.succ (Nat.max_comm _ _)
  | false => rfl

theorem exists_view {t : BinTree α} (s : Bool) (h : 0 < t.height) :
    ∃ a b x y, t.view s = some (a, b, x, y) := by
  cases t with
  | leaf => exact absurd h (Nat.lt_irrefl 0)
  | node l a b r => exact ⟨a, b, _, _, rfl⟩

/-- The sign of a side, for `omega`. -/
theorem sign_eq (s : Bool) : sign s = 1 ∨ sign s = -1 := by
  cases s
  · exact .inr rfl
  · exact .inl rfl

/-- Two rotations put the grandchild on top, one the child.  The node is lower by one, unless the
child was in balance. -/
theorem restore_spec {child other : BinTree α} (hchild : child.Balanced) (hother : other.Balanced)
    (hheight : child.height = other.height + 2) :
    (restore s a child other d).1.Balanced ∧
      ((restore s a child other d).1.height : Int) =
        other.height + 3 + ((restore s a child other d).2 - d) ∧
      ((restore s a child other d).2 = d ∨ (restore s a child other d).2 = d - 1) := by
  obtain ⟨c, bc, outer, inner, hview⟩ := exists_view s (by omega : 0 < child.height)
  have hc := view_eq_some hview
  have hsign := sign_eq s
  rw [hc, balanced_join] at hchild
  rw [hc, height_join] at hheight
  obtain ⟨houter, hinner, hdiff, hlo, hhi⟩ := hchild
  simp only [restore, hview]
  split
  · rename_i hone
    refine ⟨?_, ?_, .inr rfl⟩
    · rw [balanced_join, balanced_join, height_join]
      refine ⟨⟨hinner, hother, ?_, by omega, by omega⟩, houter, ?_, by omega, by omega⟩
      all_goals omega
    · simp only [height_join]
      omega
  split
  · rename_i hzero
    refine ⟨?_, ?_, .inl rfl⟩
    · rw [balanced_join, balanced_join, height_join]
      cases s with
      | true =>
        simp only [sign, if_true] at *
        refine ⟨⟨hinner, hother, ?_, by omega, by omega⟩, houter, ?_, by omega, by omega⟩
        all_goals simp; omega
      | false =>
        simp only [sign, Bool.false_eq_true, if_false] at *
        refine ⟨⟨hinner, hother, ?_, by omega, by omega⟩, houter, ?_, by omega, by omega⟩
        all_goals simp; omega
    · simp only [height_join]
      omega
  · rename_i hone hzero
    have hminus : bc * sign s = -1 := by
      rcases hsign with h | h <;> rw [h] at hone hzero ⊢ <;> omega
    obtain ⟨g, bg, x, y, hinnerView⟩ := exists_view s (by omega : 0 < inner.height)
    have hg := view_eq_some hinnerView
    rw [hg, balanced_join] at hinner
    rw [hg, height_join] at hdiff hheight
    obtain ⟨hx, hy, hdiff', hlo', hhi'⟩ := hinner
    simp only [hinnerView]
    refine ⟨?_, ?_, .inr trivial⟩
    · rw [balanced_join, balanced_join, balanced_join, height_join, height_join]
      cases s with
      | true =>
        simp only [sign, if_true] at *
        refine ⟨⟨houter, hx, ?_, by omega, by omega⟩, ⟨hy, hother, ?_, by omega, by omega⟩, ?_,
          by omega, by omega⟩
        all_goals omega
      | false =>
        simp only [sign, Bool.false_eq_true, if_false] at *
        refine ⟨⟨houter, hx, ?_, by omega, by omega⟩, ⟨hy, hother, ?_, by omega, by omega⟩, ?_,
          by omega, by omega⟩
        all_goals omega
    · simp only [height_join]
      omega

/-- The step of the repair: the node is balanced, and it is known by how much its height changed. -/
theorem settle_spec {f : Frame α} {t : BinTree α} (ht : t.Balanced) (hs : f.sibling.Balanced)
    (hb : f.balance * sign f.side = t.height - d - f.sibling.height) (hlo : -1 ≤ f.balance)
    (hhi : f.balance ≤ 1) (hd : d = 1 ∨ d = -1) :
    (settle f t d).1.Balanced ∧
      ((settle f t d).1.height : Int) =
        max (t.height - d) f.sibling.height + 1 + (settle f t d).2 ∧
      -1 ≤ (settle f t d).2 ∧ (settle f t d).2 ≤ 1 := by
  obtain ⟨side, a, b, sib⟩ := f
  dsimp only at hs hb hlo hhi
  simp only [settle]
  cases side
  all_goals
    simp only [sign, optNeg, if_true, Bool.false_eq_true, if_false, decide_eq_true_eq,
      decide_eq_false_iff_not] at *
    split
    · split
      · -- the subtree was the higher one and grew
        refine And.imp_right ?_ (restore_spec ht hs (by omega))
        rintro ⟨hheight, hcases⟩
        exact ⟨by omega, by omega, by omega⟩
      · -- the subtree was the lower one and shrank
        refine And.imp_right ?_ (restore_spec hs ht (by omega))
        rintro ⟨hheight, hcases⟩
        exact ⟨by omega, by omega, by omega⟩
    · refine ⟨?_, ?_, by omega, by omega⟩
      · simp only [balanced_join, sign, if_true, Bool.false_eq_true, if_false]
        exact ⟨ht, hs, by omega, by omega, by omega⟩
      · rw [height_join]
        omega

/-- The path is balanced if a subtree of height `h` stands at the place. -/
def Fits : Context α → Int → Prop
  | [], _ => True
  | f :: c, h =>
    f.sibling.Balanced ∧ f.balance * sign f.side = h - f.sibling.height ∧ -1 ≤ f.balance ∧
      f.balance ≤ 1 ∧ Fits c (max h f.sibling.height + 1)

theorem balanced_plug {c : Context α} {t : BinTree α} :
    (plug c t).Balanced ↔ t.Balanced ∧ Fits c t.height := by
  induction c generalizing t with
  | nil => simp [plug, Fits]
  | cons f c ih =>
    have hcast : ((max t.height f.sibling.height + 1 : Nat) : Int) =
        max (t.height : Int) f.sibling.height + 1 := by omega
    rw [plug, ih, balanced_join, Fits, height_join, hcast]
    constructor
    · rintro ⟨⟨ht, hs, hb, hlo, hhi⟩, hfits⟩
      exact ⟨ht, hs, hb, hlo, hhi, hfits⟩
    · rintro ⟨ht, hs, hb, hlo, hhi, hfits⟩
      exact ⟨⟨ht, hs, hb, hlo, hhi⟩, hfits⟩

/-- Which element is on the path does not matter to the balance. -/
theorem fits_rename {c c' : Context α} {t : BinTree α} {a' : α} {h : Int} :
    Fits (c ++ ⟨s, a, b, t⟩ :: c') h ↔ Fits (c ++ ⟨s, a', b, t⟩ :: c') h := by
  induction c generalizing h with
  | nil => exact Iff.rfl
  | cons f c ih => simp only [List.cons_append, Fits, ih]

/-- The repair ends in a balanced tree. -/
theorem balanced_repair {c : Context α} {t : BinTree α} (ht : t.Balanced) (hlo : -1 ≤ d)
    (hhi : d ≤ 1) (hc : Fits c (t.height - d)) : (repair c t d).Balanced := by
  induction c generalizing t d with
  | nil => exact ht
  | cons f c ih =>
    rw [repair]
    split
    · rename_i hzero
      rw [hzero, Int.sub_zero] at hc
      exact balanced_plug.mpr ⟨ht, hc⟩
    · obtain ⟨hs, hb, hblo, hbhi, hc⟩ := hc
      obtain ⟨h1, h2, h3, h4⟩ := settle_spec ht hs hb hblo hbhi (by omega)
      refine ih h1 h3 h4 ?_
      rwa [h2, Int.add_sub_cancel]

/-! ### Height -/

theorem length_add_height_le (c : Context α) (t : BinTree α) :
    c.length + t.height ≤ (plug c t).height := by
  induction c generalizing t with
  | nil => simp [plug]
  | cons f c ih =>
    have h := ih (join f.side f.elem f.balance t f.sibling)
    rw [height_join] at h
    rw [plug, List.length_cons]
    omega

/-- A balanced tree of height `h` has at least `2 ^ (h / 2) - 1` nodes. -/
theorem two_pow_height_le {t : BinTree α} (h : t.Balanced) :
    2 ^ (t.height / 2) ≤ t.elems.length + 1 := by
  induction t with
  | leaf => simp [height]
  | node l a b r ihl ihr =>
    obtain ⟨hl, hr, hb, hlo, hhi⟩ := h
    have hleft := ihl hl
    have hright := ihr hr
    rw [height, elems, List.length_append, List.length_cons]
    generalize hh : max l.height r.height + 1 = h
    rcases Nat.lt_or_ge h 2 with hsmall | hlarge
    · rw [show h / 2 = 0 by omega, pow_zero]
      omega
    · -- both subtrees have at least the height `h - 2`
      have hpowl : 2 ^ ((h - 2) / 2) ≤ 2 ^ (l.height / 2) :=
        Nat.pow_le_pow_right Nat.two_pos (by omega)
      have hpowr : 2 ^ ((h - 2) / 2) ≤ 2 ^ (r.height / 2) :=
        Nat.pow_le_pow_right Nat.two_pos (by omega)
      rw [show h / 2 = (h - 2) / 2 + 1 by omega, pow_succ]
      omega

/-! ### Search -/

section Search

variable {κ : Type*} [LinearOrder κ] {key : α → κ} {v : κ}

/-- The keys increase from left to right. -/
def Sorted (key : α → κ) (l : List α) : Prop := l.Pairwise fun a b => key a < key b

/-- The element with the key `v`. -/
def find (key : α → κ) (v : κ) : BinTree α → Option α
  | leaf => none
  | node l a _ r => if v < key a then find key v l else if key a < v then find key v r else some a

/-- The place below `c` where an element with the key `v` belongs, unless there is one. -/
def place (key : α → κ) (v : κ) : Context α → BinTree α → Option (Context α)
  | c, leaf => some c
  | c, node l a b r =>
    if v < key a then place key v (⟨false, a, b, r⟩ :: c) l
    else if key a < v then place key v (⟨true, a, b, l⟩ :: c) r
    else none

theorem sorted_node {l r : BinTree α} (h : Sorted key (node l a b r).elems) :
    Sorted key l.elems ∧ Sorted key r.elems ∧ (∀ x ∈ l.elems, key x < key a) ∧
      ∀ x ∈ r.elems, key a < key x := by
  rw [elems, Sorted, List.pairwise_append, List.pairwise_cons] at h
  exact ⟨h.1, h.2.1.2, fun x hx => h.2.2 x hx a List.mem_cons_self, h.2.1.1⟩

theorem find_eq_some_iff {t : BinTree α} (h : Sorted key t.elems) {x : α} :
    find key v t = some x ↔ x ∈ t.elems ∧ key x = v := by
  induction t with
  | leaf => simp [find, elems]
  | node l a b r ihl ihr =>
    obtain ⟨hl, hr, hlt, hgt⟩ := sorted_node h
    rw [find]
    simp only [elems, List.mem_append, List.mem_cons]
    split
    · rename_i hva
      rw [ihl hl]
      constructor
      · exact fun hx => ⟨.inl hx.1, hx.2⟩
      · rintro ⟨hx | rfl | hx, rfl⟩
        · exact ⟨hx, rfl⟩
        · exact absurd hva (lt_irrefl _)
        · exact absurd (hgt x hx) (not_lt_of_gt hva)
    · rename_i hva
      split
      · rename_i hav
        rw [ihr hr]
        constructor
        · exact fun hx => ⟨.inr (.inr hx.1), hx.2⟩
        · rintro ⟨hx | rfl | hx, rfl⟩
          · exact absurd (hlt x hx) (not_lt_of_gt hav)
          · exact absurd hav (lt_irrefl _)
          · exact ⟨hx, rfl⟩
      · rename_i hav
        have heq : key a = v := le_antisymm (not_lt.mp hva) (not_lt.mp hav)
        constructor
        · rintro ⟨⟩
          exact ⟨.inr (.inl rfl), heq⟩
        · rintro ⟨hx | rfl | hx, hxv⟩
          · exact absurd (hlt x hx) (by rw [heq, hxv]; exact lt_irrefl v)
          · rfl
          · exact absurd (hgt x hx) (by rw [heq, hxv]; exact lt_irrefl v)

theorem find_congr {t : BinTree α} {key' : α → κ} (h : ∀ x ∈ t.elems, key' x = key x) :
    find key' v t = find key v t := by
  induction t with
  | leaf => rfl
  | node l a b r ihl ihr =>
    simp only [elems, List.mem_append, List.mem_cons] at h
    rw [find, find, h a (.inr (.inl rfl)), ihl fun x hx => h x (.inl hx),
      ihr fun x hx => h x (.inr (.inr hx))]

/-- What is found after an element has come in. -/
theorem find_of_perm_cons {t t' : BinTree α} (h : Sorted key t.elems) (h' : Sorted key t'.elems)
    (hperm : t'.elems.Perm (a :: t.elems)) (hnone : find key (key a) t = none) :
    find key v t' = if key a = v then some a else find key v t := by
  refine Option.ext fun x => ?_
  rw [find_eq_some_iff h', hperm.mem_iff, List.mem_cons]
  split
  · rename_i hv
    constructor
    · rintro ⟨rfl | hx, hkey⟩
      · rfl
      · rw [(find_eq_some_iff h).mpr ⟨hx, hkey.trans hv.symm⟩] at hnone
        cases hnone
    · rintro ⟨⟩
      exact ⟨.inl rfl, hv⟩
  · rename_i hv
    rw [find_eq_some_iff h]
    constructor
    · rintro ⟨rfl | hx, hkey⟩
      · exact absurd hkey hv
      · exact ⟨hx, hkey⟩
    · exact fun hx => ⟨.inr hx.1, hx.2⟩

/-- What is found after an element was taken out. -/
theorem find_of_erase [DecidableEq α] {t t' : BinTree α} (h : Sorted key t.elems)
    (hmem : a ∈ t.elems) (hnodup : t.elems.Nodup) (helems : t'.elems = t.elems.erase a) :
    find key v t' = if key a = v then none else find key v t := by
  have h' : Sorted key t'.elems := by
    rw [helems]
    exact h.sublist List.erase_sublist
  refine Option.ext fun x => ?_
  rw [find_eq_some_iff h', helems, hnodup.mem_erase_iff]
  split
  · rename_i hv
    refine iff_of_false ?_ (by simp)
    rintro ⟨⟨hne, hx⟩, hkey⟩
    have ha := (find_eq_some_iff h).mpr ⟨hmem, hv⟩
    rw [(find_eq_some_iff h).mpr ⟨hx, hkey⟩] at ha
    exact hne (Option.some.inj ha)
  · rename_i hv
    rw [find_eq_some_iff h]
    constructor
    · exact fun hx => ⟨hx.1.2, hx.2⟩
    · rintro ⟨hx, hkey⟩
      exact ⟨⟨fun hxa => hv (hxa ▸ hkey), hx⟩, hkey⟩

/-- What `place` finds is a place of the tree, and not a deep one. -/
theorem plug_place {c c' : Context α} {t : BinTree α} (h : place key v c t = some c') :
    plug c' leaf = plug c t ∧ c'.length ≤ c.length + t.height := by
  induction t generalizing c with
  | leaf =>
    cases h
    exact ⟨rfl, Nat.le_refl _⟩
  | node l a b r ihl ihr =>
    rw [place] at h
    rw [height]
    split at h
    · obtain ⟨hplug, hlen⟩ := ihl h
      refine ⟨hplug, ?_⟩
      rw [List.length_cons] at hlen
      omega
    · split at h
      · obtain ⟨hplug, hlen⟩ := ihr h
        refine ⟨hplug, ?_⟩
        rw [List.length_cons] at hlen
        omega
      · cases h

/-- The place is between the smaller and the greater keys. -/
theorem place_between {c c' : Context α} {t : BinTree α} (h : place key v c t = some c')
    (hsorted : Sorted key (before c ++ (t.elems ++ after c))) (hb : ∀ x ∈ before c, key x < v)
    (ha : ∀ x ∈ after c, v < key x) :
    (∀ x ∈ before c', key x < v) ∧ ∀ x ∈ after c', v < key x := by
  induction t generalizing c with
  | leaf =>
    cases h
    exact ⟨hb, ha⟩
  | node l a b r ihl ihr =>
    have hnode : Sorted key (node l a b r).elems :=
      (List.pairwise_append.mp (List.pairwise_append.mp hsorted).2.1).1
    obtain ⟨-, -, hlt, hgt⟩ := sorted_node hnode
    rw [place] at h
    split at h
    · rename_i hva
      refine ihl h ?_ ?_ ?_
      · simpa [before, after, elems] using hsorted
      · simpa [before] using hb
      · simp only [after, Bool.false_eq_true, if_false, List.cons_append, List.mem_cons,
          List.mem_append]
        rintro x (rfl | hx | hx)
        · exact hva
        · exact lt_trans hva (hgt x hx)
        · exact ha x hx
    · split at h
      · rename_i hav
        refine ihr h ?_ ?_ ?_
        · simpa [before, after, elems] using hsorted
        · simp only [before, if_true, List.mem_append, List.mem_singleton]
          rintro x (hx | hx | rfl)
          · exact hb x hx
          · exact lt_trans (hlt x hx) hav
          · exact hav
        · simpa [after] using ha
      · cases h

/-- The place for a key in a whole tree: between the smaller and the greater elements. -/
theorem place_spec {c : Context α} {t : BinTree α} (hsorted : Sorted key t.elems)
    (h : place key v [] t = some c) :
    t.elems = before c ++ after c ∧ (∀ x ∈ before c, key x < v) ∧ ∀ x ∈ after c, v < key x := by
  have hsorted' : Sorted key (before [] ++ (t.elems ++ after [])) := by
    simpa [before, after] using hsorted
  have helems := elems_plug c (leaf : BinTree α)
  rw [(plug_place h).1, plug, elems, List.nil_append] at helems
  exact ⟨helems, place_between h hsorted' (by simp [before]) (by simp [after])⟩

theorem find_eq_none_of_place {c : Context α} {t : BinTree α} (hsorted : Sorted key t.elems)
    (h : place key v [] t = some c) : find key v t = none := by
  obtain ⟨helems, hb, ha⟩ := place_spec hsorted h
  refine Option.eq_none_iff_forall_ne_some.mpr fun x hx => ?_
  obtain ⟨hmem, hkey⟩ := (find_eq_some_iff hsorted).mp hx
  rw [helems, List.mem_append] at hmem
  rcases hmem with hmem | hmem
  · exact absurd hkey (ne_of_lt (hb x hmem))
  · exact absurd hkey (ne_of_gt (ha x hmem))

theorem place_eq_none {c : Context α} {t : BinTree α} (h : place key v c t = none) :
    ∃ x ∈ t.elems, key x = v := by
  induction t generalizing c with
  | leaf => cases h
  | node l a b r ihl ihr =>
    rw [place] at h
    split at h
    · obtain ⟨x, hx, hxv⟩ := ihl h
      exact ⟨x, by simp [elems, hx], hxv⟩
    · rename_i hva
      split at h
      · obtain ⟨x, hx, hxv⟩ := ihr h
        exact ⟨x, by simp [elems, hx], hxv⟩
      · rename_i hav
        exact ⟨a, by simp [elems], le_antisymm (not_lt.mp hva) (not_lt.mp hav)⟩

end Search

end AvlTree
