/-
`BAVL` is a balanced search tree: what its functions do to the memory is what the operations of
`AvlTree` do to the tree in it.

* `returns_rotate` — one rotation, at any place of the tree;
* `returns_transform` — the one or two rotations that a node needs;
* `returns_rebalance` — `_BAVL_rebalance` is `repair`, in as many calls as there are nodes above;
* `returns_insert`, `returns_lookupExact` — insertion and lookup.
-/
import ReShadowsocks.Bavl

namespace Bavl

open AvlTree NodeHeap Program
open AvlTree.BinTree (join elems)

variable {α κ : Type} [DecidableEq α] [LinearOrder κ]
variable {m m' : Heap α} {c : Context α} {t u x y z : BinTree α} {a r nr : α} {b br bn : Int}
  {s d : Bool}

/-- The pointer to what stands at the place. -/
def setHole (m : Heap α) : Context α → Option α → Heap α
  | [], v => m.setRoot v
  | f :: _, v => m.setLink f.elem f.side v

omit [DecidableEq α] in
theorem returns_deref {p : Option α} {Q : α → Heap α → Prop} (hp : p = some a) (hQ : Q a m) :
    Returns (deref p) m Q := by
  rw [hp, deref, returns_pure]
  exact hQ

@[simp] theorem parent_setParentOf (m : Heap α) (p v : Option α) (n : α) :
    (setParentOf m p v).parent n = if p = some n then v else m.parent n := by
  cases p with
  | none => simp [setParentOf]
  | some q => simp [setParentOf, eq_comm]

@[simp] theorem link_setParentOf (m : Heap α) (p v : Option α) :
    (setParentOf m p v).link = m.link := by
  cases p <;> rfl

@[simp] theorem balance_setParentOf (m : Heap α) (p v : Option α) :
    (setParentOf m p v).balance = m.balance := by
  cases p <;> rfl

@[simp] theorem root_setParentOf (m : Heap α) (p v : Option α) :
    (setParentOf m p v).root = m.root := by
  cases p <;> rfl

@[simp] theorem parent_setHole (m : Heap α) (c : Context α) (v : Option α) :
    (setHole m c v).parent = m.parent := by
  cases c <;> rfl

@[simp] theorem balance_setHole (m : Heap α) (c : Context α) (v : Option α) :
    (setHole m c v).balance = m.balance := by
  cases c <;> rfl

theorem link_setHole {n : α} (h : n ∉ nodes c) (v : Option α) (s : Bool) :
    (setHole m c v).link n s = m.link n s := by
  cases c with
  | nil => rfl
  | cons f c =>
    have hne : n ≠ f.elem := by
      rintro rfl
      exact h List.mem_cons_self
    simp [setHole, hne]

/-- The comparison with the right child of the parent finds the side of the place. -/
theorem decide_link_eq {f : Frame α} {p q : Option α} (hpath : Path m p q (f :: c) (some r))
    (hr : r ∉ nodes (f :: c)) : decide (m.link f.elem true = some r) = f.side := by
  obtain ⟨-, hlink, hsib, -⟩ := hpath
  cases hside : f.side with
  | true =>
    rw [hside] at hlink
    exact decide_eq_true hlink
  | false =>
    rw [hside] at hsib
    refine decide_eq_false fun heq => hr ?_
    rw [show m.link f.elem true = top f.sibling from hsib] at heq
    simp [nodes, mem_elems_of_top heq]

/-- The child of the parent that is changed is the one at the place. -/
theorem setChildOf_eq (hpath : Path m none m.root c (some r)) (hr : r ∉ nodes c)
    (v : Option α) : setChildOf m (above none c) r v = setHole m c v := by
  cases c with
  | nil => rfl
  | cons f c => simp only [setChildOf, above, setHole, decide_link_eq hpath hr]

theorem Path.setHole_cons {f : Frame α} {p q h : Option α} (hpath : Path m p q (f :: c) h)
    (hnodup : (nodes (f :: c)).Nodup) (v : Option α) :
    Path (setHole m (f :: c) v) p q (f :: c) v := by
  obtain ⟨hp, hl, hs, hb, hshow, hpath⟩ := hpath
  rw [nodes, List.nodup_cons] at hnodup
  have hagree : ∀ n ∈ f.sibling.elems ++ nodes c, Agree m (m.setLink f.elem f.side v) n := by
    intro n hn
    have hne : n ≠ f.elem := by
      rintro rfl
      exact hnodup.1 hn
    exact ⟨rfl, fun s => by simp [hne], rfl⟩
  refine ⟨hp, by simp [setHole], by simp [setHole, hs], hb, ?_, ?_⟩
  · exact hshow.frame fun n hn => hagree n (List.mem_append_left _ hn)
  · exact hpath.frame fun n hn => hagree n (List.mem_append_right _ hn)

theorem Path.setHole {h : Option α} (hpath : Path m none m.root c h) (hnodup : (nodes c).Nodup)
    (v : Option α) : Path (setHole m c v) none (setHole m c v).root c v := by
  cases c with
  | nil => rfl
  | cons f c => exact Path.setHole_cons hpath hnodup v

/-- `_BAVL_rotate`: the child comes in the place of `r`, and `r` below it. -/
theorem returns_rotate (h : At m c (join (!d) r br (join d nr bn x y) z)) :
    Returns (rotate r d) m fun _ m' => At m' c (join d nr bn (join (!d) r br x z) y) := by
  obtain ⟨hpath, hshows, hnodup⟩ := h
  rw [shows_join, shows_join] at hshows
  obtain ⟨hrp, hrl, hro, hrb, ⟨hnp, hnl, hno, hnb, hx, hy⟩, hz⟩ := hshows
  rw [top_join] at hrl hpath
  have hperm : (join (!d) r br (join d nr bn x y) z).elems.Perm
      (r :: nr :: (x.elems ++ (y.elems ++ z.elems))) := by
    refine (elems_join_perm ..).trans (.cons _ ?_)
    refine ((elems_join_perm ..).append_right _).trans ?_
    rw [List.cons_append, List.append_assoc]
  rw [(hperm.append_left (nodes c)).nodup_iff] at hnodup
  have hperm' : (join d nr bn (join (!d) r br x z) y).elems.Perm
      (r :: nr :: (x.elems ++ (y.elems ++ z.elems))) := by
    refine (elems_join_perm ..).trans ?_
    refine (((elems_join_perm ..).append_right _).cons _).trans ?_
    rw [List.cons_append, List.append_assoc]
    exact (List.Perm.swap ..).trans (((List.perm_append_comm.append_left _).cons _).cons _)
  have hnodup' := (hperm'.append_left (nodes c)).nodup_iff.mpr hnodup
  simp only [List.nodup_append, List.nodup_cons, List.mem_append, List.mem_cons, not_or] at hnodup
  obtain ⟨hc, ⟨⟨hrn, hrx, hry, hrz⟩, ⟨hnx, hny, hnz⟩, hxn, ⟨-, -, hyz⟩, hxyz⟩, hcn⟩ := hnodup
  have hrc : r ∉ nodes c := fun h => hcn r h r (.inl rfl) rfl
  have hnc : nr ∉ nodes c := fun h => hcn nr h nr (.inr (.inl rfl)) rfl
  simp only [rotate, returns_bind, returns_get]
  refine returns_deref hrl ?_
  simp only [returns_modify, hnl, Heap.link_setLink, and_self, if_true, Heap.parent_setParent,
    Heap.parent_setLink, parent_setParentOf, if_neg (top_ne_of_not_mem hrx), hrp]
  generalize hm : (((setParentOf (m.setLink r (!d) (top x)) (top x) (some r)).setLink nr d
    (some r)).setParent nr (above none c)) = m4
  have hagree : ∀ n ∈ nodes c, Agree m m4 n := by
    intro n hn
    have hnr : n ≠ r := fun h => hrc (h ▸ hn)
    have hnn : n ≠ nr := fun h => hnc (h ▸ hn)
    have hnx : top x ≠ some n :=
      top_ne_of_not_mem fun h => hcn n hn n (by simp [h]) rfl
    rw [← hm]
    exact ⟨by simp [hnn, hnx], fun s => by simp [hnr, hnn], by simp⟩
  have hroot : m4.root = m.root := by
    rw [← hm]
    simp
  have hpath4 : Path m4 none m4.root c (some r) := by
    rw [hroot]
    exact hpath.frame hagree
  rw [setChildOf_eq hpath4 hrc]
  refine ⟨?_, ?_, hnodup'⟩
  · rw [top_join]
    refine (Path.setHole hpath4 hc (some nr)).frame fun n hn => ?_
    have hnr : n ≠ r := fun h => hrc (h ▸ hn)
    exact ⟨by simp [hnr], fun s => by simp, by simp⟩
  · have hkept : ∀ n, n ∈ y.elems ∨ n ∈ z.elems →
        Agree m ((setHole m4 c (some nr)).setParent r (some nr)) n := by
      intro n hn
      have hnr : n ≠ r := by
        rintro rfl
        exact hn.elim hry hrz
      have hnn : n ≠ nr := by
        rintro rfl
        exact hn.elim hny hnz
      have htopn : top x ≠ some n := top_ne_of_not_mem fun h => hxyz n h n hn rfl
      have hnc' : n ∉ nodes c := fun h => hcn n h n (by simp [hn]) rfl
      rw [← hm]
      exact ⟨by simp [hnr, hnn, htopn], fun s => by simp [link_setHole hnc', hnr, hnn], by simp⟩
    rw [shows_join, shows_join, top_join]
    refine ⟨?_, ?_, ?_, ?_, ⟨?_, ?_, ?_, ?_, ?_, hz.frame fun n hn => hkept n (.inr hn)⟩,
      hy.frame fun n hn => hkept n (.inl hn)⟩
    all_goals rw [← hm]
    · simp [Ne.symm hrn]
    · simp [link_setHole hnc]
    · simp [link_setHole hnc, Ne.symm hrn, hno]
    · simp [hnb]
    · simp
    · simp [link_setHole hrc, hrn]
    · simpa [link_setHole hrc, hrn] using hro
    · simp [hrb]
    · refine hx.reparent (fun n hn => ?_) (fun n hn hne => ?_) (fun n hn => ?_) hxn
      · have hnr : n ≠ r := fun h => hrx (h ▸ hn)
        have hnn : n ≠ nr := fun h => hnx (h ▸ hn)
        have hnc' : n ∉ nodes c := fun h => hcn n h n (by simp [hn]) rfl
        exact ⟨fun s => by simp [link_setHole hnc', hnr, hnn], by simp⟩
      · have hnr : n ≠ r := fun h => hrx (h ▸ hn)
        have hnn : n ≠ nr := fun h => hnx (h ▸ hn)
        simp [hnr, hnn, Ne.symm hne]
      · have hmem := mem_elems_of_top hn
        have hnr : n ≠ r := fun h => hrx (h ▸ hmem)
        have hnn : n ≠ nr := fun h => hnx (h ▸ hmem)
        simp [hnr, hnn, show top x = some n from hn]

omit [DecidableEq α] in
theorem At.balance (h : At m c (join s a b t u)) : m.balance a = b :=
  (shows_join.mp h.shows).2.2.2.1

omit [DecidableEq α] in
theorem At.link (h : At m c (join s a b t u)) : m.link a s = top t :=
  (shows_join.mp h.shows).2.1

/-- The transformations of `_BAVL_rebalance`, where they are necessary. -/
theorem returns_transform {child other : BinTree α} {delta : Int}
    (h : At m c (join s a (2 * sign s) child other)) (hchild : child.Balanced)
    (hheight : child.height = other.height + 2) :
    Returns (transform a delta) m fun r m' => At m' c (restore s a child other delta).1 ∧
      top (restore s a child other delta).1 = some r.1 ∧
      r.2 = (restore s a child other delta).2 := by
  have hbalance := At.balance h
  have hlink := At.link h
  have hside : decide (m.balance a = 2) = s := by
    rw [hbalance]
    cases s <;> rfl
  have htwo : m.balance a = 2 ∨ m.balance a = -2 := by
    rw [hbalance]
    cases s
    · exact .inr rfl
    · exact .inl rfl
  obtain ⟨cc, bc, outer, inner, hview⟩ := exists_view s (by omega : 0 < child.height)
  have hc := view_eq_some hview
  subst hc
  rw [top_join] at hlink
  have hcc : m.balance cc = bc := At.balance (at_cons_iff (f := ⟨s, a, 2 * sign s, other⟩).mpr h)
  simp only [transform, returns_bind, returns_get, if_pos htwo, hside]
  refine returns_deref hlink ?_
  obtain ⟨-, hinner, hdiff, hlo, hhi⟩ := balanced_join.mp hchild
  simp only [restore, hview, hcc]
  -- the child as `_BAVL_rotate` sees it
  have hrot : At m c (join (!!s) a (2 * sign s) (join (!s) cc bc inner outer) other) := by
    rw [Bool.not_not, join_not]
    exact h
  by_cases hone : bc * sign s = 1
  · simp only [if_pos hone, returns_bind, returns_modify, returns_pure]
    refine (returns_rotate hrot).mono fun _ m' h' => ?_
    rw [Bool.not_not] at h'
    have h1 := at_cons_iff.mp (At.setBalance (at_cons_iff (f := ⟨!s, cc, bc, outer⟩).mpr h') 0)
    exact ⟨h1.setBalance 0, top_join .., trivial⟩
  · by_cases hzero : bc * sign s = 0
    · simp only [if_neg hone, if_pos hzero, returns_bind, returns_modify, returns_pure]
      refine (returns_rotate hrot).mono fun _ m' h' => ?_
      rw [Bool.not_not] at h'
      have h1 := at_cons_iff.mp
        (At.setBalance (at_cons_iff (f := ⟨!s, cc, bc, outer⟩).mpr h') (1 * sign s))
      exact ⟨h1.setBalance _, top_join .., trivial⟩
    · have hminus : bc * sign s = -1 := by
        rcases sign_eq s with hs | hs <;> rw [hs] at hone hzero ⊢ <;> omega
      obtain ⟨g, bg, x, y, hinnerView⟩ := exists_view s (by omega : 0 < inner.height)
      have hg := view_eq_some hinnerView
      subst hg
      simp only [if_neg hone, if_neg hzero, if_pos hminus, hinnerView, returns_bind]
      -- first the child and the grandchild, then the node and the grandchild
      have hrot1 : At m (⟨s, a, 2 * sign s, other⟩ :: c)
          (join (!s) cc bc (join s g bg x y) outer) := by
        rw [at_cons_iff, join_not]
        exact h
      have hlink1 : m.link cc (!s) = some g := by
        rw [At.link hrot1, top_join]
      refine returns_deref hlink1 ((returns_rotate hrot1).mono fun _ m1 h1 => ?_)
      have hrot2 : At m1 c (join (!!s) a (2 * sign s)
          (join (!s) g bg y (join (!s) cc bc x outer)) other) := by
        rw [Bool.not_not, join_not s g]
        exact at_cons_iff.mp h1
      refine (returns_rotate hrot2).mono fun _ m2 h2 => ?_
      rw [Bool.not_not] at h2
      simp only [returns_modify, returns_pure, At.balance h2]
      have h3 := at_cons_iff.mp (At.setBalance
        (at_cons_iff (f := ⟨!s, g, bg, join (!s) cc bc x outer⟩).mpr h2)
        (-max 0 (bg * sign s) * sign s))
      dsimp only at h3
      rw [join_not s g] at h3
      rw [At.balance h3]
      have h4 := at_cons_iff.mp (At.setBalance
        (at_cons_iff (f := ⟨s, g, bg, join s a (-max 0 (bg * sign s) * sign s) y other⟩).mpr h3)
        (max 0 (-bg * sign s) * sign s))
      dsimp only at h4
      rw [join_not s cc] at h4
      exact ⟨h4.setBalance 0, top_join .., trivial⟩

/-- A node whose balance factor was brought up to date is settled. -/
theorem returns_transform_settle {f : Frame α} {d : Int} (h : At m (f :: c) t) (ht : t.Balanced)
    (hs : f.sibling.Balanced) (hb : f.balance * sign f.side = t.height - d - f.sibling.height) :
    Returns (transform f.elem
        (max d (optNeg f.balance f.side) - max 0 (optNeg f.balance f.side)))
      (m.setBalance f.elem (f.balance - optNeg d f.side))
      fun r m' => At m' c (settle f t d).1 ∧ top (settle f t d).1 = some r.1 ∧
        r.2 = (settle f t d).2 := by
  have h' := (at_cons_iff.mp h).setBalance (f.balance - optNeg d f.side)
  simp only [settle]
  split
  · rename_i htwo
    split
    · -- the subtree is too high
      rename_i hside
      have hval : f.balance - optNeg d f.side = 2 * sign f.side ∧
          t.height = f.sibling.height + 2 := by
        cases hf : f.side
        all_goals
          simp only [hf, sign, optNeg, decide_eq_true_eq, decide_eq_false_iff_not, if_true,
            Bool.false_eq_true, if_false] at hside htwo hb ⊢
          omega
      rw [hval.1] at h' ⊢
      exact returns_transform h' ht hval.2
    · -- the other subtree is too high
      rename_i hside
      have hval : f.balance - optNeg d f.side = 2 * sign (!f.side) ∧
          f.sibling.height = t.height + 2 := by
        cases hf : f.side
        all_goals
          simp only [hf, sign, optNeg, decide_eq_true_eq, decide_eq_false_iff_not, if_true,
            Bool.false_eq_true, if_false, Bool.not_true, Bool.not_false] at hside htwo hb ⊢
          omega
      rw [hval.1, ← join_not] at h'
      rw [hval.1]
      exact returns_transform h' hs hval.2
  · rename_i hne
    simp only [transform, returns_bind, returns_get]
    rw [if_neg (by simpa using hne), returns_pure]
    exact ⟨h', top_join .., rfl⟩

omit [DecidableEq α] in
theorem At.parent (h : At m c t) (ha : top t = some a) : m.parent a = above none c := by
  cases t with
  | leaf => cases ha
  | node l a' b r =>
    cases ha
    exact h.shows.1

/-- `_BAVL_rebalance`, called for the parent of a subtree that has become higher by `d`, repairs the
tree and needs no more calls than there are nodes above the subtree. -/
theorem returns_rebalance {f : Frame α} {d : Int} {turns : Nat} (h : At m (f :: c) t)
    (ht : t.Balanced) (hlo : -1 ≤ d) (hhi : d ≤ 1) (hfits : Fits (f :: c) (t.height - d))
    (hturns : (f :: c).length ≤ turns) :
    Returns (rebalance turns f.elem f.side d) m fun _ m' => At m' [] (repair (f :: c) t d) := by
  induction turns generalizing m f c t d with
  | zero => exact absurd hturns (Nat.not_succ_le_zero _)
  | succ k ih =>
    obtain ⟨hs, hb, hblo, hbhi, hfits'⟩ := hfits
    have hbalance : m.balance f.elem = f.balance := h.path.2.2.2.1
    simp only [rebalance, returns_bind, returns_get, returns_require, hbalance]
    refine ⟨⟨hlo, hhi⟩, ⟨hblo, hbhi⟩, ?_⟩
    rw [repair]
    split
    · rw [returns_pure]
      exact at_nil_iff.mpr h
    · rename_i hne
      have hd : d = 1 ∨ d = -1 := by omega
      obtain ⟨hbal, hheight, hlo', hhi'⟩ := settle_spec ht hs hb hblo hbhi hd
      simp only [returns_bind, returns_require, returns_modify]
      refine ⟨?_, (returns_transform_settle h ht hs hb).mono fun r m' hr => ?_⟩
      · cases f.side <;> simp only [optNeg, if_true, Bool.false_eq_true, if_false] <;> omega
      obtain ⟨hat, htop, hdelta⟩ := hr
      rw [hdelta]
      refine ⟨⟨hlo', hhi'⟩, returns_get.mpr ?_⟩
      rw [At.parent hat htop]
      cases c with
      | nil =>
        simp only [above, repair, returns_pure]
        exact hat
      | cons f' c =>
        have hpath := hat.path
        rw [htop] at hpath
        have hnot : r.1 ∉ nodes (f' :: c) := by
          intro hmem
          have hnodup := hat.nodup
          rw [List.nodup_append] at hnodup
          exact hnodup.2.2 _ hmem _ (mem_elems_of_top htop) rfl
        simp only [above, decide_link_eq hpath hnot]
        refine ih hat hbal hlo' hhi' ?_ (Nat.le_of_succ_le_succ hturns)
        rwa [hheight, Int.add_sub_cancel]

/-! ### Insertion -/

variable {key : α → κ} {node : α} {turns : Nat}

theorem bCompare_lt {v w : κ} (h : v < w) : bCompare v w = -1 := if_pos h

theorem bCompare_gt {v w : κ} (h : w < v) : bCompare v w = 1 := by
  rw [bCompare, if_neg (not_lt_of_gt h), if_pos h]

theorem bCompare_eq {v w : κ} (h : ¬ v < w) (h' : ¬ w < v) : bCompare v w = 0 := by
  rw [bCompare, if_neg h, if_neg h']

/-- What the loop of `BAVL_Insert` returns for a place. -/
def placeOf : Option (Context α) → Option (α × Bool)
  | some (f :: _) => some (f.elem, f.side)
  | _ => none

omit [DecidableEq α] in
theorem returns_findPlace (h : At m c t) (ha : top t = some a) (hturns : t.height ≤ turns) :
    Returns (findPlace key node turns a) m fun r m' => m' = m ∧
      r = placeOf (place key (key node) c t) := by
  induction turns generalizing c t a with
  | zero =>
    cases t with
    | leaf => cases ha
    | node l a b r => exact absurd hturns (Nat.not_succ_le_zero _)
  | succ k ih =>
    cases t with
    | leaf => cases ha
    | node l a b r =>
      cases ha
      rw [BinTree.height] at hturns
      -- the loop goes on on one side, or the place is there
      have hstep : ∀ s t u (x : Run α _), At m c (join s a b t u) → t.height ≤ k →
          (m.link a s = none → x = pure (some (a, s))) →
          (∀ c, m.link a s = some c → x = findPlace key node k c) →
          Returns x m fun r m' => m' = m ∧
            r = placeOf (place key (key node) (⟨s, a, b, u⟩ :: c) t) := by
        intro s t u x hat hle hnone hsome
        have hlink := At.link hat
        cases t with
        | leaf =>
          rw [hnone hlink, returns_pure]
          exact ⟨rfl, rfl⟩
        | node l' a' b' r' =>
          rw [hsome a' hlink]
          exact ih (at_cons_iff.mpr hat) rfl hle
      simp only [findPlace, place]
      by_cases hlt : key node < key a
      · rw [bCompare_lt hlt, if_pos hlt, if_neg (by decide), returns_bind, returns_get]
        rw [show decide ((-1 : Int) = 1) = false from rfl]
        exact hstep false l r _ h (by omega) (fun hl => by rw [hl]) (fun c hl => by rw [hl])
      · by_cases hgt : key a < key node
        · rw [bCompare_gt hgt, if_neg hlt, if_pos hgt, if_neg (by decide), returns_bind,
            returns_get]
          rw [show decide ((1 : Int) = 1) = true from rfl]
          exact hstep true r l _ h (by omega) (fun hl => by rw [hl]) (fun c hl => by rw [hl])
        · rw [bCompare_eq hlt hgt, if_neg hlt, if_neg hgt, if_pos rfl, returns_pure]
          exact ⟨rfl, rfl⟩

/-- A tree of one node. -/
def single (a : α) : BinTree α := .node .leaf a 0 .leaf

/-- A new node is linked to its place. -/
theorem At.link_new (h : At m c .leaf) (hnew : a ∉ nodes c) :
    At (((((setHole m c (some a)).setParent a (above none c)).setLink a false none).setLink a true
      none).setBalance a 0) c (single a) := by
  have hnodup := h.nodup
  rw [elems, List.append_nil] at hnodup
  refine ⟨?_, ?_, ?_⟩
  · refine (Path.setHole h.path hnodup (some a)).frame fun n hn => ?_
    have hne : n ≠ a := fun h => hnew (h ▸ hn)
    exact ⟨by simp [hne], fun s => by simp [hne], by simp [hne]⟩
  · refine ⟨by simp, by simp [top], by simp [top], by simp, trivial, trivial⟩
  · rw [List.nodup_append]
    refine ⟨hnodup, by simp [single, elems], ?_⟩
    rintro x hx y hy rfl
    simp only [single, elems, List.nil_append, List.mem_singleton] at hy
    exact hnew (hy ▸ hx)

/-- `BAVL_Insert` puts the node in its place and repairs the tree, unless there is a node with the
same value. -/
theorem returns_insert (h : At m [] t) (hbal : t.Balanced) (hnew : node ∉ t.elems)
    (hturns : t.height ≤ turns) :
    Returns (insert turns key node) m fun ok m' =>
      match place key (key node) [] t with
      | none => ok = false ∧ m' = m
      | some c => ok = true ∧ At m' [] (repair c (single node) 1) := by
  have hroot : m.root = top t := h.path
  simp only [insert, returns_bind, returns_get, hroot]
  cases t with
  | leaf =>
    simp only [top, place, returns_bind, returns_modify, initNode, returns_pure]
    exact ⟨trivial, At.link_new h (List.not_mem_nil)⟩
  | node l a b r =>
    simp only [top, returns_bind]
    refine (returns_findPlace h rfl hturns).mono ?_
    rintro res m' ⟨rfl, hres⟩
    cases hplace : place key (key node) [] (.node l a b r) with
    | none =>
      simp only [hres, hplace, placeOf, returns_pure]
      exact ⟨trivial, trivial⟩
    | some c =>
      obtain ⟨hplug, hlen⟩ := plug_place hplace
      cases c with
      | nil => cases hplug
      | cons f c =>
        have hat : At m' (f :: c) .leaf := by
          rw [← at_nil_iff, hplug]
          exact h
        have hnew' : node ∉ nodes (f :: c) := by
          intro hmem
          refine hnew ?_
          rw [show (BinTree.node l a b r) = plug (f :: c) .leaf from hplug.symm]
          exact (elems_plug_perm _ _).mem_iff.mpr (List.mem_append_left _ hmem)
        have hfits : Fits (f :: c) 0 := by
          rw [show (BinTree.node l a b r) = plug (f :: c) .leaf from hplug.symm] at hbal
          exact (balanced_plug.mp hbal).2
        simp only [hres, hplace, placeOf, returns_bind, returns_modify, initNode, returns_pure]
        refine (returns_rebalance (At.link_new hat hnew') ?_ (by decide) (by decide) hfits
          ?_).mono fun _ _ h => ⟨trivial, h⟩
        · exact ⟨trivial, trivial, rfl, by decide, by decide⟩
        · exact Nat.le_trans hlen (by simpa using hturns)

/-! ### Lookup -/

omit [DecidableEq α] in
theorem returns_search {v : κ} (h : At m c t) (ha : top t = some a) (hturns : t.height ≤ turns) :
    Returns (search key v turns a) m fun r m' => m' = m ∧ r = find key v t := by
  induction turns generalizing c t a with
  | zero =>
    cases t with
    | leaf => cases ha
    | node l a b r => exact absurd hturns (Nat.not_succ_le_zero _)
  | succ k ih =>
    cases t with
    | leaf => cases ha
    | node l a b r =>
      cases ha
      rw [BinTree.height] at hturns
      have hstep : ∀ s t u (x : Run α _), At m c (join s a b t u) → t.height ≤ k →
          (m.link a s = none → x = pure none) →
          (∀ c, m.link a s = some c → x = search key v k c) →
          Returns x m fun r m' => m' = m ∧ r = find key v t := by
        intro s t u x hat hle hnone hsome
        have hlink := At.link hat
        cases t with
        | leaf =>
          rw [hnone hlink, returns_pure]
          exact ⟨rfl, rfl⟩
        | node l' a' b' r' =>
          rw [hsome a' hlink]
          exact ih (at_cons_iff (f := ⟨s, a, b, u⟩).mpr hat) rfl hle
      simp only [search, find]
      by_cases hlt : v < key a
      · rw [bCompare_lt hlt, if_pos hlt, if_neg (by decide), returns_bind, returns_get]
        rw [show decide ((-1 : Int) = 1) = false from rfl]
        exact hstep false l r _ h (by omega) (fun hl => by rw [hl]) (fun c hl => by rw [hl])
      · by_cases hgt : key a < v
        · rw [bCompare_gt hgt, if_neg hlt, if_pos hgt, if_neg (by decide), returns_bind,
            returns_get]
          rw [show decide ((1 : Int) = 1) = true from rfl]
          exact hstep true r l _ h (by omega) (fun hl => by rw [hl]) (fun c hl => by rw [hl])
        · rw [bCompare_eq hlt hgt, if_neg hlt, if_neg hgt, if_pos rfl, returns_pure]
          exact ⟨rfl, rfl⟩

omit [DecidableEq α] in
/-- `BAVL_LookupExact` finds the node with the value and changes nothing. -/
theorem returns_lookupExact {v : κ} (h : At m [] t) (hturns : t.height ≤ turns) :
    Returns (lookupExact turns key v) m fun r m' => m' = m ∧ r = find key v t := by
  have hroot : m.root = top t := h.path
  simp only [lookupExact, returns_bind, returns_get, hroot]
  cases t with
  | leaf =>
    simp only [top, returns_pure]
    exact ⟨trivial, rfl⟩
  | node l a b r => exact returns_search h rfl hturns

end Bavl
