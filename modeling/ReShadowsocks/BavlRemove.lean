/-
`BAVL_Remove` takes a node out of the tree and keeps the others in their order.

A node with two children first changes places with the greatest node on its left, by its pointers:
the objects stay where they are in memory.

* `at_swapped` — when two nodes have changed places, read off the fields;
* `returns_swapConnected`, `returns_swapApart` — the two cases of `_BAVL_swap_nodes`;
* `returns_remove` — removal from a balanced tree.
-/
import ReShadowsocks.BavlTree

namespace Bavl

open AvlTree NodeHeap Program
open AvlTree.BinTree (join elems)

variable {α : Type} [DecidableEq α]
variable {m m' : Heap α} {c k : Context α} {t lm rm r : BinTree α} {a n n1 n2 : α} {b b1 b2 : Int}
  {s : Bool} {turns : Nat}

omit [DecidableEq α] in
/-- The loop to the right ends at a node without a right child. -/
theorem returns_outermost (h : At m c t) (ha : top t = some a) (hturns : t.height ≤ turns) :
    Returns (outermost true turns a) m fun x m' => m' = m ∧ ∃ k l b,
      t = plug k (.node l x b .leaf) ∧ ∀ f ∈ k, f.side = true := by
  induction turns generalizing c t a with
  | zero =>
    cases t with
    | leaf => cases ha
    | node l a b r => exact absurd hturns (Nat.not_succ_le_zero _)
  | succ k ih =>
    cases t with
    | leaf => cases ha
    | node l a b r =>
      cases ha
      rw [BinTree.height] at hturns
      simp only [outermost, returns_bind, returns_get]
      rw [show m.link a true = top r from At.link (s := true) h]
      cases r with
      | leaf =>
        simp only [top, returns_pure]
        exact ⟨trivial, [], l, b, rfl, by simp⟩
      | node l' a' b' r' =>
        refine (ih (at_cons_iff (f := ⟨true, a, b, l⟩).mpr h) rfl (by omega)).mono ?_
        rintro x m' ⟨rfl, k, lx, bx, hplug, hside⟩
        refine ⟨rfl, k ++ [⟨true, a, b, l⟩], lx, bx, ?_, ?_⟩
        · rw [plug_append, ← hplug]
          rfl
        · intro f hf
          rcases List.mem_append.mp hf with hf | hf
          · exact hside f hf
          · rw [List.mem_singleton.mp hf]

/-! ### Swapping two nodes -/

/-- The nodes of two parts of the tree are different. -/
structure Parts (k c : Context α) (lm rm r : BinTree α) (n1 n2 : α) : Prop where
  path : (nodes k).Nodup
  upper : (nodes c).Nodup
  left : lm.elems.Nodup
  right : rm.elems.Nodup
  sibling : r.elems.Nodup
  ne : n1 ≠ n2
  first : ∀ x, x ∈ nodes k ∨ x ∈ nodes c ∨ x ∈ lm.elems ∨ x ∈ rm.elems ∨ x ∈ r.elems →
    x ≠ n1 ∧ x ≠ n2
  upper_not : ∀ x ∈ nodes c, x ∉ nodes k ∧ x ∉ lm.elems ∧ x ∉ rm.elems ∧ x ∉ r.elems
  path_not : ∀ x ∈ nodes k, x ∉ lm.elems ∧ x ∉ rm.elems ∧ x ∉ r.elems
  sibling_not : ∀ x ∈ r.elems, x ∉ lm.elems ∧ x ∉ rm.elems
  left_not : ∀ x ∈ lm.elems, x ∉ rm.elems

omit [DecidableEq α] in
theorem parts (h : (nodes (k ++ ⟨s, n1, b1, r⟩ :: c) ++ (BinTree.node lm n2 b2 rm).elems).Nodup) :
    Parts k c lm rm r n1 n2 := by
  simp only [nodes_append, nodes, elems, List.append_assoc, List.cons_append, List.nodup_append,
    List.nodup_cons, List.mem_append, List.mem_cons, not_or] at h
  obtain ⟨hk, ⟨h1, hr, ⟨hc, ⟨hl, ⟨h2, hrm⟩, hlm⟩, hcn⟩, hrn⟩, hkn⟩ := h
  refine ⟨hk, hc, hl, hrm, hr, h1.2.2.2.1, ?_, ?_, ?_, ?_, ?_⟩ <;> grind

omit [DecidableEq α] in
theorem Parts.rest (hp : Parts k c lm rm r n1 n2) {x : α}
    (hx : x ∈ lm.elems ∨ x ∈ rm.elems ∨ x ∈ r.elems) :
    x ≠ n1 ∧ x ≠ n2 ∧ x ∉ nodes c ∧ x ∉ nodes k := by
  obtain ⟨hx1, hx2⟩ := hp.first x (.inr (.inr hx))
  refine ⟨hx1, hx2, fun hc => ?_, fun hk => ?_⟩
  · obtain ⟨-, h1, h2, h3⟩ := hp.upper_not x hc
    exact hx.elim h1 (Or.rec h2 h3)
  · obtain ⟨h1, h2, h3⟩ := hp.path_not x hk
    exact hx.elim h1 (Or.rec h2 h3)

/-- Two nodes are swapped if each has the links of the other and the other nodes keep theirs, where
`q` is the pointer to the path between them. -/
theorem at_swapped {q : Option α} (h : At m (k ++ ⟨s, n1, b1, r⟩ :: c) (.node lm n2 b2 rm))
    (hpath : Path m' (some n2) q k (some n1)) (hupper : Path m' none m'.root c (some n2))
    (hparent1 : m'.parent n1 = above (some n2) k) (hparent2 : m'.parent n2 = above none c)
    (hlink1 : ∀ s, m'.link n1 s = m.link n2 s) (hlink2 : m'.link n2 s = q)
    (hother : m'.link n2 (!s) = m.link n1 (!s)) (hbalance : m'.balance = m.balance)
    (hlink : ∀ x, x ∈ lm.elems ∨ x ∈ rm.elems ∨ x ∈ r.elems → ∀ s, m'.link x s = m.link x s)
    (hparent : ∀ x, x ∈ lm.elems ∨ x ∈ rm.elems ∨ x ∈ r.elems → top lm ≠ some x →
      top rm ≠ some x → top r ≠ some x → m'.parent x = m.parent x)
    (hlm : ∀ x ∈ top lm, m'.parent x = some n1) (hrm : ∀ x ∈ top rm, m'.parent x = some n1)
    (hr : ∀ x ∈ top r, m'.parent x = some n2) :
    At m' (k ++ ⟨s, n2, b2, r⟩ :: c) (.node lm n1 b1 rm) := by
  have hp := parts h.nodup
  obtain ⟨hpathm, ⟨-, hl2, hr2, hb2, hshowl, hshowr⟩, hnodup⟩ := h
  obtain ⟨q0, -, -, -, hsib, hb1, hshows, -⟩ := path_append.mp hpathm
  refine ⟨path_append.mpr ⟨q, hpath, hparent2, hlink2, ?_, ?_, ?_, hupper⟩,
    ⟨?_, ?_, ?_, ?_, ?_, ?_⟩, ?_⟩
  · rw [hother, hsib]
  · rw [hbalance, hb2]
  · refine hshows.reparent (fun x hx => ⟨hlink x (.inr (.inr hx)), by rw [hbalance]⟩)
      (fun x hx htop => ?_) hr hp.sibling
    obtain ⟨hxl, hxr⟩ := hp.sibling_not x hx
    exact hparent x (.inr (.inr hx)) (top_ne_of_not_mem hxl) (top_ne_of_not_mem hxr) (Ne.symm htop)
  · rw [hparent1, above_append]
    rfl
  · rw [hlink1, hl2]
  · rw [hlink1, hr2]
  · rw [hbalance, hb1]
  · refine hshowl.reparent (fun x hx => ⟨hlink x (.inl hx), by rw [hbalance]⟩)
      (fun x hx htop => ?_) hlm hp.left
    exact hparent x (.inl hx) (Ne.symm htop) (top_ne_of_not_mem (hp.left_not x hx))
      (top_ne_of_not_mem fun h => (hp.sibling_not x h).1 hx)
  · refine hshowr.reparent (fun x hx => ⟨hlink x (.inr (.inl hx)), by rw [hbalance]⟩)
      (fun x hx htop => ?_) hrm hp.right
    exact hparent x (.inr (.inl hx)) (top_ne_of_not_mem fun h => hp.left_not x h hx) (Ne.symm htop)
      (top_ne_of_not_mem fun h => (hp.sibling_not x h).2 hx)
  · refine (List.Perm.nodup_iff (List.perm_iff_count.mpr fun x => ?_)).mp hnodup
    simp only [nodes_append, nodes, elems, List.count_append, List.count_cons]
    omega

/-- `_BAVL_swap_nodes` of a node and its child. -/
theorem returns_swapConnected (h : At m (⟨s, n1, b1, r⟩ :: c) (.node lm n2 b2 rm)) :
    Returns (swapConnected n1 n2) m
      fun _ m' => At m' (⟨s, n2, b2, r⟩ :: c) (.node lm n1 b1 rm) := by
  have hp := parts (k := []) h.nodup
  have hn1 : n1 ∉ nodes c := fun hx => (hp.first n1 (.inr (.inl hx))).1 rfl
  have hn2 : n2 ∉ nodes (⟨s, n1, b1, r⟩ :: c) :=
    fun hx => (List.nodup_append.mp h.nodup).2.2 n2 hx n2 (by simp [elems]) rfl
  have hside := decide_link_eq h.path hn2
  dsimp only at hside
  obtain ⟨hp1, -, hsib, -, -, hupper⟩ := h.path
  obtain ⟨-, hl2, hr2, -⟩ := h.shows
  dsimp only at hp1 hsib hupper
  have hne := hp.ne
  have hlm1 : top lm ≠ some n1 := top_ne_of_not_mem fun hx => (hp.first n1 (by simp [hx])).1 rfl
  have hrm1 : top rm ≠ some n1 := top_ne_of_not_mem fun hx => (hp.first n1 (by simp [hx])).1 rfl
  simp only [swapConnected, returns_bind, returns_get, returns_modify, hside, hsib, hl2, hr2,
    Heap.link_setLink, link_setParentOf, Heap.parent_setParent, Heap.parent_setLink,
    parent_setParentOf, and_self, if_true, hne.symm, false_and, if_false, if_neg hlm1, if_neg hrm1,
    hp1]
  generalize hm : (setParentOf ((setParentOf (m.setLink n1 false (top lm)) (top lm)
    (some n1)).setLink n1 true (top rm)) (top rm) (some n1)).setParent n2 (above none c) = m5
  have hupper5 : Path m5 none m5.root c (some n1) := by
    rw [show m5.root = m.root by rw [← hm]; simp]
    refine hupper.frame fun x hx => ?_
    obtain ⟨hx1, hx2⟩ := hp.first x (.inr (.inl hx))
    obtain ⟨-, hxl, hxr, -⟩ := hp.upper_not x hx
    rw [← hm]
    exact ⟨by simp [hx2, top_ne_of_not_mem hxl, top_ne_of_not_mem hxr], fun s => by simp [hx1],
      by simp⟩
  rw [setChildOf_eq hupper5 hn1]
  have hn2c : n2 ∉ nodes c := fun hx => (hp.first n2 (by simp [hx])).2 rfl
  have hr1 : top r ≠ some n1 := top_ne_of_not_mem fun hx => (hp.first n1 (by simp [hx])).1 rfl
  have hr2' : top r ≠ some n2 := top_ne_of_not_mem fun hx => (hp.first n2 (by simp [hx])).2 rfl
  refine at_swapped (k := []) h rfl ?_ ?_ ?_ (fun t => ?_) ?_ ?_ ?_ (fun x hx t => ?_)
    (fun x hx htl htr hts => ?_) (fun x hx => ?_) (fun x hx => ?_) (fun x hx => ?_)
  · simp only [root_setParentOf, Heap.root_setLink, Heap.root_setParent]
    refine (Path.setHole hupper5 hp.upper (some n2)).frame fun x hx => ?_
    obtain ⟨hx1, hx2⟩ := hp.first x (.inr (.inl hx))
    have hxr := top_ne_of_not_mem (hp.upper_not x hx).2.2.2
    exact ⟨by simp [hx1, hxr], fun s => by simp [hx2], by simp⟩
  all_goals rw [← hm]
  · simp [hr1, above]
  · simp [hr2', hne.symm]
  · cases t <;> simp [hne, link_setHole hn1, hl2, hr2]
  · simp
  · simp [hsib]
  · simp
  · obtain ⟨hx1, hx2, hxc, -⟩ := hp.rest hx
    simp [hx1, hx2, link_setHole hxc]
  · obtain ⟨hx1, hx2, hxc, -⟩ := hp.rest hx
    simp [hx1, hx2, htl, htr, hts]
  · have hmem := mem_elems_of_top hx
    obtain ⟨hx1, hx2, hxc, -⟩ := hp.rest (.inl hmem)
    have htop : top r ≠ some x := top_ne_of_not_mem fun h => (hp.sibling_not x h).1 hmem
    simp [hx1, hx2, htop, show top lm = some x from hx]
  · have hmem := mem_elems_of_top hx
    obtain ⟨hx1, hx2, hxc, -⟩ := hp.rest (.inr (.inl hmem))
    have htop : top r ≠ some x := top_ne_of_not_mem fun h => (hp.sibling_not x h).2 hmem
    simp [hx1, hx2, htop, show top rm = some x from hx]
  · simp [show top r = some x from hx]

/-- What `swapChildren` does on both sides: the nodes have swapped their children. -/
structure ChildrenSwapped (m m' : Heap α) (n1 n2 : α) : Prop where
  root : m'.root = m.root
  balance : m'.balance = m.balance
  first : ∀ s, m'.link n1 s = m.link n2 s
  second : ∀ s, m'.link n2 s = m.link n1 s
  link : ∀ x s, x ≠ n1 → x ≠ n2 → m'.link x s = m.link x s
  below_first : ∀ x s, m.link n2 s = some x → m'.parent x = some n1
  below_second : ∀ x s, m.link n1 s = some x → m'.parent x = some n2
  parent : ∀ x, (∀ s, m.link n1 s ≠ some x) → (∀ s, m.link n2 s ≠ some x) →
    m'.parent x = m.parent x

/-- The children of the two nodes are different nodes. -/
theorem returns_swapChildren (hne : n1 ≠ n2)
    (hdisj : ∀ s s' x, m.link n1 s = some x → m.link n2 s' ≠ some x) :
    Returns (do swapChildren n1 n2 false; swapChildren n1 n2 true) m
      fun _ m' => ChildrenSwapped m m' n1 n2 := by
  simp only [swapChildren, returns_bind, returns_get, returns_modify]
  refine ⟨by simp, by simp, fun s => ?_, fun s => ?_, fun x s h1 h2 => ?_, fun x s hx => ?_,
    fun x s hx => ?_, fun x h1 h2 => ?_⟩
  · cases s <;> simp [hne, hne.symm]
  · cases s <;> simp [hne, hne.symm]
  · simp [h1, h2]
  · have h1 : ∀ s', m.link n1 s' ≠ some x := fun s' h => hdisj s' s x h hx
    cases s <;> simp [hne, hne.symm, h1, hx]
  · have h1 : ∀ s', m.link n2 s' ≠ some x := fun s' => hdisj s s' x hx
    cases s <;> simp [hne, hne.symm, h1, hx]
  · simp [hne, hne.symm, h1, h2]


/-- `_BAVL_swap_nodes` of a node and one further below. -/
theorem returns_swapApart {f : Frame α}
    (h : At m ((f :: k) ++ ⟨s, n1, b1, r⟩ :: c) (.node lm n2 b2 rm)) :
    Returns (swapApart n1 n2) m
      fun _ m' => At m' ((f :: k) ++ ⟨s, n2, b2, r⟩ :: c) (.node lm n1 b1 rm) := by
  have hp := parts h.nodup
  have hne := hp.ne
  obtain ⟨q, hseg, hp1, hl1, hsib, -, -, hupper⟩ := path_append.mp h.path
  obtain ⟨hp2, hl2, hr2, -⟩ := h.shows
  dsimp only at hp1 hl1 hsib hupper
  change Path m (some n1) q (f :: k) (some n2) at hseg
  change m.parent n2 = some f.elem at hp2
  obtain ⟨x0, hx0, rfl⟩ := hseg.top_mem
  have hn1 : n1 ∉ nodes c := fun hx => (hp.first n1 (.inr (.inl hx))).1 rfl
  have hn2 : n2 ∉ nodes c := fun hx => (hp.first n2 (.inr (.inl hx))).2 rfl
  have hn1k : n1 ∉ nodes (f :: k) := fun hx => (hp.first n1 (.inl hx)).1 rfl
  have hn2k : n2 ∉ nodes (f :: k) := fun hx => (hp.first n2 (.inl hx)).2 rfl
  have hside := decide_link_eq hseg hn2k
  simp only [swapApart, returns_bind, returns_get, returns_modify, hp1, hp2, Heap.parent_setParent,
    if_true]
  have hchild : setChildOf (m.setParent n1 (some f.elem)) (some f.elem) n2 (some n1) =
      setHole (m.setParent n1 (some f.elem)) (f :: k) (some n1) := by
    show (m.setParent n1 _).setLink f.elem (decide (m.link f.elem true = some n2)) _ = _
    rw [hside]
    rfl
  rw [hchild]
  generalize hm : (setHole (m.setParent n1 (some f.elem)) (f :: k) (some n1)).setParent n2
    (above none c) = m3
  have hupper3 : Path m3 none m3.root c (some n1) := by
    rw [show m3.root = m.root by rw [← hm]; rfl]
    refine hupper.frame fun x hx => ?_
    obtain ⟨hx1, hx2⟩ := hp.first x (.inr (.inl hx))
    have hxk := (hp.upper_not x hx).1
    rw [← hm]
    exact ⟨by simp [hx1, hx2], fun s => by simp [link_setHole hxk], by simp⟩
  rw [setChildOf_eq hupper3 hn1]
  have hupper4 := Path.setHole hupper3 hp.upper (some n2)
  -- what the parents were changed to
  have hparent4 : ∀ x, (setHole m3 c (some n2)).parent x =
      if x = n2 then above none c else if x = n1 then some f.elem else m.parent x := by
    rw [← hm]
    simp
  have hbalance4 : (setHole m3 c (some n2)).balance = m.balance := by
    rw [← hm]
    simp
  have hlink4 : ∀ x s, x ∉ nodes c →
      (setHole m3 c (some n2)).link x s = (setHole m (f :: k) (some n1)).link x s := by
    intro x s hx
    rw [link_setHole hx, ← hm]
    rfl
  have hfirst : ∀ s, (setHole m3 c (some n2)).link n1 s = m.link n1 s :=
    fun s => by rw [hlink4 n1 s hn1, link_setHole hn1k]
  have hsecond : ∀ s, (setHole m3 c (some n2)).link n2 s = m.link n2 s :=
    fun s => by rw [hlink4 n2 s hn2, link_setHole hn2k]
  generalize setHole m3 c (some n2) = m4 at hupper4 hparent4 hbalance4 hlink4 hfirst hsecond ⊢
  clear hm hupper3 hupper
  -- the children of the two nodes
  have hchild1 : ∀ s' x, m4.link n1 s' = some x → x = x0 ∨ top r = some x := by
    intro s' x hx
    rw [hfirst] at hx
    by_cases hs : s' = s
    · rw [hs] at hx
      exact .inl (Option.some.inj (hx.symm.trans hl1))
    · rw [Bool.eq_not.mpr hs] at hx
      exact .inr (hsib.symm.trans hx)
  have hchild2 : ∀ s' x, m4.link n2 s' = some x → top lm = some x ∨ top rm = some x := by
    intro s' x hx
    rw [hsecond] at hx
    cases s' with
    | false => exact .inl (hl2.symm.trans hx)
    | true => exact .inr (hr2.symm.trans hx)
  have hbelow2 : ∀ s' x, m4.link n2 s' = some x → x ∈ lm.elems ∨ x ∈ rm.elems :=
    fun s' x hx => (hchild2 s' x hx).imp mem_elems_of_top mem_elems_of_top
  have hdisj : ∀ s s' x, m4.link n1 s = some x → m4.link n2 s' ≠ some x := by
    intro s s' x hx hx'
    rcases hchild1 s x hx with rfl | hr
    · obtain ⟨h1, h2, -⟩ := hp.path_not x hx0
      exact (hbelow2 s' x hx').elim h1 h2
    · obtain ⟨h1, h2⟩ := hp.sibling_not x (mem_elems_of_top hr)
      exact (hbelow2 s' x hx').elim h1 h2
  refine (returns_bind.mp (returns_swapChildren hne hdisj)).mono fun _ _ h' =>
    h'.mono fun _ m' hsw => ?_
  have hlink' : ∀ x s, x ≠ n1 → x ≠ n2 → x ∉ nodes c →
      m'.link x s = (setHole m (f :: k) (some n1)).link x s :=
    fun x s hx1 hx2 hxc => by rw [hsw.link x s hx1 hx2, hlink4 x s hxc]
  have hparent' : ∀ x, x ≠ n1 → x ≠ n2 → x ≠ x0 → top r ≠ some x → top lm ≠ some x →
      top rm ≠ some x → m'.parent x = m.parent x := by
    intro x hx1 hx2 hx hr hl hrm
    rw [hsw.parent x (fun s' h => (hchild1 s' x h).elim hx hr)
      (fun s' h => (hchild2 s' x h).elim hl hrm), hparent4, if_neg hx2, if_neg hx1]
  refine at_swapped (q := some x0) h ?_ ?_ ?_ ?_ (fun t => ?_) ?_ ?_ ?_ (fun x hx t => ?_)
    (fun x hx htl htr hts => ?_) (fun x hx => ?_) (fun x hx => ?_) (fun x hx => ?_)
  · -- the path between the nodes hangs below the other node now
    refine (Path.setHole_cons hseg hp.path (some n1)).reparent hp.path
      (fun x hx => ⟨fun s => ?_, ?_⟩) (fun x hx hne => ?_) (fun x hx => ?_)
    · obtain ⟨hx1, hx2⟩ := hp.first x (.inl hx)
      exact hlink' x s hx1 hx2 fun hc => (hp.upper_not x hc).1 hx
    · rw [hsw.balance, hbalance4, balance_setHole]
    · obtain ⟨hx1, hx2⟩ := hp.first x (.inl hx)
      obtain ⟨hxl, hxr, hxs⟩ := hp.path_not x hx
      rw [parent_setHole]
      exact hparent' x hx1 hx2 (fun h => hne (by rw [h])) (top_ne_of_not_mem hxs)
        (top_ne_of_not_mem hxl) (top_ne_of_not_mem hxr)
    · exact hsw.below_second x s (by rw [hfirst, hl1, show some x0 = some x from hx])
  · rw [hsw.root]
    refine hupper4.frame fun x hx => ?_
    obtain ⟨hx1, hx2⟩ := hp.first x (.inr (.inl hx))
    obtain ⟨hxk, hxl, hxr, hxs⟩ := hp.upper_not x hx
    refine ⟨?_, fun s => hsw.link x s hx1 hx2, by rw [hsw.balance]⟩
    rw [hparent' x hx1 hx2 (fun h => hxk (h ▸ hx0)) (top_ne_of_not_mem hxs)
      (top_ne_of_not_mem hxl) (top_ne_of_not_mem hxr), hparent4, if_neg hx2, if_neg hx1]
  · rw [hsw.parent n1 (fun s' h => ?_) (fun s' h => ?_), hparent4, if_neg hne, if_pos rfl]
    · rfl
    · rcases hchild1 s' n1 h with rfl | hr
      · exact hn1k hx0
      · exact (hp.rest (.inr (.inr (mem_elems_of_top hr)))).1 rfl
    · exact (hp.rest ((hbelow2 s' n1 h).imp_right .inl)).1 rfl
  · rw [hsw.parent n2 (fun s' h => ?_) (fun s' h => ?_), hparent4, if_pos rfl]
    · rcases hchild1 s' n2 h with rfl | hr
      · exact hn2k hx0
      · exact (hp.rest (.inr (.inr (mem_elems_of_top hr)))).2.1 rfl
    · exact (hp.rest ((hbelow2 s' n2 h).imp_right .inl)).2.1 rfl
  · rw [hsw.first, hsecond]
  · rw [hsw.second, hfirst, hl1]
  · rw [hsw.second, hfirst]
  · rw [hsw.balance, hbalance4]
  · obtain ⟨hx1, hx2, hxc, hxk⟩ := hp.rest hx
    rw [hlink' x t hx1 hx2 hxc, link_setHole hxk]
  · obtain ⟨hx1, hx2, -, hxk⟩ := hp.rest hx
    exact hparent' x hx1 hx2 (fun h => hxk (h ▸ hx0)) hts htl htr
  · exact hsw.below_first x false (by rw [hsecond, hl2, show top lm = some x from hx])
  · exact hsw.below_first x true (by rw [hsecond, hr2, show top rm = some x from hx])
  · exact hsw.below_second x (!s) (by rw [hfirst, hsib, show top r = some x from hx])

/-- `_BAVL_swap_nodes` of a node and one below it. -/
theorem returns_swapNodes (h : At m (k ++ ⟨s, n1, b1, r⟩ :: c) (.node lm n2 b2 rm)) :
    Returns (swapNodes n1 n2) m
      fun _ m' => At m' (k ++ ⟨s, n2, b1, r⟩ :: c) (.node lm n1 b2 rm) := by
  have hp := parts h.nodup
  obtain ⟨q, -, hp1, -, -, -, -, hupper⟩ := path_append.mp h.path
  have hnot : m.parent n1 ≠ some n2 := by
    rw [show m.parent n1 = above none c from hp1]
    cases c with
    | nil => simp [above]
    | cons f c =>
      intro hf
      exact (hp.first f.elem (.inr (.inl List.mem_cons_self))).2 (Option.some.inj hf)
  have hp2 : m.parent n2 = above (some n1) k := by
    rw [h.shows.1, above_append]
    rfl
  have hlinks : Returns (swapLinks n1 n2) m
      fun _ m' => At m' (k ++ ⟨s, n2, b2, r⟩ :: c) (.node lm n1 b1 rm) := by
    simp only [swapLinks, returns_bind, returns_get, hp2, hnot, or_false, if_false]
    cases k with
    | nil =>
      rw [above, if_pos rfl]
      exact returns_swapConnected h
    | cons f k =>
      have hf := (hp.first f.elem (.inl List.mem_cons_self)).1
      rw [above, if_neg fun heq => hf (Option.some.inj heq)]
      exact returns_swapApart h
  simp only [swapNodes, returns_bind, returns_get, returns_modify]
  refine hlinks.mono fun _ m' h' => ?_
  have hb1 : m'.balance n1 = b1 := At.balance (s := false) h'
  have h2 := at_append_iff.mp (At.setBalance (s := false) h' b2)
  have hb2 : m'.balance n2 = b2 := by
    simpa [hp.ne.symm] using h2.path.2.2.2.1
  rw [hb1, hb2, at_append_iff]
  exact at_cons_iff.mpr ((at_cons_iff.mp h2).setBalance b1)

/-! ### Removal -/

/-- `_BAVL_replace_subtree`: a node with one child is replaced by the child. -/
theorem returns_replaceSubtree (h : At m c (join s n b t .leaf)) :
    Returns (replaceSubtree n (top t)) m fun _ m' => At m' c t := by
  obtain ⟨hpath, hshows, hnodup⟩ := h
  rw [top_join] at hpath
  rw [shows_join] at hshows
  obtain ⟨hp, -, -, -, ht, -⟩ := hshows
  rw [((elems_join_perm s n b t .leaf).append_left (nodes c)).nodup_iff] at hnodup
  simp only [elems, List.append_nil, List.nodup_append, List.nodup_cons, List.mem_cons] at hnodup
  obtain ⟨hc, ⟨hn, htn⟩, hct⟩ := hnodup
  have hnc : n ∉ nodes c := fun hx => hct n hx n (.inl rfl) rfl
  have htc : ∀ x ∈ t.elems, x ∉ nodes c := fun x hx hxc => hct x hxc x (.inr hx) rfl
  simp only [replaceSubtree, returns_bind, returns_modify, hp, setChildOf_eq hpath hnc,
    parent_setHole]
  refine ⟨?_, ?_, ?_⟩
  · rw [root_setParentOf]
    refine (Path.setHole hpath hc (top t)).frame fun x hx => ?_
    have hxt : top t ≠ some x := fun h => htc x (mem_elems_of_top h) hx
    exact ⟨by simp [hxt], fun s => by simp, by simp⟩
  · refine ht.reparent (fun x hx => ⟨fun s => ?_, by simp⟩) (fun x hx htop => ?_)
      (fun x hx => ?_) htn
    · simp [link_setHole (htc x hx)]
    · simp [Ne.symm htop]
    · simp [show top t = some x from hx]
  · exact List.nodup_append.mpr ⟨hc, htn, fun x hx y hy => hct x hx y (.inr hy)⟩

/-- The first part of `BAVL_Remove`: a node with two children is swapped with the greatest node to
its left. -/
theorem returns_makeRemovable {l r : BinTree α} (h : At m c (.node l n b r))
    (hbal : (plug c (.node l n b r)).Balanced) (hturns : (plug c (.node l n b r)).height ≤ turns) :
    Returns (makeRemovable turns n) m fun _ m' => ∃ c' s b' t, At m' c' (join s n b' t .leaf) ∧
      (plug c' (join s n b' t .leaf)).Balanced ∧ c'.length ≤ turns ∧
      before c' ++ (t.elems ++ after c') = before c ++ (l.elems ++ r.elems ++ after c) := by
  have hlen := length_add_height_le c (.node l n b r)
  rw [BinTree.height] at hlen
  simp only [makeRemovable, returns_bind, returns_get]
  rw [show m.link n false = top l from At.link (s := false) h,
    show m.link n true = top r from At.link (s := true) h]
  cases l with
  | leaf =>
    simp only [top, returns_pure]
    exact ⟨c, true, b, r, h, hbal, by omega, rfl⟩
  | node ll ln lb lr =>
    cases r with
    | leaf =>
      simp only [top, Option.isSome_none, Bool.false_eq_true, if_false, returns_pure]
      exact ⟨c, false, b, _, h, hbal, by omega, by simp [elems]⟩
    | node rl rn rb rr =>
      simp only [top, Option.isSome_some, if_true, returns_bind, subtreeMax]
      generalize hr : BinTree.node rl rn rb rr = r at *
      have hat := at_cons_iff (f := ⟨false, n, b, r⟩).mpr h
      refine (returns_outermost hat rfl (by omega)).mono ?_
      rintro x m' ⟨rfl, k, lx, bx, hplug, hside⟩
      rw [hplug, ← at_append_iff] at hat
      refine (returns_swapNodes hat).mono fun _ m1 h1 => ?_
      have hwhole : plug c (.node (.node ll ln lb lr) n b r) =
          plug (k ++ ⟨false, n, b, r⟩ :: c) (.node lx x bx .leaf) := by
        rw [plug_append, ← hplug]
        rfl
      refine ⟨_, false, bx, lx, h1, ?_, ?_, ?_⟩
      · rw [hwhole, balanced_plug] at hbal
        exact balanced_plug.mpr ⟨hbal.1, fits_rename.mp hbal.2⟩
      · have hle := length_add_height_le (k ++ ⟨false, n, b, r⟩ :: c) (.node lx x bx .leaf)
        rw [← hwhole, List.length_append, List.length_cons] at hle
        rw [List.length_append, List.length_cons]
        omega
      · have hl : (BinTree.node ll ln lb lr).elems = before k ++ (lx.elems ++ [x]) := by
          rw [hplug, elems_plug, after_eq_nil hside, List.append_nil]
          rfl
        rw [hl, before_append, after_append, after_eq_nil hside]
        simp [before, after]

/-- `BAVL_Remove` takes the node out of a balanced tree. -/
theorem returns_remove (h : At m [] t) (hbal : t.Balanced) (hn : n ∈ t.elems)
    (hturns : t.height ≤ turns) :
    Returns (remove turns n) m fun _ m' => ∃ t', At m' [] t' ∧ t'.Balanced ∧
      t'.elems = t.elems.erase n := by
  obtain ⟨c, l, b, r, rfl⟩ := exists_plug hn
  have herase : (plug c (.node l n b r)).elems.erase n =
      before c ++ (l.elems ++ r.elems ++ after c) := by
    have hnodup : (before c ++ l.elems ++ n :: (r.elems ++ after c)).Nodup := by
      simpa [nodes, elems_plug, elems] using h.nodup
    have hnot : n ∉ before c ++ l.elems :=
      fun hx => (List.nodup_append.mp hnodup).2.2 n hx n List.mem_cons_self rfl
    rw [elems_plug, elems, show before c ++ (l.elems ++ n :: r.elems ++ after c) =
      before c ++ l.elems ++ n :: (r.elems ++ after c) by simp, List.erase_append_right _ hnot,
      List.erase_cons_head]
    simp
  simp only [remove, returns_bind]
  refine (returns_makeRemovable (at_nil_iff.mp h) hbal hturns).mono ?_
  rintro _ m' ⟨c', s, b', u, hat, hbal', hlen, helems⟩
  have hlink : m'.link n s = top u := At.link hat
  have hother : m'.link n (!s) = none := (shows_join.mp hat.shows).2.2.1
  have hparent : m'.parent n = above none c' := At.parent hat (top_join ..)
  have hone : ¬ ((m'.link n false).isSome = true ∧ (m'.link n true).isSome = true) := by
    cases s <;> simp_all
  have hchild : (m'.link n false).or (m'.link n true) = top u := by
    cases s <;> simp_all
  obtain ⟨hu, hfits⟩ := balanced_plug.mp hbal'
  obtain ⟨hu, -⟩ := balanced_join.mp hu
  rw [height_join] at hfits
  have hfits' : Fits c' ((u.height : Int) - -1) := by
    simpa [BinTree.height] using hfits
  rw [returns_get, returns_require]
  refine ⟨hone, ?_⟩
  rw [hchild, hparent]
  have hresult : ∀ m'', At m'' [] (repair c' u (-1)) → ∃ t', At m'' [] t' ∧ t'.Balanced ∧
      t'.elems = (plug c (.node l n b r)).elems.erase n := fun m'' h'' =>
    ⟨_, h'', balanced_repair hu (by decide) (by decide) hfits',
      by rw [elems_repair, helems, herase]⟩
  cases c' with
  | nil => exact (returns_replaceSubtree hat).mono fun _ m'' h'' => hresult m'' h''
  | cons f c' =>
    have hpath := hat.path
    rw [top_join] at hpath
    have hnot : n ∉ nodes (f :: c') := fun hx =>
      (List.nodup_append.mp hat.nodup).2.2 n hx n (mem_elems_of_top (top_join ..)) rfl
    simp only [above, returns_bind, decide_link_eq hpath hnot]
    refine (returns_replaceSubtree hat).mono fun _ m'' h'' => ?_
    exact (returns_rebalance h'' hu (by decide) (by decide) hfits' hlen).mono
      fun _ m3 h3 => hresult m3 h3

end Bavl
