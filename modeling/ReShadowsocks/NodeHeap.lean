/-
Trees of nodes with pointers to their parent and to their children.

* `Heap` — the pointers and balance factors of all nodes, and the pointer to the root;
* `Shows m p t` — the nodes of `t` are linked in `m` as in `t`, and the parent of its root is `p`;
* `Path m p r c h` — the nodes of the path `c` are linked as in `c`, with `h` at its place, below
  the parent `p` and with `r` as the topmost pointer;
* `Shows.frame`, `Path.frame` — both only depend on the nodes that they are about;
* `shows_plug` — a tree is a path and the subtree at its place.
-/
import ReShadowsocks.AvlTree

namespace NodeHeap

open AvlTree AvlTree.BinTree

universe u

/-- The fields of all nodes.  `link n false` is the left child of `n`, `link n true` the right
one. -/
structure Heap (α : Type u) where
  root : Option α
  parent : α → Option α
  link : α → Bool → Option α
  balance : α → Int

variable {α : Type u}

namespace Heap

def setRoot (m : Heap α) (v : Option α) : Heap α := { m with root := v }

variable (m : Heap α) (n x : α) (s t : Bool) (v : Option α) (b : Int)

@[simp] theorem root_setRoot : (m.setRoot v).root = v := rfl
@[simp] theorem parent_setRoot : (m.setRoot v).parent = m.parent := rfl
@[simp] theorem link_setRoot : (m.setRoot v).link = m.link := rfl
@[simp] theorem balance_setRoot : (m.setRoot v).balance = m.balance := rfl

variable [DecidableEq α]

def setParent (m : Heap α) (n : α) (v : Option α) : Heap α :=
  { m with parent := fun x => if x = n then v else m.parent x }

def setLink (m : Heap α) (n : α) (s : Bool) (v : Option α) : Heap α :=
  { m with link := fun x t => if x = n ∧ t = s then v else m.link x t }

def setBalance (m : Heap α) (n : α) (b : Int) : Heap α :=
  { m with balance := fun x => if x = n then b else m.balance x }

@[simp] theorem root_setParent : (m.setParent n v).root = m.root := rfl
@[simp] theorem root_setLink : (m.setLink n s v).root = m.root := rfl
@[simp] theorem root_setBalance : (m.setBalance n b).root = m.root := rfl

@[simp] theorem parent_setParent :
    (m.setParent n v).parent x = if x = n then v else m.parent x := rfl
@[simp] theorem parent_setLink : (m.setLink n s v).parent = m.parent := rfl
@[simp] theorem parent_setBalance : (m.setBalance n b).parent = m.parent := rfl

@[simp] theorem link_setParent : (m.setParent n v).link = m.link := rfl
@[simp] theorem link_setLink :
    (m.setLink n s v).link x t = if x = n ∧ t = s then v else m.link x t := rfl
@[simp] theorem link_setBalance : (m.setBalance n b).link = m.link := rfl

@[simp] theorem balance_setParent : (m.setParent n v).balance = m.balance := rfl
@[simp] theorem balance_setLink : (m.setLink n s v).balance = m.balance := rfl
@[simp] theorem balance_setBalance :
    (m.setBalance n b).balance x = if x = n then b else m.balance x := rfl

end Heap

/-- The pointer to a tree. -/
def top : BinTree α → Option α
  | .leaf => none
  | .node _ a _ _ => some a

@[simp] theorem top_join (s : Bool) (a : α) (b : Int) (t u : BinTree α) :
    top (join s a b t u) = some a := by
  cases s <;> rfl

variable {m m' : Heap α} {p q : Option α} {t u : BinTree α} {s : Bool} {a : α} {b : Int}

/-- The nodes of `t` are linked as in `t`, below the parent `p`. -/
def Shows (m : Heap α) : Option α → BinTree α → Prop
  | _, .leaf => True
  | p, .node l a b r =>
    m.parent a = p ∧ m.link a false = top l ∧ m.link a true = top r ∧ m.balance a = b ∧
      Shows m (some a) l ∧ Shows m (some a) r

theorem shows_join : Shows m p (join s a b t u) ↔
    m.parent a = p ∧ m.link a s = top t ∧ m.link a (!s) = top u ∧ m.balance a = b ∧
      Shows m (some a) t ∧ Shows m (some a) u := by
  cases s with
  | false => exact Iff.rfl
  | true =>
    show _ ∧ _ ∧ _ ∧ _ ∧ _ ∧ _ ↔ _
    constructor
    · rintro ⟨h1, h2, h3, h4, h5, h6⟩
      exact ⟨h1, h3, h2, h4, h6, h5⟩
    · rintro ⟨h1, h2, h3, h4, h5, h6⟩
      exact ⟨h1, h3, h2, h4, h6, h5⟩

/-- Two heaps have the same fields of a node. -/
structure Agree (m m' : Heap α) (n : α) : Prop where
  parent : m'.parent n = m.parent n
  link : ∀ s, m'.link n s = m.link n s
  balance : m'.balance n = m.balance n

theorem Shows.frame (h : Shows m p t) (hagree : ∀ n ∈ t.elems, Agree m m' n) : Shows m' p t := by
  induction t generalizing p with
  | leaf => trivial
  | node l a b r ihl ihr =>
    obtain ⟨hp, hl, hr, hb, hshowl, hshowr⟩ := h
    have ha := hagree a (by simp [elems])
    refine ⟨by rw [ha.parent, hp], by rw [ha.link, hl], by rw [ha.link, hr], by rw [ha.balance, hb],
      ihl hshowl fun n hn => hagree n ?_, ihr hshowr fun n hn => hagree n ?_⟩
    · simp [elems, hn]
    · simp [elems, hn]

/-- A subtree is hung below another parent: only the parent of its root changes. -/
theorem Shows.reparent (h : Shows m p t)
    (hlink : ∀ n ∈ t.elems, (∀ s, m'.link n s = m.link n s) ∧ m'.balance n = m.balance n)
    (hparent : ∀ n ∈ t.elems, some n ≠ top t → m'.parent n = m.parent n)
    (htop : ∀ n ∈ top t, m'.parent n = q) (hnodup : t.elems.Nodup) : Shows m' q t := by
  cases t with
  | leaf => trivial
  | node l a b r =>
    obtain ⟨hp, hl, hr, hb, hshowl, hshowr⟩ := h
    have hmem : a ∈ (node l a b r).elems := by simp [elems]
    have ha := hlink a hmem
    rw [elems, List.nodup_append] at hnodup
    obtain ⟨-, hnodupr, hdisj⟩ := hnodup
    rw [List.nodup_cons] at hnodupr
    have hother : ∀ n, n ∈ l.elems ∨ n ∈ r.elems → Agree m m' n := by
      intro n hn
      have hn' : n ∈ (node l a b r).elems := by
        rcases hn with hn | hn <;> simp [elems, hn]
      have hne : some n ≠ top (node l a b r) := by
        rintro ⟨⟩
        rcases hn with hn | hn
        · exact hdisj a hn a List.mem_cons_self rfl
        · exact hnodupr.1 hn
      exact ⟨hparent n hn' hne, (hlink n hn').1, (hlink n hn').2⟩
    exact ⟨htop a rfl, by rw [ha.1, hl], by rw [ha.1, hr], by rw [ha.2, hb],
      hshowl.frame fun n hn => hother n (.inl hn), hshowr.frame fun n hn => hother n (.inr hn)⟩

/-- The parent of what stands at the place of the path, `p` if the path is empty. -/
def above (p : Option α) : Context α → Option α
  | [] => p
  | f :: _ => some f.elem

/-- The nodes on and beside the path. -/
def nodes : Context α → List α
  | [] => []
  | f :: c => f.elem :: (f.sibling.elems ++ nodes c)

/-- The nodes of the path are linked as in `c`: below the parent `p`, with `h` at the place, and `r`
is the pointer to the topmost node. -/
def Path (m : Heap α) (p r : Option α) : Context α → Option α → Prop
  | [], h => r = h
  | f :: c, h =>
    m.parent f.elem = above p c ∧ m.link f.elem f.side = h ∧
      m.link f.elem (!f.side) = top f.sibling ∧ m.balance f.elem = f.balance ∧
      Shows m (some f.elem) f.sibling ∧ Path m p r c (some f.elem)

variable {c c' : Context α} {r h : Option α}

theorem Path.frame (hpath : Path m p r c h) (hagree : ∀ n ∈ nodes c, Agree m m' n) :
    Path m' p r c h := by
  induction c generalizing h with
  | nil => exact hpath
  | cons f c ih =>
    obtain ⟨hp, hl, hs, hb, hshow, hpath⟩ := hpath
    have hf := hagree f.elem (by simp [nodes])
    refine ⟨by rw [hf.parent, hp], by rw [hf.link, hl], by rw [hf.link, hs], by rw [hf.balance, hb],
      hshow.frame fun n hn => hagree n ?_, ih hpath fun n hn => hagree n ?_⟩
    · simp [nodes, hn]
    · simp [nodes, hn]

theorem above_append (p : Option α) (c c' : Context α) :
    above p (c ++ c') = above (above p c') c := by
  cases c <;> rfl

/-- A path is put together of a lower and an upper part. -/
theorem path_append :
    Path m p r (c ++ c') h ↔ ∃ q, Path m (above p c') q c h ∧ Path m p r c' q := by
  induction c generalizing h with
  | nil =>
    constructor
    · exact fun hpath => ⟨h, rfl, hpath⟩
    · rintro ⟨_, rfl, hpath⟩
      exact hpath
  | cons f c ih =>
    simp only [List.cons_append, Path, above_append, ih]
    constructor
    · rintro ⟨h1, h2, h3, h4, h5, q, h6, h7⟩
      exact ⟨q, ⟨h1, h2, h3, h4, h5, h6⟩, h7⟩
    · rintro ⟨q, ⟨h1, h2, h3, h4, h5, h6⟩, h7⟩
      exact ⟨h1, h2, h3, h4, h5, q, h6, h7⟩

theorem nodes_append (c c' : Context α) : nodes (c ++ c') = nodes c ++ nodes c' := by
  induction c with
  | nil => rfl
  | cons f c ih => simp [nodes, ih]

/-- The topmost pointer of a path is one of its nodes. -/
theorem Path.top_mem {f : Frame α} (hpath : Path m p r (f :: c) h) :
    ∃ n ∈ nodes (f :: c), r = some n := by
  induction c generalizing f h with
  | nil => exact ⟨f.elem, List.mem_cons_self, hpath.2.2.2.2.2⟩
  | cons f' c ih =>
    obtain ⟨n, hn, hr⟩ := ih hpath.2.2.2.2.2
    exact ⟨n, List.mem_cons_of_mem _ (List.mem_append_right _ hn), hr⟩

/-- A path is hung below another parent: only the parent of its topmost node changes. -/
theorem Path.reparent {f : Frame α} (hpath : Path m p r (f :: c) h)
    (hnodup : (nodes (f :: c)).Nodup)
    (hlink : ∀ n ∈ nodes (f :: c), (∀ s, m'.link n s = m.link n s) ∧ m'.balance n = m.balance n)
    (hparent : ∀ n ∈ nodes (f :: c), r ≠ some n → m'.parent n = m.parent n)
    (htop : ∀ n ∈ r, m'.parent n = q) : Path m' q r (f :: c) h := by
  induction c generalizing f h with
  | nil =>
    obtain ⟨-, hl, hs, hb, hshow, hr⟩ := hpath
    have hf := hlink f.elem List.mem_cons_self
    rw [nodes, nodes, List.append_nil, List.nodup_cons] at hnodup
    refine ⟨htop _ hr, by rw [hf.1, hl], by rw [hf.1, hs], by rw [hf.2, hb],
      hshow.frame fun n hn => ?_, hr⟩
    have hmem : n ∈ nodes [f] := by simp [nodes, hn]
    have hne : r ≠ some n := by
      intro hrn
      exact hnodup.1 (Option.some.inj (hr.symm.trans hrn) ▸ hn)
    exact ⟨hparent n hmem hne, (hlink n hmem).1, (hlink n hmem).2⟩
  | cons f' c ih =>
    obtain ⟨hp, hl, hs, hb, hshow, hpath⟩ := hpath
    obtain ⟨x, hx, hr⟩ := hpath.top_mem
    have hsub : ∀ n ∈ nodes (f' :: c), n ∈ nodes (f :: f' :: c) :=
      fun n hn => List.mem_cons_of_mem _ (List.mem_append_right _ hn)
    rw [nodes, List.nodup_cons, List.mem_append, not_or, List.nodup_append] at hnodup
    obtain ⟨⟨hfs, hfc⟩, -, hnodup', hdisj⟩ := hnodup
    -- the nodes of the first frame are not the topmost one
    have hother : ∀ n, n = f.elem ∨ n ∈ f.sibling.elems → Agree m m' n := by
      intro n hn
      have hmem : n ∈ nodes (f :: f' :: c) := by
        rcases hn with rfl | hn
        · exact List.mem_cons_self
        · exact List.mem_cons_of_mem _ (List.mem_append_left _ hn)
      have hne : r ≠ some n := by
        intro hrn
        have hxn : x = n := Option.some.inj (hr.symm.trans hrn)
        rcases hn with rfl | hn
        · exact hfc (hxn ▸ hx)
        · exact hdisj n hn x hx hxn.symm
      exact ⟨hparent n hmem hne, (hlink n hmem).1, (hlink n hmem).2⟩
    have hf := hother f.elem (.inl rfl)
    exact ⟨by rw [hf.parent, hp]; rfl, by rw [hf.link, hl], by rw [hf.link, hs],
      by rw [hf.balance, hb], hshow.frame fun n hn => hother n (.inr hn),
      ih hpath hnodup' (fun n hn => hlink n (hsub n hn)) fun n hn => hparent n (hsub n hn)⟩

/-- A tree is a path and the subtree at its place. -/
theorem shows_plug : Shows m p (plug c t) ∧ r = top (plug c t) ↔
    Path m p r c (top t) ∧ Shows m (above p c) t := by
  induction c generalizing t with
  | nil =>
    rw [plug, Path, above]
    exact and_comm
  | cons f c ih =>
    rw [plug, ih, Path, shows_join, top_join, above]
    constructor
    · rintro ⟨hpath, hp, hl, hs, hb, ht, hu⟩
      exact ⟨⟨hp, hl, hs, hb, hu, hpath⟩, ht⟩
    · rintro ⟨⟨hp, hl, hs, hb, hu, hpath⟩, ht⟩
      exact ⟨hpath, hp, hl, hs, hb, ht, hu⟩

/-- The nodes of a tree are those of the path and those of the subtree. -/
theorem elems_plug_perm (c : Context α) (t : BinTree α) :
    (plug c t).elems.Perm (nodes c ++ t.elems) := by
  classical
  induction c generalizing t with
  | nil => exact List.Perm.refl _
  | cons f c ih =>
    refine (ih _).trans (List.perm_iff_count.mpr fun a => ?_)
    rw [elems_join]
    cases f.side with
    | true =>
      simp only [if_true, nodes, List.cons_append, List.count_append, List.count_cons]
      omega
    | false =>
      simp only [Bool.false_eq_true, if_false, nodes, List.cons_append, List.count_append,
        List.count_cons]
      omega

theorem mem_elems_of_top (h : top t = some a) : a ∈ t.elems := by
  cases t with
  | leaf => cases h
  | node l a' b r =>
    cases h
    simp [elems]

theorem top_ne_of_not_mem (h : a ∉ t.elems) : top t ≠ some a :=
  fun htop => h (mem_elems_of_top htop)

theorem elems_join_perm (s : Bool) (a : α) (b : Int) (t u : BinTree α) :
    (join s a b t u).elems.Perm (a :: (t.elems ++ u.elems)) := by
  rw [elems_join]
  cases s with
  | true => exact List.perm_middle.trans (.cons _ List.perm_append_comm)
  | false => exact List.perm_middle

/-- The heap shows a tree in which `t` stands at the place of `c`. -/
structure At (m : Heap α) (c : Context α) (t : BinTree α) : Prop where
  path : Path m none m.root c (top t)
  shows : Shows m (above none c) t
  nodup : (nodes c ++ t.elems).Nodup

theorem at_nil_iff : At m [] (plug c t) ↔ At m c t := by
  have hnodup : (plug c t).elems.Nodup ↔ (nodes c ++ t.elems).Nodup :=
    (elems_plug_perm c t).nodup_iff
  constructor
  · rintro ⟨hpath, hshows, hn⟩
    obtain ⟨hpath', hshows'⟩ := shows_plug.mp ⟨hshows, hpath⟩
    exact ⟨hpath', hshows', hnodup.mp hn⟩
  · rintro ⟨hpath, hshows, hn⟩
    obtain ⟨hshows', hroot⟩ := shows_plug.mpr ⟨hpath, hshows⟩
    exact ⟨hroot, hshows', hnodup.mpr hn⟩

/-- The place may be taken higher up or lower down. -/
theorem at_append_iff : At m (c ++ c') t ↔ At m c' (plug c t) := by
  rw [← at_nil_iff, plug_append, at_nil_iff]

theorem at_cons_iff {f : Frame α} :
    At m (f :: c) t ↔ At m c (join f.side f.elem f.balance t f.sibling) := by
  rw [← at_nil_iff, plug, at_nil_iff]

theorem join_not (s : Bool) (a : α) (b : Int) (t u : BinTree α) :
    join (!s) a b t u = join s a b u t := by
  cases s <;> rfl

/-- A balance factor is changed. -/
theorem At.setBalance [DecidableEq α] (h : At m c (join s a b t u)) (b' : Int) :
    At (m.setBalance a b') c (join s a b' t u) := by
  obtain ⟨hpath, hshows, hnodup⟩ := h
  have hperm : (join s a b t u).elems = (join s a b' t u).elems := by simp
  have hfacts := ((elems_join_perm s a b t u).append_left (nodes c)).nodup_iff.mp hnodup
  simp only [List.nodup_append, List.nodup_cons, List.mem_append, List.mem_cons, not_or] at hfacts
  obtain ⟨-, ⟨⟨hat, hau⟩, -⟩, hcn⟩ := hfacts
  have hagree : ∀ n, n ≠ a → Agree m (m.setBalance a b') n :=
    fun n hn => ⟨rfl, fun _ => rfl, by simp [hn]⟩
  refine ⟨?_, ?_, by rwa [← hperm]⟩
  · rw [top_join] at hpath ⊢
    exact hpath.frame fun n hn => hagree n (hcn n hn a (.inl rfl))
  · rw [shows_join] at hshows ⊢
    obtain ⟨hp, hl, ho, -, ht, hu⟩ := hshows
    refine ⟨hp, hl, ho, by simp, ht.frame fun n hn => hagree n ?_,
      hu.frame fun n hn => hagree n ?_⟩
    · rintro rfl
      exact hat hn
    · rintro rfl
      exact hau hn

end NodeHeap
