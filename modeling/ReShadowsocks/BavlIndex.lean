/-
What a `BAVL` tree is for: it finds nodes by their values.

* `Indexes m key t` — in the memory `m` there is the tree `t`, balanced and ordered by `key`;
* `returns_insert_index`, `returns_remove_index`, `returns_lookup_index`, `returns_getLast_index` —
  the functions of `BAVL.h` keep it so;
* `Bag` — the same functions on a list of nodes in no order, with a search through all of it;
* `answers_as_bag` — over any run the tree gives the same answers as the list, and no loop takes
  more turns than twice the logarithm of the number of nodes.
-/
import Mathlib.Data.Nat.Basic
import ReShadowsocks.BavlRemove

namespace Bavl

open AvlTree NodeHeap Program
open AvlTree.BinTree (elems)

variable {α κ : Type} [LinearOrder κ]
variable {m m' : Heap α} {t t' : BinTree α} {n : α} {v : κ} {key key' : α → κ} {turns : Nat}

/-- How many turns the loops may take in a tree of `n` nodes. -/
def turnsFor (n : Nat) : Nat := 2 * Nat.log2 (n + 1) + 1

/-- The memory holds the tree, balanced and ordered by the values of its nodes. -/
structure Indexes (m : Heap α) (key : α → κ) (t : BinTree α) : Prop where
  held : At m [] t
  balanced : t.Balanced
  sorted : Sorted key t.elems

theorem Indexes.height_le (h : Indexes m key t) : t.height ≤ turnsFor t.elems.length := by
  have hlog : t.height / 2 ≤ Nat.log2 (t.elems.length + 1) :=
    (Nat.le_log2 (Nat.succ_ne_zero _)).mpr (two_pow_height_le h.balanced)
  rw [turnsFor]
  omega

theorem Indexes.nodup (h : Indexes m key t) : t.elems.Nodup := h.held.nodup

/-- The values of other nodes do not matter. -/
theorem Indexes.rekey (h : Indexes m key t) (hkey : ∀ x ∈ t.elems, key' x = key x) :
    Indexes m key' t := by
  refine ⟨h.held, h.balanced, h.sorted.imp_of_mem fun {x y} hx hy hlt => ?_⟩
  rwa [hkey x hx, hkey y hy]

/-- A list in no order is searched as the tree is. -/
theorem find?_eq_find {nodes : List α} (hsorted : Sorted key t.elems)
    (hperm : nodes.Perm t.elems) : nodes.find? (fun x => decide (key x = v)) = find key v t := by
  cases hfind : find key v t with
  | none =>
    refine List.find?_eq_none.mpr fun x hx hv => ?_
    rw [(find_eq_some_iff hsorted).mpr ⟨hperm.mem_iff.mp hx, of_decide_eq_true hv⟩] at hfind
    cases hfind
  | some x =>
    obtain ⟨hx, hkey⟩ := (find_eq_some_iff hsorted).mp hfind
    cases hlist : nodes.find? (fun x => decide (key x = v)) with
    | none =>
      have := List.find?_eq_none.mp hlist x (hperm.mem_iff.mpr hx)
      exact absurd (decide_eq_true hkey) this
    | some y =>
      have hkey' : key y = v := by simpa using List.find?_some hlist
      have hy := (find_eq_some_iff hsorted).mpr
        ⟨hperm.mem_iff.mp (List.mem_of_find?_eq_some hlist), hkey'⟩
      rw [← hy, hfind]

theorem returns_lookup_index (h : Indexes m key t) (hturns : t.height ≤ turns) :
    Returns (lookupExact turns key v) m fun r m' => m' = m ∧ r = find key v t :=
  returns_lookupExact h.held hturns

variable [DecidableEq α]

/-- `BAVL_Insert` adds the node, unless one with its value is there. -/
theorem returns_insert_index (h : Indexes m key t) (hnew : n ∉ t.elems)
    (hturns : t.height ≤ turns) :
    Returns (insert turns key n) m fun ok m' =>
      match find key (key n) t with
      | some _ => ok = false ∧ m' = m
      | none => ok = true ∧ ∃ t', Indexes m' key t' ∧ t'.elems.Perm (n :: t.elems) := by
  refine (returns_insert h.held h.balanced hnew hturns).mono fun ok m' hres => ?_
  cases hplace : place key (key n) [] t with
  | none =>
    obtain ⟨x, hx, hkey⟩ := place_eq_none hplace
    rw [hplace] at hres
    rw [(find_eq_some_iff h.sorted).mpr ⟨hx, hkey⟩]
    exact hres
  | some c =>
    rw [hplace] at hres
    rw [find_eq_none_of_place h.sorted hplace]
    obtain ⟨helems, hb, ha⟩ := place_spec h.sorted hplace
    have helems' : (repair c (single n) 1).elems = before c ++ n :: after c := by
      rw [elems_repair]
      rfl
    refine ⟨hres.1, repair c (single n) 1, ⟨hres.2, ?_, ?_⟩, ?_⟩
    · have hfits : Fits c 0 := by
        have hbal := h.balanced
        rw [show t = plug c .leaf from (plug_place hplace).1.symm] at hbal
        exact (balanced_plug.mp hbal).2
      exact balanced_repair ⟨trivial, trivial, rfl, by decide, by decide⟩ (by decide) (by decide)
        hfits
    · have hsorted := h.sorted
      rw [helems, Sorted, List.pairwise_append] at hsorted
      rw [helems', Sorted, List.pairwise_append, List.pairwise_cons]
      refine ⟨hsorted.1, ⟨ha, hsorted.2.1⟩, fun x hx y hy => ?_⟩
      rcases List.mem_cons.mp hy with rfl | hy
      · exact hb x hx
      · exact hsorted.2.2 x hx y hy
    · rw [helems', helems]
      exact List.perm_middle

/-- `BAVL_Remove` takes the node out. -/
theorem returns_remove_index (h : Indexes m key t) (hn : n ∈ t.elems) (hturns : t.height ≤ turns) :
    Returns (remove turns n) m fun _ m' =>
      ∃ t', Indexes m' key t' ∧ t'.elems = t.elems.erase n := by
  refine (returns_remove h.held h.balanced hn hturns).mono ?_
  rintro _ m' ⟨t', hat, hbal, helems⟩
  refine ⟨t', ⟨hat, hbal, ?_⟩, helems⟩
  rw [helems]
  exact h.sorted.sublist List.erase_sublist

/-! ### Runs -/

/-- A call of a user of the tree.  The value of a node is written before the node is inserted. -/
inductive Call (α κ : Type)
  | insert (n : α) (v : κ)
  | remove (n : α)
  | lookup (v : κ)
  deriving DecidableEq

inductive Answer (α : Type)
  | inserted (ok : Bool)
  | removed
  | found (n : Option α)
  deriving DecidableEq

/-- The memory: the tree, and the values of the nodes. -/
structure Index (α κ : Type) where
  heap : Heap α
  key : α → κ

def onHeap {β : Type} (x : Run α β) : StateT (Index α κ) (Except Fault) β :=
  focus Index.heap (fun m s => { s with heap := m }) x

def Call.perform (turns : Nat) : Call α κ → StateT (Index α κ) (Except Fault) (Answer α)
  | .insert n v => do
    modify fun s => { s with key := Function.update s.key n v }
    let s ← get
    .inserted <$> onHeap (Bavl.insert turns s.key n)
  | .remove n => do
    onHeap (Bavl.remove turns n)
    return .removed
  | .lookup v => do
    let s ← get
    .found <$> onHeap (lookupExact turns s.key v)

/-- The nodes in no order. -/
structure Bag (α κ : Type) where
  nodes : List α
  key : α → κ

namespace Bag

def find (b : Bag α κ) (v : κ) : Option α := b.nodes.find? fun x => decide (b.key x = v)

def perform (b : Bag α κ) : Call α κ → Answer α × Bag α κ
  | .insert n v =>
    if (b.find v).isSome then (.inserted false, { b with key := Function.update b.key n v })
    else (.inserted true, ⟨n :: b.nodes, Function.update b.key n v⟩)
  | .remove n => (.removed, { b with nodes := b.nodes.erase n })
  | .lookup v => (.found (b.find v), b)

/-- A node is inserted if it is not there, and removed if it is. -/
def Allows (b : Bag α κ) : Call α κ → Prop
  | .insert n _ => n ∉ b.nodes
  | .remove n => n ∈ b.nodes
  | .lookup _ => True

instance decidableAllows (b : Bag α κ) : ∀ call, Decidable (b.Allows call)
  | .insert n _ => inferInstanceAs (Decidable (n ∉ b.nodes))
  | .remove n => inferInstanceAs (Decidable (n ∈ b.nodes))
  | .lookup _ => inferInstanceAs (Decidable True)

def AllowsAll : Bag α κ → List (Call α κ) → Prop
  | _, [] => True
  | b, call :: calls => b.Allows call ∧ (b.perform call).2.AllowsAll calls

instance decidableAllowsAll : ∀ (b : Bag α κ) calls, Decidable (b.AllowsAll calls)
  | _, [] => inferInstanceAs (Decidable True)
  | b, call :: calls =>
    have := decidableAllowsAll (b.perform call).2 calls
    inferInstanceAs (Decidable (b.Allows call ∧ _))

/-- The answers to the calls, and the nodes at the end. -/
def performAll : Bag α κ → List (Call α κ) → List (Answer α) × Bag α κ
  | b, [] => ([], b)
  | b, call :: calls =>
    ((b.perform call).1 :: ((b.perform call).2.performAll calls).1,
      ((b.perform call).2.performAll calls).2)

end Bag

/-- The calls on the tree; each loop may take the turns for the number of nodes at that time, which
is counted by `b`. -/
def performAll : Bag α κ → List (Call α κ) → StateT (Index α κ) (Except Fault) (List (Answer α))
  | _, [] => pure []
  | b, call :: calls => do
    let a ← call.perform (turnsFor b.nodes.length)
    let as ← performAll (b.perform call).2 calls
    return a :: as

/-- The tree holds the nodes of the bag. -/
def Holds (b : Bag α κ) (s : Index α κ) : Prop :=
  s.key = b.key ∧ ∃ t, Indexes s.heap s.key t ∧ b.nodes.Perm t.elems

theorem returns_perform {b : Bag α κ} {s : Index α κ} (h : Holds b s) {call : Call α κ}
    (hcall : b.Allows call) :
    Returns (call.perform (turnsFor b.nodes.length)) s
      fun a s' => a = (b.perform call).1 ∧ Holds (b.perform call).2 s' := by
  obtain ⟨hkey, t, hindex, hperm⟩ := h
  have hturns : t.height ≤ turnsFor b.nodes.length := by
    rw [hperm.length_eq]
    exact hindex.height_le
  have hfind : ∀ v, b.find v = find s.key v t := by
    intro v
    rw [Bag.find, ← hkey]
    exact find?_eq_find hindex.sorted hperm
  cases call with
  | insert n v =>
    have hnew : n ∉ t.elems := fun hn => hcall (hperm.mem_iff.mpr hn)
    have hrekey : ∀ x ∈ t.elems, Function.update s.key n v x = s.key x := by
      intro x hx
      have hne : x ≠ n := fun h => hnew (h ▸ hx)
      exact Function.update_of_ne hne _ _
    have hfind' : find (Function.update s.key n v) (Function.update s.key n v n) t = b.find v := by
      rw [Function.update_self, find_congr hrekey, hfind]
    simp only [Call.perform, onHeap, returns_bind, returns_modify, returns_get, returns_map,
      returns_focus, Bag.perform]
    refine (returns_insert_index (hindex.rekey hrekey) hnew hturns).mono fun ok m' hres => ?_
    rw [hfind'] at hres
    cases hb : b.find v with
    | some x =>
      rw [hb] at hres
      obtain ⟨rfl, rfl⟩ := hres
      simp only [Option.isSome_some, if_true, true_and, Holds, hkey]
      rw [hkey] at hindex hrekey
      exact ⟨t, hindex.rekey hrekey, hperm⟩
    | none =>
      rw [hb] at hres
      obtain ⟨rfl, t', hindex', hperm'⟩ := hres
      simp only [Option.isSome_none, Bool.false_eq_true, if_false, true_and, Holds, hkey]
      rw [hkey] at hindex'
      exact ⟨t', hindex', (hperm.cons n).trans hperm'.symm⟩
  | remove n =>
    simp only [Call.perform, onHeap, returns_bind, returns_focus, returns_pure, Bag.perform]
    refine (returns_remove_index hindex (hperm.mem_iff.mp hcall) hturns).mono ?_
    rintro _ m' ⟨t', hindex', helems⟩
    refine ⟨trivial, hkey, t', hindex', ?_⟩
    rw [helems]
    exact hperm.erase n
  | lookup v =>
    simp only [Call.perform, onHeap, returns_bind, returns_get, returns_map, returns_focus,
      Bag.perform]
    refine (returns_lookup_index hindex hturns).mono ?_
    rintro r m' ⟨rfl, rfl⟩
    exact ⟨by rw [hfind], hkey, t, hindex, hperm⟩

theorem returns_performAll {b : Bag α κ} {s : Index α κ} (h : Holds b s) {calls : List (Call α κ)}
    (hcalls : b.AllowsAll calls) :
    Returns (performAll b calls) s
      fun as s' => as = (b.performAll calls).1 ∧ Holds (b.performAll calls).2 s' := by
  induction calls generalizing b s with
  | nil =>
    rw [performAll, returns_pure]
    exact ⟨rfl, h⟩
  | cons call calls ih =>
    simp only [performAll, returns_bind, returns_pure]
    refine (returns_perform h hcalls.1).mono ?_
    rintro a s' ⟨rfl, hs'⟩
    refine (ih hs' hcalls.2).mono ?_
    rintro as s'' ⟨rfl, hs''⟩
    exact ⟨rfl, hs''⟩

/-- **A tree is as good as a list.**  From an empty tree, in memory with any contents, every run of
insertions, removals and lookups gives the answers of a search through all nodes.  No assertion
fails, no `NULL` is dereferenced, and no loop takes more than `2 * log2 (n + 1) + 1` turns in a tree
of `n` nodes.  At the end the nodes are in the tree, in order and in balance. -/
theorem answers_as_bag (m : Heap α) (key : α → κ) (calls : List (Call α κ))
    (hcalls : Bag.AllowsAll ⟨[], key⟩ calls) :
    Returns (performAll ⟨[], key⟩ calls) ⟨m.setRoot none, key⟩ fun as s =>
      as = (Bag.performAll ⟨[], key⟩ calls).1 ∧
      ∃ t, Indexes s.heap s.key t ∧ (Bag.performAll ⟨[], key⟩ calls).2.nodes.Perm t.elems := by
  have hempty : Holds ⟨[], key⟩ (⟨m.setRoot none, key⟩ : Index α κ) :=
    ⟨rfl, .leaf, ⟨⟨rfl, trivial, List.nodup_nil⟩, trivial, List.Pairwise.nil⟩, List.Perm.refl _⟩
  refine (returns_performAll hempty hcalls).mono ?_
  rintro as s ⟨has, -, hholds⟩
  exact ⟨has, hholds⟩

/-- Seven nodes in ascending order, and the root taken out again. -/
def sampleCalls : List (Call Nat Nat) :=
  [.insert 0 10, .insert 1 20, .insert 2 30, .insert 3 40, .insert 4 50, .insert 5 60, .insert 6 70,
    .insert 7 40, .remove 3, .lookup 40, .lookup 30, .insert 3 65, .lookup 65]

theorem answers_as_bag_sample :
    Returns (performAll ⟨[], fun _ => 0⟩ sampleCalls)
      ⟨(⟨none, fun _ => none, fun _ _ => none, fun _ => 0⟩ : Heap Nat).setRoot none, fun _ => 0⟩
      fun as s => as = (Bag.performAll ⟨[], fun _ => 0⟩ sampleCalls).1 ∧
        ∃ t, Indexes s.heap s.key t ∧
          (Bag.performAll ⟨[], fun _ => 0⟩ sampleCalls).2.nodes.Perm t.elems :=
  answers_as_bag _ _ sampleCalls (by decide)

end Bavl
