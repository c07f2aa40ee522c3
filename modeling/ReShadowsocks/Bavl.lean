/-
`BAVL`, the tree that `tun2socks` keeps its connections in, as the C code computes it: nodes with
pointers to their parent and their children, changed in place.

A program works on the fields of all nodes (`Heap`) and may fail an assertion or dereference
`NULL`.  Each loop and each recursion is given a number of turns, and running out of them is a
fault too, so that what returns has a bound on its time.
-/
import Mathlib.Order.Lattice
import ReShadowsocks.NodeHeap
import ReShadowsocks.Program

namespace Bavl

open AvlTree NodeHeap Program

universe u

inductive Fault
  /-- An `ASSERT` fails. -/
  | assertion
  /-- `NULL` is dereferenced. -/
  | nullPointer
  /-- A loop or a recursion takes more turns than it was allowed. -/
  | outOfTurns
  /-- An object is used that is not allocated. -/
  | notAllocated
  deriving DecidableEq

variable {α κ : Type} [DecidableEq α] [LinearOrder κ]

abbrev Run (α : Type) := StateT (Heap α) (Except Fault)

def deref : Option α → Run α α
  | some a => pure a
  | none => throw .nullPointer

/-- `if (p) p->parent = v`. -/
def setParentOf (m : Heap α) : Option α → Option α → Heap α
  | some p, v => m.setParent p v
  | none, _ => m

/-- `if (p) p->link[old == p->link[1]] = v; else tree->root = v`. -/
def setChildOf (m : Heap α) (p : Option α) (old : α) (v : Option α) : Heap α :=
  match p with
  | some p => m.setLink p (decide (m.link p true = some old)) v
  | none => m.setRoot v

/-- `_BAVL_rotate`. -/
def rotate (r : α) (dir : Bool) : Run α PUnit := do
  let m ← get
  let nr ← deref (m.link r (!dir))
  modify fun m => m.setLink r (!dir) (m.link nr dir)
  modify fun m => setParentOf m (m.link r (!dir)) (some r)
  modify fun m => m.setLink nr dir (some r)
  modify fun m => m.setParent nr (m.parent r)
  modify fun m => setChildOf m (m.parent nr) r (some nr)
  modify fun m => m.setParent r (some nr)

/-- The transformations of `_BAVL_rebalance`: the node that is now in the place of `node`, and by
how much the height of that place changed. -/
def transform (node : α) (delta : Int) : Run α (α × Int) := do
  let m ← get
  let balance := m.balance node
  if balance = 2 ∨ balance = -2 then
    let bside := decide (balance = 2)
    let bsidef := sign bside
    let child ← deref (m.link node bside)
    if m.balance child * bsidef = 1 then
      rotate node (!bside)
      modify fun m => m.setBalance node 0
      modify fun m => m.setBalance child 0
      return (child, delta - 1)
    else if m.balance child * bsidef = 0 then
      rotate node (!bside)
      modify fun m => m.setBalance node (1 * bsidef)
      modify fun m => m.setBalance child (-1 * bsidef)
      return (child, delta)
    else if m.balance child * bsidef = -1 then
      let gchild ← deref (m.link child (!bside))
      rotate child bside
      rotate node (!bside)
      modify fun m => m.setBalance node (-max 0 (m.balance gchild * bsidef) * bsidef)
      modify fun m => m.setBalance child (max 0 (-m.balance gchild * bsidef) * bsidef)
      modify fun m => m.setBalance gchild 0
      return (gchild, delta - 1)
    else
      throw .assertion
  else
    return (node, delta)

/-- `_BAVL_rebalance`, with the number of calls that it may make. -/
def rebalance : Nat → α → Bool → Int → Run α PUnit
  | 0, _, _, _ => throw .outOfTurns
  | k + 1, node, side, deltac => do
    let m ← get
    require (-1 ≤ deltac ∧ deltac ≤ 1) .assertion
    require (-1 ≤ m.balance node ∧ m.balance node ≤ 1) .assertion
    if deltac = 0 then
      pure ⟨⟩
    else do
      let balance := m.balance node
      let delta := max deltac (optNeg balance side) - max 0 (optNeg balance side)
      require (-1 ≤ delta ∧ delta ≤ 1) .assertion
      modify fun m => m.setBalance node (balance - optNeg deltac side)
      let r ← transform node delta
      require (-1 ≤ r.2 ∧ r.2 ≤ 1) .assertion
      let m ← get
      match m.parent r.1 with
      | some p => rebalance k p (decide (m.link p true = some r.1)) r.2
      | none => pure ⟨⟩

/-- What the comparators return: `B_COMPARE` of the two values. -/
def bCompare (v1 v2 : κ) : Int := if v1 < v2 then -1 else if v1 > v2 then 1 else 0

/-- The loop of `BAVL_Insert`: the place for the node, or `none` if there is a node that compares
equal. -/
def findPlace (key : α → κ) (node : α) : Nat → α → Run α (Option (α × Bool))
  | 0, _ => throw .outOfTurns
  | k + 1, c => do
    let comp := bCompare (key node) (key c)
    if comp = 0 then
      return none
    else do
      let side := decide (comp = 1)
      let m ← get
      match m.link c side with
      | none => return some (c, side)
      | some c => findPlace key node k c

/-- The fields of a node that has no children. -/
def initNode (node : α) (parent : Option α) : Run α PUnit :=
  modify fun m => (((m.setParent node parent).setLink node false none).setLink node true none)
    |>.setBalance node 0

/-- `BAVL_Insert`. -/
def insert (turns : Nat) (key : α → κ) (node : α) : Run α Bool := do
  let m ← get
  match m.root with
  | none => do
    modify fun m => m.setRoot (some node)
    initNode node none
    return true
  | some c => do
    match ← findPlace key node turns c with
    | none => return false
    | some place => do
      modify fun m => m.setLink place.1 place.2 (some node)
      initNode node (some place.1)
      rebalance turns place.1 place.2 1
      return true

/-- The loops of `_BAVL_subtree_max`, `BAVL_GetFirst` and `BAVL_GetLast`. -/
def outermost (side : Bool) : Nat → α → Run α α
  | 0, _ => throw .outOfTurns
  | k + 1, n => do
    let m ← get
    match m.link n side with
    | none => return n
    | some n => outermost side k n

/-- `_BAVL_subtree_max`. -/
def subtreeMax (turns : Nat) (n : α) : Run α α := outermost true turns n

/-- `_BAVL_replace_subtree`. -/
def replaceSubtree (dest : α) (n : Option α) : Run α PUnit := do
  modify fun m => setChildOf m (m.parent dest) dest n
  modify fun m => setParentOf m n (m.parent dest)

/-- `_BAVL_swap_nodes` of nodes that are directly connected, `n1` above `n2`. -/
def swapConnected (n1 n2 : α) : Run α PUnit := do
  let m ← get
  let side := decide (m.link n1 true = some n2)
  let c := m.link n1 (!side)
  modify fun m => m.setLink n1 false (m.link n2 false)
  modify fun m => setParentOf m (m.link n1 false) (some n1)
  modify fun m => m.setLink n1 true (m.link n2 true)
  modify fun m => setParentOf m (m.link n1 true) (some n1)
  modify fun m => m.setParent n2 (m.parent n1)
  modify fun m => setChildOf m (m.parent n2) n1 (some n2)
  modify fun m => m.setLink n2 side (some n1)
  modify fun m => m.setParent n1 (some n2)
  modify fun m => m.setLink n2 (!side) c
  modify fun m => setParentOf m c (some n2)

/-- The children on one side are swapped. -/
def swapChildren (n1 n2 : α) (side : Bool) : Run α PUnit := do
  let m ← get
  let temp := m.link n1 side
  modify fun m => m.setLink n1 side (m.link n2 side)
  modify fun m => setParentOf m (m.link n1 side) (some n1)
  modify fun m => m.setLink n2 side temp
  modify fun m => setParentOf m temp (some n2)

/-- `_BAVL_swap_nodes` of nodes that are not directly connected. -/
def swapApart (n1 n2 : α) : Run α PUnit := do
  let m ← get
  let temp := m.parent n1
  modify fun m => m.setParent n1 (m.parent n2)
  modify fun m => setChildOf m (m.parent n1) n2 (some n1)
  modify fun m => m.setParent n2 temp
  modify fun m => setChildOf m temp n1 (some n2)
  swapChildren n1 n2 false
  swapChildren n1 n2 true

/-- The links of `_BAVL_swap_nodes`. -/
def swapLinks (n1 n2 : α) : Run α PUnit := do
  let m ← get
  if m.parent n2 = some n1 ∨ m.parent n1 = some n2 then
    if m.parent n1 = some n2 then swapConnected n2 n1 else swapConnected n1 n2
  else
    swapApart n1 n2

/-- `_BAVL_swap_nodes`. -/
def swapNodes (n1 n2 : α) : Run α PUnit := do
  swapLinks n1 n2
  let m ← get
  modify fun m' => (m'.setBalance n1 (m.balance n2)).setBalance n2 (m.balance n1)

/-- The first part of `BAVL_Remove`: afterwards the node has at most one child. -/
def makeRemovable (turns : Nat) (node : α) : Run α PUnit := do
  let m ← get
  match m.link node false with
  | none => pure ⟨⟩
  | some l =>
    if (m.link node true).isSome = true then do
      let max ← subtreeMax turns l
      swapNodes node max
    else pure ⟨⟩

/-- `BAVL_Remove`. -/
def remove (turns : Nat) (node : α) : Run α PUnit := do
  makeRemovable turns node
  let m ← get
  require (¬ ((m.link node false).isSome = true ∧ (m.link node true).isSome = true)) .assertion
  let child := (m.link node false).or (m.link node true)
  match m.parent node with
  | some parent => do
    let side := decide (m.link parent true = some node)
    replaceSubtree node child
    rebalance turns parent side (-1)
  | none => replaceSubtree node child

/-- The loop of `BAVL_LookupExact`. -/
def search (key : α → κ) (val : κ) : Nat → α → Run α (Option α)
  | 0, _ => throw .outOfTurns
  | k + 1, c => do
    let comp := bCompare val (key c)
    if comp = 0 then
      return some c
    else do
      let m ← get
      match m.link c (decide (comp = 1)) with
      | none => return none
      | some c => search key val k c

/-- `BAVL_LookupExact`. -/
def lookupExact (turns : Nat) (key : α → κ) (val : κ) : Run α (Option α) := do
  let m ← get
  match m.root with
  | none => return none
  | some c => search key val turns c

/-- `BAVL_GetLast`. -/
def getLast (turns : Nat) : Run α (Option α) := do
  let m ← get
  match m.root with
  | none => return none
  | some n => some <$> outermost true turns n

end Bavl
