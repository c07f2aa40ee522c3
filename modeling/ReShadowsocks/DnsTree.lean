/-
The table of the DNS redirection in memory.

`DnsNat` takes the table for a map from ports.  In the program it is a `BAVL` tree of `Connection`
objects that are allocated and freed one by one.

* `processDeviceDnsPacket` — the function on the tree;
* `Represents` — the tree against the map;
* `packets_as_table` — over any packets the tree does what the map does, no object is used that is
  not allocated, and none is lost;
* `freeConnections_leaks` — at the end the tree is emptied, but no object is freed.
-/
import Mathlib.Data.List.Perm.Subperm
import ReShadowsocks.BavlIndex
import ReShadowsocks.DnsNat

namespace DnsTree

open AvlTree NodeHeap Program Bavl
open DnsNat (Connection Addr Options Datagram Event receive)

variable {α : Type} [DecidableEq α]

/-- The static variables and the memory.  `store` is what is in memory at a place, `live` the
objects that are allocated. -/
structure State (α : Type) where
  init : Bool
  tree : Heap α
  store : α → Connection
  live : List α

abbrev Dns (α : Type) := StateT (State α) (Except Fault)

/-- A port as it is in memory: the bytes come from the network, and are read in the other order. -/
def word (port : UInt16) : Nat := port.toNat % 256 * 256 + port.toNat / 256

/-- What `conaddr_comparator` reads at a node. -/
def State.key (s : State α) (con : α) : Nat := word (s.store con).port

/-- The loops on the tree are allowed the turns for a node per port. -/
def turns : Nat := turnsFor 65536

def onTree {β : Type} (x : Bavl.Run α β) : Dns α β :=
  focus State.tree (fun m s => { s with tree := m }) x

/-- An object is accessed. -/
def access (con : α) : Dns α PUnit := do
  let s ← get
  require (con ∈ s.live) .notAllocated

def setCount (con : α) (d : Int) : Dns α PUnit :=
  modify fun s => { s with
    store := Function.update s.store con
      { s.store con with count := (s.store con).count + d } }

/-- `find_connection`. -/
def findConnection (port : UInt16) : Dns α (Option α) := do
  let s ← get
  onTree (lookupExact turns s.key (word port))

/-- `remove_connection`. -/
def removeConnection (con : α) : Dns α PUnit := do
  access con
  setCount con (-1)
  let s ← get
  if (s.store con).count ≤ 0 then do
    onTree (Bavl.remove turns con)
    modify fun s => { s with live := s.live.erase con }
  else pure ⟨⟩

/-- `insert_connection`; `malloc` is what the allocator returns when these objects are allocated. -/
def insertConnection (malloc : List α → Option α) (localAddr remoteAddr : Addr) (port : UInt16) :
    Dns α PUnit := do
  match ← findConnection port with
  | some con => do
    access con
    setCount con 1
  | none => do
    let s ← get
    match malloc s.live with
    | none => throw .nullPointer
    | some tmp => do
      modify fun s => { s with
        store := Function.update s.store tmp ⟨localAddr, remoteAddr, port, 1⟩
        live := tmp :: s.live }
      let s ← get
      let _ ← onTree (Bavl.insert turns s.key tmp)

/-- `process_device_dns_packet`: `none` if it returns 0. -/
def processDeviceDnsPacket (options : Options) (malloc : List α → Option α) (data : List UInt8) :
    Dns α (Option Event) :=
  match options.dnsgw with
  | none => return none
  | some dnsgw =>
    match receive data with
    | none => return none
    | some d =>
      -- to port 53 is considered a DNS packet
      if d.udp.destPort = 53 then do
        modify fun s => if s.init then s else { s with init := true, tree := s.tree.setRoot none }
        insertConnection malloc d.source d.dest d.udp.sourcePort
        let output : Datagram :=
          { d with
            ip.destinationAddress := dnsgw.ip
            ip.sourceAddress := options.netifIpaddr
            udp.destPort := dnsgw.port }
        return some ⟨.query, d, output.updateChecksums⟩
      -- from the port of the gateway is considered a DNS packet
      else if d.udp.sourcePort = dnsgw.port then do
        let s ← get
        if !s.init then return none
        else do
          match ← findConnection d.udp.destPort with
          | none => return none
          | some con => do
            access con
            let s ← get
            let output : Datagram :=
              { d with
                ip.sourceAddress := (s.store con).remoteAddr.ip
                ip.destinationAddress := (s.store con).localAddr.ip
                udp.sourcePort := (s.store con).remoteAddr.port }
            removeConnection con
            return some ⟨.reply, d, output.updateChecksums⟩
      else return none

/-- The packets are processed one after another.  The allocator may do as it likes each time. -/
def processAll (options : Options) (malloc : Nat → List α → Option α) :
    Nat → List (List UInt8) → Dns α (List Event)
  | _, [] => return []
  | i, data :: rest => do
    let e ← processDeviceDnsPacket options (malloc i) data
    let es ← processAll options malloc (i + 1) rest
    return e.toList ++ es

/-- `free_connections`. -/
def freeConnections : Nat → Dns α PUnit
  | 0 => throw .outOfTurns
  | k + 1 => do
    let s ← get
    match s.tree.root with
    | none => pure ⟨⟩
    | some _ => do
      match ← onTree (getLast turns) with
      | none => throw .nullPointer
      | some con => do
        onTree (Bavl.remove turns con)
        freeConnections k

/-! ### The tree and the map -/

theorem word_inj {p q : UInt16} (h : word p = word q) : p = q := by
  have hp := p.toNat_lt
  have hq := q.toNat_lt
  unfold word at h
  exact UInt16.toNat_inj.mp (by omega)

theorem word_lt (p : UInt16) : word p < 65536 := by
  have hp := p.toNat_lt
  unfold word
  omega

variable {s : State α} {table : DnsNat.Table} {t : BinTree α} {port : UInt16} {con : α}

/-- The tree holds the entries of the table, and the objects that are allocated are its nodes. -/
structure Shape (s : State α) (table : DnsNat.Table) (t : BinTree α) : Prop where
  indexes : Indexes s.tree s.key t
  live : s.live.Perm t.elems
  entry : ∀ port, table port = (find s.key (word port) t).map s.store

omit [DecidableEq α] in
/-- There are not more nodes than ports. -/
theorem length_le_ports {m : Heap α} {key : α → Nat} (h : Indexes m key t)
    (hkey : ∀ x ∈ t.elems, key x < 65536) : t.elems.length ≤ 65536 := by
  have hnodup : (t.elems.map key).Nodup := by
    rw [List.Nodup, List.pairwise_map]
    exact h.sorted.imp fun hlt => Nat.ne_of_lt hlt
  have hsub : t.elems.map key ⊆ List.range 65536 := by
    intro v hv
    obtain ⟨x, hx, rfl⟩ := List.mem_map.mp hv
    exact List.mem_range.mpr (hkey x hx)
  have hlen := (List.subperm_of_subset hnodup hsub).length_le
  rwa [List.length_map, List.length_range] at hlen

omit [DecidableEq α] in
theorem height_le_turns {m : Heap α} {key : α → Nat} (h : Indexes m key t)
    (hkey : ∀ x ∈ t.elems, key x < 65536) : t.height ≤ turns := by
  have hlen := length_le_ports h hkey
  have hpow := two_pow_height_le h.balanced
  have hlog : t.height / 2 < 17 := by
    rw [← Nat.pow_lt_pow_iff_right (a := 2) (by decide)]
    omega
  rw [show turns = 33 from by decide]
  omega

omit [DecidableEq α] in
theorem Shape.height_le (h : Shape s table t) : t.height ≤ turns :=
  height_le_turns h.indexes fun _ _ => word_lt _

omit [DecidableEq α] in
/-- The node that is found for a port. -/
theorem Shape.found (h : Shape s table t) (hfind : find s.key (word port) t = some con) :
    con ∈ t.elems ∧ con ∈ s.live ∧ (s.store con).port = port ∧ table port = some (s.store con) := by
  obtain ⟨hmem, hkey⟩ := (find_eq_some_iff h.indexes.sorted).mp hfind
  exact ⟨hmem, h.live.mem_iff.mpr hmem, word_inj hkey, by rw [h.entry, hfind]; rfl⟩

omit [DecidableEq α] in
theorem returns_findConnection (h : Shape s table t) :
    Returns (findConnection port) s fun r s' => s' = s ∧ r = find s.key (word port) t := by
  simp only [findConnection, onTree, returns_bind, returns_get, returns_focus]
  refine (returns_lookup_index h.indexes h.height_le).mono ?_
  rintro r m' ⟨rfl, rfl⟩
  exact ⟨rfl, rfl⟩

/-- An entry is changed in its place. -/
theorem Shape.update (h : Shape s table t) (hfind : find s.key (word port) t = some con)
    {c : Connection} (hc : c.port = port) :
    Shape { s with store := Function.update s.store con c }
      (Function.update table port (some c)) t := by
  obtain ⟨hmem, -, hport, -⟩ := h.found hfind
  have hkey : State.key { s with store := Function.update s.store con c } = s.key := by
    funext x
    show word (Function.update s.store con c x).port = word (s.store x).port
    by_cases hx : x = con
    · rw [hx, Function.update_self, hc, hport]
    · rw [Function.update_of_ne hx]
  refine ⟨by rw [hkey]; exact h.indexes, h.live, fun p => ?_⟩
  rw [hkey]
  by_cases hp : p = port
  · rw [hp, hfind, Function.update_self]
    simp
  · rw [Function.update_of_ne hp, h.entry]
    cases hfp : find s.key (word p) t with
    | none => rfl
    | some x =>
      have hx : x ≠ con := by
        rintro rfl
        exact hp ((h.found hfp).2.2.1.symm.trans hport)
      simp [Function.update_of_ne hx]

theorem returns_removeConnection (h : Shape s table t)
    (hfind : find s.key (word port) t = some con) :
    Returns (removeConnection con) s fun _ s' => s'.init = s.init ∧
      ∃ t', Shape s' (DnsNat.removeConnection table (s.store con)) t' := by
  obtain ⟨hmem, hlive, hport, -⟩ := h.found hfind
  simp only [removeConnection, access, setCount, returns_bind, returns_get, returns_require,
    returns_modify, Function.update_self]
  refine ⟨hlive, ?_⟩
  generalize hc : ({ s.store con with count := (s.store con).count + -1 } : Connection) = c
  have hcport : c.port = port := by rw [← hc, hport]
  have htable : DnsNat.removeConnection table (s.store con) =
      if c.count ≤ 0 then Function.update table port none
      else Function.update table port (some c) := by
    simp only [DnsNat.removeConnection, ← hc, Int.sub_eq_add_neg, hport]
  have hcount : (s.store con).count + -1 = c.count := by rw [← hc]
  rw [htable, hcount]
  have hupdate := h.update hfind hcport
  have hkey : State.key { s with store := Function.update s.store con c } con = word port := by
    show word (Function.update s.store con c con).port = word port
    rw [Function.update_self, hcport]
  split
  · -- the last reply
    simp only [onTree, returns_bind, returns_focus, returns_modify]
    refine (returns_remove_index hupdate.indexes hmem hupdate.height_le).mono ?_
    rintro _ m' ⟨t', hindex, helems⟩
    refine ⟨trivial, t', hindex, ?_, fun p => ?_⟩
    · rw [helems]
      exact hupdate.live.erase con
    · have hfound := find_of_erase (v := word p) hupdate.indexes.sorted hmem hupdate.indexes.nodup
        helems
      have hentry := hupdate.entry p
      rw [hkey] at hfound
      refine Eq.trans ?_ (congrArg (Option.map _) hfound.symm)
      by_cases hp : p = port
      · rw [hp, Function.update_self, if_pos rfl]
        rfl
      · have hword : word port ≠ word p := fun h => hp (word_inj h).symm
        rw [Function.update_of_ne hp] at hentry ⊢
        rw [if_neg hword]
        exact hentry
  · rw [returns_pure]
    exact ⟨rfl, t, hupdate⟩

/-- A new object is inserted. -/
theorem Shape.insert (h : Shape s table t) (hnone : find s.key (word port) t = none)
    (hnew : con ∉ s.live) {c : Connection} (hc : c.port = port) :
    Returns (Bavl.insert turns (State.key { s with store := Function.update s.store con c }) con)
      s.tree fun _ m => ∃ t', Shape
        { s with tree := m, store := Function.update s.store con c, live := con :: s.live }
        (Function.update table port (some c)) t' := by
  have hnew' : con ∉ t.elems := fun hx => hnew (h.live.mem_iff.mpr hx)
  have hstore : ∀ x ∈ t.elems, Function.update s.store con c x = s.store x := by
    intro x hx
    have hne : x ≠ con := fun h => hnew' (h ▸ hx)
    exact Function.update_of_ne hne _ _
  generalize hkey : State.key { s with store := Function.update s.store con c } = key
  have hkeys : ∀ x ∈ t.elems, key x = s.key x := by
    intro x hx
    rw [← hkey]
    show word (Function.update s.store con c x).port = word (s.store x).port
    rw [hstore x hx]
  have hcon : key con = word port := by
    rw [← hkey]
    show word (Function.update s.store con c con).port = word port
    rw [Function.update_self, hc]
  have hindex := h.indexes.rekey hkeys
  have hnone' : find key (key con) t = none := by rw [hcon, find_congr hkeys, hnone]
  refine (returns_insert_index hindex hnew' h.height_le).mono fun ok m hres => ?_
  rw [hnone'] at hres
  obtain ⟨-, t', hindex', hperm⟩ := hres
  refine ⟨t', hkey ▸ hindex', (h.live.cons con).trans hperm.symm, fun p => ?_⟩
  show _ = (find (State.key { s with store := Function.update s.store con c }) (word p) t').map
    (Function.update s.store con c)
  rw [hkey, find_of_perm_cons hindex.sorted hindex'.sorted hperm hnone', hcon]
  by_cases hp : p = port
  · rw [hp, Function.update_self, if_pos rfl, Option.map_some, Function.update_self]
  · have hword : word port ≠ word p := fun h => hp (word_inj h).symm
    rw [if_neg hword, Function.update_of_ne hp, h.entry, find_congr hkeys]
    cases hfp : find s.key (word p) t with
    | none => rfl
    | some x => rw [Option.map_some, Option.map_some, hstore x (h.found hfp).1]

theorem returns_insertConnection {malloc : List α → Option α} {l r : Addr} (h : Shape s table t)
    (hmalloc : ∃ a, malloc s.live = some a ∧ a ∉ s.live) :
    Returns (insertConnection malloc l r port) s fun _ s' => s'.init = s.init ∧
      ∃ t', Shape s' (DnsNat.insertConnection table l r port) t' := by
  simp only [insertConnection, returns_bind]
  refine (returns_findConnection h).mono ?_
  rintro res s' ⟨rfl, rfl⟩
  rw [DnsNat.insertConnection, DnsNat.findConnection, h.entry]
  cases hfind : find s'.key (word port) t with
  | some con =>
    obtain ⟨-, hlive, hport, -⟩ := h.found hfind
    simp only [access, setCount, returns_bind, returns_get, returns_require, returns_modify,
      Option.map_some]
    exact ⟨hlive, trivial, t, h.update hfind hport⟩
  | none =>
    obtain ⟨tmp, htmp, hfresh⟩ := hmalloc
    simp only [returns_bind, returns_get, htmp, returns_modify, onTree, returns_focus,
      Option.map_none, returns_pure]
    exact (h.insert hfind hfresh rfl).mono fun _ m hm => ⟨trivial, hm⟩

/-! ### Packets -/

/-- The memory of the program is that of the abstract one. -/
def Represents (s : State α) (d : DnsNat.State) : Prop :=
  s.init = d.init ∧ ∃ t, Shape s d.table t ∧ (s.init = false → t = .leaf)

variable {options : Options} {data : List UInt8} {d : DnsNat.State}

omit [DecidableEq α] in
/-- `BAVL_Init`, before the first query. -/
theorem Represents.initialized (h : Represents s d) : ∃ t, Shape
    (if s.init then s else { s with init := true, tree := s.tree.setRoot none })
    (if d.init then d.table else fun _ => none) t := by
  obtain ⟨hinit, t, hshape, hleaf⟩ := h
  rw [← hinit]
  cases hs : s.init with
  | true => exact ⟨t, hshape⟩
  | false =>
    obtain rfl := hleaf hs
    exact ⟨.leaf, ⟨⟨rfl, trivial, List.nodup_nil⟩, trivial, List.Pairwise.nil⟩, hshape.live,
      fun _ => rfl⟩

theorem returns_process {malloc : List α → Option α} (h : Represents s d)
    (hmalloc : ∀ live, ∃ a, malloc live = some a ∧ a ∉ live) :
    Returns (processDeviceDnsPacket options malloc data) s fun e s' =>
      match DnsNat.processDeviceDnsPacket options d data with
      | none => e = none ∧ s' = s
      | some (ev, d') => e = some ev ∧ Represents s' d' := by
  unfold processDeviceDnsPacket DnsNat.processDeviceDnsPacket
  cases options.dnsgw with
  | none =>
    simp only [returns_pure]
    exact ⟨trivial, trivial⟩
  | some dnsgw =>
    cases receive data with
    | none =>
      simp only [returns_pure]
      exact ⟨trivial, trivial⟩
    | some dg =>
      dsimp only
      split
      · -- a query
        simp only [returns_bind, returns_modify, returns_pure]
        obtain ⟨t, hshape⟩ := h.initialized
        refine (returns_insertConnection hshape (hmalloc _)).mono ?_
        rintro _ s' ⟨hinit, t', hshape'⟩
        have hinit' : s'.init = true := by
          rw [hinit]
          cases hs : s.init <;> simp [hs]
        exact ⟨trivial, hinit', t', hshape', fun hf => absurd (hinit'.symm.trans hf) (by simp)⟩
      · split
        · -- a reply
          obtain ⟨hinit, t, hshape, hleaf⟩ := h
          simp only [returns_bind, returns_get]
          rw [← hinit]
          cases hs : s.init with
          | false =>
            simp only [Bool.not_false, if_true, returns_pure]
            exact ⟨trivial, trivial⟩
          | true =>
            simp only [Bool.not_true, Bool.false_eq_true, if_false, returns_bind]
            refine (returns_findConnection hshape).mono ?_
            rintro res s' ⟨rfl, rfl⟩
            rw [DnsNat.findConnection, hshape.entry]
            cases hfind : find s'.key (word dg.udp.destPort) t with
            | none =>
              simp only [returns_pure, Option.map_none]
              exact ⟨trivial, trivial⟩
            | some con =>
              simp only [access, returns_bind, returns_get, returns_require, returns_pure,
                Option.map_some]
              refine ⟨(hshape.found hfind).2.1, (returns_removeConnection hshape hfind).mono ?_⟩
              rintro _ s'' ⟨hinit', t', hshape'⟩
              refine ⟨trivial, hinit'.trans hs, t', hshape', fun hf => ?_⟩
              exact absurd (hs.symm.trans (hinit'.symm.trans hf)) (by simp)
        · rw [returns_pure]
          exact ⟨rfl, rfl⟩

theorem returns_processAll {malloc : Nat → List α → Option α}
    (hmalloc : ∀ i live, ∃ a, malloc i live = some a ∧ a ∉ live) (packets : List (List UInt8))
    {i : Nat} {r : DnsNat.Run} (h : Represents s r.state) :
    Returns (processAll options malloc i packets) s fun es s' => ∃ r',
      Transition.run (DnsNat.step options) r packets = some r' ∧ r'.log = r.log ++ es ∧
        Represents s' r'.state := by
  induction packets generalizing i s r with
  | nil =>
    rw [processAll, returns_pure]
    exact ⟨r, rfl, (List.append_nil _).symm, h⟩
  | cons data rest ih =>
    simp only [processAll, returns_bind, returns_pure]
    refine (returns_process h (hmalloc i)).mono fun e s' hres => ?_
    rw [Transition.run]
    cases hp : DnsNat.processDeviceDnsPacket options r.state data with
    | none =>
      rw [hp] at hres
      obtain ⟨rfl, rfl⟩ := hres
      rw [DnsNat.step, hp]
      exact ih h
    | some res =>
      rw [hp] at hres
      obtain ⟨rfl, hs'⟩ := hres
      rw [DnsNat.step, hp]
      refine (ih (r := ⟨res.2, r.log ++ [res.1]⟩) hs').mono ?_
      rintro es s'' ⟨r', hrun, hlog, hs''⟩
      exact ⟨r', hrun, by rw [hlog, List.append_assoc]; rfl, hs''⟩

/-- The memory at the start: no query yet, nothing allocated, anything in the free memory. -/
def start (tree : Heap α) (store : α → Connection) : State α :=
  ⟨false, tree.setRoot none, store, []⟩

omit [DecidableEq α] in
theorem represents_start (tree : Heap α) (store : α → Connection) :
    Represents (start tree store) DnsNat.Run.initial.state :=
  ⟨rfl, .leaf, ⟨⟨⟨rfl, trivial, List.nodup_nil⟩, trivial, List.Pairwise.nil⟩, List.Perm.refl _,
    fun _ => rfl⟩, fun _ => rfl⟩

/-- **The tree is as good as a map.**  Whatever packets come, and wherever the allocator puts the
objects, as long as it finds memory that is not in use, the function on the tree sends what the one
on the map sends, and ends with the same table.  No assertion fails, no loop takes more than 33
turns, and no object is used that is not allocated; those that are allocated are the ones in the
tree. -/
theorem packets_as_table (options : Options) (malloc : Nat → List α → Option α)
    (hmalloc : ∀ i live, ∃ a, malloc i live = some a ∧ a ∉ live) (tree : Heap α)
    (store : α → Connection) (packets : List (List UInt8)) :
    Returns (processAll options malloc 0 packets) (start tree store) fun es s => ∃ r,
      Transition.run (DnsNat.step options) DnsNat.Run.initial packets = some r ∧ r.log = es ∧
        Represents s r.state := by
  refine (returns_processAll hmalloc packets (represents_start tree store)).mono ?_
  rintro es s ⟨r, hrun, hlog, hs⟩
  exact ⟨r, hrun, hlog, hs⟩

/-- An allocator of numbers. -/
def nextPlace (_ : Nat) (live : List Nat) : Option Nat := some (live.foldr max 0 + 1)

theorem nextPlace_new (i : Nat) (live : List Nat) : ∃ a, nextPlace i live = some a ∧ a ∉ live := by
  have hmax : ∀ (l : List Nat), ∀ a ∈ l, a ≤ l.foldr max 0 := by
    intro l
    induction l with
    | nil => simp
    | cons b l ih =>
      intro a ha
      rw [List.foldr_cons]
      rcases List.mem_cons.mp ha with rfl | ha
      · exact Nat.le_max_left _ _
      · exact Nat.le_trans (ih a ha) (Nat.le_max_right _ _)
  exact ⟨_, rfl, fun hmem => Nat.not_succ_le_self _ (hmax live _ hmem)⟩

def emptyHeap : Heap Nat := ⟨none, fun _ => none, fun _ _ => none, fun _ => 0⟩

def emptyStore (_ : Nat) : Connection := ⟨⟨0, 0⟩, ⟨0, 0⟩, 0, 0⟩

theorem packets_as_table_twoServers :
    Returns (processAll DnsNat.sampleOptions nextPlace 0 DnsNat.twoServers)
      (start emptyHeap emptyStore) fun es s => ∃ r,
        Transition.run (DnsNat.step DnsNat.sampleOptions) DnsNat.Run.initial DnsNat.twoServers =
          some r ∧ r.log = es ∧ Represents s r.state :=
  packets_as_table _ _ nextPlace_new _ _ _

/-! ### The end -/

theorem returns_freeConnections {key : α → Nat} {k : Nat} (h : Indexes s.tree key t)
    (hkey : ∀ x, key x < 65536) (hk : t.elems.length < k) :
    Returns (freeConnections k) s fun _ s' =>
      s'.tree.root = none ∧ s'.live = s.live ∧ s'.store = s.store := by
  induction k generalizing s t with
  | zero => exact absurd hk (Nat.not_lt_zero _)
  | succ k ih =>
    have hroot : s.tree.root = top t := h.held.path
    simp only [freeConnections, returns_bind, returns_get, hroot]
    cases t with
    | leaf =>
      simp only [top, returns_pure]
      exact ⟨hroot, trivial, trivial⟩
    | node l a b r =>
      have hheight := height_le_turns h fun x _ => hkey x
      simp only [top, onTree, returns_bind, returns_focus, getLast, returns_get, hroot, returns_map]
      refine (returns_outermost h.held rfl hheight).mono ?_
      rintro x m' ⟨rfl, c, lx, bx, hplug, -⟩
      have hx : x ∈ (BinTree.node l a b r).elems := by
        rw [hplug, elems_plug]
        simp [BinTree.elems]
      refine (returns_remove_index h hx hheight).mono ?_
      rintro _ m' ⟨t', hindex, helems⟩
      refine ih (s := { s with tree := m' }) hindex ?_
      have hpos := List.length_pos_of_mem hx
      rw [helems, List.length_erase_of_mem hx]
      omega

omit [DecidableEq α] in
theorem Shape.length_le (h : Shape s table t) : t.elems.length ≤ 65536 :=
  length_le_ports h.indexes fun _ _ => word_lt _

/-- **`free_connections` frees nothing.**  After any packets it comes to an end, after a turn for
each node, and the tree is empty then.  But the object of every query that is still waiting for its
reply stays allocated. -/
theorem freeConnections_leaks (options : Options) (malloc : Nat → List α → Option α)
    (hmalloc : ∀ i live, ∃ a, malloc i live = some a ∧ a ∉ live) (tree : Heap α)
    (store : α → Connection) (packets : List (List UInt8)) :
    Returns (processAll options malloc 0 packets >>= fun _ => freeConnections 65537)
      (start tree store) fun _ s => s.tree.root = none ∧ ∃ r,
        Transition.run (DnsNat.step options) DnsNat.Run.initial packets = some r ∧
        ∀ port con, r.state.table port = some con → ∃ n ∈ s.live, s.store n = con := by
  rw [returns_bind]
  refine (returns_processAll hmalloc packets (represents_start tree store)).mono ?_
  rintro es s ⟨r, hrun, -, -, t, hshape, -⟩
  refine (returns_freeConnections hshape.indexes (fun _ => word_lt _)
    (Nat.lt_succ_of_le hshape.length_le)).mono ?_
  rintro _ s' ⟨hroot, hlive, hstore⟩
  refine ⟨hroot, r, hrun, fun port con hcon => ?_⟩
  rw [hshape.entry, Option.map_eq_some_iff] at hcon
  obtain ⟨n, hfind, rfl⟩ := hcon
  exact ⟨n, hlive ▸ (hshape.found hfind).2.1, by rw [hstore]⟩

theorem freeConnections_leaks_twoServers :
    Returns (processAll DnsNat.sampleOptions nextPlace 0 DnsNat.twoServers >>=
        fun _ => freeConnections 65537)
      (start emptyHeap emptyStore) fun _ s => s.tree.root = none ∧ ∃ r,
        Transition.run (DnsNat.step DnsNat.sampleOptions) DnsNat.Run.initial DnsNat.twoServers =
          some r ∧
        ∀ port con, r.state.table port = some con → ∃ n ∈ s.live, s.store n = con :=
  freeConnections_leaks _ _ nextPlace_new _ _ _

end DnsTree
