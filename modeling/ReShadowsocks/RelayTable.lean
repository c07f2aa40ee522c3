/-
The connections of the UDP relay as a bounded map.

The tree, the list and the counter are changed in different functions, of which `connection_init`
can fail and `reuse_connection` gives a connection another address pair in place.  Seen from
outside, the pairs of the list are the keys of a map that drops the least recently used one.

* `Client.pairs` — the address pairs of the connections, in the order of the list;
* `acquired_pairs` — a submission is a use of its pair, or has no effect;
* `Tabled` — the invariant that ties tree, list and counter together;
* `lru_map` — what follows for every sequence of submissions.
-/
import Mathlib.Data.Set.Card
import ReShadowsocks.Lru
import ReShadowsocks.UdpRelay

namespace UdpRelay

open Transition Lru

/-- The address pair of a connection. -/
def Client.pair (c : Client) (id : Nat) : Option Conaddr :=
  (c.connection id).map Connection.conaddr

/-- The address pairs of the connections, in the order of the list. -/
def Client.pairs (c : Client) : List Conaddr :=
  c.connectionsList.filterMap c.pair

/-! ### Tree and list -/

/-- **Tree and list hold the same connections**, each under its own pair. -/
structure Tabled (c : Client) : Prop where
  linked : Linked c
  nodup : c.connectionsList.Nodup
  listed : ∀ id ∈ c.connectionsList, ∃ con, c.connection id = some con ∧
    c.connectionsTree con.conaddr = some id
  tree : ∀ conaddr id, c.connectionsTree conaddr = some id → id ∈ c.connectionsList
  count : c.numConnections = c.connectionsList.length
  bound : c.numConnections ≤ c.maxConnections
  room : 1 ≤ c.maxConnections

theorem tabled_init (udpMtu : Int) {maxConnections : Int} (h : 1 ≤ maxConnections) :
    Tabled (Client.init udpMtu maxConnections) := by
  have hroom : 1 ≤ (Client.init udpMtu maxConnections).maxConnections := by
    simp only [Client.init]
    split <;> omega
  refine ⟨linked_init udpMtu maxConnections, List.nodup_nil, ?_, ?_, rfl, ?_, hroom⟩
  · exact fun id hid => absurd hid List.not_mem_nil
  · exact fun conaddr id hid => absurd hid (by simp [Client.init])
  · show (0 : Int) ≤ _
    omega

section Tabled

variable {c c' : Client} {conaddr : Conaddr} {id : Nat} {con : Connection}

/-- The pair of a connection of the list. -/
theorem Tabled.pair_of_tree (h : Tabled c) (htree : c.connectionsTree conaddr = some id) :
    c.pair id = some conaddr := by
  obtain ⟨con, hcon, rfl⟩ := h.linked.tree conaddr id htree
  rw [Client.pair, hcon]
  rfl

/-- A pair is held exactly if the tree knows it. -/
theorem Tabled.mem_pairs (h : Tabled c) :
    conaddr ∈ c.pairs ↔ ∃ id, c.connectionsTree conaddr = some id := by
  rw [Client.pairs, List.mem_filterMap]
  constructor
  · rintro ⟨id, hid, hpair⟩
    obtain ⟨con, hcon, htree⟩ := h.listed id hid
    rw [Client.pair, hcon, Option.map_some, Option.some_inj] at hpair
    exact ⟨id, hpair ▸ htree⟩
  · rintro ⟨id, htree⟩
    exact ⟨id, h.tree conaddr id htree, h.pair_of_tree htree⟩

theorem Tabled.length_pairs (h : Tabled c) : c.pairs.length = c.connectionsList.length := by
  refine List.filterMap_length_eq_length.mpr fun id hid => ?_
  obtain ⟨con, hcon, -⟩ := h.listed id hid
  rw [Client.pair, hcon]
  rfl

/-! What the operations do to the tree and the list. -/

theorem Tabled.moveToEnd (h : Tabled c) (hid : id ∈ c.connectionsList) :
    Tabled (c.moveToEnd id) := by
  have hmem : ∀ id', id' ∈ c.connectionsList.erase id ++ [id] ↔ id' ∈ c.connectionsList := by
    intro id'
    rw [List.mem_append, List.mem_singleton, h.nodup.mem_erase_iff]
    constructor
    · rintro (⟨-, hold⟩ | rfl)
      · exact hold
      · exact hid
    · intro hold
      by_cases hne : id' = id
      · exact .inr hne
      · exact .inl ⟨hne, hold⟩
  refine ⟨h.linked.moveToEnd id, ?_, fun id' hid' => h.listed id' ((hmem id').mp hid'),
    fun conaddr id' htree => (hmem id').mpr (h.tree conaddr id' htree), ?_, h.bound, h.room⟩
  · refine List.nodup_append.mpr ⟨h.nodup.erase id, List.nodup_singleton id, ?_⟩
    intro id' hid' b hb
    rw [List.mem_singleton.mp hb]
    exact (h.nodup.mem_erase_iff.mp hid').1
  · show c.numConnections = ((c.connectionsList.erase id ++ [id]).length : Int)
    have hpos := List.length_pos_of_mem hid
    rw [List.length_append, List.length_erase_of_mem hid, List.length_singleton, h.count]
    omega

/-- The connection keeps its place in the list and gets another pair. -/
theorem Tabled.rebind (h : Tabled c) (hid : id ∈ c.connectionsList)
    (hcon : c.connection id = some con) (hnew : c.connectionsTree conaddr = none) :
    Tabled (c.rebind id con conaddr) := by
  obtain ⟨con', hcon', hown⟩ := h.listed id hid
  obtain rfl : con = con' := Option.some.inj (hcon.symm.trans hcon')
  refine ⟨h.linked.rebind hcon, h.nodup, fun id' hid' => ?_, fun conaddr' id' htree => ?_, h.count,
    h.bound, h.room⟩
  · simp only [Client.rebind]
    by_cases heq : id' = id
    · subst heq
      exact ⟨_, Function.update_self _ _ _, Function.update_self _ _ _⟩
    · obtain ⟨con', hcon', htree⟩ := h.listed id' hid'
      -- the other connection is neither under the new pair nor under the old one
      have hne : con'.conaddr ≠ conaddr := by
        intro hsame
        rw [hsame, hnew] at htree
        exact absurd htree (by simp)
      have hne' : con'.conaddr ≠ con.conaddr := by
        intro hsame
        rw [hsame, hown] at htree
        exact heq (Option.some.inj htree).symm
      refine ⟨con', by rw [Function.update_of_ne heq, hcon'], ?_⟩
      rw [Function.update_of_ne hne, Function.update_of_ne hne', htree]
  · simp only [Client.rebind] at htree ⊢
    by_cases hself : conaddr' = conaddr
    · rw [hself, Function.update_self, Option.some_inj] at htree
      exact htree ▸ hid
    · rw [Function.update_of_ne hself] at htree
      by_cases hold : conaddr' = con.conaddr
      · rw [hold, Function.update_self] at htree
        exact absurd htree (by simp)
      · rw [Function.update_of_ne hold] at htree
        exact h.tree conaddr' id' htree

/-- The next connection is not in the list yet. -/
theorem Tabled.fresh_not_mem (h : Tabled c) : c.fresh ∉ c.connectionsList := by
  intro hid
  obtain ⟨con, hcon, -⟩ := h.listed _ hid
  exact absurd (h.linked.fresh _ (Nat.le_refl _)) (by simp [hcon])

theorem Tabled.insertConnection (h : Tabled c) (hnew : c.connectionsTree conaddr = none)
    (hroom : c.numConnections ≠ c.maxConnections) : Tabled (c.insertConnection conaddr) := by
  have hfresh := h.fresh_not_mem
  refine ⟨h.linked.insertConnection, ?_, fun id' hid' => ?_, fun conaddr' id' htree => ?_, ?_, ?_,
    h.room⟩
  · refine List.nodup_append.mpr ⟨h.nodup, List.nodup_singleton _, ?_⟩
    intro id' hid' b hb
    rw [List.mem_singleton.mp hb]
    rintro rfl
    exact hfresh hid'
  · simp only [Client.insertConnection] at hid' ⊢
    rcases List.mem_append.mp hid' with hid' | hid'
    · obtain ⟨con', hcon', htree⟩ := h.listed id' hid'
      have hne : id' ≠ c.fresh := by
        rintro rfl
        exact hfresh hid'
      have hne' : con'.conaddr ≠ conaddr := by
        intro hsame
        rw [hsame, hnew] at htree
        exact absurd htree (by simp)
      exact ⟨con', by rw [Function.update_of_ne hne, hcon'],
        by rw [Function.update_of_ne hne', htree]⟩
    · rw [List.mem_singleton.mp hid']
      exact ⟨_, Function.update_self _ _ _, Function.update_self _ _ _⟩
  · simp only [Client.insertConnection] at htree ⊢
    by_cases hself : conaddr' = conaddr
    · rw [hself, Function.update_self, Option.some_inj] at htree
      exact List.mem_append_right _ (List.mem_singleton.mpr htree.symm)
    · rw [Function.update_of_ne hself] at htree
      exact List.mem_append_left _ (h.tree conaddr' id' htree)
  · show c.numConnections + 1 = ((c.connectionsList ++ [c.fresh]).length : Int)
    rw [List.length_append, List.length_singleton, h.count]
    omega
  · show c.numConnections + 1 ≤ c.maxConnections
    have hbound := h.bound
    omega

/-- **Step.**  A submission keeps tree, list and counter together. -/
theorem Acquired.tabled {id? : Option Nat} (h : Acquired c conaddr c' id?) (ht : Tabled c) :
    Tabled c' := by
  cases h with
  | found htree => exact ht.moveToEnd (ht.tree _ _ htree)
  | reused htree _ hhead hcon =>
    have hid := List.mem_of_mem_head? hhead
    exact (ht.rebind hid hcon htree).moveToEnd hid
  | opened htree hroom => exact ht.insertConnection htree hroom
  | failed _ _ => exact ht

/-! ### Pairs -/

/-- A change at one connection does not change the pairs of the others. -/
theorem filterMap_pair_of_ne {ids : List Nat} (hsame : ∀ i, i ≠ id → c'.pair i = c.pair i)
    (h : id ∉ ids) : ids.filterMap c'.pair = ids.filterMap c.pair := by
  refine List.filterMap_congr fun i hi => hsame i ?_
  rintro rfl
  exact h hi

theorem pairs_found (h : Tabled c) (hnodup : c.pairs.Nodup)
    (htree : c.connectionsTree conaddr = some id) :
    (c.moveToEnd id).pairs = c.pairs.erase conaddr ++ [conaddr] := by
  obtain ⟨l, r, hlist⟩ := List.append_of_mem (h.tree conaddr id htree)
  have hpair := h.pair_of_tree htree
  have hpairs : c.pairs = l.filterMap c.pair ++ conaddr :: r.filterMap c.pair := by
    rw [Client.pairs, hlist, List.filterMap_append, List.filterMap_cons_some hpair]
  have hid : id ∉ l := by
    have hids := h.nodup
    rw [hlist] at hids
    exact fun hmem => (List.nodup_append.mp hids).2.2 id hmem id List.mem_cons_self rfl
  have hfront : conaddr ∉ l.filterMap c.pair := by
    rw [hpairs] at hnodup
    exact fun hmem => (List.nodup_append.mp hnodup).2.2 _ hmem _ List.mem_cons_self rfl
  show (c.connectionsList.erase id ++ [id]).filterMap c.pair = _
  rw [hpairs, hlist, List.erase_append_right _ hid, List.erase_append_right _ hfront,
    List.erase_cons_head, List.erase_cons_head, List.filterMap_append, List.filterMap_append,
    List.filterMap_cons_some hpair, List.filterMap_nil]

theorem pairs_reused (h : Tabled c) (hhead : c.connectionsList.head? = some id)
    (hcon : c.connection id = some con) :
    ((c.rebind id con conaddr).moveToEnd id).pairs = c.pairs.tail ++ [conaddr] := by
  obtain ⟨rest, hlist⟩ := List.head?_eq_some_iff.mp hhead
  have hrest : id ∉ rest := by
    have hids := h.nodup
    rw [hlist] at hids
    exact (List.nodup_cons.mp hids).1
  have hpair : c.pair id = some con.conaddr := by
    rw [Client.pair, hcon]
    rfl
  have hpair' : (c.rebind id con conaddr).pair id = some conaddr := by
    simp only [Client.pair, Client.rebind, Function.update_self, Option.map_some]
  have hothers : ∀ i, i ≠ id → (c.rebind id con conaddr).pair i = c.pair i := by
    intro i hne
    simp only [Client.pair, Client.rebind, Function.update_of_ne hne]
  show (c.connectionsList.erase id ++ [id]).filterMap (c.rebind id con conaddr).pair = _
  rw [Client.pairs, hlist, List.erase_cons_head, List.filterMap_append,
    filterMap_pair_of_ne hothers hrest, List.filterMap_cons_some hpair', List.filterMap_nil,
    List.filterMap_cons_some hpair, List.tail_cons]

theorem pairs_opened (h : Tabled c) :
    (c.insertConnection conaddr).pairs = c.pairs ++ [conaddr] := by
  have hpair : (c.insertConnection conaddr).pair c.fresh = some conaddr := by
    simp only [Client.pair, Client.insertConnection, Function.update_self, Option.map_some]
  have hothers : ∀ i, i ≠ c.fresh → (c.insertConnection conaddr).pair i = c.pair i := by
    intro i hne
    simp only [Client.pair, Client.insertConnection, Function.update_of_ne hne]
  show (c.connectionsList ++ [c.fresh]).filterMap (c.insertConnection conaddr).pair = _
  rw [List.filterMap_append, filterMap_pair_of_ne hothers h.fresh_not_mem,
    List.filterMap_cons_some hpair, List.filterMap_nil]
  rfl

/-- **A submission is a use of its pair**, unless no connection can be made for it. -/
theorem acquired_pairs {id? : Option Nat} (h : Acquired c conaddr c' id?) (ht : Tabled c)
    (hnodup : c.pairs.Nodup) :
    c'.pairs = touch c.maxConnections.toNat c.pairs conaddr ∨ c' = c ∧ conaddr ∉ c.pairs := by
  have hcount := ht.count
  have hroom := ht.room
  have hlength := ht.length_pairs
  have hnone : c.connectionsTree conaddr = none → conaddr ∉ c.pairs := by
    intro hnone hmem
    obtain ⟨id, htree⟩ := ht.mem_pairs.mp hmem
    exact absurd (hnone.symm.trans htree) (by simp)
  unfold touch
  cases h with
  | found htree =>
    left
    rw [if_pos (ht.mem_pairs.mpr ⟨_, htree⟩)]
    exact pairs_found ht hnodup htree
  | reused htree hfull hhead hcon =>
    left
    rw [if_neg (hnone htree), if_pos (by omega)]
    exact pairs_reused ht hhead hcon
  | opened htree hroom =>
    left
    rw [if_neg (hnone htree), if_neg (by omega)]
    exact pairs_opened ht
  | failed htree _ => exact .inr ⟨rfl, hnone htree⟩

theorem Acquired.maxConnections {id? : Option Nat} (h : Acquired c conaddr c' id?) :
    c'.maxConnections = c.maxConnections := by
  cases h <;> rfl

end Tabled

/-! ### Sequences of submissions -/

/-- A call of `SocksUdpGwClient_SubmitPacket`, with what the platform decides in it. -/
structure Submission where
  conaddr : Conaddr
  data : List UInt8
  env : Env
  deriving DecidableEq

def Client.submit (c : Client) (call : Submission) : Option Client :=
  (c.submitPacket call.conaddr call.data call.env).map Prod.fst

/-- The client as a map that drops the pair whose last submission is the oldest. -/
structure LruMap (c : Client) (submitted : List Conaddr) : Prop where
  length : c.numConnections = c.connectionsList.length
  size : c.numConnections = Set.ncard { conaddr | c.connectionsTree conaddr ≠ none }
  bound : c.numConnections ≤ c.maxConnections
  same : ∀ conaddr id, c.connectionsTree conaddr = some id ↔
    id ∈ c.connectionsList ∧ ∃ con, c.connection id = some con ∧ con.conaddr = conaddr
  distinct : c.pairs.Nodup
  order : c.pairs.Pairwise fun pair pair' => age submitted pair' < age submitted pair
  evicts : ∀ call c', c.submit call = some c' → ∀ pair ∈ c.pairs, pair ∉ c'.pairs →
    (c.pairs.length : Int) = c.maxConnections ∧
      ∀ pair' ∈ c.pairs, age submitted pair' ≤ age submitted pair

section Runs

variable {c c' : Client} {submitted : List Conaddr} {call : Submission}

theorem submit_acquired (h : c.submit call = some c') :
    ∃ id?, Acquired c call.conaddr c' id? := by
  obtain ⟨⟨c'', packet?⟩, hsubmit, rfl⟩ := Option.map_eq_some_iff.mp h
  obtain ⟨id?, hacq, -⟩ := submit_cases hsubmit
  exact ⟨id?, hacq⟩

/-- A client with room for one connection is never stuck. -/
theorem exists_submit (h : Tabled c) (call : Submission) : ∃ c', c.submit call = some c' := by
  have hacquire : ∃ res, c.acquire call.conaddr call.env.initOk = some res := by
    unfold Client.acquire
    split
    · exact ⟨_, rfl⟩
    · split
      · rename_i hfull
        -- the list is not empty, so there is a connection to reuse
        have hcount := h.count
        have hroom := h.room
        cases hlist : c.connectionsList with
        | nil =>
          rw [hlist, List.length_nil] at hcount
          omega
        | cons id rest =>
          obtain ⟨con, hcon, -⟩ := h.listed id (hlist ▸ List.mem_cons_self)
          simp only [Client.reuseConnection, hlist, List.head?_cons, hcon, Option.map_some]
          exact ⟨_, rfl⟩
      · split
        · exact ⟨_, rfl⟩
        · exact ⟨_, rfl⟩
  obtain ⟨res, hres⟩ := hacquire
  rw [Client.submit, Client.submitPacket, hres]
  exact ⟨_, rfl⟩

/-- **Step.**  Every submission is made, and keeps the bound and the pairs in order. -/
theorem exists_submit_ordered (h : Tabled c) (hord : Ordered submitted c.pairs)
    (call : Submission) :
    ∃ c', c.submit call = some c' ∧ c'.maxConnections = c.maxConnections ∧ Tabled c' ∧
      Ordered (submitted ++ [call.conaddr]) c'.pairs := by
  obtain ⟨c', hsubmit⟩ := exists_submit h call
  obtain ⟨id?, hacq⟩ := submit_acquired hsubmit
  refine ⟨c', hsubmit, hacq.maxConnections, hacq.tabled h, ?_⟩
  rcases acquired_pairs hacq h hord.nodup with hpairs | ⟨rfl, hnew⟩
  · rw [hpairs]
    exact hord.touch _ _
  · exact hord.skip hnew

theorem Tabled.ncard_tree (h : Tabled c) (hnodup : c.pairs.Nodup) :
    Set.ncard { conaddr | c.connectionsTree conaddr ≠ none } = c.pairs.length := by
  have hset :
      { conaddr | c.connectionsTree conaddr ≠ none } = (c.pairs.toFinset : Set Conaddr) := by
    ext conaddr
    rw [Set.mem_ofPred_eq, Option.ne_none_iff_exists', List.coe_toFinset, Set.mem_ofPred_eq,
      h.mem_pairs]
  rw [hset, Set.ncard_coe_finset, List.toFinset_card_of_nodup hnodup]

theorem lruMap_of_tabled (h : Tabled c) (hord : Ordered submitted c.pairs) :
    LruMap c submitted := by
  have hlength := h.length_pairs
  refine ⟨h.count, ?_, h.bound, fun conaddr id => ⟨fun htree => ?_, ?_⟩, hord.nodup, hord.later,
    fun call c' hsubmit pair hheld hgone => ?_⟩
  · rw [h.ncard_tree hord.nodup, hlength]
    exact h.count
  · exact ⟨h.tree conaddr id htree, h.linked.tree conaddr id htree⟩
  · rintro ⟨hid, con, hcon, rfl⟩
    obtain ⟨con', hcon', htree⟩ := h.listed id hid
    rw [hcon, Option.some_inj] at hcon'
    exact hcon' ▸ htree
  · obtain ⟨id?, hacq⟩ := submit_acquired hsubmit
    rcases acquired_pairs hacq h hord.nodup with hpairs | ⟨rfl, -⟩
    · rw [hpairs] at hgone
      obtain ⟨hfull, holdest⟩ := evicted_of_touch hord hheld hgone
      refine ⟨?_, holdest⟩
      have hroom := h.room
      omega
    · exact absurd hheld hgone

/-- What holds of the client behind the calls `before`. -/
def Behind (maxConnections : Int) (before : List Submission) (c : Client) : Prop :=
  c.maxConnections = min maxConnections 65536 ∧ Tabled c ∧
    Ordered (before.map Submission.conaddr) c.pairs

theorem behind_init (udpMtu : Int) {maxConnections : Int} (hmax : 1 ≤ maxConnections) :
    Behind maxConnections [] (Client.init udpMtu maxConnections) := by
  refine ⟨?_, tabled_init udpMtu hmax, ordered_nil⟩
  simp only [Client.init]
  split <;> omega

/-- **The connections are a bounded map that drops the least recently submitted pair**, behind
every sequence of submissions. -/
theorem lru_map (udpMtu : Int) {maxConnections : Int} (hmax : 1 ≤ maxConnections)
    (calls : List Submission) :
    ∃ c, run Client.submit (Client.init udpMtu maxConnections) calls = some c ∧
      c.maxConnections = min maxConnections 65536 ∧ LruMap c (calls.map Submission.conaddr) := by
  have hstep : ∀ before c call, Behind maxConnections before c →
      ∃ c', c.submit call = some c' ∧ Behind maxConnections (before ++ [call]) c' := by
    rintro before c call ⟨hbound, htabled, hord⟩
    obtain ⟨c', hsubmit, hsame, htabled', hord'⟩ := exists_submit_ordered htabled hord call
    refine ⟨c', hsubmit, hsame.trans hbound, htabled', ?_⟩
    rw [List.map_append]
    exact hord'
  obtain ⟨c, hrun, hbound, htabled, hord⟩ :=
    exists_run_after hstep calls (behind_init udpMtu hmax)
  exact ⟨c, hrun, hbound, lruMap_of_tabled htabled hord⟩

/-- Two pairs in turn on a client with room for one: the first makes room for the second. -/
def twoPairs : List Submission :=
  [⟨samplePair, [1], ⟨true, true⟩⟩,
    ⟨⟨samplePair.remoteAddr, samplePair.localAddr⟩, [2], ⟨true, true⟩⟩]

theorem lru_map_two_pairs :
    (run Client.submit (Client.init 1472 1) twoPairs).map Client.pairs =
        some [⟨samplePair.remoteAddr, samplePair.localAddr⟩] ∧
      ∃ c, run Client.submit (Client.init 1472 1) twoPairs = some c ∧
        c.maxConnections = 1 ∧ LruMap c (twoPairs.map Submission.conaddr) :=
  ⟨by decide, lru_map 1472 (by decide) twoPairs⟩

end Runs

end UdpRelay
