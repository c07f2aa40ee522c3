/-
The routes of the VPN.

`routes` is the part of `startVpn` that calls `builder.addRoute`.  Traffic to a
covered address enters the tunnel; the connection to the server itself must not.
Below Lollipop the code leaves out the blocks that contain the server, going by
`SubnetUtils.isInRange`, which is not part of this repository and enters as a
parameter with its documented behaviour (`UsableRange`).

* `covered_byOctets` — which addresses the two-level loop covers;
* `no_loop_iff` — the server is covered by no route exactly if it is outside
  `8.8.0.0/16` and is not the first or last address of a block that the code
  would have to leave out;
* `routing_loop` — a server at `8.8.4.4`, and one at `203.1.0.0`.
-/
import ReShadowsocks.Cidr
import ReShadowsocks.Config

namespace Routes

open Cidr

/-- What `config.proxy` names once it is resolved. -/
inductive Server
  | ipv4 (addr : BitVec 32)
  | ipv6
  deriving DecidableEq, Repr

/-- What the code relies on: `isInRange` holds of the usable addresses of a
block, which excludes its network and its broadcast address. -/
def UsableRange (isInRange : Block 32 → BitVec 32 → Bool) : Prop :=
  ∀ net p, isInRange net p = true ↔ net.contains p ∧ p ≠ net.first ∧ p ≠ net.last

def isPrivateA (a : Nat) : Bool := a == 10 || a == 192 || a == 172

def isPrivateB (a b : Nat) : Bool :=
  a == 10 || (a == 192 && b == 168) || (a == 172 && decide (16 ≤ b) && decide (b < 32))

/-- The loop of the modes `ALL` and `BYPASS_LAN`: a route for the whole of
`i.0.0.0/8`, or else one for each of its `/16` blocks that is not left out. -/
def byOctets (isByass : Block 32 → Bool) (isPrivateA : Nat → Bool)
    (isPrivateB : Nat → Nat → Bool) : List (Block 32) :=
  (List.range' 1 223).flatMap fun i =>
    if i != 26 && i != 127 then
      if !isByass (slash8 i) && !isPrivateA i then [slash8 i]
      else (List.range 256).flatMap fun j =>
        if !isByass (slash16 i j) && !isPrivateB i j then [slash16 i j] else []
    else []

/-- The routes that `startVpn` adds.  `list` is the array `simple_route` or
`gfw_route`, `privateList` the array `bypass_private_route`. -/
def routes (isInRange : Block 32 → BitVec 32 → Bool) (isLollipopOrAbove : Bool)
    (list privateList : List (Block 32)) (server : Server) (route : Route) : List (Block 32) :=
  (match server with
    | .ipv6 => [⟨ipv4 0 0 0 0, 0, by omega⟩]
    | .ipv4 proxy =>
      let isByass net := isInRange net proxy
      if !isLollipopOrAbove then
        match route with
        | .bypassLan => byOctets isByass isPrivateA isPrivateB
        | .bypassChn => list.filter fun net => !isByass net
        | .all => byOctets isByass (fun _ => false) fun _ _ => false
      else if route = .all then [⟨ipv4 0 0 0 0, 0, by omega⟩]
      else privateList) ++
    -- added for every server and every mode
    [slash16 8 8]

/-- Some route covers `p`. -/
def Covered (rs : List (Block 32)) (p : BitVec 32) : Prop := ∃ r ∈ rs, r.contains p

instance (rs : List (Block 32)) (p : BitVec 32) : Decidable (Covered rs p) :=
  inferInstanceAs (Decidable (∃ r ∈ rs, r.contains p))

theorem covered_append {rs rs' : List (Block 32)} {p : BitVec 32} :
    Covered (rs ++ rs') p ↔ Covered rs p ∨ Covered rs' p := by
  simp [Covered, or_and_right, exists_or]

/-! ### The loop over octets -/

/-- First octets for which routes are added at all. -/
def Routed (a : Nat) : Prop := 1 ≤ a ∧ a ≤ 223 ∧ a ≠ 26 ∧ a ≠ 127

instance (a : Nat) : Decidable (Routed a) := inferInstanceAs (Decidable (_ ∧ _))

theorem mem_byOctets {isByass : Block 32 → Bool} {privA : Nat → Bool}
    {privB : Nat → Nat → Bool} {r : Block 32} :
    r ∈ byOctets isByass privA privB ↔ ∃ i, Routed i ∧
      if isByass (slash8 i) = false ∧ privA i = false then r = slash8 i
      else ∃ j, j < 256 ∧ isByass (slash16 i j) = false ∧ privB i j = false ∧ r = slash16 i j := by
  rw [byOctets, List.mem_flatMap]
  refine exists_congr fun i => ?_
  have hrange : i ∈ List.range' 1 223 ↔ 1 ≤ i ∧ i ≤ 223 := by
    rw [List.mem_range'_1]
    omega
  rw [hrange, Routed]
  by_cases hi : i = 26 ∨ i = 127
  · have hno : (i != 26 && i != 127) = false := by rcases hi with rfl | rfl <;> rfl
    rw [hno]
    simp only [Bool.false_eq_true, if_false, List.not_mem_nil, and_false, false_iff]
    rintro ⟨⟨-, -, h26, h127⟩, -⟩
    exact hi.elim h26 h127
  · rw [not_or] at hi
    have hyes : (i != 26 && i != 127) = true := by simp [hi.1, hi.2]
    rw [hyes, if_pos rfl]
    by_cases hA : isByass (slash8 i) = false ∧ privA i = false
    · rw [if_pos hA, if_pos (by simp [hA.1, hA.2]), List.mem_singleton]
      exact ⟨fun h => ⟨⟨h.1.1, h.1.2, hi.1, hi.2⟩, h.2⟩, fun h => ⟨⟨h.1.1, h.1.2.1⟩, h.2⟩⟩
    · have hA' : (!isByass (slash8 i) && !privA i) = false := by
        rw [Bool.eq_false_iff]
        simpa using hA
      rw [if_neg hA, hA', if_neg Bool.false_ne_true, List.mem_flatMap]
      have hinner : (∃ j ∈ List.range 256, r ∈
          if (!isByass (slash16 i j) && !privB i j) = true then [slash16 i j] else []) ↔
          ∃ j, j < 256 ∧ isByass (slash16 i j) = false ∧ privB i j = false ∧
            r = slash16 i j := by
        refine exists_congr fun j => ?_
        rw [List.mem_range]
        by_cases hB : isByass (slash16 i j) = false ∧ privB i j = false
        · simp [hB.1, hB.2]
        · have hB' : ¬ (!isByass (slash16 i j) && !privB i j) = true := by simpa using hB
          rw [if_neg hB']
          constructor
          · rintro ⟨-, h⟩
            exact absurd h List.not_mem_nil
          · rintro ⟨-, hb, hp, -⟩
            exact absurd ⟨hb, hp⟩ hB
      rw [hinner]
      exact ⟨fun h => ⟨⟨h.1.1, h.1.2, hi.1, hi.2⟩, h.2⟩, fun h => ⟨⟨h.1.1, h.1.2.1⟩, h.2⟩⟩

/-- **What the loop covers**, by the two leading octets of the address. -/
theorem covered_byOctets {isByass : Block 32 → Bool} {privA : Nat → Bool}
    {privB : Nat → Nat → Bool} {p : BitVec 32} :
    Covered (byOctets isByass privA privB) p ↔ Routed (octet1 p) ∧
      ((isByass (slash8 (octet1 p)) = false ∧ privA (octet1 p) = false) ∨
        (isByass (slash16 (octet1 p) (octet2 p)) = false ∧
          privB (octet1 p) (octet2 p) = false)) := by
  constructor
  · rintro ⟨r, hr, hp⟩
    obtain ⟨i, hi, hr⟩ := mem_byOctets.mp hr
    have hlt : i < 256 := by
      have hle := hi.2.1
      omega
    split at hr
    · rename_i hA
      subst hr
      rw [slash8_contains hlt] at hp
      rw [hp]
      exact ⟨hi, .inl hA⟩
    · obtain ⟨j, hj, hbyass, hpriv, rfl⟩ := hr
      obtain ⟨h1, h2⟩ := (slash16_contains hlt hj).mp hp
      rw [h1, h2]
      exact ⟨hi, .inr ⟨hbyass, hpriv⟩⟩
  · rintro ⟨hi, hkept⟩
    by_cases hA : isByass (slash8 (octet1 p)) = false ∧ privA (octet1 p) = false
    · refine ⟨slash8 (octet1 p), mem_byOctets.mpr ⟨octet1 p, hi, ?_⟩, ?_⟩
      · rw [if_pos hA]
      · exact (slash8_contains (octet1_lt p)).mpr rfl
    · obtain ⟨hbyass, hpriv⟩ := hkept.resolve_left hA
      refine ⟨slash16 (octet1 p) (octet2 p), mem_byOctets.mpr ⟨octet1 p, hi, ?_⟩, ?_⟩
      · rw [if_neg hA]
        exact ⟨octet2 p, octet2_lt p, hbyass, hpriv, rfl⟩
      · exact (slash16_contains (octet1_lt p) (octet2_lt p)).mpr ⟨rfl, rfl⟩

/-! ### Routing loops -/

/-- The address ends in `.0.0` or in `.255.255`. -/
def AtEnd (p : BitVec 32) : Prop := p.toNat % 2 ^ 16 = 0 ∨ p.toNat % 2 ^ 16 = 2 ^ 16 - 1

instance (p : BitVec 32) : Decidable (AtEnd p) := inferInstanceAs (Decidable (_ ∨ _))

section Loop

variable {isInRange : Block 32 → BitVec 32 → Bool} {p : BitVec 32}

/-- In its own block, `isInRange` misses the two ends. -/
theorem isInRange_eq_false (hrange : UsableRange isInRange) {net : Block 32}
    (hp : net.contains p) :
    isInRange net p = false ↔ p.toNat % net.size = 0 ∨ p.toNat % net.size = net.size - 1 := by
  obtain ⟨hfirst, hlast⟩ := net.ends_of_contains hp
  rw [Bool.eq_false_iff, Ne, hrange net p, ← hfirst, ← hlast]
  tauto

/-- The server falls into a route of the loop at the ends of its `/16` block,
unless that block is left out as a private one. -/
theorem server_covered (hrange : UsableRange isInRange) {privA : Nat → Bool}
    {privB : Nat → Nat → Bool} (hpriv : ∀ a b, privB a b = true → privA a = true) :
    Covered (byOctets (fun net => isInRange net p) privA privB) p ↔
      Routed (octet1 p) ∧ AtEnd p ∧ privB (octet1 p) (octet2 p) = false := by
  have h8 : (slash8 (octet1 p)).contains p := (slash8_contains (octet1_lt p)).mpr rfl
  have h16 : (slash16 (octet1 p) (octet2 p)).contains p :=
    (slash16_contains (octet1_lt p) (octet2_lt p)).mpr ⟨rfl, rfl⟩
  rw [covered_byOctets, isInRange_eq_false hrange h8, isInRange_eq_false hrange h16, size_slash8,
    size_slash16, AtEnd]
  refine and_congr_right fun _ => ?_
  constructor
  · rintro (⟨hend, hA⟩ | h)
    · -- an end of the `/8` block is an end of a `/16` block
      refine ⟨by omega, ?_⟩
      by_contra hB
      rw [hpriv _ _ (by simpa using hB)] at hA
      exact absurd hA (by simp)
    · exact h
  · exact .inr

/-- What the route to the resolver covers. -/
theorem covered_dns : Covered [slash16 8 8] p ↔ octet1 p = 8 ∧ octet2 p = 8 := by
  rw [Covered, ← slash16_contains (by omega) (by omega)]
  simp

theorem isPrivateA_of_isPrivateB (a b : Nat) (h : isPrivateB a b = true) : isPrivateA a = true := by
  simp only [isPrivateB, isPrivateA, Bool.or_eq_true, Bool.and_eq_true] at h ⊢
  tauto

/-- The server is the first or the last address of a block that is left out for
its sake; in mode `ALL` and `BYPASS_LAN` the blocks are the `/16` ones. -/
def AtEdge (list : List (Block 32)) (p : BitVec 32) : Route → Prop
  | .all => Routed (octet1 p) ∧ AtEnd p
  | .bypassLan => Routed (octet1 p) ∧ AtEnd p ∧ isPrivateB (octet1 p) (octet2 p) = false
  | .bypassChn => ∃ net ∈ list, net.contains p ∧ (p = net.first ∨ p = net.last)

/-- **No routing loop** exactly if the server is outside `8.8.0.0/16` and at no
edge of a block that is left out. -/
theorem no_loop_iff (hrange : UsableRange isInRange) (list privateList : List (Block 32))
    (proxy : BitVec 32) (route : Route) :
    ¬ Covered (routes isInRange false list privateList (.ipv4 proxy) route) proxy ↔
      ¬ (octet1 proxy = 8 ∧ octet2 proxy = 8) ∧ ¬ AtEdge list proxy route := by
  rw [routes, covered_append, covered_dns, not_or, and_comm]
  refine and_congr_right fun _ => not_congr ?_
  simp only [Bool.not_false, if_true]
  cases route with
  | all =>
    show Covered (byOctets (fun net => isInRange net proxy) _ _) proxy ↔ _
    rw [server_covered hrange (fun _ _ h => h)]
    simp [AtEdge]
  | bypassLan => exact server_covered hrange isPrivateA_of_isPrivateB
  | bypassChn =>
    constructor
    · rintro ⟨net, hnet, hp⟩
      obtain ⟨hmem, hbyass⟩ := List.mem_filter.mp hnet
      refine ⟨net, hmem, hp, ?_⟩
      obtain ⟨hfirst, hlast⟩ := net.ends_of_contains hp
      rw [hfirst, hlast]
      exact (isInRange_eq_false hrange hp).mp (by simpa using hbyass)
    · rintro ⟨net, hmem, hp, hend⟩
      obtain ⟨hfirst, hlast⟩ := net.ends_of_contains hp
      rw [hfirst, hlast] at hend
      refine ⟨net, List.mem_filter.mpr ⟨hmem, ?_⟩, hp⟩
      rw [(isInRange_eq_false hrange hp).mpr hend]
      rfl

end Loop

/-- The usable addresses of a block, for concrete runs. -/
def usable (net : Block 32) (p : BitVec 32) : Bool :=
  decide (net.contains p ∧ p ≠ net.first ∧ p ≠ net.last)

theorem no_loop_iff_usable :
    ¬ Covered (routes usable false [] [] (.ipv4 (ipv4 203 0 113 7)) .all) (ipv4 203 0 113 7) := by
  refine (no_loop_iff (fun net p => decide_eq_true_iff) [] [] (ipv4 203 0 113 7) .all).mpr ⟨?_, ?_⟩
  · decide
  · rintro ⟨-, hend⟩
    exact absurd hend (by decide)

/-- **Routing loops**: a server in `8.8.0.0/16`, and one at the start of a `/16`
block. -/
theorem routing_loop :
    Covered (routes usable false [] [] (.ipv4 (ipv4 8 8 4 4)) .bypassLan) (ipv4 8 8 4 4) ∧
      Covered (routes usable false [] [] (.ipv4 (ipv4 203 1 0 0)) .all) (ipv4 203 1 0 0) := by
  constructor
  · exact covered_append.mpr (.inr ⟨slash16 8 8, by simp, by decide⟩)
  · refine covered_append.mpr (.inl ⟨slash16 203 1, ?_, by decide⟩)
    show _ ∈ byOctets (fun net => usable net (ipv4 203 1 0 0)) (fun _ => false) fun _ _ => false
    refine mem_byOctets.mpr ⟨203, by decide, ?_⟩
    rw [if_neg (by decide)]
    exact ⟨1, by decide, by decide, rfl, rfl⟩

end Routes
