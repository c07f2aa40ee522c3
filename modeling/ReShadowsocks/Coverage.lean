/-
Which addresses the VPN covers.

Below Lollipop `startVpn` adds the routes one by one; `coverage` compares the modes
`ALL` and `BYPASS_LAN`.  From Lollipop on it adds a fixed table, and
`startShadowsocksDaemon` writes another one as the access control list of `ss-local`,
for what is to go past the server; `split_once` says that the two share out
the addresses.  The tables are the string arrays of `arrays.xml`.

* `isInRange_slash8_of_slash16` — a server that is usable in a `/16` block is usable
  in the `/8` block around it;
* `isPrivateB_iff` — the private addresses, as the loop tells them.
-/
import Mathlib.Data.List.Sort
import ReShadowsocks.Routes

namespace Routes

open Cidr

/-! ### Below Lollipop -/

/-- The private networks, as the loop tells them. -/
theorem isPrivateB_iff (p : BitVec 32) :
    isPrivateB (octet1 p) (octet2 p) = true ↔ (slash8 10).contains p ∨
      (cidr 172 16 0 0 12).contains p ∨ (slash16 192 168).contains p := by
  have h12 : (cidr 172 16 0 0 12).contains p ↔
      octet1 p = 172 ∧ 16 ≤ octet2 p ∧ octet2 p < 32 := by
    have hsize : (cidr 172 16 0 0 12).size = 2 ^ 20 := rfl
    rw [Block.contains, hsize, octet1, octet2, cidr, ipv4, BitVec.toNat_ofNat]
    omega
  rw [h12, slash8_contains (by omega), slash16_contains (by omega) (by omega)]
  simp only [isPrivateB, Bool.or_eq_true, Bool.and_eq_true, beq_iff_eq, decide_eq_true_eq]
  tauto

section Coverage

variable {isInRange : Block 32 → BitVec 32 → Bool} {p proxy : BitVec 32}

theorem isInRange_slash8_of_slash16 (hrange : UsableRange isInRange) {a b : Nat} (ha : a < 256)
    (hb : b < 256) (h : isInRange (slash8 a) proxy = false) :
    isInRange (slash16 a b) proxy = false := by
  by_cases h16 : (slash16 a b).contains proxy
  · have h8 : (slash8 a).contains proxy :=
      (slash8_contains ha).mpr ((slash16_contains ha hb).mp h16).1
    -- the two ends of the `/8` block are ends of `/16` blocks
    rw [isInRange_eq_false hrange h8, size_slash8] at h
    rw [isInRange_eq_false hrange h16, size_slash16]
    omega
  · rw [Bool.eq_false_iff, Ne, hrange]
    exact fun hin => h16 hin.1

theorem isInRange_eq_false_of_not_contains (hrange : UsableRange isInRange) {net : Block 32}
    (h : ¬ net.contains proxy) : isInRange net proxy = false := by
  rw [Bool.eq_false_iff, Ne, hrange]
  exact fun hin => h hin.1

/-- What is covered in mode `ALL`. -/
theorem covered_all (hrange : UsableRange isInRange) (list privateList : List (Block 32)) :
    Covered (routes isInRange false list privateList (.ipv4 proxy) .all) p ↔
      (Routed (octet1 p) ∧ isInRange (slash16 (octet1 p) (octet2 p)) proxy = false) ∨
        octet1 p = 8 ∧ octet2 p = 8 := by
  rw [routes, covered_append, covered_dns]
  refine or_congr ?_ Iff.rfl
  show Covered (byOctets (fun net => isInRange net proxy) _ _) p ↔ _
  rw [covered_byOctets]
  refine and_congr_right fun _ => ?_
  simp only [and_true]
  constructor
  · rintro (h8 | h16)
    · exact isInRange_slash8_of_slash16 hrange (octet1_lt p) (octet2_lt p) h8
    · exact h16
  · exact .inr

/-- What is covered in mode `BYPASS_LAN`. -/
theorem covered_bypassLan (hrange : UsableRange isInRange) (list privateList : List (Block 32)) :
    Covered (routes isInRange false list privateList (.ipv4 proxy) .bypassLan) p ↔
      (Routed (octet1 p) ∧ isInRange (slash16 (octet1 p) (octet2 p)) proxy = false ∧
        isPrivateB (octet1 p) (octet2 p) = false) ∨ octet1 p = 8 ∧ octet2 p = 8 := by
  rw [routes, covered_append, covered_dns]
  refine or_congr ?_ Iff.rfl
  show Covered (byOctets (fun net => isInRange net proxy) isPrivateA isPrivateB) p ↔ _
  rw [covered_byOctets]
  refine and_congr_right fun _ => ?_
  constructor
  · rintro (⟨h8, hA⟩ | h16)
    · refine ⟨isInRange_slash8_of_slash16 hrange (octet1_lt p) (octet2_lt p) h8, ?_⟩
      by_contra hB
      rw [isPrivateA_of_isPrivateB _ _ (by simpa using hB)] at hA
      exact absurd hA (by simp)
    · exact h16
  · exact .inr

/-- **Exact coverage.**  In mode `ALL` everything with a routed first octet is covered, the
server's own `/16` block aside, and nothing else; `BYPASS_LAN` takes the private networks
out of that. -/
theorem coverage (hrange : UsableRange isInRange) (list privateList : List (Block 32))
    (proxy : BitVec 32) :
    (∀ p, (1 ≤ octet1 p ∧ octet1 p ≤ 223 ∧ octet1 p ≠ 26 ∧ octet1 p ≠ 127) →
      ¬ (slash16 (octet1 proxy) (octet2 proxy)).contains p →
        Covered (routes isInRange false list privateList (.ipv4 proxy) .all) p) ∧
    (∀ p, (octet1 p = 0 ∨ octet1 p = 26 ∨ octet1 p = 127 ∨ 224 ≤ octet1 p) →
      ¬ Covered (routes isInRange false list privateList (.ipv4 proxy) .all) p) ∧
    ∀ p, Covered (routes isInRange false list privateList (.ipv4 proxy) .bypassLan) p ↔
      Covered (routes isInRange false list privateList (.ipv4 proxy) .all) p ∧
        ¬ ((slash8 10).contains p ∨ (cidr 172 16 0 0 12).contains p ∨
          (slash16 192 168).contains p) := by
  refine ⟨fun p hrouted hout => ?_, fun p hfirst => ?_, fun p => ?_⟩
  · refine (covered_all hrange list privateList).mpr (.inl ⟨hrouted, ?_⟩)
    refine isInRange_eq_false_of_not_contains hrange fun hin => hout ?_
    obtain ⟨h1, h2⟩ := (slash16_contains (octet1_lt p) (octet2_lt p)).mp hin
    rw [h1, h2]
    exact (slash16_contains (octet1_lt p) (octet2_lt p)).mpr ⟨rfl, rfl⟩
  · rw [covered_all hrange]
    rintro (⟨⟨hle, hge, h26, h127⟩, -⟩ | ⟨h8, -⟩) <;> omega
  · rw [covered_bypassLan hrange, covered_all hrange, ← isPrivateB_iff, Bool.not_eq_true]
    constructor
    · rintro (⟨hrouted, h16, hB⟩ | ⟨h1, h2⟩)
      · exact ⟨.inl ⟨hrouted, h16⟩, hB⟩
      · refine ⟨.inr ⟨h1, h2⟩, ?_⟩
        rw [h1, h2]
        rfl
    · rintro ⟨⟨hrouted, h16⟩ | hdns, hB⟩
      · exact .inl ⟨hrouted, h16, hB⟩
      · exact .inr hdns

end Coverage

/-- A server at the end of a block, where `isInRange` is off. -/
theorem coverage_atEnd :
    Covered (routes usable false [] [] (.ipv4 (ipv4 192 0 0 0)) .bypassLan) (ipv4 192 0 0 1) := by
  have hall := (coverage (fun net p => decide_eq_true_iff) [] [] (ipv4 192 0 0 0)).2.2
    (ipv4 192 0 0 1)
  refine hall.mpr ⟨(covered_all (fun net p => decide_eq_true_iff) [] []).mpr ?_, ?_⟩
  · exact .inl ⟨by decide, by decide⟩
  · decide

/-! ### From Lollipop on -/

/-- The array `private_route`. -/
def privateRoute : List (Block 32) :=
  [cidr 0 0 0 0 8, cidr 10 0 0 0 8, cidr 100 64 0 0 10, cidr 127 0 0 0 8, cidr 169 254 0 0 16,
    cidr 172 16 0 0 12, cidr 192 0 0 0 29, cidr 192 0 2 0 24, cidr 192 88 99 0 24,
    cidr 192 168 0 0 16, cidr 198 18 0 0 15, cidr 198 51 100 0 24, cidr 203 0 113 0 24,
    cidr 224 0 0 0 3]

/-- The array `bypass_private_route`. -/
def bypassPrivateRoute : List (Block 32) :=
  [cidr 1 0 0 0 8, cidr 2 0 0 0 7, cidr 4 0 0 0 6, cidr 8 0 0 0 7, cidr 11 0 0 0 8,
    cidr 12 0 0 0 6, cidr 16 0 0 0 4, cidr 32 0 0 0 3, cidr 64 0 0 0 3, cidr 96 0 0 0 6,
    cidr 100 0 0 0 10, cidr 100 128 0 0 9, cidr 101 0 0 0 8, cidr 102 0 0 0 7,
    cidr 104 0 0 0 5, cidr 112 0 0 0 5, cidr 120 0 0 0 6, cidr 124 0 0 0 7, cidr 126 0 0 0 8,
    cidr 128 0 0 0 3, cidr 160 0 0 0 5, cidr 168 0 0 0 8, cidr 169 0 0 0 9,
    cidr 169 128 0 0 10, cidr 169 192 0 0 11, cidr 169 224 0 0 12, cidr 169 240 0 0 13,
    cidr 169 248 0 0 14, cidr 169 252 0 0 15, cidr 169 255 0 0 16, cidr 170 0 0 0 7,
    cidr 172 0 0 0 12, cidr 172 32 0 0 11, cidr 172 64 0 0 10, cidr 172 128 0 0 9,
    cidr 173 0 0 0 8, cidr 174 0 0 0 7, cidr 176 0 0 0 4, cidr 192 0 0 8 29,
    cidr 192 0 0 16 28, cidr 192 0 0 32 27, cidr 192 0 0 64 26, cidr 192 0 0 128 25,
    cidr 192 0 1 0 24, cidr 192 0 3 0 24, cidr 192 0 4 0 22, cidr 192 0 8 0 21,
    cidr 192 0 16 0 20, cidr 192 0 32 0 19, cidr 192 0 64 0 18, cidr 192 0 128 0 17,
    cidr 192 1 0 0 16, cidr 192 2 0 0 15, cidr 192 4 0 0 14, cidr 192 8 0 0 13,
    cidr 192 16 0 0 12, cidr 192 32 0 0 11, cidr 192 64 0 0 12, cidr 192 80 0 0 13,
    cidr 192 88 0 0 18, cidr 192 88 64 0 19, cidr 192 88 96 0 23, cidr 192 88 98 0 24,
    cidr 192 88 100 0 22, cidr 192 88 104 0 21, cidr 192 88 112 0 20, cidr 192 88 128 0 17,
    cidr 192 89 0 0 16, cidr 192 90 0 0 15, cidr 192 92 0 0 14, cidr 192 96 0 0 11,
    cidr 192 128 0 0 11, cidr 192 160 0 0 13, cidr 192 169 0 0 16, cidr 192 170 0 0 15,
    cidr 192 172 0 0 14, cidr 192 176 0 0 12, cidr 192 192 0 0 10, cidr 193 0 0 0 8,
    cidr 194 0 0 0 7, cidr 196 0 0 0 7, cidr 198 0 0 0 12, cidr 198 16 0 0 15,
    cidr 198 20 0 0 14, cidr 198 24 0 0 13, cidr 198 32 0 0 12, cidr 198 48 0 0 15,
    cidr 198 50 0 0 16, cidr 198 51 0 0 18, cidr 198 51 64 0 19, cidr 198 51 96 0 22,
    cidr 198 51 101 0 24, cidr 198 51 102 0 23, cidr 198 51 104 0 21, cidr 198 51 112 0 20,
    cidr 198 51 128 0 17, cidr 198 52 0 0 14, cidr 198 56 0 0 13, cidr 198 64 0 0 10,
    cidr 198 128 0 0 9, cidr 199 0 0 0 8, cidr 200 0 0 0 7, cidr 202 0 0 0 8,
    cidr 203 0 0 0 18, cidr 203 0 64 0 19, cidr 203 0 96 0 20, cidr 203 0 112 0 24,
    cidr 203 0 114 0 23, cidr 203 0 116 0 22, cidr 203 0 120 0 21, cidr 203 0 128 0 17,
    cidr 203 1 0 0 16, cidr 203 2 0 0 15, cidr 203 4 0 0 14, cidr 203 8 0 0 13,
    cidr 203 16 0 0 12, cidr 203 32 0 0 11, cidr 203 64 0 0 10, cidr 203 128 0 0 9,
    cidr 204 0 0 0 6, cidr 208 0 0 0 4]

/-- The lines of `acl.list` that `startShadowsocksDaemon` writes, if it writes the file at
all.  `chnRouteFull` is the array `chn_route_full`. -/
def acl (isLollipopOrAbove : Bool) (chnRouteFull : List (Block 32)) (route : Route) :
    Option (List (Block 32)) :=
  if isLollipopOrAbove && route != .all then
    match route with
    | .bypassLan => some privateRoute
    | .bypassChn => some chnRouteFull
    | .all => none
  else none

/-- The entries of both tables, in the order of their addresses. -/
theorem tiles_tables :
    Tiles 0 ((bypassPrivateRoute ++ privateRoute).insertionSort fun b c =>
      b.first.toNat ≤ c.first.toNat) (2 ^ 32) := by
  decide +kernel

/-- **Every address is in exactly one entry of exactly one table**: the routes before the
fixed one, or the access control list. -/
theorem split_once (isInRange : Block 32 → BitVec 32 → Bool) (list chnRouteFull : List (Block 32))
    (proxy p : BitVec 32) :
    ∃ vpn bypass, routes isInRange true list bypassPrivateRoute (.ipv4 proxy) .bypassLan =
        vpn ++ [slash16 8 8] ∧
      acl true chnRouteFull .bypassLan = some bypass ∧
      vpn.countP (fun b => decide (b.contains p)) +
        bypass.countP (fun b => decide (b.contains p)) = 1 := by
  refine ⟨bypassPrivateRoute, privateRoute, rfl, rfl, ?_⟩
  have hperm := (bypassPrivateRoute ++ privateRoute).perm_insertionSort fun b c =>
    b.first.toNat ≤ c.first.toNat
  rw [← List.countP_append, ← hperm.countP_eq, countP_contains_of_tiles tiles_tables,
    if_pos ⟨Nat.zero_le _, p.isLt⟩]

end Routes
