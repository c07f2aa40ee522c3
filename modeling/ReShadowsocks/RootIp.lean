/-
The fallback addresses of the backend.

A page publishes addresses between two `[dns]` markers.  `Api.getRootIp` takes the first one that
is not in the history of addresses, a text that is searched as a whole; `Api.checkDns` installs
it as the root address and adds it to the history; and `VpnConnector.connect` starts over with the
new one as long as there is one.

* `infix_historyOf` — what the history contains: all that is part of an address in it;
* `getRootIp_eq_next` — so an address counts as tried once it is part of one that was;
* `connect_failed` — the loop ends, and has tried what `Greedy` picks;
* `every_address_tried_iff` — every address is tried exactly if none but the root address at the
  start is part of one published before it;
* `address_skipped` — an address that is never tried;
* `retries_bounded` — from any history, for any page, the loop ends: it is entered again at most
  once for each entry of the page, and no address is installed twice.
-/
import ReShadowsocks.Config
import ReShadowsocks.Greedy
import ReShadowsocks.JavaString

namespace RootIp

open Json JavaString Greedy

/-! ### The published addresses -/

/-- What `.` does not match. -/
def isLineTerminator (c : UInt16) : Bool :=
  c == 0x0A || c == 0x0D || c == 0x85 || c == 0x2028 || c == 0x2029

/-- `group(1)` of the first match of `\[dns\](.*?)\[dns\]`: the text between two markers that
stands in one line. -/
def dnsGroup (body : JString) : Option JString :=
  (pieces (lit "[dns]") body).tail.dropLast.find? fun s => !s.any isLineTerminator

/-- The list of the page, as `Api.getRootIp` goes through it. -/
def addresses (body : JString) : List JString :=
  match dnsGroup body with
  | some ips => (split [comma] ips).map trim
  | none => []

/-! ### Preferences -/

/-- The two preferences of this version of the app.  `checkDns` writes both. -/
structure Prefs where
  rootIp : Option JString
  history : JString

def Prefs.initial : Prefs := ⟨none, []⟩

def Prefs.install (prefs : Prefs) (ip : JString) : Prefs :=
  ⟨some ip, prefs.history ++ comma :: ip⟩

/-- What the switch of `SwitcherFragment` does before it calls `connect`. -/
def Prefs.clearHistory (prefs : Prefs) : Prefs := { prefs with history := [] }

structure HttpResponse where
  statusCode : Nat
  body : JString

section

/-! `page` is the answer to the request for the page; `none` is an exception. -/

variable (page : Option HttpResponse)

/-- The first address of the page that the history does not contain. -/
def Api.getRootIp (prefs : Prefs) : Option JString :=
  match page with
  | some ⟨200, body⟩ => (addresses body).find? fun ip => !decide (ip <:+: prefs.history)
  | _ => none

/-- Installs the next address, and says whether there is one. -/
def Api.checkDns (prefs : Prefs) : Prefs × Bool :=
  match Api.getRootIp page prefs with
  | some ip => (prefs.install ip, true)
  | none => (prefs, false)

/-- The root address; `checkDns` is called for the first one. -/
def Const.getRootIp (prefs : Prefs) : Prefs × Option JString :=
  match prefs.rootIp with
  | some ip => (prefs, some ip)
  | none => ((Api.checkDns page prefs).1, (Api.checkDns page prefs).1.rootIp)

/-- The root address of the request in `Api.getConfiguration`.  It is asked for twice before, for
the log. -/
def Api.configurationRoot (prefs : Prefs) : Prefs × Option JString :=
  Const.getRootIp page (Const.getRootIp page (Const.getRootIp page prefs).1).1

/-! ### The loop -/

/-- How an attempt to get and use a configuration ends. -/
inductive Outcome
  | configured
  | expired
  | outOfUse
  | exception
  deriving DecidableEq

/-- What `connect` comes to. -/
inductive Report
  | connected
  | expired
  | outOfUse
  | failed
  deriving DecidableEq

/-- The preferences, and the root addresses that were tried. -/
structure Session where
  prefs : Prefs
  tried : List (Option JString)

variable (attempt : Option JString → Outcome)

/-- `VpnConnector.connect`, with the calls it posts. -/
def connect : Nat → Session → Option (Session × Report)
  | 0, _ => none
  | fuel + 1, s =>
    let (prefs, root) := Api.configurationRoot page s.prefs
    let tried := s.tried ++ [root]
    match attempt root with
    | .configured => some (⟨prefs, tried⟩, .connected)
    | .expired => some (⟨prefs, tried⟩, .expired)
    | .outOfUse => some (⟨prefs, tried⟩, .outOfUse)
    | .exception =>
      match Api.checkDns page prefs with
      | (prefs, true) => connect fuel ⟨prefs, tried⟩
      | (prefs, false) => some (⟨prefs, tried⟩, .failed)

end

/-! ### The history -/

/-- The history behind some installed addresses. -/
def historyOf (ips : List JString) : JString := ips.flatMap (comma :: ·)

theorem historyOf_append (ips : List JString) (ip : JString) :
    historyOf (ips ++ [ip]) = historyOf ips ++ comma :: ip := by
  simp [historyOf]

/-- **What the history contains**: a text without a comma is part of it if it is part of one of the
addresses. -/
theorem infix_historyOf {ip : JString} (hne : ip ≠ []) (hcomma : comma ∉ ip) (ips : List JString) :
    ip <:+: historyOf ips ↔ ∃ x ∈ ips, ip <:+: x := by
  induction ips with
  | nil =>
    show ip <:+: [] ↔ _
    rw [List.infix_nil]
    exact ⟨fun h => absurd h hne, fun ⟨x, hx, _⟩ => absurd hx List.not_mem_nil⟩
  | cons x ips ih =>
    -- a text that begins with a comma, or goes on over one, has a comma
    have hstart : ∀ {s : JString}, s ≠ [] → s <+: historyOf ips → comma ∈ s := by
      intro s hs hpre
      cases ips with
      | nil => exact absurd (List.prefix_nil.mp hpre) hs
      | cons y ips =>
        obtain ⟨c, s, rfl⟩ := List.exists_cons_of_ne_nil hs
        rw [(List.cons_prefix_cons.mp hpre).1]
        exact List.mem_cons_self
    show ip <:+: comma :: (x ++ historyOf ips) ↔ _
    rw [List.infix_cons_iff, List.infix_append_iff, ih, List.exists_mem_cons_iff]
    constructor
    · rintro (hpre | hx | hips | ⟨s, t, rfl, hs, ht⟩)
      · obtain ⟨c, ip, rfl⟩ := List.exists_cons_of_ne_nil hne
        rw [(List.cons_prefix_cons.mp hpre).1] at hcomma
        exact absurd List.mem_cons_self hcomma
      · exact .inl hx
      · exact .inr hips
      · by_cases hnil : t = []
        · rw [hnil, List.append_nil]
          exact .inl hs.isInfix
        · exact absurd (List.mem_append_right _ (hstart hnil ht)) hcomma
    · rintro (hx | hips)
      · exact .inr (.inl hx)
      · exact .inr (.inr (.inl hips))

theorem comma_not_mem {body ip : JString} (h : ip ∈ addresses body) : comma ∉ ip := by
  unfold addresses at h
  split at h
  · obtain ⟨part, hpart, rfl⟩ := List.mem_map.mp h
    exact fun hmem => not_mem_of_mem_pieces (mem_pieces_of_mem_split hpart) (mem_of_mem_trim hmem)
  · exact absurd h List.not_mem_nil

/-- Once `x` is in the history, `y` counts as tried. -/
def Covers (x y : JString) : Prop := y <:+: x

instance : DecidableRel Covers := fun x y => inferInstanceAs (Decidable (y <:+: x))

theorem covers_refl (x : JString) : Covers x x := List.infix_refl x

theorem covers_trans (x y z : JString) (hxy : Covers x y) (hyz : Covers y z) : Covers x z :=
  List.IsInfix.trans hyz hxy

/-! ### Retries -/

section

variable {body : JString} {ips picked : List JString} {prefs : Prefs} {ip : JString}
  {attempt : Option JString → Outcome} {page : Option HttpResponse}

/-- The search of the history is that for an address that is not covered. -/
theorem getRootIp_eq_next (hne : ∀ ip ∈ addresses body, ip ≠ [])
    (hhistory : prefs.history = historyOf picked) :
    Api.getRootIp (some ⟨200, body⟩) prefs = next Covers (addresses body) picked := by
  show (addresses body).find? (fun ip => !decide (ip <:+: prefs.history)) = _
  rw [next, ← List.head?_filter, ← List.head?_filter]
  refine congrArg List.head? (List.filter_congr fun ip hip => ?_)
  have hinfix := infix_historyOf (hne ip hip) (comma_not_mem hip) picked
  rw [hhistory, ← decide_not, decide_eq_decide, hinfix]
  constructor
  · exact fun h x hx hcov => h ⟨x, hx, hcov⟩
  · rintro h ⟨x, hx, hcov⟩
    exact h x hx hcov

theorem configurationRoot_of_some (h : prefs.rootIp = some ip) :
    Api.configurationRoot page prefs = (prefs, some ip) := by
  have hconst : Const.getRootIp page prefs = (prefs, some ip) := by rw [Const.getRootIp, h]
  rw [Api.configurationRoot, hconst, hconst, hconst]

/-- Without a root address the first one is installed. -/
theorem configurationRoot_of_none (h : prefs.rootIp = none) :
    Api.configurationRoot page prefs =
      match Api.getRootIp page prefs with
      | some ip => (prefs.install ip, some ip)
      | none => (prefs, none) := by
  cases hip : Api.getRootIp page prefs with
  | none =>
    have hconst : Const.getRootIp page prefs = (prefs, none) := by
      rw [Const.getRootIp, h]
      simp only [Api.checkDns, hip, h]
    rw [Api.configurationRoot, hconst, hconst, hconst]
  | some ip =>
    have hconst : Const.getRootIp page prefs = (prefs.install ip, some ip) := by
      rw [Const.getRootIp, h]
      simp only [Api.checkDns, hip]
      rfl
    have hagain : Const.getRootIp page (prefs.install ip) = (prefs.install ip, some ip) := rfl
    rw [Api.configurationRoot, hconst, hagain, hagain]

/-- An attempt that fails, with the root address that it uses. -/
theorem connect_succ (hattempt : ∀ root, attempt root = .exception) {prefs' : Prefs}
    {root : Option JString} (hroot : Api.configurationRoot page prefs = (prefs', root)) (fuel : Nat)
    (tried : List (Option JString)) :
    connect page attempt (fuel + 1) ⟨prefs, tried⟩ =
      match Api.getRootIp page prefs' with
      | some ip => connect page attempt fuel ⟨prefs'.install ip, tried ++ [root]⟩
      | none => some (⟨prefs', tried ++ [root]⟩, .failed) := by
  rw [connect, hroot]
  simp only [hattempt, Api.checkDns]
  cases Api.getRootIp page prefs' with
  | none => rfl
  | some ip => rfl

/-- **The loop ends**, when there is nothing left to pick: behind the root address of the first
attempt it has tried what it picked. -/
theorem connect_failed (hattempt : ∀ root, attempt root = .exception)
    (hne : ∀ ip ∈ addresses body, ip ≠ []) {fuel : Nat} :
    ∀ {picked back : List JString} {prefs : Prefs} (tried : List (Option JString)),
      Scanned Covers (addresses body) picked back → back.length < fuel →
      prefs.rootIp = some ip → prefs.history = historyOf picked →
      ∃ s more, connect (some ⟨200, body⟩) attempt fuel ⟨prefs, tried⟩ = some (s, .failed) ∧
        s.tried = tried ++ some ip :: more.map some ∧
        picked ++ more = pick Covers [] (addresses body) := by
  induction fuel generalizing ip with
  | zero => exact fun _ _ hfuel => absurd hfuel (Nat.not_lt_zero _)
  | succ fuel ih =>
    intro picked back prefs tried hscan hfuel hroot hhistory
    have hnext := getRootIp_eq_next hne hhistory
    rw [connect_succ hattempt (configurationRoot_of_some hroot)]
    cases hip : Api.getRootIp (some ⟨200, body⟩) prefs with
    | none => exact ⟨_, [], rfl, rfl, by rw [List.append_nil, hscan.next_none (hnext ▸ hip)]⟩
    | some ip' =>
      obtain ⟨skipped, back', rfl, hscan'⟩ := hscan.next_some covers_refl (hnext ▸ hip)
      have hlen : back'.length < fuel := by
        rw [List.length_append, List.length_cons] at hfuel
        omega
      have hnew : (prefs.install ip').history = historyOf (picked ++ [ip']) := by
        rw [historyOf_append, ← hhistory]
        rfl
      obtain ⟨s, more, hrun, htried, hpicked⟩ :=
        @ih _ _ _ (prefs.install ip') (tried ++ [some ip]) hscan' hlen rfl hnew
      refine ⟨s, ip' :: more, hrun, ?_, ?_⟩
      · rw [htried, List.append_assoc]
        rfl
      · rw [← hpicked, List.append_assoc]
        rfl

/-- What the loop has tried when it reports failure, from an empty history: the root address, if
there is one, and what is picked. -/
theorem tried_of_failed (hattempt : ∀ root, attempt root = .exception)
    (hne : ∀ ip ∈ addresses body, ip ≠ []) (hfresh : prefs.history = []) {fuel : Nat}
    (hfuel : (addresses body).length < fuel) :
    ∃ s, connect (some ⟨200, body⟩) attempt fuel ⟨prefs, []⟩ = some (s, .failed) ∧
      ∀ ip, some ip ∈ s.tried ↔
        prefs.rootIp = some ip ∨ ip ∈ pick Covers [] (addresses body) := by
  have hscan : Scanned Covers (addresses body) [] (addresses body) := scanned_nil
  cases hroot : prefs.rootIp with
  | some root =>
    obtain ⟨s, more, hrun, htried, hpicked⟩ :=
      connect_failed hattempt hne [] hscan hfuel hroot hfresh
    refine ⟨s, hrun, fun ip => ?_⟩
    rw [htried, ← hpicked]
    simp [eq_comm]
  | none =>
    have hnext : Api.getRootIp (some ⟨200, body⟩) prefs = next Covers (addresses body) [] :=
      getRootIp_eq_next hne hfresh
    have hread := @configurationRoot_of_none prefs (some ⟨200, body⟩) hroot
    obtain ⟨fuel, rfl⟩ := Nat.exists_eq_succ_of_ne_zero (Nat.ne_zero_of_lt hfuel)
    cases hip : Api.getRootIp (some ⟨200, body⟩) prefs with
    | none =>
      rw [hip] at hread
      rw [connect_succ hattempt hread, hip]
      refine ⟨_, rfl, fun ip => ?_⟩
      rw [← hscan.next_none (hnext ▸ hip)]
      simp
    | some first =>
      -- reading the root address installs the first one
      rw [hip] at hread
      have hinstalled : connect (some ⟨200, body⟩) attempt (fuel + 1) ⟨prefs, []⟩ =
          connect (some ⟨200, body⟩) attempt (fuel + 1) ⟨prefs.install first, []⟩ := by
        rw [connect_succ hattempt hread, connect_succ hattempt (configurationRoot_of_some rfl)]
      obtain ⟨skipped, back, hback, hscan'⟩ := hscan.next_some covers_refl (hnext ▸ hip)
      have hlen : back.length < fuel + 1 := by
        rw [hback, List.length_append, List.length_cons] at hfuel
        omega
      have hhistory : (prefs.install first).history = historyOf ([] ++ [first]) := by
        show prefs.history ++ comma :: first = comma :: first ++ []
        rw [hfresh, List.append_nil]
        rfl
      obtain ⟨s, more, hrun, htried, hpicked⟩ :=
        connect_failed hattempt hne [] hscan' hlen rfl hhistory
      refine ⟨s, hinstalled.trans hrun, fun ip => ?_⟩
      rw [htried, ← hpicked]
      simp [eq_comm]

/-- **When every address is tried**, from an empty history, with or without a root address: exactly
if none but the root address is part of one that is published before it. -/
theorem every_address_tried_iff (hattempt : ∀ root, attempt root = .exception)
    (hips : addresses body = ips) (hdistinct : ips.Nodup) (hne : ∀ ip ∈ ips, ip ≠ [])
    (hfresh : prefs.history = []) {fuel : Nat} (hfuel : ips.length < fuel) :
    ∃ s, connect (some ⟨200, body⟩) attempt fuel ⟨prefs, []⟩ = some (s, .failed) ∧
      ((∀ ip ∈ ips, some ip ∈ s.tried) ↔
        ips.Pairwise fun x y => prefs.rootIp = some y ∨ ¬ y <:+: x) := by
  subst hips
  obtain ⟨s, hrun, htried⟩ := tried_of_failed hattempt hne hfresh hfuel
  have hpicked : (∀ ip ∈ addresses body,
        prefs.rootIp = some ip ∨ ip ∈ pick Covers [] (addresses body)) ↔
      (addresses body).Pairwise fun x y => prefs.rootIp = some y ∨ ¬ Covers x y :=
    all_picked_iff covers_trans hdistinct
  refine ⟨s, hrun, Iff.trans ?_ hpicked⟩
  simp only [htried]

end

/-- A page with two addresses, of which the second is part of the first. -/
def addressInAddress : JString := lit "<p>[dns]10.0.0.12, 10.0.0.1[dns]</p>"

/-- The preferences after a session with `10.0.0.1`. -/
def oneInstalled : Prefs := ⟨some (lit "10.0.0.1"), lit ",10.0.0.1"⟩

/-- The user connects again: the root address is tried first, and the other one behind it. -/
theorem every_address_tried_again :
    ∃ s, connect (some ⟨200, addressInAddress⟩) (fun _ => .exception) 3
        ⟨oneInstalled.clearHistory, []⟩ = some (s, .failed) ∧
      ∀ ip ∈ [lit "10.0.0.12", lit "10.0.0.1"], some ip ∈ s.tried := by
  have hips : addresses addressInAddress = [lit "10.0.0.12", lit "10.0.0.1"] := by
    unfold addresses dnsGroup addressInAddress
    repeat rw [lit_ofList]
    decide
  have hlist : [lit "10.0.0.12", lit "10.0.0.1"].Nodup ∧
      ∀ ip ∈ [lit "10.0.0.12", lit "10.0.0.1"], ip ≠ [] := by
    repeat rw [lit_ofList]
    decide
  obtain ⟨s, hrun, htried⟩ := every_address_tried_iff (fun _ => rfl) hips hlist.1 hlist.2
    (rfl : oneInstalled.clearHistory.history = []) (Nat.lt_succ_self 2)
  refine ⟨s, hrun, htried.mpr ?_⟩
  simp [oneInstalled, Prefs.clearHistory]

/-- **An address is skipped**: `10.0.0.1` is part of `10.0.0.12`, so it is found in the history and
failure is reported before it was tried. -/
theorem address_skipped :
    addresses addressInAddress = [lit "10.0.0.12", lit "10.0.0.1"] ∧
      ∃ s, connect (some ⟨200, addressInAddress⟩) (fun _ => .exception) 3 ⟨Prefs.initial, []⟩ =
          some (s, .failed) ∧
        s.tried = [some (lit "10.0.0.12")] ∧ some (lit "10.0.0.1") ∉ s.tried := by
  have hips : addresses addressInAddress = [lit "10.0.0.12", lit "10.0.0.1"] := by
    unfold addresses dnsGroup addressInAddress
    repeat rw [lit_ofList]
    decide
  have hrun : (connect (some ⟨200, addressInAddress⟩) (fun _ => .exception) 3
      ⟨Prefs.initial, []⟩).map (fun r => (r.1.tried, r.2)) =
        some ([some (lit "10.0.0.12")], .failed) := by
    decide +kernel
  have hne : lit "10.0.0.1" ≠ lit "10.0.0.12" := by
    repeat rw [lit_ofList]
    decide
  obtain ⟨⟨s, report⟩, hconnect, hs⟩ := Option.map_eq_some_iff.mp hrun
  obtain ⟨htried, hreport⟩ := Prod.mk.inj hs
  obtain rfl : report = .failed := hreport
  refine ⟨hips, s, hconnect, htried, ?_⟩
  rw [show s.tried = [some (lit "10.0.0.12")] from htried, List.mem_singleton, Option.some_inj]
  exact hne

/-! ### Any history, any page

The entries of the page may be blank, may be repeated, and may be part of what the history holds at
the start. -/

/-- The entries between the commas of the page. -/
def published (page : Option HttpResponse) : List JString :=
  match page with
  | some ⟨200, body⟩ => (dnsGroup body).elim [] (pieces [comma])
  | _ => []

/-- The addresses that were installed between two states of the preferences: each one was added to
the history behind a comma. -/
def installed (start now : Prefs) : List JString :=
  (pieces [comma] (now.history.drop start.history.length)).tail

section

variable {page : Option HttpResponse} {attempt : Option JString → Outcome} {start prefs : Prefs}
  {ips : List JString} {ip : JString}

/-- An address that is taken is an entry of the page, without the blanks around it, and is not part
of the history. -/
theorem of_getRootIp_eq_some (h : Api.getRootIp page prefs = some ip) :
    ip ∈ (published page).map trim ∧ ¬ ip <:+: prefs.history := by
  unfold Api.getRootIp at h
  split at h
  · rename_i body
    have hmem : ip ∈ addresses body := List.mem_of_find?_eq_some h
    have hfound := List.find?_some h
    rw [Bool.not_eq_true', decide_eq_false_iff_not] at hfound
    refine ⟨?_, hfound⟩
    unfold addresses at hmem
    split at hmem
    · rename_i group hgroup
      obtain ⟨part, hpart, rfl⟩ := List.mem_map.mp hmem
      show trim part ∈ List.map trim ((dnsGroup body).elim [] (pieces [comma]))
      rw [hgroup]
      exact List.mem_map_of_mem (mem_pieces_of_mem_split hpart)
    · exact absurd hmem List.not_mem_nil
  · exact nomatch h

theorem comma_not_mem_of_mem_published (h : ip ∈ (published page).map trim) : comma ∉ ip := by
  obtain ⟨part, hpart, rfl⟩ := List.mem_map.mp h
  intro hmem
  unfold published at hpart
  split at hpart
  · cases hgroup : dnsGroup _ with
    | none =>
      rw [hgroup] at hpart
      exact absurd hpart List.not_mem_nil
    | some group =>
      rw [hgroup] at hpart
      exact not_mem_of_mem_pieces hpart (mem_of_mem_trim hmem)
  · exact absurd hpart List.not_mem_nil

theorem pieces_historyOf (hcomma : ∀ ip ∈ ips, comma ∉ ip) :
    pieces [comma] (historyOf ips) = [] :: ips := by
  induction ips with
  | nil => rfl
  | cons ip ips ih =>
    obtain ⟨hip, hips⟩ := List.forall_mem_cons.mp hcomma
    show pieces [comma] (comma :: (ip ++ historyOf ips)) = _
    rw [pieces_singleton_cons, if_pos rfl, pieces_append_left (hidden_cons [] _ hip), ih hips,
      List.modifyHead_cons, List.append_nil]

/-- The preferences after `ips` were installed, one after the other. -/
structure Grown (page : Option HttpResponse) (start prefs : Prefs) (ips : List JString) : Prop where
  history : prefs.history = start.history ++ historyOf ips
  nodup : ips.Nodup
  listed : ∀ ip ∈ ips, ip ∈ (published page).map trim

theorem grown_refl (start : Prefs) : Grown page start start [] :=
  ⟨by simp [historyOf], List.nodup_nil, fun _ h => absurd h List.not_mem_nil⟩

/-- **Step.**  What is installed is part of the history from then on, so it is not taken again. -/
theorem Grown.install (h : Grown page start prefs ips) (hip : Api.getRootIp page prefs = some ip) :
    Grown page start (prefs.install ip) (ips ++ [ip]) := by
  obtain ⟨hmem, hnew⟩ := of_getRootIp_eq_some hip
  -- the empty text is part of every history, so a blank entry is never taken
  have hne : ip ≠ [] := fun hnil => hnew (hnil ▸ List.nil_infix)
  have hfresh : ip ∉ ips := by
    intro hold
    have hpart : ip <:+: historyOf ips :=
      (infix_historyOf hne (comma_not_mem_of_mem_published hmem) ips).mpr
        ⟨ip, hold, List.infix_refl ip⟩
    exact hnew (h.history ▸ hpart.trans (List.suffix_append _ _).isInfix)
  refine ⟨?_, ?_, ?_⟩
  · rw [historyOf_append, ← List.append_assoc, ← h.history]
    rfl
  · rw [← List.concat_eq_append]
    exact h.nodup.concat hfresh
  · exact List.forall_mem_append.mpr ⟨h.listed, List.forall_mem_singleton.mpr hmem⟩

theorem Grown.length_le (h : Grown page start prefs ips) :
    ips.length ≤ (published page).length := by
  have hsub := List.subperm_of_subset h.nodup h.listed
  simpa using hsub.length_le

/-- Reading the root address installs at most one. -/
theorem Grown.readRoot (h : Grown page start prefs ips) :
    ∃ prefs' root more, Api.configurationRoot page prefs = (prefs', root) ∧
      Grown page start prefs' (ips ++ more) := by
  cases hroot : prefs.rootIp with
  | some ip =>
    refine ⟨prefs, some ip, [], configurationRoot_of_some hroot, ?_⟩
    rw [List.append_nil]
    exact h
  | none =>
    have hread := @configurationRoot_of_none prefs page hroot
    cases hip : Api.getRootIp page prefs with
    | none =>
      rw [hip] at hread
      refine ⟨prefs, none, [], hread, ?_⟩
      rw [List.append_nil]
      exact h
    | some ip =>
      rw [hip] at hread
      exact ⟨prefs.install ip, some ip, [ip], hread, h.install hip⟩

/-- **Run.**  The loop ends, and every call but the last one has installed an address. -/
theorem Grown.run (hattempt : ∀ root, attempt root = .exception) {fuel : Nat} :
    ∀ {prefs : Prefs} {ips : List JString} (tried : List (Option JString)),
      Grown page start prefs ips → (published page).length - ips.length < fuel →
      ∃ s more, connect page attempt fuel ⟨prefs, tried⟩ = some (s, .failed) ∧
        Grown page start s.prefs (ips ++ more) ∧
          s.tried.length ≤ tried.length + 1 + more.length := by
  induction fuel with
  | zero => exact fun _ _ hfuel => absurd hfuel (Nat.not_lt_zero _)
  | succ fuel ih =>
    intro prefs ips tried h hfuel
    obtain ⟨prefs', root, first, hroot, h'⟩ := h.readRoot
    rw [connect_succ hattempt hroot]
    cases hip : Api.getRootIp page prefs' with
    | none =>
      refine ⟨_, first, rfl, h', ?_⟩
      rw [List.length_append, List.length_singleton]
      omega
    | some ip =>
      have hnext := h'.install hip
      have hlen := hnext.length_le
      simp only [List.length_append, List.length_singleton] at hlen
      have hless : (published page).length - (ips ++ first ++ [ip]).length < fuel := by
        simp only [List.length_append, List.length_singleton]
        omega
      obtain ⟨s, more, hrun, hgrown, htried⟩ := ih (tried ++ [root]) hnext hless
      refine ⟨s, first ++ [ip] ++ more, hrun, ?_, ?_⟩
      · simpa using hgrown
      · simp only [List.length_append, List.length_singleton] at htried ⊢
        omega

/-- What was installed can be read off the history. -/
theorem Grown.installed_eq (h : Grown page start prefs ips) : installed start prefs = ips := by
  have hcomma : ∀ ip ∈ ips, comma ∉ ip :=
    fun ip hip => comma_not_mem_of_mem_published (h.listed ip hip)
  rw [installed, h.history, List.drop_left, pieces_historyOf hcomma]
  rfl

/-- **The loop ends**: from any history, for any page, the calls after the first are at most as many
as the page has entries, and no address is installed twice. -/
theorem retries_bounded (hattempt : ∀ root, attempt root = .exception) (prefs : Prefs) {fuel : Nat}
    (hfuel : (published page).length < fuel) :
    ∃ s, connect page attempt fuel ⟨prefs, []⟩ = some (s, .failed) ∧
      s.tried.length ≤ (published page).length + 1 ∧ (installed prefs s.prefs).Nodup := by
  have hstart : (published page).length - ([] : List JString).length < fuel := hfuel
  obtain ⟨s, ips, hrun, hgrown, htried⟩ := Grown.run hattempt [] (grown_refl prefs) hstart
  have hlen := hgrown.length_le
  refine ⟨s, hrun, ?_, ?_⟩
  · rw [List.length_nil, Nat.zero_add] at htried
    rw [List.nil_append] at hlen
    omega
  · rw [hgrown.installed_eq]
    exact hgrown.nodup

end

/-- A page with a blank entry and an entry that stands there twice. -/
def repeatedAddresses : JString := lit "[dns]10.0.0.1,, 10.0.0.1 ,10.0.0.2[dns]"

theorem retries_bounded_repeated :
    ∃ s, connect (some ⟨200, repeatedAddresses⟩) (fun _ => .exception) 5 ⟨Prefs.initial, []⟩ =
        some (s, .failed) ∧
      s.tried.length ≤ (published (some ⟨200, repeatedAddresses⟩)).length + 1 ∧
      (installed Prefs.initial s.prefs).Nodup := by
  refine retries_bounded (fun _ => rfl) Prefs.initial ?_
  unfold published dnsGroup repeatedAddresses
  repeat rw [lit_ofList]
  decide

end RootIp
