/-
The rules of `ShadowsocksNatService.setupIptables`.

The commands are made from two templates by `String.replace`, collected in two lists and run
in order.  Which apps go through the proxy is decided by rules for their uids.

* `tokens_replace` — the words of a template with one word filled in;
* `chain_setupIptables` — the chain that the commands leave, whatever was there before;
* `nat_selection` — which packets the chain sends to the proxy and to the resolver.
-/
import ReShadowsocks.AppManager
import ReShadowsocks.Iptables

namespace NatRules

open Json JavaString Iptables AppManager

/-- The fields of `Config` that the NAT service reads besides those of the other service. -/
structure NatConfig extends Config where
  isGlobalProxy : Bool
  isBypassApps : Bool
  proxiedAppString : JString

/-! ### Addresses of the proxy -/

/-- `toUpperCase` of ASCII text; addresses have no other letters. -/
def toUpperCase (s : JString) : JString :=
  s.map fun c => if 0x61 ≤ c ∧ c ≤ 0x7A then c - 0x20 else c

def isHex (c : UInt16) : Bool :=
  isDigit c || (0x41 ≤ c && c ≤ 0x46) || (0x61 ≤ c && c ≤ 0x66)

/-- What the code relies on: `InetAddressUtils.isIPv6Address`, which is not part of this repository,
does not hold of an IPv4 address. -/
def TellsApart (isIPv6Address : JString → Bool) : Prop :=
  ∀ ip : Ip4, isIPv6Address ip.text = false

/-! ### The commands -/

def cmdIptablesReturn : JString := lit " -t nat -A OUTPUT -p tcp -d 0.0.0.0 -j RETURN"

def cmdIptablesDnatAddSocks : JString :=
  lit " -t nat -A OUTPUT -p tcp -j DNAT --to-destination 127.0.0.1:8123"

/-- How a hash set of uids is walked through: each element once, in any order. -/
structure HashOrder where
  iterate : List Nat → List Nat
  nodup : ∀ added, (iterate added).Nodup
  mem_iff : ∀ added u, u ∈ iterate added ↔ u ∈ added

/-- What `Utils.getIptables` returns. -/
def IsIptables (iptables : JString) : Prop :=
  iptables = lit "/system/bin/iptables" ∨ iptables = lit "iptables"

section

variable (iptables : JString)

def cmdBypass : JString := iptables ++ cmdIptablesReturn

def bypassAddress (address : JString) : JString :=
  replace (lit "-p tcp -d 0.0.0.0") (lit "-d " ++ address) (cmdBypass iptables)

def bypassOwn (myUid : Nat) : JString :=
  replace (lit "-p tcp -d 0.0.0.0") (lit "-m owner --uid-owner " ++ decimalNat myUid)
    (cmdBypass iptables)

def bypassUid (uid : Nat) : JString :=
  replace (lit "-d 0.0.0.0") (lit "-m owner --uid-owner " ++ decimalNat uid) (cmdBypass iptables)

def proxyUid (uid : Nat) : JString :=
  replace (lit "-t nat") (lit "-t nat -m owner --uid-owner " ++ decimalNat uid)
    (iptables ++ cmdIptablesDnatAddSocks)

/-- The field `apps` after `setupIptables`: read again unless it holds something. -/
def loadApps (apps : Option (List ProxiedApp)) (installed : List ApplicationInfo)
    (proxiedAppString : JString) : List ProxiedApp :=
  match apps with
  | none | some [] => getProxiedApps installed proxiedAppString
  | some apps => apps

/-- The uids of the proxied apps, as the set is walked through. -/
def uidSet (order : HashOrder) (apps : List ProxiedApp) : List Nat :=
  order.iterate ((apps.filter fun app => app.proxied).map fun app => app.uid)

/-- The commands of `setupIptables` in the order in which they are run: `init_sb`, then
`http_sb`. -/
def setupIptables (isIPv6Address : JString → Bool) (order : HashOrder) (config : NatConfig)
    (myUid : Nat) (apps : Option (List ProxiedApp)) (installed : List ApplicationInfo) :
    List JString :=
  let uids := uidSet order (loadApps apps installed config.proxiedAppString)
  let init := [lit "ulimit -n 4096", iptables ++ lit " -t nat -F OUTPUT"] ++
    (if !isIPv6Address (toUpperCase config.proxy) then [bypassAddress iptables config.proxy]
      else []) ++
    [bypassAddress iptables (lit "127.0.0.1"), bypassOwn iptables myUid,
      replace (lit "-d 0.0.0.0") (lit "--dport 53") (cmdBypass iptables),
      iptables ++ lit " -t nat -A OUTPUT -p udp --dport 53 -j DNAT --to-destination 127.0.0.1:" ++
        decimal 8153] ++
    (if !config.isGlobalProxy && config.isBypassApps then uids.map (bypassUid iptables) else [])
  let http :=
    (if config.isGlobalProxy || config.isBypassApps then [iptables ++ cmdIptablesDnatAddSocks]
      else []) ++
    (if !config.isGlobalProxy && !config.isBypassApps then uids.map (proxyUid iptables) else [])
  init ++ http

end

/-! ### Words -/

/-- The program's name has no dash and no blank. -/
theorem IsIptables.plain {iptables : JString} (h : IsIptables iptables) :
    0x2D ∉ iptables ∧ space ∉ iptables ∧ lit "ulimit" ≠ iptables := by
  rcases h with rfl | rfl
  · repeat rw [lit_ofList]
    decide
  · repeat rw [lit_ofList]
    decide

/-- A template with one text filled in.  What is replaced starts with a dash, and the program's
name has none. -/
theorem replace_template {iptables template old x y : JString} (hipt : IsIptables iptables)
    (h : pieces (0x2D :: old) template = [x, y]) (new : JString) :
    replace (0x2D :: old) new (iptables ++ template) = iptables ++ (x ++ (new ++ y)) := by
  rw [replace, pieces_append_left (hidden_cons old template hipt.plain.1), h,
    List.modifyHead_cons, List.intercalate_cons_cons, List.intercalate_singleton,
    List.append_assoc, List.append_assoc]

/-- **The words of a template with one word filled in.** -/
theorem tokens_replace {iptables template old filler w a b x : JString} {front back : List JString}
    (hipt : IsIptables iptables) (hw : space ∉ w)
    (h : pieces (0x2D :: old) template = [x, space :: b] ∧ x ++ filler = space :: a ++ [space] ∧
      pieces [space] a = front ∧ pieces [space] b = back) :
    pieces [space] (replace (0x2D :: old) (filler ++ w) (iptables ++ template)) =
      iptables :: (front ++ w :: back) := by
  obtain ⟨hpieces, hfill, rfl, rfl⟩ := h
  have htext : x ++ (filler ++ w ++ space :: b) =
      space :: (a ++ space :: (w ++ space :: b)) := by
    rw [List.append_assoc, ← List.append_assoc, hfill]
    simp
  rw [replace_template hipt hpieces, htext, pieces_singleton_joined hipt.plain.2.1,
    pieces_singleton_append, pieces_singleton_joined hw]

theorem lookup_names :
    Opt.names.lookup (lit "-t") = some .table ∧ Opt.names.lookup (lit "-A") = some .append ∧
    Opt.names.lookup (lit "-p") = some .protocol ∧
    Opt.names.lookup (lit "-d") = some .destination ∧
    Opt.names.lookup (lit "-m") = some .matchModule ∧
    Opt.names.lookup (lit "--uid-owner") = some .uidOwner ∧
    Opt.names.lookup (lit "-j") = some .jump ∧
    Opt.names.lookup (lit "--to-destination") = some .toDestination := by
  rw [Opt.names]
  repeat rw [lit_ofList]
  decide

theorem dnat_ne_return : lit "DNAT" ≠ lit "RETURN" := by
  repeat rw [lit_ofList]
  decide

theorem space_not_mem_decimalNat (n : Nat) : space ∉ decimalNat n :=
  not_mem_decimalNat (by decide) n

section

variable {iptables : JString} (hipt : IsIptables iptables) (chain : List Rule)

include hipt

theorem tokens_bypassAddress {address : JString} (haddress : space ∉ address) :
    pieces [space] (bypassAddress iptables address) =
      iptables :: ([lit "-t", lit "nat", lit "-A", lit "OUTPUT", lit "-d"] ++ address ::
        [lit "-j", lit "RETURN"]) := by
  refine @tokens_replace _ cmdIptablesReturn (lit "p tcp -d 0.0.0.0") (lit "-d ") _
    (lit "-t nat -A OUTPUT -d") (lit "-j RETURN") (lit " -t nat -A OUTPUT ") _ _ hipt haddress ?_
  rw [cmdIptablesReturn]
  repeat rw [lit_ofList]
  decide

theorem tokens_bypassOwn (uid : Nat) :
    pieces [space] (bypassOwn iptables uid) =
      iptables :: ([lit "-t", lit "nat", lit "-A", lit "OUTPUT", lit "-m", lit "owner",
        lit "--uid-owner"] ++ decimalNat uid :: [lit "-j", lit "RETURN"]) := by
  refine @tokens_replace _ cmdIptablesReturn (lit "p tcp -d 0.0.0.0") (lit "-m owner --uid-owner ")
    _ (lit "-t nat -A OUTPUT -m owner --uid-owner") (lit "-j RETURN") (lit " -t nat -A OUTPUT ")
    _ _ hipt (space_not_mem_decimalNat uid) ?_
  rw [cmdIptablesReturn]
  repeat rw [lit_ofList]
  decide

theorem tokens_bypassUid (uid : Nat) :
    pieces [space] (bypassUid iptables uid) =
      iptables :: ([lit "-t", lit "nat", lit "-A", lit "OUTPUT", lit "-p", lit "tcp", lit "-m",
        lit "owner", lit "--uid-owner"] ++ decimalNat uid :: [lit "-j", lit "RETURN"]) := by
  refine @tokens_replace _ cmdIptablesReturn (lit "d 0.0.0.0") (lit "-m owner --uid-owner ") _
    (lit "-t nat -A OUTPUT -p tcp -m owner --uid-owner") (lit "-j RETURN")
    (lit " -t nat -A OUTPUT -p tcp ") _ _ hipt (space_not_mem_decimalNat uid) ?_
  rw [cmdIptablesReturn]
  repeat rw [lit_ofList]
  decide

theorem tokens_proxyUid (uid : Nat) :
    pieces [space] (proxyUid iptables uid) =
      iptables :: ([lit "-t", lit "nat", lit "-m", lit "owner", lit "--uid-owner"] ++
        decimalNat uid :: [lit "-A", lit "OUTPUT", lit "-p", lit "tcp", lit "-j", lit "DNAT",
          lit "--to-destination", lit "127.0.0.1:8123"]) := by
  refine @tokens_replace _ cmdIptablesDnatAddSocks (lit "t nat")
    (lit "-t nat -m owner --uid-owner ") _ (lit "-t nat -m owner --uid-owner")
    (lit "-A OUTPUT -p tcp -j DNAT --to-destination 127.0.0.1:8123") (lit " ") _ _ hipt
    (space_not_mem_decimalNat uid) ?_
  rw [cmdIptablesDnatAddSocks]
  repeat rw [lit_ofList]
  decide

theorem tokens_bypassDns :
    pieces [space] (replace (lit "-d 0.0.0.0") (lit "--dport 53") (cmdBypass iptables)) =
      iptables :: ([lit "-t", lit "nat", lit "-A", lit "OUTPUT", lit "-p", lit "tcp",
        lit "--dport"] ++ lit "53" :: [lit "-j", lit "RETURN"]) := by
  have hfill : lit "--dport 53" = lit "--dport " ++ lit "53" := by
    repeat rw [lit_ofList]
    decide
  have hword : space ∉ lit "53" := by
    rw [lit_ofList]
    decide
  rw [hfill]
  refine @tokens_replace _ cmdIptablesReturn (lit "d 0.0.0.0") (lit "--dport ") (lit "53")
    (lit "-t nat -A OUTPUT -p tcp --dport") (lit "-j RETURN") (lit " -t nat -A OUTPUT -p tcp ")
    _ _ hipt hword ?_
  rw [cmdIptablesReturn]
  repeat rw [lit_ofList]
  decide

end

/-! ### What the commands do -/

def leaveAddress (ip : Ip4) : Rule := { destination := some ip, target := .leave }

def leaveOwn (uid : Nat) : Rule := { uid := some uid, target := .leave }

def leaveDns : Rule := { protocol := some .tcp, dport := some 53, target := .leave }

def resolveDns : Rule :=
  { protocol := some .udp, dport := some 53, target := .dnat loopback 8153 }

def leaveUid (uid : Nat) : Rule := { protocol := some .tcp, uid := some uid, target := .leave }

def proxyAll : Rule := { protocol := some .tcp, target := .dnat loopback 8123 }

def proxyOne (uid : Nat) : Rule :=
  { protocol := some .tcp, uid := some uid, target := .dnat loopback 8123 }

section

variable {iptables : JString} (hipt : IsIptables iptables) (chain : List Rule)

include hipt

theorem exec_bypassAddress {address : JString} (haddress : space ∉ address) :
    exec iptables chain (bypassAddress iptables address) =
      (Ip4.parse address).elim chain fun ip => chain ++ [leaveAddress ip] := by
  obtain ⟨ht, hA, -, hd, -, -, hj, -⟩ := lookup_names
  rw [exec_of_tokens chain (tokens_bypassAddress hipt haddress)]
  simp only [List.cons_append, List.nil_append, readOptions, ht, hA, hd, hj, Opt.apply,
    Option.bind_eq_bind, Option.bind_some]
  cases Ip4.parse address with
  | none => rfl
  | some ip => rfl

theorem exec_bypassOwn (uid : Nat) :
    exec iptables chain (bypassOwn iptables uid) = chain ++ [leaveOwn uid] := by
  obtain ⟨ht, hA, -, -, hm, hu, hj, -⟩ := lookup_names
  rw [exec_of_tokens chain (tokens_bypassOwn hipt uid)]
  simp only [List.cons_append, List.nil_append, readOptions, ht, hA, hm, hu, hj, Opt.apply,
    readNat_decimalNat, Option.bind_eq_bind, Option.bind_some, Option.map_some, if_true]
  rfl

theorem exec_bypassUid (uid : Nat) :
    exec iptables chain (bypassUid iptables uid) = chain ++ [leaveUid uid] := by
  obtain ⟨ht, hA, hp, -, hm, hu, hj, -⟩ := lookup_names
  have htcp : readProtocol (lit "tcp") = some .tcp := if_pos rfl
  rw [exec_of_tokens chain (tokens_bypassUid hipt uid)]
  simp only [List.cons_append, List.nil_append, readOptions, ht, hA, hp, hm, hu, hj, Opt.apply,
    htcp, readNat_decimalNat, Option.bind_eq_bind, Option.bind_some, Option.map_some, if_true]
  rfl

theorem exec_proxyUid (uid : Nat) :
    exec iptables chain (proxyUid iptables uid) = chain ++ [proxyOne uid] := by
  obtain ⟨ht, hA, hp, -, hm, hu, hj, hto⟩ := lookup_names
  have htcp : readProtocol (lit "tcp") = some .tcp := if_pos rfl
  have hend : readEndpoint (lit "127.0.0.1:8123") = some (loopback, 8123) := by
    rw [lit_ofList]
    decide
  rw [exec_of_tokens chain (tokens_proxyUid hipt uid)]
  simp only [List.cons_append, List.nil_append, readOptions, ht, hA, hp, hm, hu, hj, hto, Opt.apply,
    htcp, hend, readNat_decimalNat, Option.bind_eq_bind, Option.bind_some, Option.map_some, if_true]
  simp [Draft.exec, Draft.target, dnat_ne_return, proxyOne]

/-- A command without a word filled in. -/
theorem exec_closed {args : JString} {words : List JString} {d : Draft}
    (h : pieces [space] args = words ∧ readOptions {} words = some d) :
    exec iptables chain (iptables ++ space :: args) = d.exec chain := by
  have htokens : pieces [space] (iptables ++ space :: args) = iptables :: words := by
    rw [pieces_singleton_joined hipt.plain.2.1, h.1]
  rw [exec_of_tokens chain htokens, h.2]
  rfl

theorem exec_ulimit : exec iptables chain (lit "ulimit -n 4096") = chain := by
  have htokens : pieces [space] (lit "ulimit -n 4096") = [lit "ulimit", lit "-n", lit "4096"] := by
    repeat rw [lit_ofList]
    decide
  rw [exec, htokens]
  exact if_neg hipt.plain.2.2

theorem exec_flush : exec iptables chain (iptables ++ lit " -t nat -F OUTPUT") = [] := by
  have hline : lit " -t nat -F OUTPUT" = space :: lit "-t nat -F OUTPUT" := by
    repeat rw [lit_ofList]
    decide
  have hread : pieces [space] (lit "-t nat -F OUTPUT") =
      [lit "-t", lit "nat", lit "-F", lit "OUTPUT"] ∧
      readOptions {} [lit "-t", lit "nat", lit "-F", lit "OUTPUT"] =
        some { table := some (lit "nat"), flush := some (lit "OUTPUT") } := by
    repeat rw [lit_ofList]
    decide
  rw [hline, exec_closed hipt chain hread]
  rfl

theorem exec_bypassDns :
    exec iptables chain (replace (lit "-d 0.0.0.0") (lit "--dport 53") (cmdBypass iptables)) =
      chain ++ [leaveDns] := by
  have hread : readOptions {} ([lit "-t", lit "nat", lit "-A", lit "OUTPUT", lit "-p", lit "tcp",
      lit "--dport"] ++ lit "53" :: [lit "-j", lit "RETURN"]) =
        some { table := some (lit "nat"), append := some (lit "OUTPUT"), protocol := some .tcp,
               dport := some 53, jump := some (lit "RETURN") } := by
    repeat rw [lit_ofList]
    decide
  rw [exec_of_tokens chain (tokens_bypassDns hipt), hread]
  rfl

theorem exec_resolveDns :
    exec iptables chain (iptables ++
      lit " -t nat -A OUTPUT -p udp --dport 53 -j DNAT --to-destination 127.0.0.1:" ++
        decimal 8153) = chain ++ [resolveDns] := by
  have hline : lit " -t nat -A OUTPUT -p udp --dport 53 -j DNAT --to-destination 127.0.0.1:" ++
      decimal 8153 =
        space ::
          lit "-t nat -A OUTPUT -p udp --dport 53 -j DNAT --to-destination 127.0.0.1:8153" := by
    repeat rw [lit_ofList]
    decide
  have hread : pieces [space]
      (lit "-t nat -A OUTPUT -p udp --dport 53 -j DNAT --to-destination 127.0.0.1:8153") =
        [lit "-t", lit "nat", lit "-A", lit "OUTPUT", lit "-p", lit "udp", lit "--dport", lit "53",
          lit "-j", lit "DNAT", lit "--to-destination", lit "127.0.0.1:8153"] ∧
      readOptions {} [lit "-t", lit "nat", lit "-A", lit "OUTPUT", lit "-p", lit "udp",
        lit "--dport", lit "53", lit "-j", lit "DNAT", lit "--to-destination",
        lit "127.0.0.1:8153"] =
        some { table := some (lit "nat"), append := some (lit "OUTPUT"), protocol := some .udp,
               dport := some 53, jump := some (lit "DNAT"),
               toDestination := some (loopback, 8153) } := by
    repeat rw [lit_ofList]
    decide
  rw [List.append_assoc, hline, exec_closed hipt chain hread]
  simp [Draft.exec, Draft.target, dnat_ne_return, resolveDns]

theorem exec_proxyAll :
    exec iptables chain (iptables ++ cmdIptablesDnatAddSocks) = chain ++ [proxyAll] := by
  have hline : cmdIptablesDnatAddSocks =
      space :: lit "-t nat -A OUTPUT -p tcp -j DNAT --to-destination 127.0.0.1:8123" := by
    rw [cmdIptablesDnatAddSocks]
    repeat rw [lit_ofList]
    decide
  have hread : pieces [space]
      (lit "-t nat -A OUTPUT -p tcp -j DNAT --to-destination 127.0.0.1:8123") =
        [lit "-t", lit "nat", lit "-A", lit "OUTPUT", lit "-p", lit "tcp", lit "-j", lit "DNAT",
          lit "--to-destination", lit "127.0.0.1:8123"] ∧
      readOptions {} [lit "-t", lit "nat", lit "-A", lit "OUTPUT", lit "-p", lit "tcp", lit "-j",
        lit "DNAT", lit "--to-destination", lit "127.0.0.1:8123"] =
        some { table := some (lit "nat"), append := some (lit "OUTPUT"), protocol := some .tcp,
               jump := some (lit "DNAT"), toDestination := some (loopback, 8123) } := by
    repeat rw [lit_ofList]
    decide
  rw [hline, exec_closed hipt chain hread]
  simp [Draft.exec, Draft.target, dnat_ne_return, proxyAll]

end

/-! ### The chain -/

/-- The rules for the apps. -/
def selection (config : NatConfig) (uids : List Nat) : List Rule :=
  if config.isGlobalProxy then [proxyAll]
  else if config.isBypassApps then uids.map leaveUid ++ [proxyAll]
  else uids.map proxyOne

/-- The text of an address: an IPv4 address, or an IPv6 address, which `iptables` has no use
for. -/
def ProxyAddress (proxy : JString) : Option Ip4 → Prop
  | some ip => proxy = ip.text
  | none => colon ∈ proxy ∧ ∀ c ∈ proxy, isHex c = true ∨ c = colon ∨ c = dot

theorem foldl_exec_map {iptables : JString} {command : Nat → JString} {rule : Nat → Rule}
    (h : ∀ chain u, exec iptables chain (command u) = chain ++ [rule u]) (uids : List Nat)
    (chain : List Rule) :
    (uids.map command).foldl (exec iptables) chain = chain ++ uids.map rule := by
  induction uids generalizing chain with
  | nil => simp
  | cons u uids ih => rw [List.map_cons, List.foldl_cons, h, ih, List.append_assoc]; rfl

theorem toUpperCase_text (ip : Ip4) : toUpperCase ip.text = ip.text := by
  refine (List.map_congr_left fun c hc => if_neg fun hlower => ?_).trans (List.map_id _)
  have hdot : c ≠ dot := by
    rintro rfl
    exact absurd hlower.1 (by decide)
  have hdigit : isDigit c = false := by
    rw [isDigit, Bool.and_eq_false_iff, decide_eq_false_iff_not, decide_eq_false_iff_not]
    exact .inr fun hle => absurd (UInt16.le_trans hlower.1 hle) (by decide)
  exact Ip4.not_mem_text hdot hdigit ip hc

/-- The rule for the proxy. -/
theorem foldl_proxy {iptables proxy : JString} (hipt : IsIptables iptables)
    {isIPv6Address : JString → Bool} (hcheck : TellsApart isIPv6Address) {address : Option Ip4}
    (h : ProxyAddress proxy address) (chain : List Rule) :
    (if !isIPv6Address (toUpperCase proxy) then [bypassAddress iptables proxy] else []).foldl
      (exec iptables) chain = chain ++ address.toList.map leaveAddress := by
  cases address with
  | some ip =>
    obtain rfl : proxy = ip.text := h
    rw [toUpperCase_text, hcheck ip]
    show exec iptables chain (bypassAddress iptables ip.text) = _
    rw [exec_bypassAddress hipt chain (Ip4.not_mem_text (by decide) (by decide) ip),
      Ip4.parse_text]
    rfl
  | none =>
    obtain ⟨hcolon, hunits⟩ := h
    have hspace : space ∉ proxy := by
      intro hmem
      rcases hunits space hmem with hhex | heq | heq
      · exact absurd hhex (by decide)
      · exact absurd heq (by decide)
      · exact absurd heq (by decide)
    rw [Option.toList_none, List.map_nil, List.append_nil]
    split
    · -- the address is not recognised, and the command fails
      show exec iptables chain (bypassAddress iptables proxy) = _
      rw [exec_bypassAddress hipt chain hspace, Ip4.parse_eq_none hcolon (by decide) (by decide)]
      rfl
    · rfl

section

variable {iptables : JString} (hipt : IsIptables iptables) {isIPv6Address : JString → Bool}
  (hcheck : TellsApart isIPv6Address) (order : HashOrder) (config : NatConfig) (myUid : Nat)
  (apps : Option (List ProxiedApp)) (installed : List ApplicationInfo)
  {address : Option Ip4} (hproxy : ProxyAddress config.proxy address)

include hipt hcheck hproxy

/-- **The chain that the commands leave**, whatever was there before. -/
theorem chain_setupIptables (chain : List Rule) :
    (setupIptables iptables isIPv6Address order config myUid apps installed).foldl
      (exec iptables) chain =
      (address.toList.map leaveAddress ++ [leaveAddress loopback, leaveOwn myUid]) ++
        (leaveDns :: resolveDns ::
          selection config (uidSet order (loadApps apps installed config.proxiedAppString))) := by
  have hspace : space ∉ lit "127.0.0.1" := by
    rw [lit_ofList]
    decide
  have hparse : Ip4.parse (lit "127.0.0.1") = some loopback := by
    rw [lit_ofList]
    decide
  have hloop := exec_bypassAddress hipt (address.toList.map leaveAddress) hspace
  rw [hparse, Option.elim_some] at hloop
  simp only [setupIptables, List.foldl_append, List.foldl_cons, List.foldl_nil, exec_ulimit hipt,
    exec_flush hipt, foldl_proxy hipt hcheck hproxy, List.nil_append, hloop, exec_bypassOwn hipt,
    exec_bypassDns hipt, exec_resolveDns hipt]
  cases hglobal : config.isGlobalProxy with
  | true => simp [selection, hglobal, exec_proxyAll hipt]
  | false =>
    cases hbypass : config.isBypassApps with
    | true =>
      simp [selection, hglobal, hbypass, exec_proxyAll hipt,
        foldl_exec_map (fun chain u => exec_bypassUid hipt chain u)]
    | false =>
      simp [selection, hglobal, hbypass,
        foldl_exec_map (fun chain u => exec_proxyUid hipt chain u)]

end

/-! ### What the chain does -/

section

variable (p : Packet) (uid : Nat)

theorem leaveAddress_matches (ip : Ip4) :
    (leaveAddress ip).matches p = true ↔ p.destination = ip := by
  simp [Rule.matches, leaveAddress]

theorem leaveOwn_matches : (leaveOwn uid).matches p = true ↔ p.uid = uid := by
  simp [Rule.matches, leaveOwn]

theorem leaveDns_matches : leaveDns.matches p = true ↔ p.protocol = .tcp ∧ p.port = 53 := by
  simp [Rule.matches, leaveDns]

theorem resolveDns_matches : resolveDns.matches p = true ↔ p.protocol = .udp ∧ p.port = 53 := by
  simp [Rule.matches, resolveDns]

theorem leaveUid_matches : (leaveUid uid).matches p = true ↔ p.protocol = .tcp ∧ p.uid = uid := by
  simp [Rule.matches, leaveUid]

theorem proxyAll_matches : proxyAll.matches p = true ↔ p.protocol = .tcp := by
  simp [Rule.matches, proxyAll]

theorem proxyOne_matches : (proxyOne uid).matches p = true ↔ p.protocol = .tcp ∧ p.uid = uid := by
  simp [Rule.matches, proxyOne]

/-- One of the rules for the uids matches. -/
theorem exists_matches_iff {rule : Nat → Rule} (uids : List Nat)
    (h : ∀ u, (rule u).matches p = true ↔ p.protocol = .tcp ∧ p.uid = u) :
    (∃ r ∈ uids.map rule, r.matches p = true) ↔ p.protocol = .tcp ∧ p.uid ∈ uids := by
  simp only [List.mem_map, exists_exists_and_eq_and, h]
  constructor
  · rintro ⟨u, hu, htcp, rfl⟩
    exact ⟨htcp, hu⟩
  · rintro ⟨htcp, hu⟩
    exact ⟨p.uid, hu, htcp, rfl⟩

end

theorem exempt_iff (address : Option Ip4) (myUid : Nat) (p : Packet) :
    (∃ r ∈ address.toList.map leaveAddress ++ [leaveAddress loopback, leaveOwn myUid],
      r.matches p = true) ↔
      address = some p.destination ∨ p.destination = loopback ∨ p.uid = myUid := by
  cases address with
  | none => simp [leaveAddress_matches, leaveOwn_matches]
  | some ip => simp [leaveAddress_matches, leaveOwn_matches, @eq_comm _ ip]

/-- The settings send the packet's uid through the proxy. -/
def Selected (config : NatConfig) (uids : List Nat) (uid : Nat) : Prop :=
  config.isGlobalProxy = true ∨ config.isBypassApps = true ∧ uid ∉ uids ∨
    config.isBypassApps = false ∧ uid ∈ uids

instance (config : NatConfig) (uids : List Nat) (uid : Nat) :
    Decidable (Selected config uids uid) := inferInstanceAs (Decidable (_ ∨ _))

theorem verdict_selection (config : NatConfig) (uids : List Nat) (p : Packet) :
    verdict (selection config uids) p =
      if p.protocol = .tcp ∧ Selected config uids p.uid then some (loopback, 8123) else none := by
  have hall : verdict [proxyAll] p = if p.protocol = .tcp then some (loopback, 8123) else none := by
    rw [verdict_cons]
    exact if_congr (proxyAll_matches p) rfl rfl
  by_cases hglobal : config.isGlobalProxy = true
  · simp [selection, Selected, hglobal, hall]
  by_cases hbypass : config.isBypassApps = true
  · have hleave : ∀ r ∈ uids.map leaveUid, r.target = .leave := by simp [leaveUid]
    have hmatch := exists_matches_iff p uids (leaveUid_matches p)
    have hselected : Selected config uids p.uid ↔ p.uid ∉ uids := by
      simp [Selected, hglobal, hbypass]
    rw [selection, if_neg hglobal, if_pos hbypass, verdict_append hleave, hall]
    refine (if_congr hmatch rfl rfl).trans ?_
    by_cases htcp : p.protocol = .tcp <;> by_cases hu : p.uid ∈ uids <;>
      simp [hselected, htcp, hu, Target.outcome]
  · have hproxy : ∀ r ∈ uids.map proxyOne, r.target = .dnat loopback 8123 := by simp [proxyOne]
    have hmatch := exists_matches_iff p uids (proxyOne_matches p)
    have hselected : Selected config uids p.uid ↔ p.uid ∈ uids := by
      simp [Selected, hglobal, hbypass]
    have happend := verdict_append hproxy [] p
    rw [List.append_nil] at happend
    rw [selection, if_neg hglobal, if_neg hbypass, happend]
    exact if_congr (hmatch.trans (and_congr_right' hselected.symm)) rfl rfl

/-- The chain, read from its first rule on. -/
theorem verdict_chain (config : NatConfig) (address : Option Ip4) (myUid : Nat) (uids : List Nat)
    (p : Packet) :
    verdict ((address.toList.map leaveAddress ++ [leaveAddress loopback, leaveOwn myUid]) ++
      (leaveDns :: resolveDns :: selection config uids)) p =
      if address = some p.destination ∨ p.destination = loopback ∨ p.uid = myUid then none
      else if p.protocol = .tcp ∧ p.port = 53 then none
      else if p.protocol = .udp ∧ p.port = 53 then some (loopback, 8153)
      else if p.protocol = .tcp ∧ Selected config uids p.uid then some (loopback, 8123)
      else none := by
  have hleave : ∀ r ∈ address.toList.map leaveAddress ++ [leaveAddress loopback, leaveOwn myUid],
      r.target = .leave := by
    intro r hr
    simp only [List.mem_append, List.mem_map, List.mem_cons, List.not_mem_nil, or_false] at hr
    rcases hr with ⟨ip, -, rfl⟩ | rfl | rfl <;> rfl
  rw [verdict_append hleave, verdict_cons, verdict_cons, verdict_selection]
  refine if_congr (exempt_iff address myUid p) rfl ?_
  exact if_congr (leaveDns_matches p) rfl (if_congr (resolveDns_matches p) rfl rfl)

/-- An installed app with this uid is marked proxied. -/
def Marked (installed : List ApplicationInfo) (proxiedAppString : JString) (uid : Nat) : Prop :=
  ∃ app ∈ getProxiedApps installed proxiedAppString, app.proxied = true ∧ app.uid = uid

theorem mem_uidSet (order : HashOrder) (installed : List ApplicationInfo) (s : JString)
    (uid : Nat) : uid ∈ uidSet order (getProxiedApps installed s) ↔ Marked installed s uid := by
  rw [uidSet, order.mem_iff]
  simp only [List.mem_map, List.mem_filter, Marked, and_assoc]

/-- **Which packets the chain sends where.**  On a service that has just been created, TCP goes
to the proxy unless it is exempt by its destination, by the app's own uid or by port 53, if the
settings select its uid; UDP to port 53 goes to the resolver unless it is exempt. -/
theorem nat_selection {iptables : JString} (hipt : IsIptables iptables)
    {isIPv6Address : JString → Bool} (hcheck : TellsApart isIPv6Address) (order : HashOrder)
    (config : NatConfig) (address : Option Ip4) (hproxy : ProxyAddress config.proxy address)
    (myUid : Nat) (installed : List ApplicationInfo) (before : List Rule) (p : Packet) :
    let chain := (setupIptables iptables isIPv6Address order config myUid none installed).foldl
      (exec iptables) before
    (verdict chain p = some (loopback, 8123) ↔
      p.protocol = .tcp ∧ address ≠ some p.destination ∧ p.destination ≠ loopback ∧
        p.uid ≠ myUid ∧ p.port ≠ 53 ∧
        (config.isGlobalProxy = true ∨
          config.isBypassApps = true ∧ ¬ Marked installed config.proxiedAppString p.uid ∨
          config.isBypassApps = false ∧ Marked installed config.proxiedAppString p.uid)) ∧
    (verdict chain p = some (loopback, 8153) ↔
      p.protocol = .udp ∧ p.port = 53 ∧ address ≠ some p.destination ∧
        p.destination ≠ loopback ∧ p.uid ≠ myUid) := by
  intro chain
  have hchain : chain = _ :=
    chain_setupIptables hipt hcheck order config myUid none installed hproxy before
  have hselected : Selected config (uidSet order (loadApps none installed config.proxiedAppString))
      p.uid ↔ config.isGlobalProxy = true ∨
        config.isBypassApps = true ∧ ¬ Marked installed config.proxiedAppString p.uid ∨
        config.isBypassApps = false ∧ Marked installed config.proxiedAppString p.uid := by
    rw [Selected, loadApps, mem_uidSet]
  rw [hchain, verdict_chain, ← hselected]
  -- the chain asks in turn: exempt, TCP to port 53, UDP to port 53, TCP of a selected uid
  refine ⟨⟨fun h => ?_, ?_⟩, ⟨fun h => ?_, ?_⟩⟩
  · split_ifs at h with hexempt hdns hudp hsel
    · exact absurd (congrArg Prod.snd (Option.some.inj h)) (by decide)
    · simp only [not_or] at hexempt
      exact ⟨hsel.1, hexempt.1, hexempt.2.1, hexempt.2.2, fun hport => hdns ⟨hsel.1, hport⟩, hsel.2⟩
  · rintro ⟨htcp, haddress, hloop, hown, hport, hsel⟩
    have hudp : p.protocol ≠ .udp := by
      rw [htcp]
      decide
    rw [if_neg (by simp only [haddress, hloop, hown, or_self, not_false_eq_true]),
      if_neg fun h => hport h.2, if_neg fun h => hudp h.1, if_pos ⟨htcp, hsel⟩]
  · split_ifs at h with hexempt hdns hudp hsel
    · simp only [not_or] at hexempt
      exact ⟨hudp.1, hudp.2, hexempt.1, hexempt.2.1, hexempt.2.2⟩
    · exact absurd (congrArg Prod.snd (Option.some.inj h)) (by decide)
  · rintro ⟨hudp, hport, haddress, hloop, hown⟩
    have htcp : p.protocol ≠ .tcp := by
      rw [hudp]
      decide
    rw [if_neg (by simp only [haddress, hloop, hown, or_self, not_false_eq_true]),
      if_neg fun h => htcp h.1, if_pos ⟨hudp, hport⟩]

/-- The set walked through in the order of its first additions. -/
def firstAdded : HashOrder where
  iterate := List.dedup
  nodup := List.nodup_dedup
  mem_iff := fun _ _ => List.mem_dedup

/-- A check that tells the addresses apart by their colons. -/
def hasColon (s : JString) : Bool := colon ∈ s

theorem tellsApart_hasColon : TellsApart hasColon := fun ip =>
  decide_eq_false (Ip4.not_mem_text (by decide) (by decide) ip)

/-- A proxy with an IPv4 address and two proxied apps. -/
def perApp : NatConfig :=
  { isUdpDns := false, proxy := lit "203.0.113.9", sitekey := [], encMethod := [], route := .all,
    remotePort := 8388, localPort := 1080, isGlobalProxy := false, isBypassApps := false,
    proxiedAppString := lit "10007|10012" }

def mail : ApplicationInfo := ⟨10007, lit "Mail", lit "com.example.mail"⟩

/-- The mail app's packets go to the proxy. -/
theorem nat_selection_perApp :
    verdict ((setupIptables (lit "iptables") hasColon firstAdded perApp 10001 none [mail]).foldl
      (exec (lit "iptables")) []) ⟨.tcp, ⟨198, 51, 100, 1⟩, 443, 10007⟩ =
        some (loopback, 8123) := by
  have hproxy : ProxyAddress perApp.proxy (some ⟨203, 0, 113, 9⟩) := by
    show lit "203.0.113.9" = Ip4.text ⟨203, 0, 113, 9⟩
    rw [lit_ofList]
    decide
  refine (nat_selection (.inr rfl) tellsApart_hasColon firstAdded perApp
    (some ⟨203, 0, 113, 9⟩) hproxy 10001 [mail] [] ⟨.tcp, ⟨198, 51, 100, 1⟩, 443, 10007⟩).1.mpr
      ⟨rfl, by decide, by decide, by decide, by decide, ?_⟩
  refine .inr (.inr ⟨rfl, ⟨10007, lit "Mail", lit "com.example.mail", true⟩, ?_, rfl, rfl⟩)
  decide +kernel

end NatRules
