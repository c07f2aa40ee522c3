/-
`iptables`, as far as the NAT service uses it.

A command line is cut at its blanks and read option by option; every option that is used has
one argument.  A command that cannot be read changes nothing.  The rules of a chain are tried
in order and the first one that matches decides.

* `Ip4.parse_text` — an address is read back from its text;
* `exec_of_tokens` — what a command does, from its words;
* `verdict_append` — a chain as its parts.
-/
import ReShadowsocks.Config
import ReShadowsocks.JavaString

namespace Iptables

open Json JavaString

/-! ### Addresses -/

def dot : UInt16 := 0x2E

structure Ip4 where
  a : UInt8
  b : UInt8
  c : UInt8
  d : UInt8
  deriving DecidableEq, Repr

def loopback : Ip4 := ⟨127, 0, 0, 1⟩

def Ip4.text (ip : Ip4) : JString :=
  decimalNat ip.a.toNat ++ dot :: (decimalNat ip.b.toNat ++ dot ::
    (decimalNat ip.c.toNat ++ dot :: decimalNat ip.d.toNat))

def readNat (s : JString) : Option Nat :=
  if s ≠ [] ∧ s.all isDigit then some (natOf s) else none

def readByte (s : JString) : Option UInt8 :=
  (readNat s).bind fun n => if n < 256 then some (UInt8.ofNat n) else none

def Ip4.parse (s : JString) : Option Ip4 :=
  match pieces [dot] s with
  | [a, b, c, d] => do
    let a ← readByte a
    let b ← readByte b
    let c ← readByte c
    let d ← readByte d
    return ⟨a, b, c, d⟩
  | _ => none

/-- An address and a port. -/
def readEndpoint (s : JString) : Option (Ip4 × Nat) :=
  match pieces [colon] s with
  | [address, port] => do
    let ip ← Ip4.parse address
    let n ← readNat port
    return (ip, n)
  | _ => none

/-! ### Rules -/

inductive Protocol
  | tcp
  | udp
  | other (number : Nat)
  deriving DecidableEq, Repr

/-- A packet of a local process. -/
structure Packet where
  protocol : Protocol
  destination : Ip4
  port : Nat
  uid : Nat
  deriving DecidableEq, Repr

inductive Target
  /-- `RETURN`: the packet is left alone. -/
  | leave
  | dnat (address : Ip4) (port : Nat)
  deriving DecidableEq, Repr

/-- What a packet must have to match; `none` is anything. -/
structure Rule where
  protocol : Option Protocol := none
  destination : Option Ip4 := none
  dport : Option Nat := none
  uid : Option Nat := none
  target : Target
  deriving DecidableEq, Repr

def Rule.matches (r : Rule) (p : Packet) : Bool :=
  r.protocol.all (p.protocol == ·) && r.destination.all (p.destination == ·) &&
    r.dport.all (p.port == ·) && r.uid.all (p.uid == ·)

def Target.outcome : Target → Option (Ip4 × Nat)
  | .leave => none
  | .dnat address port => some (address, port)

/-- Where the chain sends a packet: the first rule that matches decides. -/
def verdict (chain : List Rule) (p : Packet) : Option (Ip4 × Nat) :=
  (chain.find? fun r => r.matches p).bind fun r => r.target.outcome

/-! ### Commands -/

inductive Opt
  | table
  | flush
  | append
  | protocol
  | destination
  | dport
  | matchModule
  | uidOwner
  | jump
  | toDestination
  deriving DecidableEq

def Opt.names : List (JString × Opt) :=
  [(lit "-t", .table), (lit "-F", .flush), (lit "-A", .append), (lit "-p", .protocol),
    (lit "-d", .destination), (lit "--dport", .dport), (lit "-m", .matchModule),
    (lit "--uid-owner", .uidOwner), (lit "-j", .jump), (lit "--to-destination", .toDestination)]

/-- A command that is being read. -/
structure Draft where
  table : Option JString := none
  flush : Option JString := none
  append : Option JString := none
  owner : Bool := false
  protocol : Option Protocol := none
  destination : Option Ip4 := none
  dport : Option Nat := none
  uid : Option Nat := none
  jump : Option JString := none
  toDestination : Option (Ip4 × Nat) := none
  deriving DecidableEq

def readProtocol (s : JString) : Option Protocol :=
  if s = lit "tcp" then some .tcp else if s = lit "udp" then some .udp else none

/-- One option.  Ports need a protocol, uids the module `owner`, and a new destination the target
`DNAT`. -/
def Opt.apply (draft : Draft) (arg : JString) : Opt → Option Draft
  | .table => some { draft with table := some arg }
  | .flush => some { draft with flush := some arg }
  | .append => some { draft with append := some arg }
  | .protocol => (readProtocol arg).map fun p => { draft with protocol := some p }
  | .destination => (Ip4.parse arg).map fun ip => { draft with destination := some ip }
  | .dport =>
    if draft.protocol.isSome then (readNat arg).map fun n => { draft with dport := some n }
    else none
  | .matchModule => if arg = lit "owner" then some { draft with owner := true } else none
  | .uidOwner =>
    if draft.owner then (readNat arg).map fun n => { draft with uid := some n } else none
  | .jump => some { draft with jump := some arg }
  | .toDestination =>
    if draft.jump = some (lit "DNAT") then
      (readEndpoint arg).map fun e => { draft with toDestination := some e }
    else none

def readOptions (draft : Draft) : List JString → Option Draft
  | [] => some draft
  | [_] => none
  | opt :: arg :: rest => do
    let o ← Opt.names.lookup opt
    let draft ← o.apply draft arg
    readOptions draft rest

def Draft.target (d : Draft) : Option Target :=
  if d.jump = some (lit "RETURN") then some .leave
  else if d.jump = some (lit "DNAT") then d.toDestination.map fun e => .dnat e.1 e.2
  else none

/-- What the command does to the chain `OUTPUT` of the table `nat`. -/
def Draft.exec (chain : List Rule) (d : Draft) : List Rule :=
  if d.table = some (lit "nat") then
    if d.flush = some (lit "OUTPUT") then []
    else if d.append = some (lit "OUTPUT") then
      d.target.elim chain fun target =>
        chain ++ [⟨d.protocol, d.destination, d.dport, d.uid, target⟩]
    else chain
  else chain

/-- The chain after a line of the root shell; `iptables` is the name of the program. -/
def exec (iptables : JString) (chain : List Rule) (line : JString) : List Rule :=
  match pieces [space] line with
  | program :: args =>
    if program = iptables then (readOptions {} args).elim chain (Draft.exec chain) else chain
  | [] => chain

/-! ### Reading addresses -/

theorem readNat_decimalNat (n : Nat) : readNat (decimalNat n) = some n := by
  have hall : (decimalNat n).all isDigit = true :=
    List.all_eq_true.mpr fun c hc => isDigit_of_mem_decimalNat hc
  rw [readNat, if_pos ⟨decimalNat_ne_nil n, hall⟩, natOf_decimalNat]

theorem readByte_decimalNat (b : UInt8) : readByte (decimalNat b.toNat) = some b := by
  rw [readByte, readNat_decimalNat, Option.bind_some, if_pos b.toNat_lt, UInt8.ofNat_toNat]

/-- **An address is read back from its text.** -/
theorem Ip4.parse_text (ip : Ip4) : Ip4.parse ip.text = some ip := by
  have hdot (n : Nat) : dot ∉ decimalNat n := not_mem_decimalNat (by decide) n
  have hpieces : pieces [dot] ip.text = [decimalNat ip.a.toNat, decimalNat ip.b.toNat,
      decimalNat ip.c.toNat, decimalNat ip.d.toNat] := by
    rw [Ip4.text, pieces_singleton_joined (hdot _), pieces_singleton_joined (hdot _),
      pieces_singleton_joined (hdot _), pieces_singleton_of_not_mem (hdot _)]
  rw [Ip4.parse, hpieces]
  simp only [readByte_decimalNat, Option.bind_eq_bind, Option.bind_some]
  rfl

theorem isDigit_of_readByte {s : JString} {b : UInt8} (h : readByte s = some b) :
    ∀ c ∈ s, isDigit c = true := by
  obtain ⟨n, hn, -⟩ := Option.bind_eq_some_iff.mp h
  have hcond := (Option.ite_none_right_eq_some.mp hn).1
  exact List.all_eq_true.mp hcond.2

/-- Addresses have digits and dots only. -/
theorem Ip4.parse_eq_none {s : JString} {c : UInt16} (hc : c ∈ s) (hdot : c ≠ dot)
    (hdigit : isDigit c = false) : Ip4.parse s = none := by
  obtain ⟨p, hp, hcp⟩ := exists_mem_pieces hc hdot
  have hbad {b : UInt8} : readByte p ≠ some b := by
    intro h
    rw [isDigit_of_readByte h c hcp] at hdigit
    exact nomatch hdigit
  refine Option.eq_none_iff_forall_ne_some.mpr fun ip hip => ?_
  unfold Ip4.parse at hip
  split at hip
  · rename_i w x y z hpieces
    obtain ⟨a, ha, hip⟩ := Option.bind_eq_some_iff.mp hip
    obtain ⟨b, hb, hip⟩ := Option.bind_eq_some_iff.mp hip
    obtain ⟨c, hc, hip⟩ := Option.bind_eq_some_iff.mp hip
    obtain ⟨d, hd, -⟩ := Option.bind_eq_some_iff.mp hip
    rw [hpieces] at hp
    simp only [List.mem_cons, List.not_mem_nil, or_false] at hp
    rcases hp with rfl | rfl | rfl | rfl
    · exact hbad ha
    · exact hbad hb
    · exact hbad hc
    · exact hbad hd
  · exact nomatch hip

theorem Ip4.not_mem_text {c : UInt16} (hdot : c ≠ dot) (hdigit : isDigit c = false) (ip : Ip4) :
    c ∉ ip.text := by
  intro hc
  have hnone := Ip4.parse_eq_none hc hdot hdigit
  rw [Ip4.parse_text] at hnone
  cases hnone

theorem exec_of_tokens {iptables line : JString} {args : List JString} (chain : List Rule)
    (h : pieces [space] line = iptables :: args) :
    exec iptables chain line = (readOptions {} args).elim chain (Draft.exec chain) := by
  rw [exec, h]
  exact if_pos rfl

/-! ### Chains as their parts -/

@[simp]
theorem verdict_nil (p : Packet) : verdict [] p = none := rfl

theorem verdict_cons (r : Rule) (chain : List Rule) (p : Packet) :
    verdict (r :: chain) p = if r.matches p then r.target.outcome else verdict chain p := by
  rw [verdict, List.find?_cons]
  split
  · rename_i h
    rw [if_pos h]
    rfl
  · rename_i h
    rw [if_neg (by simp [h])]
    rfl

/-- Rules with one target, tried one after the other. -/
theorem verdict_append {rules : List Rule} {target : Target} (h : ∀ r ∈ rules, r.target = target)
    (chain : List Rule) (p : Packet) :
    verdict (rules ++ chain) p =
      if ∃ r ∈ rules, r.matches p = true then target.outcome else verdict chain p := by
  induction rules with
  | nil => simp
  | cons r rules ih =>
    have hr := h r List.mem_cons_self
    rw [List.cons_append, verdict_cons, ih fun r' hr' => h r' (List.mem_cons_of_mem _ hr'), hr]
    by_cases hmatch : r.matches p = true
    · rw [if_pos hmatch, if_pos ⟨r, List.mem_cons_self, hmatch⟩]
    · have hiff : (∃ r' ∈ rules, r'.matches p = true) ↔ ∃ r' ∈ r :: rules, r'.matches p = true := by
        rw [List.exists_mem_cons_iff, or_iff_right hmatch]
      rw [if_neg hmatch]
      exact if_congr hiff rfl rfl

end Iptables
