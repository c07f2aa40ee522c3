/-
`ReindeerUtils.crashRecovery`.

After a crash the daemons may still run, and what is left of them are their pid files.  The
function reads the two files of a task in one `try`, signals both pids, and collects commands that
remove the files whatever came of the reading; the commands are run behind the loop.

* `signal_mem_iff` — a pid is signalled exactly if both files of a task hold integers and it is one
  of them;
* `recorded_killed_iff` — so every recorded pid is signalled exactly if each stands in such a pair;
* `record_lost` — a daemon of which only one file is there is not signalled, and its file is
  removed.
-/
import ReShadowsocks.JavaString
import ReShadowsocks.Service

namespace CrashRecovery

open Json JavaString Service

/-! ### Files -/

inductive Kind
  | nat
  | vpn
  deriving DecidableEq

structure PidFile where
  task : Task
  kind : Kind
  deriving DecidableEq

/-- The tasks of the loops, in order. -/
def tasks : List Task := [.ssLocal, .ssTunnel, .pdnsd, .redsocks, .tun2socks]

def taskName : Task → JString
  | .ssLocal => lit "ss-local"
  | .ssTunnel => lit "ss-tunnel"
  | .pdnsd => lit "pdnsd"
  | .redsocks => lit "redsocks"
  | .tun2socks => lit "tun2socks"

/-- What is found under the name of a pid file. -/
inductive Content
  | missing
  | unreadable
  | text (s : JString)
  deriving DecidableEq

/-- `Source.fromFile(..).mkString.trim.toInt`; `none` is an exception. -/
def Content.toInt : Content → Option Int32
  | .missing => none
  | .unreadable => none
  | .text s => parseInt (trim s)

/-! ### Commands -/

inductive Effect
  | signal (pid : Int32)
  | remove (path : JString)
  /-- A command that neither signals nor removes. -/
  | other (line : JString)
  deriving DecidableEq

/-- What a line of the shell does. -/
def shell (line : JString) : Effect :=
  match pieces [space] line with
  | [program, option, arg] =>
    if program = lit "kill" ∧ option = lit "-9" then (parseInt arg).elim (.other line) .signal
    else if program = lit "rm" ∧ option = lit "-f" then .remove arg
    else .other line
  | _ => .other line

/-- `Console.isRoot`. -/
def isRoot : Bool := false

def runCommand (commands : List JString) : List Effect := commands.map shell

def runRootCommand (commands : List JString) : List Effect :=
  if !isRoot then [] else commands.map shell

section

variable (base : JString)

/-- The path of the pid file: `Path.BASE`, the task and the ending. -/
def PidFile.path (f : PidFile) : JString :=
  base ++ taskName f.task ++
    match f.kind with
    | .nat => lit "-nat.pid"
    | .vpn => lit "-vpn.pid"

def chmods (task : Task) : List JString :=
  [lit "chmod 666 " ++ PidFile.path base ⟨task, .nat⟩,
    lit "chmod 666 " ++ PidFile.path base ⟨task, .vpn⟩]

def kill (pid : Int32) : JString := lit "kill -9 " ++ decimal pid.toInt

def removals (task : Task) : List JString :=
  [lit "rm -f " ++ PidFile.path base ⟨task, .nat⟩,
    lit "rm -f " ++ (base ++ taskName task ++ lit "-nat.conf"),
    lit "rm -f " ++ PidFile.path base ⟨task, .vpn⟩,
    lit "rm -f " ++ (base ++ taskName task ++ lit "-vpn.conf")]

variable (files : PidFile → Content)

/-- The two pids of a task, if neither reading throws. -/
def pids (task : Task) : Option (Int32 × Int32) := do
  let pidNat ← (files ⟨task, .nat⟩).toInt
  let pidVpn ← (files ⟨task, .vpn⟩).toInt
  return (pidNat, pidVpn)

/-- The commands collected so far, and what has been done. -/
structure Progress where
  cmd : List JString
  done : List Effect

/-- The body of the loop. -/
def recover (st : Progress) (task : Task) : Progress :=
  let st : Progress := match pids files task with
    | some (pidNat, pidVpn) =>
      ⟨st.cmd ++ [kill pidNat, kill pidVpn], st.done ++ [.signal pidNat, .signal pidVpn]⟩
    | none => st
  { st with cmd := st.cmd ++ removals base task }

def crashRecovery (iptables : JString) : List Effect :=
  let started := runRootCommand (tasks.flatMap (chmods base))
  let st := tasks.foldl (recover base files) ⟨[], started⟩
  st.done ++ runCommand st.cmd ++ runRootCommand st.cmd ++
    runRootCommand [iptables ++ lit " -t nat -F OUTPUT"]

end

/-! ### What the commands do -/

theorem shell_kill (pid : Int32) : shell (kill pid) = .signal pid := by
  have htext : kill pid = lit "kill" ++ space :: (lit "-9" ++ space :: decimal pid.toInt) := by
    have hlit : lit "kill -9 " = lit "kill" ++ space :: (lit "-9" ++ [space]) := by
      repeat rw [lit_ofList]
      decide
    rw [kill, hlit]
    simp
  have hwords : space ∉ lit "kill" ∧ space ∉ lit "-9" := by
    repeat rw [lit_ofList]
    decide
  have hpid : space ∉ decimal pid.toInt := not_mem_decimal (by decide) (by decide) _
  rw [shell, htext, pieces_singleton_joined hwords.1, pieces_singleton_joined hwords.2,
    pieces_singleton_of_not_mem hpid]
  show (if _ then _ else _) = _
  rw [if_pos ⟨rfl, rfl⟩, parseInt_decimal]
  rfl

theorem pieces_rm (path : JString) :
    pieces [space] (lit "rm -f " ++ path) = lit "rm" :: lit "-f" :: pieces [space] path := by
  have hlit : lit "rm -f " ++ path = lit "rm" ++ space :: (lit "-f" ++ space :: path) := by
    rw [lit_ofList, lit_ofList, lit_ofList]
    rfl
  have hwords : space ∉ lit "rm" ∧ space ∉ lit "-f" := by
    repeat rw [lit_ofList]
    decide
  rw [hlit, pieces_singleton_joined hwords.1, pieces_singleton_joined hwords.2]

theorem rm_ne_kill : lit "rm" ≠ lit "kill" := by
  repeat rw [lit_ofList]
  decide

theorem shell_rm_ne_signal (path : JString) (pid : Int32) :
    shell (lit "rm -f " ++ path) ≠ .signal pid := by
  obtain ⟨word, words, hpath⟩ := exists_pieces [space] path
  rw [shell, pieces_rm, hpath]
  cases words with
  | nil =>
    show (if _ then _ else _) ≠ _
    rw [if_neg fun h => rm_ne_kill h.1]
    split
    · exact Effect.noConfusion
    · exact Effect.noConfusion
  | cons word' words => exact Effect.noConfusion

/-- A file is removed, if its path is one word. -/
theorem shell_rm {path : JString} (h : space ∉ path) :
    shell (lit "rm -f " ++ path) = .remove path := by
  rw [shell, pieces_rm, pieces_singleton_of_not_mem h]
  show (if _ then _ else _) = _
  rw [if_neg fun h => rm_ne_kill h.1, if_pos ⟨rfl, rfl⟩]

/-! ### What the loop does -/

section

variable {base iptables : JString} {files : PidFile → Content} {pid : Int32}

/-- The pids that the loop signals for a task. -/
def signalled (files : PidFile → Content) (task : Task) : List Int32 :=
  (pids files task).elim [] fun p => [p.1, p.2]

theorem recover_eq (st : Progress) (task : Task) :
    recover base files st task =
      ⟨st.cmd ++ ((signalled files task).map kill ++ removals base task),
        st.done ++ (signalled files task).map .signal⟩ := by
  unfold recover signalled
  cases pids files task with
  | none => simp
  | some p => simp

/-- **Run.**  The signals and the commands of the loop, task by task. -/
theorem foldl_recover (ts : List Task) (st : Progress) :
    ts.foldl (recover base files) st =
      ⟨st.cmd ++ ts.flatMap fun task => (signalled files task).map kill ++ removals base task,
        st.done ++ ts.flatMap fun task => (signalled files task).map .signal⟩ := by
  induction ts generalizing st with
  | nil => simp
  | cons task ts ih => simp only [List.foldl_cons, ih, recover_eq, List.flatMap_cons,
      List.append_assoc]

/-- Everything is signalled before the first command is run. -/
theorem crashRecovery_eq :
    crashRecovery base files iptables =
      (tasks.flatMap fun task => (signalled files task).map .signal) ++
        runCommand (tasks.flatMap fun task =>
          (signalled files task).map kill ++ removals base task) := by
  simp [crashRecovery, foldl_recover, runRootCommand, isRoot]

theorem mem_tasks (task : Task) : task ∈ tasks := by
  cases task <;> decide

theorem mem_signalled_iff {task : Task} :
    pid ∈ signalled files task ↔ ∃ pidNat pidVpn, (files ⟨task, .nat⟩).toInt = some pidNat ∧
      (files ⟨task, .vpn⟩).toInt = some pidVpn ∧ (pid = pidNat ∨ pid = pidVpn) := by
  cases hnat : (files ⟨task, .nat⟩).toInt with
  | none => simp [signalled, pids, hnat]
  | some pidNat =>
    cases hvpn : (files ⟨task, .vpn⟩).toInt with
    | none => simp [signalled, pids, hnat, hvpn]
    | some pidVpn => simp [signalled, pids, hnat, hvpn]

theorem exists_rm_of_mem_removals {task : Task} {line : JString} (h : line ∈ removals base task) :
    ∃ path, line = lit "rm -f " ++ path := by
  simp only [removals, List.mem_cons, List.not_mem_nil, or_false] at h
  rcases h with h | h | h | h
  all_goals exact ⟨_, h⟩

/-- **Whom the recovery signals.** -/
theorem signal_mem_iff :
    .signal pid ∈ crashRecovery base files iptables ↔ ∃ task, pid ∈ signalled files task := by
  rw [crashRecovery_eq, List.mem_append, runCommand, List.mem_map]
  constructor
  · rintro (h | ⟨line, hline, hsignal⟩)
    · obtain ⟨task, -, htask⟩ := List.mem_flatMap.mp h
      obtain ⟨pid', hpid, heq⟩ := List.mem_map.mp htask
      exact ⟨task, Effect.signal.inj heq ▸ hpid⟩
    · -- a line that signals is a `kill`, for a pid that was signalled before
      obtain ⟨task, -, htask⟩ := List.mem_flatMap.mp hline
      rcases List.mem_append.mp htask with hkill | hrm
      · obtain ⟨pid', hpid, rfl⟩ := List.mem_map.mp hkill
        rw [shell_kill] at hsignal
        exact ⟨task, Effect.signal.inj hsignal ▸ hpid⟩
      · obtain ⟨path, rfl⟩ := exists_rm_of_mem_removals hrm
        exact absurd hsignal (shell_rm_ne_signal path pid)
  · rintro ⟨task, hpid⟩
    exact .inl (List.mem_flatMap.mpr ⟨task, mem_tasks task, List.mem_map.mpr ⟨pid, hpid, rfl⟩⟩)

/-- The pid is signalled before the file is removed. -/
def SignalledFirst (effects : List Effect) (pid : Int32) (path : JString) : Prop :=
  ∃ before after, effects = before ++ .signal pid :: after ∧ .remove path ∉ before

theorem signalledFirst_iff (path : JString) :
    SignalledFirst (crashRecovery base files iptables) pid path ↔
      .signal pid ∈ crashRecovery base files iptables := by
  constructor
  · rintro ⟨before, after, heffects, -⟩
    rw [heffects]
    exact List.mem_append_right _ List.mem_cons_self
  · intro hmem
    obtain ⟨task, hpid⟩ := signal_mem_iff.mp hmem
    have hloop : .signal pid ∈ tasks.flatMap fun task => (signalled files task).map Effect.signal :=
      List.mem_flatMap.mpr ⟨task, mem_tasks task, List.mem_map.mpr ⟨pid, hpid, rfl⟩⟩
    obtain ⟨before, after, hsplit⟩ := List.append_of_mem hloop
    -- the loop does nothing but signal
    have hbefore : .remove path ∉ before := by
      intro hremove
      have hin : .remove path ∈ tasks.flatMap fun task =>
          (signalled files task).map Effect.signal := by
        rw [hsplit]
        exact List.mem_append_left _ hremove
      obtain ⟨task', -, htask⟩ := List.mem_flatMap.mp hin
      obtain ⟨pid', -, heq⟩ := List.mem_map.mp htask
      exact Effect.noConfusion heq
    rw [SignalledFirst, crashRecovery_eq, hsplit, List.append_assoc, List.cons_append]
    exact ⟨before, _, rfl, hbefore⟩

/-- The recovery signals the pid in every file that holds an integer, before it removes the
file. -/
def KillsRecorded (base iptables : JString) (files : PidFile → Content) : Prop :=
  ∀ f pid, (files f).toInt = some pid →
    SignalledFirst (crashRecovery base files iptables) pid (f.path base)

/-- **When every recorded daemon is signalled**: exactly if each recorded pid stands in the file of
some task of which both files hold integers. -/
theorem recorded_killed_iff (base iptables : JString) (files : PidFile → Content) :
    KillsRecorded base iptables files ↔
      ∀ f pid, (files f).toInt = some pid → ∃ task pidNat pidVpn,
        (files ⟨task, .nat⟩).toInt = some pidNat ∧ (files ⟨task, .vpn⟩).toInt = some pidVpn ∧
          (pid = pidNat ∨ pid = pidVpn) := by
  refine forall_congr' fun f => forall_congr' fun pid => forall_congr' fun _ => ?_
  rw [signalledFirst_iff, signal_mem_iff]
  exact exists_congr fun task => mem_signalled_iff

theorem space_not_mem_path (hbase : space ∉ base) (f : PidFile) : space ∉ f.path base := by
  have hname : space ∉ taskName f.task := by
    unfold taskName
    repeat rw [lit_ofList]
    cases f.task <;> decide
  have hending : space ∉ lit "-nat.pid" ∧ space ∉ lit "-vpn.pid" := by
    repeat rw [lit_ofList]
    decide
  unfold PidFile.path
  cases f.kind with
  | nat => simp [hbase, hname, hending.1]
  | vpn => simp [hbase, hname, hending.2]

/-- The files are removed, whatever was in them. -/
theorem remove_mem (hbase : space ∉ base) (f : PidFile) :
    .remove (f.path base) ∈ crashRecovery base files iptables := by
  have hline : lit "rm -f " ++ f.path base ∈ removals base f.task := by
    obtain ⟨task, kind⟩ := f
    cases kind with
    | nat => simp [removals]
    | vpn => simp [removals]
  rw [crashRecovery_eq, ← shell_rm (space_not_mem_path hbase f)]
  refine List.mem_append_right _ (List.mem_map_of_mem (List.mem_flatMap.mpr ?_))
  exact ⟨f.task, mem_tasks f.task, List.mem_append_right _ hline⟩

end

def sampleBase : JString := lit "/data/data/com.biganiseed.reindeer/app_bin/"

/-- What a crash of the VPN service leaves: the file of a mode that was never used is missing. -/
def vpnOnly (f : PidFile) : Content :=
  if f = ⟨.ssLocal, .vpn⟩ then .text (lit "4242\n") else .missing

/-- **A record is lost**: `ss-local` is not signalled, and its pid file is removed. -/
theorem record_lost :
    (vpnOnly ⟨.ssLocal, .vpn⟩).toInt = some 4242 ∧
      (∀ pid, .signal pid ∉ crashRecovery sampleBase vpnOnly (lit "iptables")) ∧
      .remove (PidFile.path sampleBase ⟨.ssLocal, .vpn⟩) ∈
        crashRecovery sampleBase vpnOnly (lit "iptables") ∧
      ¬ KillsRecorded sampleBase (lit "iptables") vpnOnly := by
  have hread : (vpnOnly ⟨.ssLocal, .vpn⟩).toInt = some 4242 := by
    show parseInt (trim (lit "4242\n")) = some 4242
    rw [lit_ofList]
    decide
  have hbase : space ∉ sampleBase := by
    rw [sampleBase, lit_ofList]
    decide
  have hnone : ∀ pid, .signal pid ∉ crashRecovery sampleBase vpnOnly (lit "iptables") := by
    intro pid hmem
    obtain ⟨task, hpid⟩ := signal_mem_iff.mp hmem
    obtain ⟨pidNat, -, hnat, -⟩ := mem_signalled_iff.mp hpid
    cases task <;> exact absurd hnat (by simp [vpnOnly, Content.toInt])
  refine ⟨hread, hnone, remove_mem hbase _, fun hkills => ?_⟩
  exact hnone 4242 ((signalledFirst_iff _).mp (hkills ⟨.ssLocal, .vpn⟩ 4242 hread))

end CrashRecovery
