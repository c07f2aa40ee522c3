/-
The table of installed apps.

`LocalAppRefresher` starts a thread for each broadcast of the package manager.  The threads read
and write the table `apps` without regard to each other, one statement at a time: the thread for
a removed package deletes its rows, the one for an added package inserts a row, and the one for a
replaced package updates its rows and inserts one if there was none.

* `Inv` — the rows of the package are those that the writes so far leave, in their order;
* `Inv.step` — kept by every step of an update of the package;
* `update_consistent_iff` — the orders of the writes after which the package has one row;
* `two_rows_after_update` — the update of a package that leaves two rows.
-/
import Mathlib.Data.List.Nodup
import Mathlib.Data.List.Perm.Subperm
import ReShadowsocks.Config
import ReShadowsocks.Transition

namespace AppTable

open Transition

/-! ### Rows and statements -/

structure Row where
  package : JString
  name : Option JString
  details : JString
  isSystem : Bool
  deriving DecidableEq

/-- What `new App(pm, packageName)` reads of an installed package. -/
structure AppInfo where
  name : Option JString
  details : JString
  isSystem : Bool
  deriving DecidableEq

def AppInfo.row (app : AppInfo) (packageName : JString) : Row :=
  ⟨packageName, app.name, app.details, app.isSystem⟩

def isRowOf (p : JString) (row : Row) : Bool := row.package == p

/-- The number of rows of a package. -/
def rowsOf (p : JString) (table : List Row) : Nat := table.countP (isRowOf p)

/-- The rows of the other packages. -/
def otherRows (p : JString) (table : List Row) : List Row := table.filter fun row => !isRowOf p row

/-- `db.delete(TABLE_NAME, "package='p'")`. -/
def delete (p : JString) (table : List Row) : List Row := otherRows p table

/-- `db.insertOrThrow`; no column is unique but the number of the row. -/
def insert (row : Row) (table : List Row) : List Row := table ++ [row]

/-- `db.update(TABLE_NAME, values, "package='p'")`. -/
def update (row : Row) (table : List Row) : List Row :=
  table.map fun old => if isRowOf row.package old then row else old

/-! ### Threads -/

inductive BroadcastAction
  | packageRemoved
  | packageAdded
  | packageReplaced
  deriving DecidableEq

structure Broadcast where
  action : BroadcastAction
  packageName : JString
  deriving DecidableEq

/-- Where a thread is: at its start, behind the query of `deleteApp`, behind `new App`, behind an
update that changed no row, at its end. -/
inductive Phase
  | started
  | queried
  | looked (app : AppInfo)
  | absent (app : AppInfo)
  | ended
  deriving DecidableEq

structure Thread where
  broadcast : Broadcast
  phase : Phase
  deriving DecidableEq

/-- `turns` are the writes of the threads in their order, each under the action it is for; the
insertion behind an update that changed no row belongs to the update. -/
structure State where
  table : List Row
  threads : List Thread
  turns : List BroadcastAction
  deriving DecidableEq

/-- What one step of a thread comes to. -/
structure Effect where
  phase : Phase
  table : List Row
  turn : List BroadcastAction

/-- The next step of a thread.  `found` is what the package manager answers; `none` is
`NameNotFoundException`, which ends the thread. -/
def exec (b : Broadcast) (found : Option AppInfo) (table : List Row) (phase : Phase) :
    Option Effect :=
  match b.action, phase with
  -- `deleteApp`
  | .packageRemoved, .started => some ⟨.queried, table, []⟩
  | .packageRemoved, .queried => some ⟨.ended, delete b.packageName table, [.packageRemoved]⟩
  -- `addApp`
  | .packageAdded, .started => some ⟨found.elim .ended .looked, table, []⟩
  | .packageAdded, .looked app =>
    some ⟨.ended, insert (app.row b.packageName) table, [.packageAdded]⟩
  -- `updateOrAddApp`
  | .packageReplaced, .started => some ⟨found.elim .ended .looked, table, []⟩
  | .packageReplaced, .looked app =>
    some ⟨if rowsOf b.packageName table = 0 then .absent app else .ended,
      update (app.row b.packageName) table, [.packageReplaced]⟩
  | .packageReplaced, .absent app => some ⟨.ended, insert (app.row b.packageName) table, []⟩
  | _, _ => none

/-- A broadcast arrives, or a thread makes a step. -/
inductive Action
  | receive (isCaching : Bool) (b : Broadcast)
  | run (i : Nat) (found : Option AppInfo)

def step (s : State) : Action → Option State
  | .receive true _ => some s
  | .receive false b => some { s with threads := s.threads ++ [⟨b, .started⟩] }
  | .run i found =>
    match s.threads[i]? with
    | some th =>
      (exec th.broadcast found s.table th.phase).map fun e =>
        ⟨e.table, s.threads.set i ⟨th.broadcast, e.phase⟩, s.turns ++ e.turn⟩
    | none => none

def start (table : List Row) : State := ⟨table, [], []⟩

/-- The broadcasts of the system when it updates a package. -/
def packageUpdate (p : JString) : List Broadcast :=
  [⟨.packageRemoved, p⟩, ⟨.packageAdded, p⟩, ⟨.packageReplaced, p⟩]

/-! ### What a statement does to the rows of a package -/

variable {p : JString} {table : List Row}

theorem rowsOf_delete (p : JString) (table : List Row) : rowsOf p (delete p table) = 0 := by
  rw [rowsOf, delete, otherRows, List.countP_eq_zero]
  intro row hrow
  simpa using (List.mem_filter.mp hrow).2

theorem rowsOf_insert {row : Row} (table : List Row) (h : row.package = p) :
    rowsOf p (insert row table) = rowsOf p table + 1 := by
  simp [rowsOf, insert, List.countP_append, isRowOf, h]

theorem isRowOf_update {row old : Row} (h : row.package = p) :
    isRowOf p (if isRowOf row.package old then row else old) = isRowOf p old := by
  subst h
  by_cases hold : isRowOf row.package old = true
  · rw [if_pos hold, hold]
    exact beq_self_eq_true _
  · rw [if_neg hold]

theorem rowsOf_update {row : Row} (table : List Row) (h : row.package = p) :
    rowsOf p (update row table) = rowsOf p table := by
  rw [rowsOf, update, List.countP_map]
  exact congrArg (fun q => table.countP q) (funext fun old => isRowOf_update h)

theorem otherRows_delete (p : JString) (table : List Row) :
    otherRows p (delete p table) = otherRows p table := by
  simp [otherRows, delete]

theorem otherRows_insert {row : Row} (table : List Row) (h : row.package = p) :
    otherRows p (insert row table) = otherRows p table := by
  simp [otherRows, insert, isRowOf, h]

theorem otherRows_update {row : Row} (table : List Row) (h : row.package = p) :
    otherRows p (update row table) = otherRows p table := by
  have hsame : ((fun old => !isRowOf p old) ∘
      fun old => if isRowOf row.package old then row else old) = fun old => !isRowOf p old :=
    funext fun old => congrArg _ (isRowOf_update h)
  rw [otherRows, update, List.filter_map, hsame]
  subst h
  refine (List.map_congr_left fun old hold => if_neg ?_).trans (List.map_id _)
  simpa using (List.mem_filter.mp hold).2

/-! ### What the threads have done -/

/-- The thread has not written yet. -/
def Phase.waits : Phase → Bool
  | .started | .queried | .looked _ => true
  | .absent _ | .ended => false

/-- The thread has found no row to update. -/
def Phase.isAbsent : Phase → Bool
  | .absent _ => true
  | _ => false

/-- The insertions that belong to updates and are still to come. -/
def pending (threads : List Thread) : Nat := threads.countP (·.phase.isAbsent)

/-- The number of rows that writes in this order leave, from one row. -/
def replay (turns : List BroadcastAction) : Nat :=
  turns.foldl (fun n action =>
    match action with
    | .packageRemoved => 0
    | .packageAdded => n + 1
    | .packageReplaced => max n 1) 1

theorem pending_of_isAbsent {l r : List Thread} {th : Thread} (h : th.phase.isAbsent = true) :
    pending (l ++ th :: r) = pending (l ++ r) + 1 := by
  simp only [pending, List.countP_append, List.countP_cons, h, if_true]
  omega

theorem pending_of_not_isAbsent {l r : List Thread} {th : Thread}
    (h : th.phase.isAbsent = false) : pending (l ++ th :: r) = pending (l ++ r) := by
  simp only [pending, List.countP_append, List.countP_cons, h, Bool.false_eq_true, if_false]
  omega

/-- The threads of an update of `p` and the table, at any time. -/
structure Inv (p : JString) (first : List Row) (s : State) : Prop where
  others : otherRows p s.table = otherRows p first
  rows : rowsOf p s.table + pending s.threads = replay s.turns
  before : .packageRemoved ∉ s.turns → 1 ≤ rowsOf p s.table ∧ pending s.threads = 0
  late : pending s.threads ≠ 0 → .packageReplaced ∈ s.turns
  nodup : s.turns.Nodup
  known : ∀ action ∈ s.turns, ∃ th ∈ s.threads, th.broadcast.action = action
  own : ∀ th ∈ s.threads, th.broadcast.packageName = p
  waiting : ∀ th ∈ s.threads, th.phase.waits = true → th.broadcast.action ∉ s.turns
  removed : ∀ th ∈ s.threads, th.broadcast.action = .packageRemoved → th.phase = .ended →
    .packageRemoved ∈ s.turns

theorem inv_start (h : rowsOf p table = 1) : Inv p table (start table) where
  others := rfl
  rows := h
  before _ := ⟨Nat.le_of_eq h.symm, rfl⟩
  late h := absurd rfl h
  nodup := List.nodup_nil
  known _ h := absurd h List.not_mem_nil
  own _ h := absurd h List.not_mem_nil
  waiting _ h := absurd h List.not_mem_nil
  removed _ h := absurd h List.not_mem_nil

section

variable {first : List Row} {s t : State} {l r : List Thread} {th : Thread}

/-- What a step of a thread can do. -/
theorem exec_cases {b : Broadcast} {found : Option AppInfo} {phase : Phase} {e : Effect}
    (h : exec b found table phase = some e) :
    (phase = .started ∧ e.table = table ∧ e.turn = [] ∧ e.phase.isAbsent = false ∧
      (b.action = .packageRemoved → e.phase ≠ .ended)) ∨
    (b.action = .packageRemoved ∧ phase = .queried ∧
      e = ⟨.ended, delete b.packageName table, [.packageRemoved]⟩) ∨
    (b.action = .packageAdded ∧ ∃ app, phase = .looked app ∧
      e = ⟨.ended, insert (app.row b.packageName) table, [.packageAdded]⟩) ∨
    (b.action = .packageReplaced ∧ ∃ app, phase = .looked app ∧
      e = ⟨if rowsOf b.packageName table = 0 then .absent app else .ended,
        update (app.row b.packageName) table, [.packageReplaced]⟩) ∨
    (b.action = .packageReplaced ∧ ∃ app, phase = .absent app ∧
      e = ⟨.ended, insert (app.row b.packageName) table, []⟩) := by
  have hfound : (found.elim Phase.ended Phase.looked).isAbsent = false := by
    cases found with
    | none => rfl
    | some app => rfl
  unfold exec at h
  split at h <;> simp only [Option.some_inj, reduceCtorEq] at h <;> subst h
  · exact .inl ⟨rfl, rfl, rfl, rfl, fun _ => by simp⟩
  · rename_i hb
    exact .inr (.inl ⟨hb, rfl, rfl⟩)
  · rename_i hb
    exact .inl ⟨rfl, rfl, rfl, hfound, fun h => absurd (hb.symm.trans h) (by simp)⟩
  · rename_i app hb
    exact .inr (.inr (.inl ⟨hb, app, rfl, rfl⟩))
  · rename_i hb
    exact .inl ⟨rfl, rfl, rfl, hfound, fun h => absurd (hb.symm.trans h) (by simp)⟩
  · rename_i app hb
    exact .inr (.inr (.inr (.inl ⟨hb, app, rfl, rfl⟩)))
  · rename_i app hb
    exact .inr (.inr (.inr (.inr ⟨hb, app, rfl, rfl⟩)))

theorem mem_of_split (hs : s.threads = l ++ th :: r) : th ∈ s.threads := by
  rw [hs]
  simp

/-- The part of the invariant that is about the threads and their turns, behind a step. -/
theorem Inv.replace (h : Inv p first s) (hs : s.threads = l ++ th :: r)
    (hdistinct : ((l ++ th :: r).map (·.broadcast.action)).Nodup) {phase : Phase}
    {table : List Row} {turn : List BroadcastAction}
    (hturn : turn = [] ∨ turn = [th.broadcast.action] ∧ th.phase.waits = true)
    (hwaits : phase.waits = true → th.phase.waits = true ∧ turn = [])
    (hremoved : th.broadcast.action = .packageRemoved → phase = .ended →
      .packageRemoved ∈ s.turns ++ turn)
    (hothers : otherRows p table = otherRows p s.table)
    (hrows : rowsOf p table + pending (l ++ ⟨th.broadcast, phase⟩ :: r) =
      replay (s.turns ++ turn))
    (hbefore : .packageRemoved ∉ s.turns ++ turn →
      1 ≤ rowsOf p table ∧ pending (l ++ ⟨th.broadcast, phase⟩ :: r) = 0)
    (hlate : pending (l ++ ⟨th.broadcast, phase⟩ :: r) ≠ 0 →
      .packageReplaced ∈ s.turns ++ turn) :
    Inv p first ⟨table, l ++ ⟨th.broadcast, phase⟩ :: r, s.turns ++ turn⟩ := by
  have hmem : ∀ x, x ∈ l ++ ⟨th.broadcast, phase⟩ :: r →
      x = ⟨th.broadcast, phase⟩ ∨ x ∈ s.threads ∧ x.broadcast.action ≠ th.broadcast.action := by
    intro x hx
    rw [hs]
    exact eq_or_mem_of_replace hdistinct hx
  have hth := mem_of_split hs
  refine ⟨hothers.trans h.others, hrows, hbefore, hlate, ?_, ?_, ?_, ?_, ?_⟩
  · show (s.turns ++ turn).Nodup
    rcases hturn with rfl | ⟨rfl, hw⟩
    · rw [List.append_nil]
      exact h.nodup
    · rw [← List.concat_eq_append]
      exact h.nodup.concat (h.waiting th hth hw)
  · intro action haction
    rcases List.mem_append.mp haction with hold | hnew
    · have hknown := h.known action hold
      rw [hs] at hknown
      obtain ⟨x, hx, hact⟩ := @exists_mem_replace _ _
        (fun x : Thread => x.broadcast.action = action) _ _ [] _ ⟨th.broadcast, phase⟩ hknown
        (fun h => h) fun _ _ h => h
      rw [List.append_nil] at hx
      exact ⟨x, hx, hact⟩
    · refine ⟨⟨th.broadcast, phase⟩, by simp, ?_⟩
      rcases hturn with rfl | ⟨rfl, -⟩
      · exact absurd hnew List.not_mem_nil
      · exact (List.mem_singleton.mp hnew).symm
  · intro x hx
    rcases hmem x hx with rfl | ⟨hx, -⟩
    · exact h.own th hth
    · exact h.own x hx
  · intro x hx hw
    show x.broadcast.action ∉ s.turns ++ turn
    rcases hmem x hx with rfl | ⟨hx, hne⟩
    · obtain ⟨hw, rfl⟩ := hwaits hw
      rw [List.append_nil]
      exact h.waiting th hth hw
    · rw [List.mem_append, not_or]
      refine ⟨h.waiting x hx hw, fun hmem => ?_⟩
      rcases hturn with rfl | ⟨rfl, -⟩
      · exact absurd hmem List.not_mem_nil
      · exact hne (List.mem_singleton.mp hmem)
  · intro x hx hact hend
    rcases hmem x hx with rfl | ⟨hx, -⟩
    · exact hremoved hact hend
    · exact List.mem_append_left _ (h.removed x hx hact hend)

theorem replay_append (turns : List BroadcastAction) :
    replay (turns ++ [.packageRemoved]) = 0 ∧
      replay (turns ++ [.packageAdded]) = replay turns + 1 ∧
      replay (turns ++ [.packageReplaced]) = max (replay turns) 1 := by
  simp only [replay, List.foldl_append]
  exact ⟨rfl, rfl, rfl⟩

/-! One lemma for each statement.  The thread stands between `l` and `r`, and the threads are for
different actions. -/

theorem pending_around (hs : s.threads = l ++ th :: r) (hphase : th.phase.isAbsent = false) :
    pending (l ++ r) = pending s.threads := by
  rw [hs, pending_of_not_isAbsent hphase]

variable (h : Inv p first s) (hs : s.threads = l ++ th :: r)
  (hdistinct : ((l ++ th :: r).map (·.broadcast.action)).Nodup)

include h hs hdistinct

/-- Before its first statement a thread changes nothing but itself. -/
theorem Inv.look {phase : Phase} (hphase : th.phase = .started) (habsent : phase.isAbsent = false)
    (hended : th.broadcast.action = .packageRemoved → phase ≠ .ended) :
    Inv p first ⟨s.table, l ++ ⟨th.broadcast, phase⟩ :: r, s.turns ++ []⟩ := by
  have hwaits : th.phase.waits = true := by rw [hphase]; rfl
  have hpending : pending (l ++ ⟨th.broadcast, phase⟩ :: r) = pending s.threads := by
    rw [pending_of_not_isAbsent habsent, pending_around hs (by rw [hphase]; rfl)]
  refine h.replace hs hdistinct (.inl rfl) (fun _ => ⟨hwaits, rfl⟩)
    (fun hact hend => absurd hend (hended hact)) rfl ?_ ?_ ?_
  · rw [List.append_nil, hpending, h.rows]
  · rw [List.append_nil, hpending]
    exact h.before
  · rw [List.append_nil, hpending]
    exact h.late

/-- The rows are deleted.  No update has found none before that. -/
theorem Inv.delete (haction : th.broadcast.action = .packageRemoved)
    (hphase : th.phase = .queried) :
    Inv p first ⟨delete p s.table, l ++ ⟨th.broadcast, .ended⟩ :: r,
      s.turns ++ [.packageRemoved]⟩ := by
  have hwaits : th.phase.waits = true := by rw [hphase]; rfl
  have hnot : .packageRemoved ∉ s.turns := haction ▸ h.waiting th (mem_of_split hs) hwaits
  have hzero : pending (l ++ ⟨th.broadcast, .ended⟩ :: r) = 0 := by
    rw [pending_of_not_isAbsent rfl, pending_around hs (by rw [hphase]; rfl)]
    exact (h.before hnot).2
  refine h.replace hs hdistinct (.inr ⟨by rw [haction], hwaits⟩) (fun hw => nomatch hw)
    (fun _ _ => by simp) (otherRows_delete p s.table) ?_ ?_ ?_
  · rw [rowsOf_delete, hzero, (replay_append s.turns).1]
  · exact fun hmem => absurd (by simp) hmem
  · exact fun hne => absurd hzero hne

/-- A row is inserted. -/
theorem Inv.insert (haction : th.broadcast.action = .packageAdded) {app : AppInfo}
    (hphase : th.phase = .looked app) :
    Inv p first ⟨insert (app.row p) s.table, l ++ ⟨th.broadcast, .ended⟩ :: r,
      s.turns ++ [.packageAdded]⟩ := by
  have hwaits : th.phase.waits = true := by rw [hphase]; rfl
  have hpending : pending (l ++ ⟨th.broadcast, .ended⟩ :: r) = pending s.threads := by
    rw [pending_of_not_isAbsent rfl, pending_around hs (by rw [hphase]; rfl)]
  have hcount := @rowsOf_insert p (app.row p) s.table rfl
  refine h.replace hs hdistinct (.inr ⟨by rw [haction], hwaits⟩) (fun hw => nomatch hw)
    (fun hact _ => absurd (haction.symm.trans hact) (by simp)) (otherRows_insert s.table rfl)
    ?_ ?_ ?_
  · rw [hcount, hpending, (replay_append s.turns).2.1, ← h.rows]
    omega
  · intro hmem
    rw [hcount, hpending]
    exact ⟨by omega, (h.before fun hold => hmem (List.mem_append_left _ hold)).2⟩
  · rw [hpending]
    exact fun hne => List.mem_append_left _ (h.late hne)

/-- The rows are updated; if there are none, the insertion is still to come. -/
theorem Inv.update (haction : th.broadcast.action = .packageReplaced) {app : AppInfo}
    (hphase : th.phase = .looked app) :
    Inv p first ⟨update (app.row p) s.table,
      l ++ ⟨th.broadcast, if rowsOf p s.table = 0 then .absent app else .ended⟩ :: r,
      s.turns ++ [.packageReplaced]⟩ := by
  have hwaits : th.phase.waits = true := by rw [hphase]; rfl
  have hnot : .packageReplaced ∉ s.turns := haction ▸ h.waiting th (mem_of_split hs) hwaits
  have hnone : pending s.threads = 0 := not_not.mp fun hne => hnot (h.late hne)
  have hcount := @rowsOf_update p (app.row p) s.table rfl
  have hrows := h.rows
  refine h.replace hs hdistinct (.inr ⟨by rw [haction], hwaits⟩) ?_
    (fun hact _ => absurd (haction.symm.trans hact) (by simp)) (otherRows_update s.table rfl)
    ?_ ?_ (fun _ => by simp)
  · split
    · exact fun hw => nomatch hw
    · exact fun hw => nomatch hw
  · rw [hcount, (replay_append s.turns).2.2]
    split
    · rw [pending_of_isAbsent rfl, pending_around hs (by rw [hphase]; rfl)]
      omega
    · rw [pending_of_not_isAbsent rfl, pending_around hs (by rw [hphase]; rfl)]
      omega
  · intro hmem
    obtain ⟨hpos, -⟩ := h.before fun hold => hmem (List.mem_append_left _ hold)
    rw [hcount, if_neg (by omega), pending_of_not_isAbsent rfl,
      pending_around hs (by rw [hphase]; rfl)]
    exact ⟨hpos, hnone⟩

/-- The row is inserted that was to be updated. -/
theorem Inv.insertAbsent (haction : th.broadcast.action = .packageReplaced) {app : AppInfo}
    (hphase : th.phase = .absent app) :
    Inv p first ⟨AppTable.insert (app.row p) s.table, l ++ ⟨th.broadcast, .ended⟩ :: r,
      s.turns ++ []⟩ := by
  have hpending : pending (l ++ ⟨th.broadcast, .ended⟩ :: r) + 1 = pending s.threads := by
    rw [pending_of_not_isAbsent rfl, hs, pending_of_isAbsent (by rw [hphase]; rfl)]
  have hcount := @rowsOf_insert p (app.row p) s.table rfl
  have hrows := h.rows
  refine h.replace hs hdistinct (.inl rfl) (fun hw => nomatch hw)
    (fun hact _ => absurd (haction.symm.trans hact) (by simp)) (otherRows_insert s.table rfl)
    ?_ ?_ ?_
  · rw [hcount, List.append_nil]
    omega
  · intro hmem
    rw [List.append_nil] at hmem
    have hnone := (h.before hmem).2
    omega
  · intro _
    rw [List.append_nil]
    exact h.late (by omega)

/-- **Step.**  A thread of the update makes a step. -/
theorem Inv.exec {found : Option AppInfo} {e : Effect}
    (he : exec th.broadcast found s.table th.phase = some e) :
    Inv p first ⟨e.table, l ++ ⟨th.broadcast, e.phase⟩ :: r, s.turns ++ e.turn⟩ := by
  have hown := h.own th (mem_of_split hs)
  rcases exec_cases he with ⟨hphase, htable, hturn, habsent, hended⟩ | ⟨haction, hphase, rfl⟩ |
    ⟨haction, app, hphase, rfl⟩ | ⟨haction, app, hphase, rfl⟩ | ⟨haction, app, hphase, rfl⟩
  · rw [htable, hturn]
    exact h.look hs hdistinct hphase habsent hended
  · rw [hown]
    exact h.delete hs hdistinct haction hphase
  · rw [hown]
    exact h.insert hs hdistinct haction hphase
  · rw [hown]
    exact h.update hs hdistinct haction hphase
  · rw [hown]
    exact h.insertAbsent hs hdistinct haction hphase

end

/-! ### An update of a package -/

section

variable {first : List Row} {s t : State}

/-- A broadcast arrives in the order of the update. -/
theorem Inv.receive (h : Inv p first s) {b : Broadcast} (hown : b.packageName = p)
    (hnew : b.action ∉ s.threads.map (·.broadcast.action)) :
    Inv p first { s with threads := s.threads ++ [⟨b, .started⟩] } := by
  have hpending : pending (s.threads ++ [⟨b, .started⟩]) = pending s.threads := by
    rw [pending_of_not_isAbsent rfl, List.append_nil]
  refine ⟨h.others, ?_, ?_, ?_, h.nodup, ?_, ?_, ?_, ?_⟩
  · rw [hpending, h.rows]
  · rw [hpending]
    exact h.before
  · rw [hpending]
    exact h.late
  · intro action haction
    obtain ⟨th, hth, hact⟩ := h.known action haction
    exact ⟨th, List.mem_append_left _ hth, hact⟩
  · exact List.forall_mem_append.mpr ⟨h.own, List.forall_mem_singleton.mpr hown⟩
  · refine List.forall_mem_append.mpr ⟨h.waiting, List.forall_mem_singleton.mpr fun _ hturn => ?_⟩
    obtain ⟨th, hth, hact⟩ := h.known b.action hturn
    exact hnew (hact ▸ List.mem_map_of_mem hth)
  · exact List.forall_mem_append.mpr
      ⟨h.removed, List.forall_mem_singleton.mpr fun _ hend => nomatch hend⟩

/-- The threads are those of an update that has not got further than its last broadcast. -/
def Updating (p : JString) (s : State) : Prop :=
  s.threads.map (·.broadcast) <+: packageUpdate p

theorem Updating.nodup (h : Updating p s) : (s.threads.map (·.broadcast.action)).Nodup := by
  have hall : ((packageUpdate p).map (·.action)).Nodup := by
    show [BroadcastAction.packageRemoved, .packageAdded, .packageReplaced].Nodup
    decide
  have hsub := (h.map (·.action)).sublist
  rw [List.map_map] at hsub
  exact hall.sublist hsub

/-- **Step.** -/
theorem Inv.step {a : Action} (hstep : step s a = some t) (hupdating : Updating p t)
    (h : Updating p s → Inv p first s) : Inv p first t := by
  cases a with
  | receive isCaching b =>
    cases isCaching with
    | true =>
      obtain rfl := Option.some.inj hstep
      exact h hupdating
    | false =>
      obtain rfl := Option.some.inj hstep
      have hnodup := hupdating.nodup
      unfold Updating at hupdating
      simp only [List.map_append, List.map_singleton] at hupdating hnodup
      have hown : b.packageName = p := by
        have hb : b ∈ packageUpdate p := hupdating.subset (by simp)
        simp only [packageUpdate, List.mem_cons, List.not_mem_nil, or_false] at hb
        rcases hb with rfl | rfl | rfl <;> rfl
      refine (h ((List.prefix_append _ _).trans hupdating)).receive hown fun hmem => ?_
      exact (List.nodup_append.mp hnodup).2.2 _ hmem _ (List.mem_singleton.mpr rfl) rfl
  | run i found =>
    simp only [AppTable.step] at hstep
    split at hstep
    · rename_i th hget
      obtain ⟨e, he, rfl⟩ := Option.map_eq_some_iff.mp hstep
      obtain ⟨l, r, -, hs, hset⟩ := exists_split_of_getElem? hget
      rw [hset] at hupdating ⊢
      have hsame : Updating p s := by
        unfold Updating at hupdating ⊢
        rw [hs]
        simpa using hupdating
      exact (h hsame).exec hs (hs ▸ hsame.nodup) he
    · exact absurd hstep (by simp)

/-- **Run.** -/
theorem inv_run (hone : rowsOf p first = 1) {actions : List Action}
    (hrun : run step (start first) actions = some s) (hupdating : Updating p s) :
    Inv p first s := by
  have hinv := (reach_of_run hrun).invariant (I := fun s => Updating p s → Inv p first s)
    (fun _ => inv_start hone) fun s a t ih _ hstep hup => Inv.step hstep hup ih
  exact hinv hupdating

/-- The orders of the writes after which there is one row.  The last two are those in which the
package manager did not know the package when it was asked for it the first or the second time. -/
def goodTurns : List (List BroadcastAction) :=
  [[.packageRemoved, .packageAdded, .packageReplaced],
    [.packageAdded, .packageRemoved, .packageReplaced],
    [.packageReplaced, .packageRemoved, .packageAdded],
    [.packageRemoved, .packageReplaced],
    [.packageRemoved, .packageAdded]]

theorem replay_eq_one_iff {turns : List BroadcastAction} (hnodup : turns.Nodup)
    (hremoved : .packageRemoved ∈ turns) : replay turns = 1 ↔ turns ∈ goodTurns := by
  have hlength : turns.length ≤ 3 := by
    have hall : turns ⊆ [.packageRemoved, .packageAdded, .packageReplaced] := by
      intro action _
      cases action <;> decide
    exact (List.subperm_of_subset hnodup hall).length_le
  match turns with
  | [] => exact absurd hremoved List.not_mem_nil
  | [a] => revert hnodup hremoved; cases a <;> decide
  | [a, b] => revert hnodup hremoved; cases a <;> cases b <;> decide
  | [a, b, c] => revert hnodup hremoved; cases a <;> cases b <;> cases c <;> decide
  | _ :: _ :: _ :: _ :: _ =>
    simp only [List.length_cons] at hlength
    omega

/-- The table after an update of `p`: one row for it, and the same rows for the others. -/
def Consistent (p : JString) (first table : List Row) : Prop :=
  rowsOf p table = 1 ∧ otherRows p table = otherRows p first

/-- **When an update leaves one row**: the delete is not the last of the writes, and the update does
not come between it and the insert. -/
theorem update_consistent_iff {first : List Row} (hone : rowsOf p first = 1)
    {actions : List Action} (hrun : run step (start first) actions = some s)
    (hthreads : s.threads.map (·.broadcast) = packageUpdate p)
    (hended : ∀ th ∈ s.threads, th.phase = .ended) :
    Consistent p first s.table ↔ s.turns ∈ goodTurns := by
  have hupdating : Updating p s := by
    unfold Updating
    exact hthreads ▸ List.prefix_rfl
  have hinv := inv_run hone hrun hupdating
  have hpending : pending s.threads = 0 := by
    refine List.countP_eq_zero.mpr fun th hth => ?_
    rw [hended th hth]
    simp [Phase.isAbsent]
  have hremoved : .packageRemoved ∈ s.turns := by
    have hmem : ⟨.packageRemoved, p⟩ ∈ s.threads.map (·.broadcast) := by
      rw [hthreads]
      exact List.mem_cons_self
    obtain ⟨th, hth, hb⟩ := List.mem_map.mp hmem
    exact hinv.removed th hth (by rw [hb]) (hended th hth)
  have hrows := hinv.rows
  rw [hpending, Nat.add_zero] at hrows
  rw [Consistent, hrows, ← replay_eq_one_iff hinv.nodup hremoved]
  exact and_iff_left hinv.others

end

/-! ### Two updates -/

def anApp : JString := lit "org.example.app"

def anotherApp : JString := lit "org.example.other"

def oldInfo : AppInfo := ⟨some (lit "App"), lit "1.0", false⟩

def newInfo : AppInfo := ⟨some (lit "App"), lit "1.1", false⟩

def someTable : List Row := [oldInfo.row anApp, oldInfo.row anotherApp]

/-- The broadcasts of an update, and then the steps of the threads. -/
def updateRun (steps : List Nat) : List Action :=
  (packageUpdate anApp).map (.receive false) ++ steps.map fun i => .run i (some newInfo)

/-- One thread after the other. -/
theorem update_consistent_in_order :
    Consistent anApp someTable [oldInfo.row anotherApp, newInfo.row anApp] := by
  have hrun : run step (start someTable) (updateRun [0, 0, 1, 1, 2, 2]) =
      some ⟨[oldInfo.row anotherApp, newInfo.row anApp],
        (packageUpdate anApp).map fun b => ⟨b, .ended⟩,
        [.packageRemoved, .packageAdded, .packageReplaced]⟩ := by
    decide +kernel
  refine (update_consistent_iff (by decide +kernel) hrun rfl ?_).mpr (by decide)
  intro th hth
  obtain ⟨b, -, rfl⟩ := List.mem_map.mp hth
  rfl

/-- **An update that leaves two rows**: the update finds no row behind the delete, and inserts one
as the insert does. -/
theorem two_rows_after_update :
    rowsOf anApp someTable = 1 ∧
      run step (start someTable) (updateRun [0, 0, 1, 2, 2, 1, 2]) =
        some ⟨[oldInfo.row anotherApp, newInfo.row anApp, newInfo.row anApp],
          (packageUpdate anApp).map fun b => ⟨b, .ended⟩,
          [.packageRemoved, .packageReplaced, .packageAdded]⟩ := by
  decide +kernel

end AppTable
