/-
The service `DownloaderEx`.

`onStartCommand` submits a download to a pool with one thread, unless there is an entry for its id
in `mTasks`, and enters it afterwards.  The worker looks its id up in the map between two chunks and
removes the entry at its end; `cancel` cancels the task it finds and removes the entry too.  The
service thread, the worker and any number of calls of `cancel` take steps in any order; the loop of
a download is that of `Download`.

* `step_registry` — what a step does to the map and the queue, as a `TaskMap.Change`;
* `lift_step` — what the changes keep is kept by the steps;
* `called_step`, `worker_of_step`, `log_of_step` — what a step does to the rest of the state.
-/
import ReShadowsocks.Config
import ReShadowsocks.Download
import ReShadowsocks.TaskMap

namespace Downloads

open Download TaskMap Transition

/-! ### The state of the service -/

/-- What `onStartCommand` reads from its intent. -/
structure Job where
  id : JString
  maxBytes : Int32
  maxSeconds : Int32
  deriving DecidableEq

/-- Where the worker is in `download`. -/
inductive Phase
  | opening
  | reading
  | looking (c : Chunk)
  | checking (c : Chunk) (task : Option Nat)
  | writing (c : Chunk)
  | accounting (c : Chunk)
  | closing
  | removing
  | finishing
  deriving DecidableEq

structure Worker where
  task : Nat
  job : Job
  limits : Limits
  loop : Loop
  phase : Phase
  deriving DecidableEq

/-- A call of `onStartCommand` that has found no entry, with its task once it is submitted. -/
structure Starting where
  job : Job
  submitted : Option Nat
  deriving DecidableEq

/-- A call of `cancel` that has found a task; `asked` once the task was cancelled. -/
structure Cancelling where
  id : JString
  task : Nat
  asked : Bool
  deriving DecidableEq

/-- What is recorded of the run: a chunk that a worker wrote; the removal by a worker, with the
entry it removed; the return of `cancel`, and whether the worker of the task had passed the test for
cancellation then. -/
inductive Event
  | wrote (task : Nat)
  | removed (task : Nat) (entry : Option Nat)
  | cancelReturned (task : Nat) (passed : Bool)
  deriving DecidableEq

/-- Tasks are numbered as they are submitted.  `turn` of them were taken from the queue of the
pool; `cancelled` are those whose `cancel` succeeded. -/
structure State where
  mTasks : JString → Option Nat
  tasks : List Job
  cancelled : List Nat
  turn : Nat
  worker : Option Worker
  starting : Option Starting
  cancels : List Cancelling
  log : List Event

def State.initial : State where
  mTasks _ := none
  tasks := []
  cancelled := []
  turn := 0
  worker := none
  starting := none
  cancels := []
  log := []

/-- The map and the queue. -/
def State.registry (s : State) : Registry JString where
  map := s.mTasks
  keys := s.tasks.map (·.id)
  turn := s.turn
  running := s.worker.map (·.task)
  starting := s.starting.map fun call => (call.job.id, call.submitted)

/-- `task == null || task.isCancelled()`. -/
def State.isStopped (s : State) (task : Option Nat) : Bool := task.elim true s.cancelled.contains

def Phase.isWriting : Phase → Bool
  | .writing _ => true
  | _ => false

/-- The worker of the task has passed the test for cancellation, and has not written yet. -/
def State.passed (s : State) (task : Nat) : Bool :=
  s.worker.any fun w => w.task == task && w.phase.isWriting

/-- What the world answers to a step of the worker. -/
structure Env where
  contentLength : Int32
  now : Int64
  read : Option Chunk

/-! ### Steps -/

/-- A worker that takes a task up.  Its loop begins when the connection is open. -/
def Worker.new (task : Nat) (job : Job) : Worker :=
  ⟨task, job, ⟨0, job.maxBytes, job.maxSeconds⟩, Loop.start 0, .opening⟩

/-- The next step of the worker. -/
def State.work (s : State) (w : Worker) (env : Env) : State :=
  match w.phase with
  | .opening =>
    { s with worker := some { w with
        phase := .reading
        limits := ⟨env.contentLength, w.job.maxBytes, w.job.maxSeconds⟩
        loop := Loop.start env.now } }
  | .reading =>
    match enter w.limits w.loop env.read with
    | .error exit =>
      { s with worker := some { w with
          phase := .closing
          loop := { w.loop with exit := some exit } } }
    | .ok c => { s with worker := some { w with phase := .looking c } }
  | .looking c => { s with worker := some { w with phase := .checking c (s.mTasks w.job.id) } }
  | .checking c task =>
    if s.isStopped task then
      { s with worker := some { w with
          phase := .closing
          loop := { w.loop with exit := some .cancelled } } }
    else { s with worker := some { w with phase := .writing c } }
  | .writing c =>
    { s with
      worker := some { w with phase := .accounting c, loop := write w.loop c }
      log := s.log ++ [.wrote w.task] }
  | .accounting c =>
    -- an `ArithmeticException` ends the worker as any other one does
    if (account w.limits w.loop c env.now).exit = none then
      { s with worker := some { w with
          phase := .reading
          loop := account w.limits w.loop c env.now } }
    else { s with worker := none }
  | .closing => { s with worker := some { w with phase := .removing } }
  | .removing =>
    { s with
      mTasks := Function.update s.mTasks w.job.id none
      worker := some { w with phase := .finishing }
      log := s.log ++ [.removed w.task (s.mTasks w.job.id)] }
  | .finishing => { s with worker := none }

/-- `start`, `submit` and `put` are the parts of `onStartCommand`, which the service thread runs one
call at a time; `cancel`, `cancelTask` and `remove` those of `cancel`; `take`, `work` and `fail`
belong to the thread of the pool. -/
inductive Action
  | start (job : Job)
  | submit
  | put
  | cancel (id : JString)
  | cancelTask (i : Nat)
  | remove (i : Nat)
  | take
  | work (env : Env)
  | fail

def step (s : State) : Action → Option State
  | .start job =>
    match s.starting with
    | none =>
      if s.mTasks job.id = none then some { s with starting := some ⟨job, none⟩ } else some s
    | some _ => none
  | .submit =>
    match s.starting with
    | some ⟨job, none⟩ =>
      some { s with tasks := s.tasks ++ [job], starting := some ⟨job, some s.tasks.length⟩ }
    | _ => none
  | .put =>
    match s.starting with
    | some ⟨job, some k⟩ =>
      some { s with mTasks := Function.update s.mTasks job.id (some k), starting := none }
    | _ => none
  | .cancel id =>
    match s.mTasks id with
    | some k => some { s with cancels := s.cancels ++ [⟨id, k, false⟩] }
    | none => some s
  | .cancelTask i =>
    match s.cancels[i]? with
    | some ⟨id, k, false⟩ =>
      -- a task that is over is not cancelled any more
      some { s with
        cancelled := if s.registry.Alive k then k :: s.cancelled else s.cancelled
        cancels := s.cancels.set i ⟨id, k, true⟩ }
    | _ => none
  | .remove i =>
    match s.cancels[i]? with
    | some ⟨id, k, true⟩ =>
      some { s with
        mTasks := Function.update s.mTasks id none
        cancels := s.cancels.eraseIdx i
        log := s.log ++ [.cancelReturned k (s.passed k)] }
    | _ => none
  | .take =>
    match s.worker, s.tasks[s.turn]? with
    | none, some job =>
      -- a task that was cancelled in the queue does not run
      if s.cancelled.contains s.turn then some { s with turn := s.turn + 1 }
      else some { s with turn := s.turn + 1, worker := some (Worker.new s.turn job) }
    | _, _ => none
  | .work env =>
    match s.worker with
    | some w => some (s.work w env)
    | none => none
  | .fail =>
    match s.worker with
    | some _ => some { s with worker := none }
    | none => none

/-! ### The map and the queue -/

/-- What a step of the worker does to the map and the queue. -/
def workChange (w : Worker) (env : Env) : Option (Change JString) :=
  match w.phase with
  | .accounting c =>
    if (account w.limits w.loop c env.now).exit = none then none else some .finish
  | .removing => some (.unmap w.job.id)
  | .finishing => some .finish
  | _ => none

/-- What a step does to the map and the queue. -/
def changeOf (s : State) : Action → Option (Change JString)
  | .start job => if s.mTasks job.id = none then some (.begin job.id) else none
  | .submit => some .submit
  | .put => some .put
  | .cancel _ => none
  | .cancelTask _ => none
  | .remove i => s.cancels[i]?.map fun call => .unmap call.id
  | .take => some (if s.cancelled.contains s.turn then .drop else .take)
  | .work env => s.worker.bind fun w => workChange w env
  | .fail => some .finish

theorem put_of_changeOf {s : State} {a : Action} (h : changeOf s a = some .put) : a = .put := by
  cases a with
  | put => rfl
  | start job => exact nomatch Option.some.inj (Option.ite_none_right_eq_some.mp h).2
  | remove i =>
    obtain ⟨call, -, hcall⟩ := Option.map_eq_some_iff.mp h
    exact nomatch hcall
  | take =>
    have hput := Option.some.inj h
    split at hput <;> exact nomatch hput
  | work env =>
    obtain ⟨w, -, hwork⟩ := Option.bind_eq_some_iff.mp h
    unfold workChange at hwork
    split at hwork
    · exact nomatch Option.some.inj (Option.ite_none_left_eq_some.mp hwork).2
    all_goals exact nomatch hwork
  | _ => exact nomatch h

/-- The steps of the worker, as far as the map, the tests for cancellation and the record go. -/
inductive WorkView (s : State) (w : Worker) : State → Prop
  | move {w' : Worker} : w'.task = w.task → w'.job = w.job → w'.phase.isWriting = false →
      (∀ c task, w'.phase ≠ .checking c task) → w'.phase ≠ .finishing →
      WorkView s w { s with worker := some w' }
  | look {c : Chunk} :
      WorkView s w { s with worker := some { w with phase := .checking c (s.mTasks w.job.id) } }
  | pass {c : Chunk} {task : Option Nat} : w.phase = .checking c task → s.isStopped task = false →
      WorkView s w { s with worker := some { w with phase := .writing c } }
  | write {c : Chunk} : w.phase.isWriting = true →
      WorkView s w
        { s with
          worker := some { w with phase := .accounting c, loop := Download.write w.loop c }
          log := s.log ++ [.wrote w.task] }
  | remove : w.phase = .removing →
      WorkView s w
        { s with
          mTasks := Function.update s.mTasks w.job.id none
          worker := some { w with phase := .finishing }
          log := s.log ++ [.removed w.task (s.mTasks w.job.id)] }
  | stop : WorkView s w { s with worker := none }

theorem work_view (s : State) (w : Worker) (env : Env) : WorkView s w (s.work w env) := by
  unfold State.work
  cases hphase : w.phase with
  | opening => exact .move rfl rfl rfl (by simp) (by simp)
  | reading =>
    simp only
    split
    · exact .move rfl rfl rfl (by simp) (by simp)
    · exact .move rfl rfl rfl (by simp) (by simp)
  | looking c => exact .look
  | checking c task =>
    simp only
    split
    · exact .move rfl rfl rfl (by simp) (by simp)
    · rename_i hgo
      exact .pass hphase (Bool.eq_false_iff.mpr hgo)
  | writing c => exact .write (by rw [hphase]; rfl)
  | accounting c =>
    simp only
    split
    · exact .move rfl rfl rfl (by simp) (by simp)
    · exact .stop
  | closing => exact .move rfl rfl rfl (by simp) (by simp)
  | removing => exact .remove hphase
  | finishing => exact .stop

/-- The transitions, each with the state it leads to. -/
inductive View (s : State) : Action → State → Prop
  | refused {job : Job} : s.starting = none → s.mTasks job.id ≠ none → View s (.start job) s
  | begin {job : Job} : s.starting = none → s.mTasks job.id = none →
      View s (.start job) { s with starting := some ⟨job, none⟩ }
  | submit {job : Job} : s.starting = some ⟨job, none⟩ →
      View s .submit
        { s with tasks := s.tasks ++ [job], starting := some ⟨job, some s.tasks.length⟩ }
  | put {job : Job} {k : Nat} : s.starting = some ⟨job, some k⟩ →
      View s .put { s with mTasks := Function.update s.mTasks job.id (some k), starting := none }
  | cancelNone {id : JString} : s.mTasks id = none → View s (.cancel id) s
  | cancel {id : JString} {k : Nat} : s.mTasks id = some k →
      View s (.cancel id) { s with cancels := s.cancels ++ [⟨id, k, false⟩] }
  | cancelTask {l r : List Cancelling} {id : JString} {k : Nat} :
      s.cancels = l ++ ⟨id, k, false⟩ :: r →
      View s (.cancelTask l.length)
        { s with
          cancelled := if s.registry.Alive k then k :: s.cancelled else s.cancelled
          cancels := l ++ ⟨id, k, true⟩ :: r }
  | remove {l r : List Cancelling} {id : JString} {k : Nat} :
      s.cancels = l ++ ⟨id, k, true⟩ :: r →
      View s (.remove l.length)
        { s with
          mTasks := Function.update s.mTasks id none
          cancels := l ++ r
          log := s.log ++ [.cancelReturned k (s.passed k)] }
  | take {job : Job} : s.worker = none → s.tasks[s.turn]? = some job →
      s.cancelled.contains s.turn = false →
      View s .take { s with turn := s.turn + 1, worker := some (Worker.new s.turn job) }
  | drop {job : Job} : s.worker = none → s.tasks[s.turn]? = some job →
      s.cancelled.contains s.turn = true → View s .take { s with turn := s.turn + 1 }
  | work {w : Worker} {env : Env} {t : State} : s.worker = some w → t = s.work w env →
      WorkView s w t → View s (.work env) t
  | fail {w : Worker} : s.worker = some w → View s .fail { s with worker := none }

variable {s t : State} {a : Action}

/-- `step` makes the transitions of `View` and no others. -/
theorem step_view (h : step s a = some t) : View s a t := by
  cases a with
  | start job =>
    simp only [step] at h
    split at h
    · rename_i hs
      split at h
      · rename_i hnone
        exact Option.some.inj h ▸ .begin hs hnone
      · rename_i hsome
        exact Option.some.inj h ▸ .refused hs hsome
    · exact nomatch h
  | submit =>
    simp only [step] at h
    split at h
    · rename_i job hs
      exact Option.some.inj h ▸ .submit hs
    · exact nomatch h
  | put =>
    simp only [step] at h
    split at h
    · rename_i job k hs
      exact Option.some.inj h ▸ .put hs
    · exact nomatch h
  | cancel id =>
    simp only [step] at h
    split at h
    · rename_i k hk
      exact Option.some.inj h ▸ .cancel hk
    · rename_i hnone
      exact Option.some.inj h ▸ .cancelNone hnone
  | cancelTask i =>
    simp only [step] at h
    split at h
    · rename_i id k hget
      obtain ⟨l, r, rfl, hsplit, hset⟩ := exists_split_of_getElem? hget
      rw [hset] at h
      exact Option.some.inj h ▸ .cancelTask hsplit
    · exact nomatch h
  | remove i =>
    simp only [step] at h
    split at h
    · rename_i id k hget
      obtain ⟨l, r, rfl, hsplit, -⟩ := exists_split_of_getElem? hget
      have herase : s.cancels.eraseIdx l.length = l ++ r := by
        rw [hsplit, List.eraseIdx_append_of_length_le (Nat.le_refl _), Nat.sub_self]
        rfl
      rw [herase] at h
      exact Option.some.inj h ▸ .remove hsplit
    · exact nomatch h
  | take =>
    simp only [step] at h
    split at h
    · rename_i job hw hget
      split at h
      · rename_i hc
        exact Option.some.inj h ▸ .drop hw hget hc
      · rename_i hc
        exact Option.some.inj h ▸ .take hw hget (Bool.eq_false_iff.mpr hc)
    · exact nomatch h
  | work env =>
    simp only [step] at h
    split at h
    · rename_i w hw
      exact .work hw (Option.some.inj h).symm (Option.some.inj h ▸ work_view s w env)
    · exact nomatch h
  | fail =>
    simp only [step] at h
    split at h
    · rename_i w hw
      exact Option.some.inj h ▸ .fail hw
    · exact nomatch h

theorem running_eq {w : Worker} (hw : s.worker = some w) : s.registry.running = some w.task := by
  rw [State.registry, hw]
  rfl

/-- The worker ends. -/
theorem change_finish {w : Worker} (hw : s.worker = some w) :
    change s.registry .finish = some { s with worker := none }.registry := by
  rw [change, running_eq hw, if_neg (by simp)]
  rfl

theorem work_registry {w : Worker} (hw : s.worker = some w) (env : Env) :
    (workChange w env).elim (some s.registry) (change s.registry) =
      some (s.work w env).registry := by
  have hsame : ∀ w' : Worker, w'.task = w.task →
      some s.registry = some { s with worker := some w' }.registry := by
    intro w' htask
    simp only [State.registry, hw, Option.map_some, htask]
  unfold workChange State.work
  cases w.phase with
  | opening => exact hsame _ rfl
  | reading =>
    simp only
    split
    · exact hsame _ rfl
    · exact hsame _ rfl
  | looking c => exact hsame _ rfl
  | checking c task =>
    simp only
    split
    · exact hsame _ rfl
    · exact hsame _ rfl
  | writing c => exact hsame { w with phase := .accounting c, loop := write w.loop c } rfl
  | accounting c =>
    simp only
    split
    · exact hsame _ rfl
    · exact change_finish hw
  | closing => exact hsame _ rfl
  | removing =>
    have hworker : s.worker.map (·.task) = some w.task := running_eq hw
    simp only [Option.elim_some, change, State.registry, hworker]
    rfl
  | finishing => exact change_finish hw

theorem starting_eq {job : Job} {k : Option Nat} (hs : s.starting = some ⟨job, k⟩) :
    s.registry.starting = some (job.id, k) := by
  rw [State.registry, hs]
  rfl

/-- The worker is free, and there is a task for it. -/
theorem ready {job : Job} (hw : s.worker = none) (hget : s.tasks[s.turn]? = some job) :
    s.registry.running = none ∧ s.registry.turn < s.registry.keys.length := by
  refine ⟨?_, ?_⟩
  · rw [State.registry, hw]
    rfl
  · simpa [State.registry] using (List.getElem?_eq_some_iff.mp hget).1

theorem changeOf_remove {l r : List Cancelling} {call : Cancelling}
    (hsplit : s.cancels = l ++ call :: r) :
    changeOf s (.remove l.length) = some (.unmap call.id) := by
  rw [changeOf, hsplit, List.getElem?_append_right (Nat.le_refl _), Nat.sub_self]
  rfl

/-- **A step is a change of the map and the queue, or leaves them as they are.** -/
theorem step_registry (h : step s a = some t) :
    (changeOf s a).elim (some s.registry) (change s.registry) = some t.registry := by
  cases step_view h with
  | refused hs hsome =>
    rw [changeOf, if_neg hsome]
    rfl
  | begin hs hnone =>
    have hfree : s.registry.starting = none ∧ s.registry.map _ = none :=
      ⟨by rw [State.registry, hs]; rfl, hnone⟩
    rw [changeOf, if_pos hnone, Option.elim_some, change, if_pos hfree]
    rfl
  | submit hs =>
    simp only [changeOf, Option.elim_some, change, starting_eq hs]
    simp [State.registry]
  | put hs =>
    simp only [changeOf, Option.elim_some, change, starting_eq hs]
    rfl
  | cancelNone hnone => rfl
  | cancel hk => rfl
  | cancelTask hsplit => rfl
  | remove hsplit =>
    rw [changeOf_remove hsplit]
    rfl
  | take hw hget hc =>
    rw [changeOf, hc, Option.elim_some, if_neg (by simp), change, if_pos (ready hw hget)]
    rfl
  | drop hw hget hc =>
    rw [changeOf, hc, Option.elim_some, if_pos rfl, change, if_pos (ready hw hget)]
    rfl
  | work hw ht hview =>
    rw [changeOf, hw, ht]
    exact work_registry hw _
  | fail hw => exact change_finish hw

/-- What a change of the map and the queue keeps is kept by a step. -/
theorem lift_step {P : Registry JString → Prop} (h : step s a = some t) (hs : P s.registry)
    (hchange : ∀ c r, changeOf s a = some c → change s.registry c = some r → P r) :
    P t.registry := by
  have hreg := step_registry h
  cases hc : changeOf s a with
  | none =>
    rw [hc] at hreg
    exact Option.some.inj hreg ▸ hs
  | some c =>
    rw [hc] at hreg
    exact hchange c _ hc hreg

/-! ### The rest of the state -/

theorem cancelled_subset (h : step s a = some t) : s.cancelled ⊆ t.cancelled := by
  cases step_view h with
  | cancelTask hsplit =>
    show s.cancelled ⊆ if _ then _ else _
    split
    · exact List.subset_cons_self _ _
    · exact fun _ hk => hk
  | work hw ht hview =>
    cases hview with
    | _ => exact fun _ hk => hk
  | _ => exact fun _ hk => hk

theorem keys_step {k : Nat} (h : step s a = some t) (hlt : k < s.registry.keys.length) :
    t.registry.keys[k]? = s.registry.keys[k]? :=
  lift_step (P := fun r => r.keys[k]? = s.registry.keys[k]?) h rfl
    fun _ _ _ hr => keys_change hlt hr

theorem alive_of_step {k : Nat} (h : step s a = some t) (hlt : k < s.registry.keys.length)
    (halive : t.registry.Alive k) : s.registry.Alive k :=
  lift_step (P := fun r => r.Alive k → s.registry.Alive k) h (fun h => h)
    (fun _ _ _ hr => alive_of_change hlt hr) halive

/-- A call of `cancel` is for a task that was entered, and has cancelled it if it says so. -/
structure Called (s : State) (call : Cancelling) : Prop where
  entered : Entered s.registry call.task
  key_eq : s.registry.keys[call.task]? = some call.id
  asked : call.asked = true → s.registry.Alive call.task → call.task ∈ s.cancelled

theorem Called.step {call : Cancelling} (h : Called s call) (hstep : step s a = some t) :
    Called t call where
  entered := lift_step hstep h.entered fun _ _ _ hr => h.entered.change hr
  key_eq := (keys_step hstep h.entered.lt_length).trans h.key_eq
  asked hasked halive :=
    cancelled_subset hstep (h.asked hasked (alive_of_step hstep h.entered.lt_length halive))

/-- The worker goes on: it has looked up what is in the map, and writes only what has passed the
test. -/
structure Continues (s : State) (w w' : Worker) : Prop where
  task : w'.task = w.task
  job : w'.job = w.job
  found : ∀ c k, w'.phase = .checking c (some k) →
    w.phase = .checking c (some k) ∨ s.mTasks w.job.id = some k
  passed : w'.phase.isWriting = true → w.phase.isWriting = true ∨
    ∃ c task, w.phase = .checking c task ∧ s.isStopped task = false

/-- The worker behind a step, and where it comes from. -/
theorem worker_of_step {w' : Worker} (h : step s a = some t) (hw' : t.worker = some w') :
    (∃ w, s.worker = some w ∧ Continues s w w') ∨
      ∃ job, s.tasks[s.turn]? = some job ∧ w' = Worker.new s.turn job := by
  cases step_view h with
  | take hw hget hc => exact .inr ⟨_, hget, (Option.some.inj hw').symm⟩
  | fail hw => exact nomatch hw'
  | work hw ht hview =>
    refine .inl ⟨_, hw, ?_⟩
    cases hview with
    | move htask hjob hwriting hchecking hfinishing =>
      obtain rfl := Option.some.inj hw'
      refine ⟨htask, hjob, fun c k h => absurd h (hchecking c _), fun h => ?_⟩
      exact nomatch hwriting.symm.trans h
    | look =>
      obtain rfl := Option.some.inj hw'
      exact ⟨rfl, rfl, fun _ _ h => .inr (Phase.checking.inj h).2, fun h => nomatch h⟩
    | pass hphase hgo =>
      obtain rfl := Option.some.inj hw'
      exact ⟨rfl, rfl, fun _ _ h => (nomatch h), fun _ => .inr ⟨_, _, hphase, hgo⟩⟩
    | write =>
      obtain rfl := Option.some.inj hw'
      exact ⟨rfl, rfl, fun _ _ h => (nomatch h), fun h => nomatch h⟩
    | remove =>
      obtain rfl := Option.some.inj hw'
      exact ⟨rfl, rfl, fun _ _ h => (nomatch h), fun h => nomatch h⟩
    | stop => exact nomatch hw'
  | _ => exact .inl ⟨w', hw', rfl, rfl, fun _ _ h => .inl h, .inl⟩

/-- What is recorded by a step. -/
theorem log_of_step (h : step s a = some t) :
    t.log = s.log ∨
    (∃ id k, ⟨id, k, true⟩ ∈ s.cancels ∧ changeOf s a = some (.unmap id) ∧
      t.log = s.log ++ [.cancelReturned k (s.passed k)] ∧ t.passed k = s.passed k) ∨
    (∃ w, s.worker = some w ∧ w.phase.isWriting = true ∧ t.log = s.log ++ [.wrote w.task] ∧
      t.passed w.task = false) ∨
    ∃ w, s.worker = some w ∧ t.log = s.log ++ [.removed w.task (s.mTasks w.job.id)] := by
  cases step_view h with
  | @remove l r id k hsplit =>
    refine .inr (.inl ⟨id, k, ?_, ?_, rfl, rfl⟩)
    · rw [hsplit]
      simp
    · exact changeOf_remove hsplit
  | work hw ht hview =>
    cases hview with
    | write hwriting =>
      refine .inr (.inr (.inl ⟨_, hw, hwriting, rfl, ?_⟩))
      simp [State.passed, Phase.isWriting]
    | remove => exact .inr (.inr (.inr ⟨_, hw, rfl⟩))
    | _ => exact .inl rfl
  | _ => exact .inl rfl

/-- The return of a `cancel` was recorded before, or it is the step of a call that has cancelled. -/
theorem cancelReturned_of_step {k : Nat} {passed : Bool} (hstep : step s a = some t)
    (hmem : .cancelReturned k passed ∈ t.log) :
    .cancelReturned k passed ∈ s.log ∨
      ∃ id, ⟨id, k, true⟩ ∈ s.cancels ∧ changeOf s a = some (.unmap id) := by
  rcases log_of_step hstep with hlog | ⟨id, n, hcall, hchange, hlog, -⟩ | ⟨w, -, -, hlog, -⟩ |
    ⟨w, -, hlog⟩
  · exact .inl (hlog ▸ hmem)
  · rw [hlog, List.mem_append, List.mem_singleton] at hmem
    refine hmem.imp_right fun heq => ?_
    obtain ⟨rfl, -⟩ := Event.cancelReturned.inj heq
    exact ⟨id, hcall, hchange⟩
  · rw [hlog, List.mem_append, List.mem_singleton] at hmem
    exact hmem.imp_right fun heq => nomatch heq
  · rw [hlog, List.mem_append, List.mem_singleton] at hmem
    exact hmem.imp_right fun heq => nomatch heq

theorem tidy_initial : Tidy State.initial.registry where
  bound := Nat.le_refl 0
  current _ h := nomatch h
  submitted _ _ h := nomatch h
  fresh _ _ h := nomatch h
  keyed _ _ h := nomatch h

/-- **Step.**  A call that finds an entry is for a task that was entered. -/
theorem called_step (htidy : Tidy s.registry) (hcalls : ∀ call ∈ s.cancels, Called s call)
    (hstep : step s a = some t) : ∀ call ∈ t.cancels, Called t call := by
  have hold : ∀ call ∈ s.cancels, Called t call := fun call hcall => (hcalls call hcall).step hstep
  cases step_view hstep with
  | @cancel id k hk =>
    refine List.forall_mem_append.mpr ⟨hold, List.forall_mem_singleton.mpr ?_⟩
    exact ⟨htidy.entered hk, htidy.keyed id k hk, fun hasked => nomatch hasked⟩
  | @cancelTask l r id k hsplit =>
    intro call hcall
    rcases List.mem_cons.mp (List.perm_middle.mem_iff.mp hcall) with rfl | hcall
    · have hfound := hold ⟨id, k, false⟩ (by rw [hsplit]; simp)
      refine ⟨hfound.entered, hfound.key_eq, fun _ halive => ?_⟩
      have halive' : s.registry.Alive k := halive
      show k ∈ if s.registry.Alive k then k :: s.cancelled else s.cancelled
      rw [if_pos halive']
      exact List.mem_cons_self
    · refine hold call ?_
      rw [hsplit]
      exact List.perm_middle.mem_iff.mpr (List.mem_cons_of_mem _ hcall)
  | @remove l r id k hsplit =>
    intro call hcall
    refine hold call ?_
    rw [hsplit]
    exact List.perm_middle.mem_iff.mpr (List.mem_cons_of_mem _ hcall)
  | work hw ht hview =>
    cases hview with
    | _ => exact hold
  | _ => exact hold

/-- **Step.**  A worker has the id of its task. -/
theorem job_step (h : ∀ w, s.worker = some w → s.registry.keys[w.task]? = some w.job.id)
    (hstep : step s a = some t) :
    ∀ w, t.worker = some w → t.registry.keys[w.task]? = some w.job.id := by
  intro w' hw'
  rcases worker_of_step hstep hw' with ⟨w, hw, hgoes⟩ | ⟨job, hget, rfl⟩
  · have hkey := h w hw
    rw [hgoes.task, hgoes.job, keys_step hstep (List.getElem?_eq_some_iff.mp hkey).1, hkey]
  · have hkey : s.registry.keys[s.turn]? = some job.id := by
      simp [State.registry, hget]
    exact (keys_step hstep (List.getElem?_eq_some_iff.mp hkey).1).trans hkey

end Downloads
