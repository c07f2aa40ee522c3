/-
Starting a download again.

`onStartCommand` does nothing for an id that is in `mTasks`.  So an entry must not stay behind when
nothing is going on for its id any more, and it does when a download ends in an exception.

* `restartable_iff_permitted` — an id can be started again after its download has ended, exactly if
  no task is over while it is in the map;
* `restartable_of_endsInOrder` — so it is if a download is entered before its worker removes it, and
  fails, or is dropped from the queue, only after it was cancelled;
* `never_started_again` — a download that fails.
-/
import ReShadowsocks.Downloads

namespace Downloads

open Download TaskMap Transition

variable {s t : State} {a : Action}

/-- A worker for the id is queued or running. -/
def State.HasWorker (s : State) (id : JString) : Prop :=
  ∃ k, s.registry.Alive k ∧ s.tasks[k]?.map (·.id) = some id

/-- An `onStartCommand` for the id is in progress. -/
def State.IsStarting (s : State) (id : JString) : Prop :=
  ∃ call, s.starting = some call ∧ call.job.id = id

/-- An id for which nothing is going on has no entry, so that the next `onStartCommand` for it
submits a new download. -/
def Restartable (s : State) : Prop :=
  ∀ id, ¬ s.HasWorker id → ¬ s.IsStarting id →
    s.mTasks id = none ∧
      ∀ job : Job, job.id = id → s.starting = none →
        (run step s [.start job, .submit]).map (·.tasks) = some (s.tasks ++ [job])

theorem restartable_iff_registry : Restartable s ↔ s.registry.Restartable := by
  have hworker : ∀ id, (∀ k, s.registry.Alive k → s.registry.keys[k]? ≠ some id) ↔
      ¬ s.HasWorker id := by
    intro id
    simp only [State.HasWorker, not_exists, not_and, State.registry, List.getElem?_map, ne_eq]
  have hstarting : ∀ id, (∀ k, s.registry.starting ≠ some (id, k)) ↔ ¬ s.IsStarting id := by
    intro id
    constructor
    · rintro hnone ⟨call, hcall, rfl⟩
      exact hnone call.submitted (starting_eq hcall)
    · intro hnone k hs
      obtain ⟨call, hcall, hpair⟩ := Option.map_eq_some_iff.mp hs
      exact hnone ⟨call, hcall, congrArg Prod.fst hpair⟩
  constructor
  · intro h id hnone hidle
    exact (h id ((hworker id).mp hnone) ((hstarting id).mp hidle)).1
  · intro h id hnone hidle
    have hmap : s.mTasks id = none := h id ((hworker id).mpr hnone) ((hstarting id).mpr hidle)
    refine ⟨hmap, fun job hjob hfree => ?_⟩
    subst hjob
    simp only [run, step, hfree, hmap, if_true, Option.bind_some]
    rfl

/-- No worker ends while its entry is in the map, and no task is entered that has ended. -/
def Permitted (s : State) (a : Action) : Prop := ∀ c ∈ changeOf s a, Orderly s.registry c

instance (s : State) (a : Action) : Decidable (Permitted s a) :=
  inferInstanceAs (Decidable (∀ c ∈ changeOf s a, Orderly s.registry c))

/-- An id can be started again, in every state of a run, exactly if no task is entered that is over,
and none is over that is entered. -/
theorem restartable_iff_permitted {actions : List Action}
    (hrun : run step State.initial actions = some s) :
    Throughout step Restartable State.initial actions ↔
      runWith step Permitted State.initial actions = some s := by
  refine throughout_iff_permitted (I := fun s => WellKept s.registry) ?_ ?_ ?_ ?_ hrun
  · exact fun s h => restartable_iff_registry.mpr h.restartable
  · intro s a t h hstep hok
    exact lift_step hstep h fun c r hc hr => h.change hr (hok c hc)
  · intro s a t h hstep hok
    have hreg := step_registry hstep
    rw [Permitted, not_forall] at hok
    obtain ⟨c, hc⟩ := hok
    obtain ⟨hc, hnot⟩ := Classical.not_imp.mp hc
    rw [hc] at hreg
    exact fun hrestart => h.not_restartable hreg hnot (restartable_iff_registry.mp hrestart)
  · exact ⟨tidy_initial, fun _ _ h => (nomatch h), fun _ _ h => (nomatch h)⟩

/-! Which ends are in order.  The end of `download` that its exceptions come to does not remove the
entry, and neither does the pool when it drops a task that was cancelled. -/

/-- A `cancel` that found the task has returned. -/
def State.cancelReturned (s : State) (task : Nat) : Bool :=
  s.log.contains (.cancelReturned task true) || s.log.contains (.cancelReturned task false)

/-- The worker has not come to its `mTasks.remove`. -/
def State.IsBeforeRemove (s : State) (task : Nat) : Prop :=
  s.registry.Alive task ∧ ∀ w ∈ s.worker, w.task = task → w.phase ≠ .finishing

instance (s : State) (task : Nat) : Decidable (s.IsBeforeRemove task) :=
  inferInstanceAs (Decidable (_ ∧ _))

/-- A step of the worker in which it throws. -/
def Worker.throws (w : Worker) (env : Env) : Bool :=
  match w.phase with
  | .accounting c => !decide ((account w.limits w.loop c env.now).exit = none)
  | _ => false

/-- `onStartCommand` enters a task before its worker comes to the removal of the entry; a worker
throws only behind that removal, or after its task was cancelled; and a task is dropped from the
queue only when the call that cancelled it has returned. -/
def EndsInOrder (s : State) : Action → Prop
  | .put => ∀ call ∈ s.starting, ∀ k ∈ call.submitted, s.IsBeforeRemove k
  | .take => s.cancelled.contains s.turn = true → s.cancelReturned s.turn = true
  | .work env => ∀ w ∈ s.worker, w.throws env = true → s.cancelReturned w.task = true
  | .fail => ∀ w ∈ s.worker, w.phase ≠ .finishing → s.cancelReturned w.task = true
  | _ => True

instance (s : State) : ∀ a, Decidable (EndsInOrder s a)
  | .put =>
    inferInstanceAs (Decidable (∀ call ∈ s.starting, ∀ k ∈ call.submitted, s.IsBeforeRemove k))
  | .take => inferInstanceAs (Decidable (_ → _))
  | .work env =>
    inferInstanceAs (Decidable (∀ w ∈ s.worker, w.throws env = true →
      s.cancelReturned w.task = true))
  | .fail =>
    inferInstanceAs (Decidable (∀ w ∈ s.worker, w.phase ≠ .finishing →
      s.cancelReturned w.task = true))
  | .start _ | .submit | .cancel _ | .cancelTask _ | .remove _ => inferInstanceAs (Decidable True)

/-- The entries are those of tasks that are not over, and neither a removal by the worker nor one by
`cancel` is undone. -/
structure Kept (s : State) : Prop extends WellKept s.registry where
  job : ∀ w, s.worker = some w → s.registry.keys[w.task]? = some w.job.id
  calls : ∀ call ∈ s.cancels, Called s call
  returned : ∀ k passed, .cancelReturned k passed ∈ s.log →
    Entered s.registry k ∧ ¬ s.registry.Mapped k
  removed : ∀ w, s.worker = some w → w.phase = .finishing → ¬ s.registry.Mapped w.task

theorem kept_initial : Kept State.initial where
  toTidy := tidy_initial
  alive _ _ h := nomatch h
  last _ _ h := nomatch h
  job _ h := nomatch h
  calls _ h := nomatch h
  returned _ _ h := nomatch h
  removed _ h := nomatch h

theorem Kept.not_mapped (h : Kept s) {k : Nat} (hk : s.cancelReturned k = true) :
    ¬ s.registry.Mapped k := by
  rcases Bool.or_eq_true_iff.mp hk with hmem | hmem
  · exact (h.returned k true (by simpa using hmem)).2
  · exact (h.returned k false (by simpa using hmem)).2

theorem orderly_finish {w : Worker} (hw : s.worker = some w) (hnot : ¬ s.registry.Mapped w.task) :
    Orderly s.registry .finish := by
  intro k hk
  exact Option.some.inj ((running_eq hw).symm.trans hk) ▸ hnot

/-- The worker ends when it throws, and behind its removal. -/
theorem Kept.permitted_work (h : Kept s) {env : Env} (hok : EndsInOrder s (.work env)) :
    Permitted s (.work env) := by
  intro c hc
  obtain ⟨w, hw, hchange⟩ := Option.bind_eq_some_iff.mp hc
  have hthrows := hok w hw
  unfold workChange at hchange
  unfold Worker.throws at hthrows
  cases hphase : w.phase <;> rw [hphase] at hchange hthrows
  case accounting chunk =>
    obtain ⟨hexit, hchange⟩ := Option.ite_none_left_eq_some.mp hchange
    have hnot := h.not_mapped (hthrows (by simpa using hexit))
    exact Option.some.inj hchange ▸ orderly_finish hw hnot
  case removing => exact Option.some.inj hchange ▸ trivial
  case finishing => exact Option.some.inj hchange ▸ orderly_finish hw (h.removed w hw hphase)
  all_goals cases hchange

/-- An end that is in order is not the end of a task that is entered. -/
theorem Kept.permitted (h : Kept s) (hok : EndsInOrder s a) : Permitted s a := by
  intro c hc
  cases a with
  | start job =>
    obtain ⟨-, hc⟩ := Option.ite_none_right_eq_some.mp hc
    exact Option.some.inj hc ▸ trivial
  | submit => exact Option.some.inj hc ▸ trivial
  | put =>
    -- the task that is entered is alive
    obtain rfl := Option.some.inj hc
    intro k hk
    obtain ⟨⟨key, n⟩, hs, hn⟩ := Option.bind_eq_some_iff.mp hk
    obtain ⟨call, hcall, hpair⟩ := Option.map_eq_some_iff.mp hs
    exact (hok call hcall k ((congrArg Prod.snd hpair).trans hn)).1
  | cancel id => exact nomatch hc
  | cancelTask i => exact nomatch hc
  | remove i =>
    obtain ⟨call, -, rfl⟩ := Option.map_eq_some_iff.mp hc
    trivial
  | take =>
    obtain rfl := Option.some.inj hc
    split
    · -- a task that was cancelled in the queue is over without having run
      rename_i hcancelled
      exact h.not_mapped (hok hcancelled)
    · trivial
  | work env => exact h.permitted_work hok c hc
  | fail =>
    obtain rfl := Option.some.inj hc
    intro k hk
    obtain ⟨w, hw, rfl⟩ := Option.map_eq_some_iff.mp hk
    by_cases hphase : w.phase = .finishing
    · exact h.removed w hw hphase
    · exact h.not_mapped (hok w hw hphase)

theorem Kept.returned_step (h : Kept s) (hstep : step s a = some t) (k : Nat) (passed : Bool)
    (hmem : .cancelReturned k passed ∈ t.log) :
    Entered t.registry k ∧ ¬ t.registry.Mapped k := by
  rcases cancelReturned_of_step hstep hmem with hmem | ⟨id, hcall, hchange⟩
  · obtain ⟨hentered, hnot⟩ := h.returned k passed hmem
    exact ⟨lift_step hstep hentered fun _ _ _ hr => hentered.change hr,
      lift_step (P := fun r => ¬ r.Mapped k) hstep hnot
        fun _ _ _ hr => hentered.not_mapped_change h.toTidy hnot hr⟩
  · have hcalled := h.calls _ hcall
    have hreg := step_registry hstep
    rw [hchange] at hreg
    exact ⟨(hcalled.step hstep).entered, not_mapped_unmap hcalled.key_eq hreg⟩

/-- A worker that is behind its removal was there before the step, or removes its entry in it. -/
theorem finishing_of_step {w' : Worker} (hstep : step s a = some t) (hw' : t.worker = some w')
    (hphase : w'.phase = .finishing) :
    s.worker = some w' ∨
      ∃ w, s.worker = some w ∧ w'.task = w.task ∧ changeOf s a = some (.unmap w.job.id) := by
  cases step_view hstep with
  | take hw hget hc =>
    obtain rfl := Option.some.inj hw'
    cases hphase
  | fail hw => cases hw'
  | @work w env _ hw ht hview =>
    cases hview with
    | move htask hjob hwriting hchecking hfinishing =>
      obtain rfl := Option.some.inj hw'
      exact absurd hphase hfinishing
    | remove hremoving =>
      obtain rfl := Option.some.inj hw'
      refine .inr ⟨w, hw, rfl, ?_⟩
      rw [changeOf, hw, Option.bind_some, workChange, hremoving]
    | stop => cases hw'
    | _ =>
      obtain rfl := Option.some.inj hw'
      cases hphase
  | _ => exact .inl hw'

theorem Kept.removed_step (h : Kept s) (hok : EndsInOrder s a) (hstep : step s a = some t)
    (w' : Worker) (hw' : t.worker = some w') (hphase : w'.phase = .finishing) :
    ¬ t.registry.Mapped w'.task := by
  rcases finishing_of_step hstep hw' hphase with hw | ⟨w, hw, htask, hchange⟩
  · have hnot := h.removed w' hw hphase
    refine lift_step (P := fun r => ¬ r.Mapped w'.task) hstep hnot fun c r hc hr hmapped => ?_
    rcases mapped_of_change h.toTidy hr hmapped with hold | ⟨rfl, key, hs⟩
    · exact hnot hold
    · -- it would be entered behind its removal
      obtain ⟨call, hcall, hpair⟩ := Option.map_eq_some_iff.mp hs
      have hput : a = .put := put_of_changeOf hc
      subst hput
      exact (hok call hcall w'.task (congrArg Prod.snd hpair)).2 w' hw rfl hphase
  · rw [htask]
    have hreg := step_registry hstep
    rw [hchange] at hreg
    exact not_mapped_unmap (h.job w hw) hreg

/-- **Step.** -/
theorem Kept.step (h : Kept s) (hok : EndsInOrder s a) (hstep : step s a = some t) : Kept t where
  toWellKept := lift_step hstep h.toWellKept fun c _ hc hr =>
    h.toWellKept.change hr (h.permitted hok c hc)
  job := job_step h.job hstep
  calls := called_step h.toTidy h.calls hstep
  returned := h.returned_step hstep
  removed := h.removed_step hok hstep

/-- **When every id can be started again**: in every run in which tasks are entered before their
worker removes the entry, workers throw only behind that or after a `cancel`, and no task is dropped
from the queue before its `cancel` has returned. -/
theorem restartable_of_endsInOrder (h : Reach step EndsInOrder State.initial s) :
    Restartable s := by
  have hkept := h.invariant kept_initial fun _ _ _ hs hok hstep => hs.step hok hstep
  exact restartable_iff_registry.mpr hkept.restartable

/-- A download without limits of its own. -/
def aJob : Job := ⟨lit "speed test", 2147483647, 60⟩

def startJob : List Action := [.start aJob, .submit, .put]

/-- The world during a short download. -/
def someEnv (read : Option Chunk) : Env := ⟨4096, 0, read⟩

/-- A chunk, from the read to the accounting. -/
def oneChunk : List Action := List.replicate 5 (.work (someEnv (some fullChunk)))

/-- The end of the stream, and the end of the worker. -/
def streamEnd : List Action := List.replicate 4 (.work (someEnv none))

/-- A call of `cancel` for the only download there is, from its first step to its last. -/
def cancelJob : List Action := [.cancel aJob.id, .cancelTask 0, .remove 0]

/-- A download that runs to its end, one that fails after it was cancelled, and the start of another
one. -/
theorem restartable_of_endsInOrder_runs :
    ∃ s, Reach step EndsInOrder State.initial s ∧ s.log.length = 3 ∧ s.tasks.length = 3 ∧
      s.turn = 2 ∧ s.worker = none ∧ Restartable s := by
  have hrun : (runWith step EndsInOrder State.initial
      (startJob ++ [.take, .work (someEnv none)] ++ oneChunk ++ streamEnd ++ startJob ++ [.take] ++
        cancelJob ++ [.fail] ++ startJob)).any (fun s =>
          s.log.length = 3 ∧ s.tasks.length = 3 ∧ s.turn = 2 ∧ s.worker = none) = true := by
    decide +kernel
  obtain ⟨s, hreach, hs⟩ := exists_reach_of_runWith hrun
  obtain ⟨hlog, htasks, hturn, hworker⟩ := of_decide_eq_true hs
  exact ⟨s, hreach, hlog, htasks, hturn, hworker, restartable_of_endsInOrder hreach⟩

/-- **A download that fails** keeps its entry: nothing is queued or running any more, and
`onStartCommand` does nothing for the id. -/
theorem never_started_again :
    ∃ s, run step State.initial (startJob ++ [.take, .fail]) = some s ∧
      s.mTasks aJob.id = some 0 ∧ s.worker = none ∧ s.turn = s.tasks.length ∧ s.starting = none ∧
      step s (.start aJob) = some s := by
  have hrun : run step State.initial (startJob ++ [.take, .fail]) =
      some ⟨Function.update State.initial.mTasks aJob.id (some 0), [aJob], [], 1, none, none, [],
        []⟩ := rfl
  have hentry : Function.update State.initial.mTasks aJob.id (some 0) aJob.id = some 0 :=
    Function.update_self ..
  refine ⟨_, hrun, hentry, rfl, rfl, rfl, ?_⟩
  simp [step]

end Downloads
