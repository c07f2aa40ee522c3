/-
Cancelling a download.

The worker looks its id up between two chunks and stops if the task it finds was cancelled.  It
may find the task of a later start.

* `StaysCancelled` — a cancelled download stops and leaves the map alone;
* `cancelled_stays_cancelled` — so it is if an id is entered again only after its worker has ended;
* `cancelled_goes_on` — an id that is started again before that.
-/
import ReShadowsocks.DownloadRestart

namespace Downloads

open Download TaskMap Transition

variable {s t : State} {a : Action}

/-- Behind the return of `cancel`, the worker of the task writes at most the chunk whose test it had
passed, and removes no other entry than its own. -/
def StaysCancelled (log : List Event) : Prop :=
  ∀ k passed behind, .cancelReturned k passed :: behind <:+ log →
    behind.count (.wrote k) ≤ (if passed then 1 else 0) ∧
      ∀ k', .removed k (some k') ∈ behind → k' = k

/-- An id is entered again only after its earlier workers have ended. -/
def EnteredAlone (s : State) (a : Action) : Prop := ∀ c ∈ changeOf s a, Sole s.registry c

instance (s : State) (a : Action) : Decidable (EnteredAlone s a) :=
  inferInstanceAs (Decidable (∀ c ∈ changeOf s a, Sole s.registry c))

/-- The task of a call that has returned. -/
structure Returned (s : State) (k : Nat) : Prop where
  retired : Retired s.registry k
  cancelled : s.registry.Alive k → k ∈ s.cancelled

structure Inv (s : State) : Prop where
  tidy : Tidy s.registry
  exclusive : Exclusive s.registry
  job : ∀ w, s.worker = some w → s.registry.keys[w.task]? = some w.job.id
  found : ∀ w c k, s.worker = some w → w.phase = .checking c (some k) → k = w.task
  calls : ∀ call ∈ s.cancels, Called s call
  returned : ∀ k passed, .cancelReturned k passed ∈ s.log → Returned s k
  stays : ∀ k passed behind, .cancelReturned k passed :: behind <:+ s.log →
    behind.count (.wrote k) + (if s.passed k then 1 else 0) ≤ (if passed then 1 else 0) ∧
      ∀ k', .removed k (some k') ∈ behind → k' = k

theorem inv_initial : Inv State.initial where
  tidy := tidy_initial
  exclusive _ _ _ h := nomatch h
  job _ h := nomatch h
  found _ _ _ h := nomatch h
  calls _ h := nomatch h
  returned _ _ h := nomatch h
  stays _ _ _ h := absurd (List.suffix_nil.mp h) (List.cons_ne_nil _ _)

theorem Returned.step {k : Nat} (h : Returned s k) (hstep : step s a = some t)
    (hok : EnteredAlone s a) : Returned t k where
  retired := lift_step hstep h.retired fun c _ hc hr => h.retired.change hr (hok c hc)
  cancelled halive :=
    cancelled_subset hstep (h.cancelled (alive_of_step hstep h.retired.lt_length halive))

/-! The invariant. -/

theorem alive_worker {w : Worker} (hw : s.worker = some w) : s.registry.Alive w.task :=
  .inr (running_eq hw)

theorem passed_iff {k : Nat} :
    s.passed k = true ↔ ∃ w, s.worker = some w ∧ w.task = k ∧ w.phase.isWriting = true := by
  rw [State.passed, Option.any_eq_true]
  simp only [Bool.and_eq_true, beq_iff_eq]

/-- The entry of the worker's id is its own task. -/
theorem Inv.own_entry (h : Inv s) {w : Worker} {k : Nat} (hw : s.worker = some w)
    (hk : s.mTasks w.job.id = some k) : k = w.task :=
  (h.exclusive w.job.id k w.task hk (alive_worker hw) (h.job w hw)).symm

/-- A task whose `cancel` has returned does not pass the test any more. -/
theorem Inv.passed_of_step (h : Inv s) (hstep : step s a = some t) {k : Nat} (hk : Returned s k)
    (hp : t.passed k = true) : s.passed k = true := by
  obtain ⟨w', hw', htask, hwriting⟩ := passed_iff.mp hp
  rcases worker_of_step hstep hw' with ⟨w, hw, hgoes⟩ | ⟨job, -, rfl⟩
  · have hwk : w.task = k := hgoes.task.symm.trans htask
    rcases hgoes.passed hwriting with hold | ⟨c, task, hphase, hgo⟩
    · exact passed_iff.mpr ⟨w, hw, hwk, hold⟩
    · -- the test finds no task, or the cancelled one
      cases task with
      | none => exact nomatch hgo
      | some n =>
        have hn := h.found w c n hw hphase
        have hmem := hk.cancelled (hwk ▸ alive_worker hw)
        rw [← hwk, ← hn] at hmem
        exact absurd hgo (by simpa [State.isStopped] using hmem)
  · exact nomatch hwriting

theorem Inv.returned_step (h : Inv s) (hok : EnteredAlone s a) (hstep : step s a = some t) :
    ∀ k passed, .cancelReturned k passed ∈ t.log → Returned t k := by
  intro k passed hmem
  rcases cancelReturned_of_step hstep hmem with hmem | ⟨id, hcall, hchange⟩
  · exact (h.returned k passed hmem).step hstep hok
  · have hcalled := h.calls _ hcall
    have hreg := step_registry hstep
    rw [hchange] at hreg
    exact ⟨hcalled.entered.retired hcalled.key_eq hreg, (hcalled.step hstep).asked rfl⟩

theorem cons_suffix_append_singleton {α : Type*} {x y : α} {l m : List α}
    (h : x :: l <:+ m ++ [y]) : x = y ∧ l = [] ∨ ∃ l', l = l' ++ [y] ∧ x :: l' <:+ m := by
  rcases List.suffix_concat_iff.mp h with hnil | ⟨l', heq, hsuffix⟩
  · exact absurd hnil (List.cons_ne_nil x l)
  · cases l' with
    | nil => exact .inl ⟨(List.cons.inj heq).1, (List.cons.inj heq).2⟩
    | cons z l' =>
      obtain ⟨rfl, hl⟩ := List.cons.inj heq
      exact .inr ⟨l', hl, hsuffix⟩

/-- The chunk that may still be written does not come back. -/
theorem Inv.allowance_le (h : Inv s) (hstep : step s a = some t) {k : Nat} (hk : Returned s k) :
    (if t.passed k then 1 else 0) ≤ if s.passed k then 1 else 0 := by
  cases hp : t.passed k with
  | false => simp
  | true => simp [h.passed_of_step hstep hk hp]

theorem Inv.stays_step (h : Inv s) (hstep : step s a = some t) (k : Nat) (passed : Bool)
    (behind : List Event) (hsuffix : .cancelReturned k passed :: behind <:+ t.log) :
    behind.count (.wrote k) + (if t.passed k then 1 else 0) ≤ (if passed then 1 else 0) ∧
      ∀ k', .removed k (some k') ∈ behind → k' = k := by
  -- What was behind the return before the step keeps its count, the allowance only shrinks.
  have hold : ∀ old, .cancelReturned k passed :: old <:+ s.log →
      old.count (.wrote k) + (if t.passed k then 1 else 0) ≤ (if passed then 1 else 0) ∧
        ∀ k', .removed k (some k') ∈ old → k' = k := by
    intro old hsuffix
    obtain ⟨hcount, hremoved⟩ := h.stays k passed old hsuffix
    have hle := h.allowance_le hstep (h.returned k passed (hsuffix.subset List.mem_cons_self))
    exact ⟨by omega, hremoved⟩
  rcases log_of_step hstep with hlog | ⟨id, n, -, -, hlog, hpassed⟩ |
    ⟨w, hw, hwriting, hlog, hpassed⟩ | ⟨w, hw, hlog⟩
  · exact hold behind (hlog ▸ hsuffix)
  · rw [hlog] at hsuffix
    rcases cons_suffix_append_singleton hsuffix with ⟨heq, rfl⟩ | ⟨old, rfl, hbehind⟩
    · obtain ⟨rfl, rfl⟩ := Event.cancelReturned.inj heq
      rw [hpassed]
      simp
    · simpa using hold old hbehind
  · rw [hlog] at hsuffix
    rcases cons_suffix_append_singleton hsuffix with ⟨heq, -⟩ | ⟨old, rfl, hbehind⟩
    · exact nomatch heq
    · by_cases hk : w.task = k
      · -- the chunk that was allowed is the one that is written
        subst hk
        obtain ⟨hcount, hremoved⟩ := h.stays w.task passed old hbehind
        rw [if_pos (passed_iff.mpr ⟨w, hw, rfl, hwriting⟩)] at hcount
        rw [List.count_append, List.count_singleton_self, hpassed]
        exact ⟨by simpa using hcount, by simpa using hremoved⟩
      · simpa [hk] using hold old hbehind
  · rw [hlog] at hsuffix
    rcases cons_suffix_append_singleton hsuffix with ⟨heq, -⟩ | ⟨old, rfl, hbehind⟩
    · exact nomatch heq
    · obtain ⟨hcount, hremoved⟩ := hold old hbehind
      refine ⟨by simpa using hcount, fun k' hmem => ?_⟩
      rcases List.mem_append.mp hmem with hmem | hmem
      · exact hremoved k' hmem
      · obtain ⟨rfl, hentry⟩ := Event.removed.inj (List.mem_singleton.mp hmem)
        exact h.own_entry hw hentry.symm

theorem Inv.step (h : Inv s) (hok : EnteredAlone s a) (hstep : step s a = some t) : Inv t where
  tidy := lift_step hstep h.tidy fun _ _ _ hr => h.tidy.change hr
  exclusive := lift_step hstep h.exclusive fun c _ hc hr => h.exclusive.change h.tidy hr (hok c hc)
  job := job_step h.job hstep
  found := by
    intro w' c k hw' hphase
    rcases worker_of_step hstep hw' with ⟨w, hw, hgoes⟩ | ⟨job, -, rfl⟩
    · rw [hgoes.task]
      rcases hgoes.found c k hphase with hold | hlooked
      · exact h.found w c k hw hold
      · exact h.own_entry hw hlooked
    · exact nomatch hphase
  calls := called_step h.tidy h.calls hstep
  returned := h.returned_step hok hstep
  stays := h.stays_step hstep

/-- **When a cancelled download stays cancelled**: the worker writes at most the chunk whose test
it had passed, and leaves the entry of a later start alone, if no id is entered while an earlier
worker of it waits or runs. -/
theorem cancelled_stays_cancelled (h : Reach step EnteredAlone State.initial s) :
    StaysCancelled s.log := by
  have hinv := h.invariant inv_initial fun _ _ _ hi hok hstep => hi.step hok hstep
  intro k passed behind hsuffix
  obtain ⟨hcount, hremoved⟩ := hinv.stays k passed behind hsuffix
  exact ⟨by omega, hremoved⟩

/-- The chunk after which `cancel` comes too late, and the end of the worker behind it. -/
def cancelledLate : List Action :=
  List.replicate 3 (.work (someEnv (some fullChunk))) ++ cancelJob ++
    List.replicate 8 (.work (someEnv (some fullChunk)))

/-- The chunk whose test was passed is written, and no other one; the next start waits for the end
of the worker. -/
theorem cancelled_stays_cancelled_late :
    ∃ s, Reach step EnteredAlone State.initial s ∧
      s.log = [.cancelReturned 0 true, .wrote 0, .removed 0 none] ∧
      s.mTasks aJob.id = some 1 ∧ StaysCancelled s.log := by
  have hrun : (runWith step EnteredAlone State.initial
      (startJob ++ [.take, .work (someEnv none)] ++ cancelledLate ++ startJob)).any (fun s =>
        s.log = [.cancelReturned 0 true, .wrote 0, .removed 0 none] ∧
          s.mTasks aJob.id = some 1) = true := by
    decide +kernel
  obtain ⟨s, hreach, hs⟩ := exists_reach_of_runWith hrun
  obtain ⟨hlog, hentry⟩ := of_decide_eq_true hs
  exact ⟨s, hreach, hlog, hentry, cancelled_stays_cancelled hreach⟩

/-- **A download that goes on**: `cancel` returns while the worker is in a read, and the id is
started again before the read ends.  The worker finds the entry of its successor, writes the chunk
and the next one, and removes that entry at its end. -/
theorem cancelled_goes_on :
    ∃ s, run step State.initial
        (startJob ++ [.take, .work (someEnv none)] ++ cancelJob ++ startJob ++ oneChunk ++
          oneChunk ++ streamEnd) = some s ∧
      s.log = [.cancelReturned 0 false, .wrote 0, .wrote 0, .removed 0 (some 1)] ∧
      ¬ StaysCancelled s.log := by
  have hrun : (run step State.initial
      (startJob ++ [.take, .work (someEnv none)] ++ cancelJob ++ startJob ++ oneChunk ++
        oneChunk ++ streamEnd)).any (fun s =>
        s.log = [.cancelReturned 0 false, .wrote 0, .wrote 0, .removed 0 (some 1)]) = true := by
    decide +kernel
  obtain ⟨s, hs, hlog⟩ := (Option.any_eq_true ..).mp hrun
  have hlog := of_decide_eq_true hlog
  refine ⟨s, hs, hlog, fun hstays => ?_⟩
  rw [hlog] at hstays
  have hcount := (hstays 0 false _ (List.suffix_refl _)).1
  simp at hcount

end Downloads
