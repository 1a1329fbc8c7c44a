import Rcsce.Scheduler.Drain

/-!
# What stays in flight

A job gets into the inflight hash, or into `_in_flight`, when the dispatcher takes it from the
queue.  It gets out when its `_run_job` puts it back or completes it, on Redis by the
`_complete_async` that this schedules.  As long as no Redis command raises there is always
somebody who has still to do so (`Attended`); a command that raises leaves the entry where it is
until the next `reclaim_inflight`.

* `AtRest` are the states in which nothing is pending or in flight, and nobody has a job that
  could be put back.  Every step but an enqueue keeps them, whatever Redis does.
* `Serving.settles`: the process can come to rest by itself.
-/

namespace Rcsce

/-- The job that the dispatcher has put in flight and not yet passed on. -/
def DispatchPc.attends : DispatchPc → List Uuid
  | .tracked _ job | .requeueHdel job | .reporting _ job => [job.jobId]
  | _ => []

/-- The task has still to take its job out of flight, or to schedule this. -/
def RunStage.attends : RunStage → Bool
  | .scanning | .caching _ | .failing | .requeueHdel => true
  | _ => false

namespace SchedulerState

/-- A task has the job, or a `_complete_async`. -/
def WithTask (s : SchedulerState) (i : Uuid) : Prop :=
  (∃ run ∈ s.runs, run.stage.attends = true ∧ run.job.jobId = i) ∨
    i ∈ s.completing.map Prod.fst

/-- Somebody has still to take the job out of flight. -/
def InHands (s : SchedulerState) (i : Uuid) : Prop := i ∈ s.dispatch.attends ∨ s.WithTask i

/-- Whoever is in flight is in somebody's hands. -/
structure Attended (s : SchedulerState) : Prop where
  inHands : ∀ i ∈ s.queue.inFlight, s.InHands i
  /-- Only a process on Redis has a `_complete_async`. -/
  onRedis : ∀ q, s.queue = .inMemory q → s.completing = []

variable {s s' : SchedulerState}

theorem attends_of_candidate {w : Uuid} (h : s.Candidate w) : s.dispatch.attends = [] := by
  rcases h with ⟨htop, -⟩ | hwaiting
  · rw [htop]
    rfl
  · rw [hwaiting]
    rfl

/-- A step of the dispatcher, as long as it does not end the loop. -/
theorem dispatch_inHands (hs : ∀ i ∈ s.queue.inFlight, s.InHands i) (hrunning : ¬ s'.Stopped)
    (h : s.DispatchMove s') : ∀ i ∈ s'.queue.inFlight, s'.InHands i := by
  intro i hi
  have hidle : s.dispatch.attends = [] → i ∈ s.queue.inFlight → s.WithTask i := by
    intro hnone hmem
    refine (hs i hmem).resolve_left ?_
    rw [hnone]
    exact List.not_mem_nil
  cases h with
  | idle => exact hs i hi
  | waits w hpc => exact Or.inr (hidle (attends_of_candidate hpc) hi)
  | pops w q q' job hq hpc hpop =>
    refine Or.inr (hidle (by rw [hpc]; rfl) ?_)
    have hi' : i ∈ q'.inflight := hi
    rw [(QueueStore.blpop_eq_some.mp hpop).2] at hi'
    rw [hq]
    exact hi'
  | tracks w q job hq hpc =>
    rcases QueueStore.mem_inflight_hset.mp hi with rfl | hold
    · exact Or.inl List.mem_cons_self
    · exact Or.inr (hidle (by rw [hpc]; rfl) (by rw [hq]; exact hold))
  | assigns w job queue node htake hnode =>
    cases htake with
    | redis q hq hpc =>
      have hhands := hs i (by rw [hq]; exact hi)
      rw [InHands, hpc] at hhands
      exact hhands
    | inMemory q q' hq hpc htake =>
      have hi' : i ∈ q'.inFlight := OrderedDict.mem_modify.mp hi
      rw [(InMemoryQueue.dequeue_eq_some htake).2, OrderedDict.mem_set] at hi'
      rcases hi' with rfl | hold
      · exact Or.inl List.mem_cons_self
      · exact Or.inr (hidle (attends_of_candidate hpc) (by rw [hq]; exact hold))
  | refuses w job q hq hpc hnode =>
    have hhands := hs i hi
    rw [InHands, hpc] at hhands
    exact hhands
  | refusesInMemory w job q q' hq hpc htake hnode =>
    obtain ⟨hne, hold⟩ := InMemoryQueue.mem_inFlight_requeue.mp hi
    rw [(InMemoryQueue.dequeue_eq_some htake).2, OrderedDict.mem_set] at hold
    refine Or.inr (hidle (attends_of_candidate hpc) ?_)
    rw [hq]
    exact hold.resolve_left hne
  | hdel q job hq hpc =>
    obtain ⟨hne, hold⟩ := QueueStore.mem_inflight_hdel.mp hi
    refine Or.inr ((hs i (by rw [hq]; exact hold)).resolve_left ?_)
    rw [hpc]
    exact fun hmem => hne (List.mem_singleton.mp hmem)
  | rpush q job hq hpc =>
    exact Or.inr (hidle (by rw [hpc]; rfl) (by rw [hq]; exact hi))
  | launches w job hpc =>
    rcases hs i hi with hheld | ⟨run, hrun, hattends⟩ | hcompleting
    · rw [hpc] at hheld
      exact Or.inr (Or.inl ⟨_, List.mem_append_right _ List.mem_cons_self, rfl,
        (List.mem_singleton.mp hheld).symm⟩)
    · exact Or.inr (Or.inl ⟨run, List.mem_append_left _ hrun, hattends⟩)
    · exact Or.inr (Or.inr hcompleting)
  | stops => exact absurd rfl hrunning

/-- A step of a running job, as long as its Redis command does not raise. -/
theorem run_inHands {i : ℕ} {e : RunEvent} (hs : ∀ i ∈ s.queue.inFlight, s.InHands i)
    (hok : (SchedulerLabel.run i e).ok = true) (h : s.step (.run i e) = some s') :
    ∀ j ∈ s'.queue.inFlight, s'.InHands j := by
  rw [step] at h
  split at h
  · cases h
  rename_i run hrun
  obtain ⟨⟨t, next⟩, heffect, rfl⟩ := Option.map_eq_some_iff.mp h
  have hmove := runEffect_cases heffect
  have hdispatch := (run_sameDispatch hmove).1
  intro j hj
  -- the other tasks and the dispatcher still have what they had
  have hothers : (∀ r ∈ s.completing, r ∈ t.completing) → s.InHands j →
      (run.stage.attends = true → run.job.jobId = j →
        (∃ stage, next = some stage ∧ stage.attends = true) ∨ j ∈ t.completing.map Prod.fst) →
      InHands { t with runs := advance s.runs i (next.map fun stage => { run with stage }) } j := by
    rintro hcompleting (hheld | ⟨other, hother, hattends, hid⟩ | hmem) hself
    · exact Or.inl (show j ∈ t.dispatch.attends from hdispatch ▸ hheld)
    · rcases mem_advance hrun hother (next.map fun stage => { run with stage }) with rfl | hstays
      · rcases hself hattends hid with ⟨stage, rfl, hstage⟩ | hmem
        · exact Or.inr (Or.inl ⟨_, mem_advance_self hrun, hstage, hid⟩)
        · exact Or.inr (Or.inr hmem)
      · exact Or.inr (Or.inl ⟨other, hstays, hattends, hid⟩)
    · obtain ⟨r, hr, rfl⟩ := List.mem_map.mp hmem
      exact Or.inr (Or.inr (List.mem_map_of_mem (hcompleting r hr)))
  have hlands : (∀ r ∈ s.completing, r ∈ t.completing) → j ∈ s.queue.inFlight →
      j ≠ run.job.jobId →
      InHands { t with runs := advance s.runs i (next.map fun stage => { run with stage }) } j :=
    fun hcompleting hmem hne => hothers hcompleting (hs j hmem) fun _ hid => absurd hid.symm hne
  cases hmove with
  | returns result hpc => exact hothers (fun _ => id) (hs j hj) fun _ _ => Or.inl ⟨_, rfl, rfl⟩
  | fails hpc => exact hothers (fun _ => id) (hs j hj) fun _ _ => Or.inl ⟨_, rfl, rfl⟩
  | completes result q hq hpc =>
    refine hothers (fun r hr => List.mem_append_left _ hr) (hs j hj) fun _ hid => Or.inr ?_
    exact List.mem_map.mpr ⟨_, List.mem_append_right _ List.mem_cons_self, hid⟩
  | completesInMemory result q hq hpc =>
    obtain ⟨hne, hold⟩ := InMemoryQueue.mem_inFlight_complete.mp hj
    exact hlands (fun _ => id) (by rw [hq]; exact hold) hne
  | requeues q hq hpc => exact hothers (fun _ => id) (hs j hj) fun _ _ => Or.inl ⟨_, rfl, rfl⟩
  | requeuesInMemory q hq hpc =>
    obtain ⟨hne, hold⟩ := InMemoryQueue.mem_inFlight_requeue.mp hj
    exact hlands (fun _ => id) (by rw [hq]; exact hold) hne
  | hdel q hq hpc =>
    obtain ⟨hne, hold⟩ := QueueStore.mem_inflight_hdel.mp hj
    exact hlands (fun _ => id) (by rw [hq]; exact hold) hne
  | rpush q hq hpc =>
    refine hothers (fun _ => id) (hs j (by rw [hq]; exact hj)) fun hattends => ?_
    rw [hpc] at hattends
    cases hattends
  | ends =>
    refine hothers (fun _ => id) (hs j hj) fun hattends => ?_
    rcases runEffect_ends heffect with ⟨hlive, hcommand⟩ | ⟨rfl, -, -⟩
    · cases hpc : run.stage <;> rw [hpc] at hlive hattends <;> cases hlive <;> cases hattends
    · cases hok

/-- Steps about the workers put nothing in flight. -/
theorem worker_inFlight {l : SchedulerLabel} (hl : l.aboutWorkers = true)
    (h : s.step l = some s') : ∀ i ∈ s'.queue.inFlight, i ∈ s.queue.inFlight := by
  intro i hi
  rcases worker_cases h hl with ⟨-, hqueue, -⟩ | ⟨r, t, next, -, hmove, -, hqueue, -⟩
  · exact hqueue ▸ hi
  · rw [hqueue] at hi
    cases hmove with
    | reclaims q hq hpc =>
      rw [hq]
      exact mem_of_mem_inFlight_reclaim hi
    | hdel q job rest hq hpc =>
      rw [hq]
      exact (QueueStore.mem_inflight_hdel.mp hi).2
    | rpush q job rest hq hpc =>
      rw [hq]
      exact hi
    | notified | fetches | gives | ends => exact hi

/-- **The step of the invariant.** -/
theorem step_attended {n : ℕ} {l : SchedulerLabel} (hserving : Serving n s) (hs : s.Attended)
    (hok : l.ok = true) (h : s.step l = some s') : s'.Attended := by
  refine ⟨?_, fun q' hq' => ?_⟩
  · cases l with
    | enqueue c im name =>
      cases h
      intro i hi
      refine hs.inHands i ?_
      cases hq : s.queue <;> rw [hq] at hi <;> exact hi
    | dispatch ok =>
      exact dispatch_inHands hs.inHands (step_running hserving.backed hserving.running hok h)
        (dispatchStep_cases h)
    | run i e => exact run_inHands hs.inHands hok h
    | completeExec i ok =>
      obtain ⟨jobId, result, q, hq, hget, rfl⟩ := step_completeExec h
      obtain rfl : ok = true := hok
      intro j hj
      obtain ⟨hne, hold⟩ := QueueStore.mem_inflight_complete.mp hj
      refine (hs.inHands j (by rw [hq]; exact hold)).imp_right (Or.imp_right fun hmem => ?_)
      obtain ⟨r, hr, rfl⟩ := List.mem_map.mp hmem
      rcases mem_advance hget hr none with rfl | hstays
      · exact absurd rfl hne
      · exact List.mem_map_of_mem hstays
    | clock | heartbeat | monitor | delete | recover | scale =>
      obtain ⟨hruns, hdispatch, -, -, hcompleting⟩ := worker_sameTasks h rfl
      intro i hi
      have hhands := hs.inHands i (worker_inFlight rfl h i hi)
      rwa [InHands, WithTask, ← hruns, ← hdispatch, ← hcompleting] at hhands
  · rcases hserving.backed with hredis | ⟨q, hq, -⟩
    · obtain ⟨q, hq, -⟩ := (step_unassigned hredis h).queue
      cases hq.symm.trans hq'
    have hnone := hs.onRedis q hq
    cases l with
    | enqueue =>
      cases h
      exact hnone
    | dispatch ok => cases dispatchStep_cases h <;> exact hnone
    | run i e =>
      obtain ⟨run, t, next, -, hmove, rfl⟩ := step_run h
      cases hmove with
      | completes result q₁ hq₁ => cases hq.symm.trans hq₁
      | _ => exact hnone
    | completeExec i ok =>
      obtain ⟨_, _, q₁, hq₁, -, -⟩ := step_completeExec h
      cases hq.symm.trans hq₁
    | clock | heartbeat | monitor | delete | recover | scale =>
      rw [(worker_sameTasks h rfl).2.2.2.2, hnone]

theorem start_attended (n : ℕ) (q : StartQueue) (now : Time) : (start n q now).Attended :=
  ⟨fun i hi => absurd (q.idle ▸ hi) (OrderedDict.notMem_empty i), fun _ _ => rfl⟩

/-! ## At rest -/

/-- No job is pending or in flight, and nobody has one. -/
structure AtRest (s : SchedulerState) : Prop where
  backed : s.Backed
  pending : s.queue.pendingIds = []
  inFlight : ∀ i, i ∉ s.queue.inFlight
  runs : s.runs = []
  completing : s.completing = []
  unassigned : s.unassignedJob = none
  assigned : s.assignedJob = none

/-- Nothing but an enqueue ends the rest. -/
theorem AtRest.step {l : SchedulerLabel} (hs : s.AtRest) (hl : ∀ c im name, l ≠ .enqueue c im name)
    (h : s.step l = some s') : s'.AtRest := by
  have hbacked := step_backed hs.backed h
  have hwaits : ∀ job, s.unassignedJob = some job → False := fun job hjob => by
    cases hs.unassigned.symm.trans hjob
  have hempty : ∀ q, s.queue = .inMemory q → q.dequeue = none := by
    intro q hq
    have hids := hs.pending
    rw [hq] at hids
    have hnil : q.queue = [] := List.map_eq_nil_iff.mp hids
    rw [InMemoryQueue.dequeue, hnil]
  cases l with
  | enqueue c im name => exact absurd rfl (hl c im name)
  | dispatch ok =>
    have hstays : s'.queue = s.queue → s'.runs = s.runs → s'.completing = s.completing →
        s'.unassignedJob = none → s'.assignedJob = none → s'.AtRest :=
      fun hqueue hruns hcompleting hun has => ⟨hbacked, hqueue ▸ hs.pending, hqueue ▸ hs.inFlight,
        hruns.trans hs.runs, hcompleting.trans hs.completing, hun, has⟩
    cases dispatchStep_cases h with
    | idle => exact hs
    | waits | stops => exact hstays rfl rfl rfl rfl rfl
    | pops w q q' job hq hpc hpop =>
      have hids := hs.pending
      rw [hq] at hids
      rw [QueueStore.blpop, List.map_eq_nil_iff.mp hids] at hpop
      cases hpop
    | tracks w q job hq hpc => exact (hwaits job (by rw [unassignedJob, hpc])).elim
    | assigns w job queue node htake =>
      cases htake with
      | redis q hq hpc => exact (hwaits job (by rw [unassignedJob, hpc])).elim
      | inMemory q q' hq hpc htake => cases (hempty q hq).symm.trans htake
    | refuses w job q hq hpc => exact (hwaits job (by rw [unassignedJob, hpc])).elim
    | refusesInMemory w job q q' hq hpc htake => cases (hempty q hq).symm.trans htake
    | hdel q job hq hpc => exact (hwaits job (by rw [unassignedJob, hpc])).elim
    | rpush q job hq hpc => exact (hwaits job (by rw [unassignedJob, hpc])).elim
    | launches w job hpc =>
      have has := hs.assigned
      rw [assignedJob, hpc] at has
      cases has
  | run i e =>
    obtain ⟨run, _, _, hrun, -⟩ := step_run h
    rw [hs.runs] at hrun
    cases hrun
  | completeExec i ok =>
    obtain ⟨_, _, _, -, hget, -⟩ := step_completeExec h
    rw [hs.completing] at hget
    cases hget
  | clock | heartbeat | monitor | delete | recover | scale =>
    obtain ⟨hruns, hdispatch, -, -, hcompleting⟩ := worker_sameTasks h rfl
    obtain ⟨hids, hrunning⟩ := worker_reclaims hs.backed rfl h
    have hboard : s.board.running = 0 := by
      rw [board, hs.assigned, running, hs.runs]
      rfl
    have hnone : s'.queue.pendingIds = [] := by
      rw [hids, hs.pending, List.nil_append, List.eq_nil_iff_forall_not_mem]
      intro i hi
      exact absurd (hboard ▸ hrunning i hi) (Multiset.notMem_zero i)
    exact ⟨hbacked, hnone, fun i hi => hs.inFlight i (worker_inFlight rfl h i hi),
      hruns.trans hs.runs, hcompleting.trans hs.completing,
      (unassignedJob_congr hdispatch).trans hs.unassigned, by
        rw [assignedJob, hdispatch]
        exact hs.assigned⟩

/-! ## Coming to rest -/

/-- A step of the coroutines of the process, a `_complete_async` among them. -/
def Settling (answer : RunTask → Json) (s : SchedulerState) (l : SchedulerLabel) : Prop :=
  s.Own answer l ∨ ∃ i, l = .completeExec i true

/-- What a process that serves keeps on its way to rest. -/
theorem step_serving_attended {n : ℕ} {l : SchedulerLabel} (hs : Serving n s ∧ s.Attended)
    (hok : l.ok = true) (h : s.step l = some s') : Serving n s' ∧ s'.Attended :=
  ⟨step_serving hs.1 hok h, step_attended hs.1 hs.2 hok h⟩

/-- A process with nothing left to do still has its `_complete_async` to run. -/
theorem exists_completeExec {n : ℕ} {answer : RunTask → Json} {ids : List Uuid}
    (s : SchedulerState) (hs : Serving n s ∧ s.Attended ∧ s.enqueued = ids ∧ s.Quiescent)
    (hpos : 0 < s.completing.length) :
    ∃ l t, s.Settling answer l ∧ s.step l = some t ∧
      (Serving n t ∧ t.Attended ∧ t.enqueued = ids ∧ t.Quiescent) ∧
        t.completing.length < s.completing.length := by
  obtain ⟨hserving, hattended, henqueued, hquiescent⟩ := hs
  obtain ⟨⟨jobId, result⟩, rest, hcompleting⟩ := List.exists_cons_of_length_pos hpos
  cases hq : s.queue with
  | inMemory q =>
    rw [hattended.onRedis q hq] at hcompleting
    cases hcompleting
  | redis q =>
    have hstep : s.step (.completeExec 0 true) = some { s with
        queue := .redis (q.complete jobId result s.clock), completing := rest } := by
      simp only [step, hcompleting, hq, List.getElem?_cons_zero, if_true, advance,
        List.eraseIdx_cons_zero]
    obtain ⟨hserving', hattended'⟩ := step_serving_attended ⟨hserving, hattended⟩ rfl hstep
    refine ⟨_, _, Or.inr ⟨0, rfl⟩, hstep, ⟨hserving', hattended', henqueued,
      hquiescent.completed, ?_, hquiescent.runs, hquiescent.dispatch⟩, ?_⟩
    · have hpending := hquiescent.pending
      rw [hq] at hpending
      exact hpending
    · rw [hcompleting]
      exact Nat.lt_succ_self _

/-- With these done it is at rest. -/
theorem atRest_of_quiescent (hs : s.Backed) (hattended : s.Attended) (hquiescent : s.Quiescent)
    (hcompleting : s.completing = []) : s.AtRest := by
  obtain ⟨w, hpc⟩ := hquiescent.dispatch
  refine ⟨hs, ?_, fun i hi => ?_, hquiescent.runs, hcompleting, by rw [unassignedJob, hpc],
    by rw [assignedJob, hpc]⟩
  · have hpending := hquiescent.pending
    cases hq : s.queue <;> rw [hq] at hpending <;> exact List.map_eq_nil_iff.mpr hpending
  · rcases hattended.inHands i hi with hheld | ⟨run, hrun, -⟩ | hmem
    · rw [hpc] at hheld
      cases hheld
    · rw [hquiescent.runs] at hrun
      cases hrun
    · rw [hcompleting] at hmem
      cases hmem

/-- **A process that serves can come to rest.** -/
theorem Serving.settles {n : ℕ} (hn : 0 < n) (hs : Serving n s) (hattended : s.Attended)
    (answer : RunTask → Json) :
    ∃ t, Machine.Reaches step (Settling answer) s t ∧ t.enqueued = s.enqueued ∧ t.Quiescent ∧
      t.AtRest := by
  obtain ⟨r, hr, hrs, henqueued, hquiescent⟩ := hs.drains hn answer
  have hra : r.Attended := (hr.invariant (I := fun u => Serving n u ∧ u.Attended)
    (fun _ _ _ hu hl hstep => step_serving_attended hu (ok_of_own hl.own) hstep)
    ⟨hs, hattended⟩).2
  have hlift : Machine.Reaches step (Settling answer) s r := hr.mono fun _ _ hl => Or.inl hl
  -- then the transactions that are scheduled take effect, one after the other
  obtain ⟨t, ht, ⟨hts, hta, hteq, htq⟩, hzero⟩ := Machine.reaches_of_measure
    (L := Settling answer) (I := fun u => Serving n u ∧ u.Attended ∧ u.enqueued = s.enqueued ∧
      u.Quiescent) (fun u => u.completing.length) exists_completeExec
    ⟨hrs, hra, henqueued, hquiescent⟩
  exact ⟨t, hlift.trans ht, hteq, htq,
    atRest_of_quiescent hts.backed hta htq (List.length_eq_zero_iff.mp hzero)⟩

end SchedulerState
end Rcsce
