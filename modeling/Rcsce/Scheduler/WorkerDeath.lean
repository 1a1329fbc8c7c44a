import Rcsce.Scheduler.Tokens

/-!
# What a dead worker's jobs are recovered to

`_reclaim_jobs` finds the jobs of a dead worker by the `worker_id` in the in-flight
dictionary.  The dispatcher writes it there after `dequeue` has filed the job.

* In memory the dictionary is shared, so the write shows.  `Tracked` says that the
  in-flight jobs are exactly the outstanding ones, each with the worker of its last
  assignment.
* On Redis `dequeue` has stored a text by then.  `Unassigned` says that no stored text
  ever carries a `worker_id`, so nothing is ever found.

`recovers_iff` is the exact condition on both backends, and
`redis_job_not_reclaimed` a job that is not recovered.
-/

namespace Rcsce
namespace SchedulerState

/-! ## In memory -/

/-- An in-flight job carries the worker of an outstanding assignment of it, and an
outstanding job is in flight. -/
structure Tracked (outstanding : List (Uuid × Uuid)) (q : InMemoryQueue) : Prop where
  assigned : ∀ j job, q.inFlight.get? j = some job →
    ∃ w, job.workerId = some w ∧ (j, w) ∈ outstanding
  inFlight : ∀ j w, (j, w) ∈ outstanding → j ∈ q.inFlight

theorem mem_settle {s : SchedulerState} {ids : List Uuid} {a : Uuid × Uuid} :
    a ∈ (s.settle ids).outstanding ↔ a ∈ s.outstanding ∧ a.1 ∉ ids := by
  show a ∈ s.outstanding.filter _ ↔ _
  rw [List.mem_filter, decide_eq_true_iff]

/-- Jobs leave the in-flight dictionary as they are settled. -/
theorem Tracked.settle {s : SchedulerState} {q q' : InMemoryQueue} {ids : List Uuid}
    (h : Tracked s.outstanding q)
    (hget : ∀ j, q'.inFlight.get? j = if j ∈ ids then none else q.inFlight.get? j) :
    Tracked (s.settle ids).outstanding q' := by
  constructor
  · intro j job hj
    rw [hget] at hj
    split_ifs at hj with hmem
    obtain ⟨w, hw, hout⟩ := h.assigned j job hj
    exact ⟨w, hw, mem_settle.mpr ⟨hout, hmem⟩⟩
  · intro j w hj
    obtain ⟨hout, hmem⟩ := mem_settle.mp hj
    obtain ⟨job, hjob⟩ := OrderedDict.mem_iff_get?.mp (h.inFlight j w hout)
    exact OrderedDict.mem_of_get? ((hget j).trans ((if_neg hmem).trans hjob))

/-- `dequeue` files the job, and the assignment writes its worker. -/
theorem Tracked.assign {outstanding : List (Uuid × Uuid)} {q q' : InMemoryQueue} {job : Job}
    (h : Tracked outstanding q) (htake : q.dequeue = some (job, q')) (w : Uuid) :
    Tracked (outstanding ++ [(job.jobId, w)]) (q'.assign job.jobId w) := by
  have hset : q'.inFlight = q.inFlight.set job.jobId job :=
    (InMemoryQueue.dequeue_eq_some htake).2
  have hget : ∀ j, (q'.assign job.jobId w).inFlight.get? j =
      if j = job.jobId then some (job.assignTo w) else q.inFlight.get? j := by
    intro j
    rw [InMemoryQueue.get?_inFlight_assign, hset, OrderedDict.get?_set]
    split_ifs <;> rfl
  constructor
  · intro j job' hj
    rw [hget] at hj
    split_ifs at hj with heq
    · rw [← Option.some.inj hj, heq]
      exact ⟨w, rfl, List.mem_append_right _ (List.mem_singleton.mpr rfl)⟩
    · obtain ⟨w', hw', hout⟩ := h.assigned j job' hj
      exact ⟨w', hw', List.mem_append_left _ hout⟩
  · intro j w' hj
    rw [OrderedDict.mem_iff_get?, hget]
    split_ifs with heq
    · exact ⟨_, rfl⟩
    · rcases List.mem_append.mp hj with hold | hnew
      · exact OrderedDict.mem_iff_get?.mp (h.inFlight j w' hold)
      · exact absurd (congrArg Prod.fst (List.mem_singleton.mp hnew)) heq

/-- `dequeue` and the `requeue` that follows when there is no node. -/
theorem get?_inFlight_refused {q q' : InMemoryQueue} {job : Job}
    (htake : q.dequeue = some (job, q')) (j : Uuid) :
    (q'.requeue job).inFlight.get? j =
      if j ∈ [job.jobId] then none else q.inFlight.get? j := by
  rw [InMemoryQueue.get?_inFlight_requeue, (InMemoryQueue.dequeue_eq_some htake).2,
    OrderedDict.get?_set]
  by_cases h : j = job.jobId
  · rw [if_pos h, if_pos (List.mem_singleton.mpr h)]
  · rw [if_neg h, if_neg h, if_neg fun hmem => h (List.mem_singleton.mp hmem)]

/-- The invariant of the in-memory backend. -/
def TracksInMemory (s : SchedulerState) : Prop :=
  ∃ q, s.queue = .inMemory q ∧ Tracked s.outstanding q

theorem recover_tracks {s s' : SchedulerState} {r : Recovery} {next : Option RecoveryStage}
    (hs : s.TracksInMemory) (h : s.RecoverMove r s' next) : s'.TracksInMemory := by
  obtain ⟨q, hq, ht⟩ := hs
  cases h with
  | reclaims q₂ hq₂ hpc =>
    cases hq.symm.trans hq₂
    exact ⟨_, rfl, ht.settle fun j => InMemoryQueue.get?_inFlight_foldl_requeue _ q j⟩
  | ends hpc => exact ⟨q, hq, ht⟩
  | notified q₂ hq₂ | fetches q₂ hq₂ | hdel q₂ _ _ hq₂ | rpush q₂ _ _ hq₂ | gives q₂ hq₂ =>
    cases hq.symm.trans hq₂

theorem dispatch_tracks {s s' : SchedulerState} (hs : s.TracksInMemory)
    (h : s.DispatchMove s') : s'.TracksInMemory := by
  obtain ⟨q, hq, ht⟩ := hs
  cases h with
  | idle | waits | launches => exact ⟨q, hq, ht⟩
  | assigns w job queue node htake hnode =>
    cases htake with
    | redis q₂ hq₂ => cases hq.symm.trans hq₂
    | inMemory q₂ q' hq₂ hpc htake =>
      cases hq.symm.trans hq₂
      exact ⟨_, rfl, ht.assign htake w⟩
  | refusesInMemory w job q₂ q' hq₂ hpc htake hnode =>
    cases hq.symm.trans hq₂
    exact ⟨_, rfl, ht.settle fun j => get?_inFlight_refused htake j⟩
  | pops _ q₂ _ _ hq₂ | tracks _ q₂ _ hq₂ | refuses _ _ q₂ hq₂ | hdel q₂ _ hq₂ | rpush q₂ _ hq₂
  | stops q₂ hq₂ => cases hq.symm.trans hq₂

theorem run_tracks {s s' : SchedulerState} {run : RunTask} {e : RunEvent}
    {next : Option RunStage} (hs : s.TracksInMemory) (h : s.RunMove run e s' next) :
    s'.TracksInMemory := by
  obtain ⟨q, hq, ht⟩ := hs
  cases h with
  | returns | fails | ends => exact ⟨q, hq, ht⟩
  | completesInMemory result q₂ hq₂ hpc =>
    cases hq.symm.trans hq₂
    refine ⟨_, rfl, ht.settle fun j => ?_⟩
    rw [InMemoryQueue.get?_inFlight_complete]
    simp only [List.mem_singleton]
  | requeuesInMemory q₂ hq₂ hpc =>
    cases hq.symm.trans hq₂
    refine ⟨_, rfl, ht.settle fun j => ?_⟩
    rw [InMemoryQueue.get?_inFlight_requeue]
    simp only [List.mem_singleton]
  | completes _ q₂ hq₂ | requeues q₂ hq₂ | hdel q₂ hq₂ | rpush q₂ hq₂ =>
    cases hq.symm.trans hq₂

/-- Every step keeps the in-flight dictionary in step with the assignments. -/
theorem step_tracks {s s' : SchedulerState} {l : SchedulerLabel} (hs : s.TracksInMemory)
    (h : s.step l = some s') : s'.TracksInMemory := by
  cases l with
  | enqueue c im n =>
    cases h
    obtain ⟨q, hq, ht⟩ := hs
    exact ⟨q.enqueue _, by rw [hq]; rfl, ht.assigned, ht.inFlight⟩
  | dispatch ok => exact dispatch_tracks hs (dispatchStep_cases h)
  | run i e =>
    obtain ⟨run, t, next, -, hmove, rfl⟩ := step_run h
    have ht := run_tracks hs hmove
    exact ht
  | completeExec i ok =>
    obtain ⟨_, _, q₂, hq₂, -⟩ := step_completeExec h
    obtain ⟨q, hq, -⟩ := hs
    cases hq.symm.trans hq₂
  | _ =>
    rcases worker_cases h rfl with ⟨-, hqueue, hout⟩ | ⟨r, t, next, -, hmove, -, hqueue, hout⟩
    · rw [TracksInMemory, hqueue, hout]
      exact hs
    · rw [TracksInMemory, hqueue, hout]
      exact recover_tracks hs hmove

/-! ## On Redis -/

end SchedulerState

/-- The jobs that `_reclaim_jobs` has found and not yet requeued. -/
def RecoveryStage.jobs : RecoveryStage → List Job
  | .hdel job rest => job :: rest
  | .rpush job rest => job :: rest
  | _ => []

/-- No stored text carries a `worker_id`. -/
structure QueueStore.Unassigned (q : QueueStore) : Prop where
  pending : ∀ job ∈ q.pending, job.workerId = none
  inflight : ∀ i job, q.inflight.get? i = some job → job.workerId = none

namespace QueueStore.Unassigned

variable {q : QueueStore}

theorem rpush (h : q.Unassigned) {job : Job} (hjob : job.workerId = none) :
    (q.rpush job).Unassigned := by
  refine ⟨fun job' hmem => ?_, h.inflight⟩
  rcases List.mem_append.mp hmem with hold | hnew
  · exact h.pending job' hold
  · exact List.mem_singleton.mp hnew ▸ hjob

theorem hset (h : q.Unassigned) {job : Job} (hjob : job.workerId = none) :
    (q.hset job).Unassigned := by
  refine ⟨h.pending, fun i job' hget => ?_⟩
  change (q.inflight.set job.jobId job).get? i = some job' at hget
  rw [OrderedDict.get?_set] at hget
  split_ifs at hget
  · exact Option.some.inj hget ▸ hjob
  · exact h.inflight i job' hget

theorem hdel (h : q.Unassigned) (jobId : Uuid) : (q.hdel jobId).Unassigned :=
  ⟨h.pending, fun i job hget => h.inflight i job (OrderedDict.get?_of_get?_erase hget)⟩

theorem complete (h : q.Unassigned) (jobId : Uuid) (result : Json) (now : Time) :
    (q.complete jobId result now).Unassigned :=
  ⟨h.pending, fun i job hget => h.inflight i job (OrderedDict.get?_of_get?_erase hget)⟩

theorem blpop (h : q.Unassigned) {job : Job} {q' : QueueStore} (hpop : q.blpop = some (job, q')) :
    job.workerId = none ∧ q'.Unassigned := by
  obtain ⟨hpending, hq'⟩ := QueueStore.blpop_eq_some.mp hpop
  have hinflight : q'.inflight = q.inflight := by rw [hq']
  have hmem : ∀ job' ∈ job :: q'.pending, job'.workerId = none := hpending ▸ h.pending
  exact ⟨hmem job List.mem_cons_self,
    fun job' hjob' => hmem job' (List.mem_cons_of_mem _ hjob'), hinflight ▸ h.inflight⟩

/-- So HGETALL finds no job of any worker. -/
theorem jobs_eq_nil (h : q.Unassigned) (w : Uuid) :
    (q.hgetall.filter fun job => job.workerId = some w) = [] := by
  rw [List.filter_eq_nil_iff]
  intro job hmem hw
  obtain ⟨i, hi⟩ := OrderedDict.mem_values_iff.mp hmem
  rw [decide_eq_true_iff, h.inflight i job hi] at hw
  cases hw

end QueueStore.Unassigned

namespace SchedulerState

/-- The job that the dispatcher has taken from Redis and not yet assigned. -/
def unassignedJob (s : SchedulerState) : Option Job :=
  match s.dispatch with
  | .popped _ job => some job
  | .tracked _ job => some job
  | .requeueHdel job => some job
  | .requeueRpush job => some job
  | _ => none

/-- The handling of a dead worker that is going on. -/
def Recovering (s : SchedulerState) (r : Recovery) : Prop :=
  (∃ rest now, s.monitor = .recovering r rest now) ∨ r ∈ s.deletes

/-- The invariant of the Redis backend: no `worker_id` in Redis, hence no job in the hands
of `_reclaim_jobs`. -/
structure UnassignedOnRedis (s : SchedulerState) : Prop where
  queue : ∃ q, s.queue = .redis q ∧ q.Unassigned
  held : ∀ job, s.unassignedJob = some job → job.workerId = none
  idle : ∀ r, s.Recovering r → r.stage.jobs = []

theorem UnassignedOnRedis.of_queue {s : SchedulerState} {q : QueueStore}
    (hs : s.UnassignedOnRedis) (hq : s.queue = .redis q) : q.Unassigned := by
  obtain ⟨q', hq', h⟩ := hs.queue
  cases hq.symm.trans hq'
  exact h

theorem recover_unassigned {s s' : SchedulerState} {r : Recovery} {next : Option RecoveryStage}
    (hs : s.UnassignedOnRedis) (hr : s.Recovering r) (h : s.RecoverMove r s' next) :
    s'.queue = s.queue ∧ s'.outstanding = s.outstanding ∧
      ∀ stage, next = some stage → stage.jobs = [] := by
  have hidle := hs.idle r hr
  obtain ⟨q, hq, hun⟩ := hs.queue
  cases h with
  | notified q₂ hq₂ hpc => exact ⟨rfl, rfl, fun _ hstage => Option.some.inj hstage ▸ rfl⟩
  | reclaims q₂ hq₂ hpc => cases hq.symm.trans hq₂
  | fetches q₂ hq₂ hpc =>
    refine ⟨rfl, rfl, fun _ hstage => ?_⟩
    rw [← Option.some.inj hstage, (hs.of_queue hq₂).jobs_eq_nil]
    rfl
  | hdel q₂ job rest hq₂ hpc =>
    rw [hpc] at hidle
    cases hidle
  | rpush q₂ job rest hq₂ hpc =>
    rw [hpc] at hidle
    cases hidle
  | gives q₂ hq₂ => exact ⟨rfl, rfl, fun _ hstage => Option.some.inj hstage ▸ rfl⟩
  | ends hpc => exact ⟨rfl, rfl, fun _ hstage => nomatch hstage⟩

/-- A step that leaves the dispatcher and the handlers where they are. -/
theorem UnassignedOnRedis.of_queue_step {s s' : SchedulerState} {q : QueueStore}
    (hs : s.UnassignedOnRedis) (hdispatch : s'.dispatch = s.dispatch)
    (hmonitor : s'.monitor = s.monitor) (hdeletes : s'.deletes = s.deletes)
    (hq : s'.queue = .redis q) (h : q.Unassigned) : s'.UnassignedOnRedis := by
  refine ⟨⟨q, hq, h⟩, fun job hjob => ?_, fun r hr => ?_⟩
  · rw [unassignedJob, hdispatch] at hjob
    exact hs.held job hjob
  · rw [Recovering, hmonitor, hdeletes] at hr
    exact hs.idle r hr

/-- A step of the dispatcher. -/
theorem UnassignedOnRedis.of_dispatch {s s' : SchedulerState} {q : QueueStore}
    (hs : s.UnassignedOnRedis) (hheld : ∀ job, s'.unassignedJob = some job → job.workerId = none)
    (hmonitor : s'.monitor = s.monitor) (hdeletes : s'.deletes = s.deletes)
    (hq : s'.queue = .redis q) (h : q.Unassigned) : s'.UnassignedOnRedis := by
  refine ⟨⟨q, hq, h⟩, hheld, fun r hr => ?_⟩
  rw [Recovering, hmonitor, hdeletes] at hr
  exact hs.idle r hr

theorem dispatch_unassigned {s s' : SchedulerState} (hs : s.UnassignedOnRedis)
    (h : s.DispatchMove s') : s'.UnassignedOnRedis := by
  obtain ⟨q, hq, hun⟩ := hs.queue
  cases h with
  | idle => exact hs
  | waits w hpc => exact hs.of_dispatch (fun _ hjob => nomatch hjob) rfl rfl hq hun
  | pops w q₂ q' job hq₂ hpc hpop =>
    obtain ⟨hjob, hun'⟩ := (hs.of_queue hq₂).blpop hpop
    exact hs.of_dispatch (fun _ hheld => Option.some.inj hheld ▸ hjob) rfl rfl rfl hun'
  | tracks w q₂ job hq₂ hpc =>
    have hjob := hs.held job (by rw [unassignedJob, hpc])
    exact hs.of_dispatch (fun _ hheld => Option.some.inj hheld ▸ hjob) rfl rfl rfl
      ((hs.of_queue hq₂).hset hjob)
  | assigns w job queue node htake hnode =>
    cases htake with
    | redis q₂ hq₂ hpc =>
      exact hs.of_dispatch (fun _ hjob => nomatch hjob) rfl rfl rfl (hs.of_queue hq₂)
    | inMemory q₂ q' hq₂ => cases hq.symm.trans hq₂
  | refuses w job q₂ hq₂ hpc hnode =>
    exact hs.of_dispatch (fun _ hheld => Option.some.inj hheld ▸ rfl) rfl rfl hq hun
  | refusesInMemory w job q₂ q' hq₂ => cases hq.symm.trans hq₂
  | hdel q₂ job hq₂ hpc =>
    have hjob := hs.held job (by rw [unassignedJob, hpc])
    exact hs.of_dispatch (fun _ hheld => Option.some.inj hheld ▸ hjob) rfl rfl rfl
      ((hs.of_queue hq₂).hdel _)
  | rpush q₂ job hq₂ hpc =>
    have hjob := hs.held job (by rw [unassignedJob, hpc])
    exact hs.of_dispatch (fun _ hheld => nomatch hheld) rfl rfl rfl
      ((hs.of_queue hq₂).rpush hjob)
  | launches w job hpc => exact hs.of_dispatch (fun _ hjob => nomatch hjob) rfl rfl hq hun
  | stops => exact hs.of_dispatch (fun _ hjob => nomatch hjob) rfl rfl hq hun

theorem run_unassigned {s s' : SchedulerState} {run : RunTask} {e : RunEvent}
    {next : Option RunStage} (hs : s.UnassignedOnRedis) (h : s.RunMove run e s' next) :
    s'.UnassignedOnRedis := by
  obtain ⟨q, hq, hun⟩ := hs.queue
  cases h with
  | returns | requeues | ends => exact hs
  | fails hpc => exact hs.of_queue_step rfl rfl rfl hq hun
  | completes result q₂ hq₂ hpc => exact hs.of_queue_step rfl rfl rfl hq hun
  | completesInMemory _ q₂ hq₂ | requeuesInMemory q₂ hq₂ => cases hq.symm.trans hq₂
  | hdel q₂ hq₂ hpc => exact hs.of_queue_step rfl rfl rfl rfl ((hs.of_queue hq₂).hdel _)
  | rpush q₂ hq₂ hpc => exact hs.of_queue_step rfl rfl rfl rfl ((hs.of_queue hq₂).rpush rfl)

/-- A pass of the monitor leaves no job in the hands of a handler. -/
theorem watch_unassigned {s : SchedulerState} (hqueue : ∃ q, s.queue = .redis q ∧ q.Unassigned)
    (hheld : ∀ job, s.unassignedJob = some job → job.workerId = none)
    (hidle : ∀ r ∈ s.deletes, r.stage.jobs = []) (now : Time) (l : List Uuid) :
    (s.watch now l).UnassignedOnRedis := by
  rcases s.watch_cases now l with hend | ⟨w, rest, -, hdead⟩
  · rw [hend]
    refine ⟨hqueue, hheld, fun r hr => ?_⟩
    rcases hr with ⟨_, _, hmon⟩ | hmem
    · cases hmon
    · exact hidle r hmem
  · rw [hdead]
    refine ⟨hqueue, hheld, fun r hr => ?_⟩
    rcases hr with ⟨_, _, hmon⟩ | hmem
    · cases hmon
      rfl
    · exact hidle r hmem

theorem monitor_unassigned {s s' : SchedulerState} {ok : Bool} (hs : s.UnassignedOnRedis)
    (h : s.monitorStep ok = some s') : s'.UnassignedOnRedis := by
  have hdeletes : ∀ r ∈ s.deletes, r.stage.jobs = [] := fun r hr => hs.idle r (Or.inr hr)
  rcases monitorStep_cases h with ⟨hpc, rfl⟩ | ⟨r, rest, now, t, next, hpc, hmove, hnext⟩
  · exact watch_unassigned hs.queue hs.held hdeletes _ _
  · obtain ⟨hqueue, -, hstage⟩ := recover_unassigned hs (Or.inl ⟨rest, now, hpc⟩) hmove
    obtain ⟨-, hdispatch, -⟩ := recover_sameTasks hmove
    obtain ⟨-, hdel, -⟩ := recover_pool hmove
    have hheld : ∀ job, t.unassignedJob = some job → job.workerId = none := by
      intro job hjob
      rw [unassignedJob, hdispatch] at hjob
      exact hs.held job hjob
    have hqueue' : ∃ q, t.queue = .redis q ∧ q.Unassigned := hqueue ▸ hs.queue
    rcases hnext with ⟨stage, rfl, rfl⟩ | ⟨rfl, rfl⟩
    · refine ⟨hqueue', hheld, fun r' hr' => ?_⟩
      rcases hr' with ⟨_, _, hmon⟩ | hmem
      · cases hmon
        exact hstage stage rfl
      · exact hdeletes r' (hdel ▸ hmem)
    · exact watch_unassigned hqueue' hheld (hdel ▸ hdeletes) _ _

theorem delete_unassigned {s : SchedulerState} (hs : s.UnassignedOnRedis) (w : Uuid) :
    (s.deleteStep w).UnassignedOnRedis := by
  obtain ⟨q, hq, hun⟩ := hs.queue
  rw [deleteStep]
  split
  · exact hs
  · split
    · exact hs.of_queue_step rfl rfl rfl hq hun
    · refine ⟨⟨q, hq, hun⟩, hs.held, fun r hr => ?_⟩
      rcases hr with hmon | hmem
      · exact hs.idle r (Or.inl hmon)
      · rcases List.mem_append.mp hmem with hold | hnew
        · exact hs.idle r (Or.inr hold)
        · rw [List.mem_singleton.mp hnew]
          rfl

/-- A step of the handling of a deleted worker. -/
theorem recoverStep_unassigned {s s' : SchedulerState} {i : ℕ} {ok : Bool}
    (hs : s.UnassignedOnRedis) (h : s.step (.recover i ok) = some s') :
    s'.UnassignedOnRedis := by
  obtain ⟨q, hq, hun⟩ := hs.queue
  obtain ⟨r, t, next, hget, hmove, rfl⟩ := step_recover h
  have hr : s.Recovering r := Or.inr (List.mem_of_getElem? hget)
  obtain ⟨hqueue, -, hstage⟩ := recover_unassigned hs hr hmove
  obtain ⟨-, hdispatch, -⟩ := recover_sameTasks hmove
  have hmonitor := recover_monitor hmove
  refine ⟨⟨q, hqueue.trans hq, hun⟩, fun job hjob => ?_, fun r' hr' => ?_⟩
  · rw [unassignedJob] at hjob
    exact hs.held job (by rw [unassignedJob, ← hdispatch]; exact hjob)
  · rcases hr' with ⟨rest, now, hmon⟩ | hmem
    · exact hs.idle r' (Or.inl ⟨rest, now, hmonitor ▸ hmon⟩)
    · rcases mem_of_mem_advance hget hmem with hnew | hold
      · obtain ⟨stage, hnext, rfl⟩ := Option.map_eq_some_iff.mp hnew
        exact hstage stage hnext
      · exact hs.idle r' (Or.inr hold)

/-- Every step keeps worker ids out of Redis. -/
theorem step_unassigned {s s' : SchedulerState} {l : SchedulerLabel} (hs : s.UnassignedOnRedis)
    (h : s.step l = some s') : s'.UnassignedOnRedis := by
  obtain ⟨q, hq, hun⟩ := hs.queue
  cases l with
  | clock | heartbeat =>
    cases h
    exact hs.of_queue_step rfl rfl rfl hq hun
  | enqueue c im n =>
    cases h
    exact hs.of_queue_step rfl rfl rfl (by rw [hq]; rfl) (hun.rpush rfl)
  | dispatch ok => exact dispatch_unassigned hs (dispatchStep_cases h)
  | run i e =>
    obtain ⟨run, t, next, -, hmove, rfl⟩ := step_run h
    have ht := run_unassigned hs hmove
    obtain ⟨q', hq', hun'⟩ := ht.queue
    exact ht.of_queue_step rfl rfl rfl hq' hun'
  | completeExec i ok =>
    obtain ⟨jobId, result, q₂, hq₂, -, rfl⟩ := step_completeExec h
    refine hs.of_queue_step rfl rfl rfl rfl ?_
    split_ifs
    · exact (hs.of_queue hq₂).complete _ _ _
    · exact hs.of_queue hq₂
  | monitor ok => exact monitor_unassigned hs h
  | delete w =>
    cases h
    exact delete_unassigned hs w
  | recover i ok => exact recoverStep_unassigned hs h
  | scale count =>
    rw [step] at h
    split_ifs at h
    · cases h
      exact hs.of_queue_step rfl rfl rfl hq hun
    · cases h
      exact hs

/-- So no step of the process on Redis reclaims a job. -/
theorem reclaimed_of_unassigned {s : SchedulerState} (hs : s.UnassignedOnRedis)
    (l : SchedulerLabel) : s.reclaimed l = [] := by
  obtain ⟨q, hq, -⟩ := hs.queue
  rw [reclaimed]
  split
  · rfl
  · rename_i r hr
    have hidle : r.stage.jobs = [] := by
      refine hs.idle r ?_
      cases l with
      | monitor ok =>
        rw [handlerOf] at hr
        split at hr
        · cases hr
        · rename_i r' rest now hmon
          cases hr
          exact Or.inl ⟨rest, now, hmon⟩
      | recover i ok => exact Or.inr (List.mem_of_getElem? hr)
      | _ => cases hr
    rw [reclaimedBy]
    split
    · rename_i hqueue
      cases hq.symm.trans hqueue
    · rename_i job rest _ hpc _
      rw [hpc] at hidle
      cases hidle
    · rfl

/-! ## Outstanding jobs on Redis -/

/-- No outstanding job is pending. -/
def Apart (s : SchedulerState) : Prop :=
  ∀ a ∈ s.outstanding, a.1 ∉ s.queue.pendingIds ∧ a.1 < s.pool.nextUuid

theorem Apart.mono {s s' : SchedulerState} (hs : s.Apart)
    (hout : ∀ a ∈ s'.outstanding, a ∈ s.outstanding)
    (hpending : ∀ i ∈ s'.queue.pendingIds, i ∈ s.queue.pendingIds)
    (hmono : s.pool.nextUuid ≤ s'.pool.nextUuid) : s'.Apart := fun a ha =>
  ⟨fun hmem => (hs a (hout a ha)).1 (hpending _ hmem), (hs a (hout a ha)).2.trans_le hmono⟩

/-- A job is requeued and settled. -/
theorem Apart.requeue {s s' : SchedulerState} {i : Uuid} (hs : s.Apart)
    (hout : s'.outstanding = (s.settle [i]).outstanding)
    (hpending : s'.queue.pendingIds = s.queue.pendingIds ++ [i])
    (hmono : s.pool.nextUuid ≤ s'.pool.nextUuid) : s'.Apart := by
  intro a ha
  rw [hout] at ha
  obtain ⟨hmem, hne⟩ := mem_settle.mp ha
  rw [hpending, List.mem_append, not_or]
  exact ⟨⟨(hs a hmem).1, hne⟩, (hs a hmem).2.trans_le hmono⟩

/-- A job that the dispatcher has is not pending, by its one token. -/
theorem not_pending_of_held {s : SchedulerState} (hs : s.OneToken) {i : Uuid}
    (h : s.held = {i}) : i ∉ s.queue.pendingIds ∧ i < s.pool.nextUuid := by
  have honce := hs.once
  rw [tokens, h, Multiset.nodup_add, Multiset.nodup_add, Multiset.nodup_add] at honce
  refine ⟨fun hmem => ?_, hs.drawn i ?_⟩
  · exact Multiset.disjoint_left.mp honce.1.2.1.2.2 (Multiset.mem_coe.mpr hmem)
      (Multiset.mem_singleton_self i)
  · rw [tokens, h]
    simp

theorem dispatch_apart {s s' : SchedulerState} (hs : s.UnassignedOnRedis) (htoken : s.OneToken)
    (hapart : s.Apart) (h : s.DispatchMove s') : s'.Apart := by
  obtain ⟨q, hq, -⟩ := hs.queue
  cases h with
  | pops w q₂ q' job hq₂ hpc hpop =>
    refine hapart.mono (fun _ ha => ha) (fun i hi => ?_) le_rfl
    have hids : q₂.pendingIds = job.jobId :: q'.pendingIds := by
      rw [QueueStore.pendingIds, (QueueStore.blpop_eq_some.mp hpop).1]
      rfl
    rw [hq₂]
    show i ∈ q₂.pendingIds
    rw [hids]
    exact List.mem_cons_of_mem _ hi
  | assigns w job queue node htake hnode =>
    cases htake with
    | inMemory q₂ q' hq₂ => cases hq.symm.trans hq₂
    | redis q₂ hq₂ hpc =>
      have hheld : s.held = {job.jobId} := by rw [held, hpc]
      intro a ha
      show a.1 ∉ q₂.pendingIds ∧ a.1 < s.pool.nextUuid
      rcases List.mem_append.mp ha with hold | hnew
      · have hold' := hapart a hold
        rw [hq₂] at hold'
        exact hold'
      · have hnew' := not_pending_of_held htoken hheld
        rw [hq₂] at hnew'
        rw [List.mem_singleton.mp hnew]
        exact hnew'
  | refusesInMemory w job q₂ q' hq₂ => cases hq.symm.trans hq₂
  | rpush q₂ job hq₂ hpc =>
    refine hapart.requeue rfl ?_ le_rfl
    rw [hq₂]
    exact QueueStore.pendingIds_rpush q₂ job
  | tracks w q₂ job hq₂ hpc =>
    exact hapart.mono (fun _ ha => ha) (fun i hi => by rw [hq₂]; exact hi) le_rfl
  | hdel q₂ job hq₂ hpc =>
    exact hapart.mono (fun _ ha => ha) (fun i hi => by rw [hq₂]; exact hi) le_rfl
  | idle => exact hapart
  | waits | refuses | launches | stops => exact hapart.mono (fun _ ha => ha) (fun _ hi => hi) le_rfl

theorem run_apart {s s' : SchedulerState} {run : RunTask} {e : RunEvent}
    {next : Option RunStage} (hs : s.UnassignedOnRedis) (hapart : s.Apart)
    (h : s.RunMove run e s' next) : s'.Apart := by
  obtain ⟨q, hq, -⟩ := hs.queue
  cases h with
  | returns | requeues | ends => exact hapart
  | fails hpc => exact hapart.mono (fun _ ha => ha) (fun _ hi => hi) le_rfl
  | completes result q₂ hq₂ hpc =>
    exact hapart.mono (fun _ ha => (mem_settle.mp ha).1) (fun _ hi => hi) le_rfl
  | completesInMemory _ q₂ hq₂ | requeuesInMemory q₂ hq₂ => cases hq.symm.trans hq₂
  | hdel q₂ hq₂ hpc =>
    exact hapart.mono (fun _ ha => ha) (fun i hi => by rw [hq₂]; exact hi) le_rfl
  | rpush q₂ hq₂ hpc =>
    refine hapart.requeue rfl ?_ le_rfl
    rw [hq₂]
    exact QueueStore.pendingIds_rpush q₂ run.job.reset

theorem step_apart {s s' : SchedulerState} {l : SchedulerLabel} (hs : s.UnassignedOnRedis)
    (htoken : s.OneToken) (hapart : s.Apart) (h : s.step l = some s') : s'.Apart := by
  have hmono := step_nextUuid_le h
  cases l with
  | enqueue c im n =>
    cases h
    intro a ha
    obtain ⟨hnot, hlt⟩ := hapart a ha
    refine ⟨?_, Nat.lt_succ_of_lt hlt⟩
    rw [JobQueue.pendingIds_enqueue, List.mem_append, not_or]
    exact ⟨hnot, fun hmem => hlt.ne (List.mem_singleton.mp hmem)⟩
  | dispatch ok => exact dispatch_apart hs htoken hapart (dispatchStep_cases h)
  | run i e =>
    obtain ⟨run, t, next, -, hmove, rfl⟩ := step_run h
    have ht := run_apart hs hapart hmove
    exact ht
  | completeExec i ok =>
    obtain ⟨_, _, q, hq, -, rfl⟩ := step_completeExec h
    refine hapart.mono (fun _ ha => ha) (fun j hj => ?_) hmono
    rw [hq]
    cases ok <;> exact hj
  | _ =>
    obtain ⟨hids, hout⟩ := worker_of_reclaimed h rfl (reclaimed_of_unassigned hs _)
    exact hapart.mono (fun _ ha => hout ▸ ha) (fun _ hi => hids ▸ hi) hmono

/-! ## Recovery -/

/-- What the recovery of the jobs of `w` is for: afterwards every outstanding job of `w`
is pending once, not in flight, and carries no `worker_id`; the in-flight jobs of the
other workers and the pending jobs are as they were. -/
structure Recovers (s : SchedulerState) (w : Uuid) : Prop where
  requeued : ∀ j, (j, w) ∈ s.outstanding →
    (s.queue.reclaimJobs w).pendingIds.count j = 1 ∧ j ∉ (s.queue.reclaimJobs w).inFlight ∧
      ∀ job ∈ (s.queue.reclaimJobs w).pending, job.jobId = j → job.workerId = none
  others : ∀ j w', w' ≠ w → (j, w') ∈ s.outstanding → j ∈ s.queue.inFlight →
    (s.queue.reclaimJobs w).inFlight.get? j = s.queue.inFlight.get? j
  pending : s.queue.pending <+: (s.queue.reclaimJobs w).pending

/-- On Redis, `w` has no outstanding job.  In memory, no outstanding job of `w` is also
pending or assigned to another worker. -/
def RecoversWhen (s : SchedulerState) (w : Uuid) : Prop :=
  match s.queue with
  | .redis _ => ∀ j, (j, w) ∉ s.outstanding
  | .inMemory q => ∀ j, (j, w) ∈ s.outstanding →
      j ∉ q.pendingIds ∧ ∀ w', (j, w') ∈ s.outstanding → w' = w

/-- On Redis `_reclaim_jobs` changes nothing. -/
theorem reclaimJobs_of_unassigned {s : SchedulerState} (hs : s.UnassignedOnRedis) (w : Uuid) :
    s.queue.reclaimJobs w = s.queue := by
  obtain ⟨q, hq, hun⟩ := hs.queue
  rw [hq, JobQueue.reclaimJobs, hun.jobs_eq_nil w, List.foldl_nil]

theorem recovers_iff_of_redis {s : SchedulerState} (hs : s.UnassignedOnRedis) (hapart : s.Apart)
    (w : Uuid) : s.Recovers w ↔ s.RecoversWhen w := by
  have hsame := reclaimJobs_of_unassigned hs w
  obtain ⟨q, hq, -⟩ := hs.queue
  have hwhen : s.RecoversWhen w ↔ ∀ j, (j, w) ∉ s.outstanding := by rw [RecoversWhen, hq]
  rw [hwhen]
  constructor
  · intro hrec j hj
    have hcount := (hrec.requeued j hj).1
    rw [hsame, List.count_eq_zero_of_not_mem (hapart _ hj).1] at hcount
    cases hcount
  · intro hnone
    refine ⟨fun j hj => absurd hj (hnone j), fun j w' _ _ _ => by rw [hsame], ?_⟩
    rw [hsame]

/-- What `_reclaim_jobs` does in memory to the in-flight dictionary. -/
theorem get?_inFlight_reclaim (q : InMemoryQueue) (w j : Uuid) :
    (q.reclaim w).inFlight.get? j =
      if j ∈ (q.jobsOf w).map Job.jobId then none else q.inFlight.get? j :=
  InMemoryQueue.get?_inFlight_foldl_requeue _ q j

theorem pendingIds_reclaim (q : InMemoryQueue) (w : Uuid) :
    (q.reclaim w).pendingIds = q.pendingIds ++ (q.jobsOf w).map Job.jobId := by
  rw [InMemoryQueue.pendingIds, InMemoryQueue.reclaim, InMemoryQueue.queue_foldl_requeue,
    List.map_append, List.map_map, List.map_map, InMemoryQueue.pendingIds]
  congr 1
  refine List.map_congr_left fun job _ => ?_
  simp only [Function.comp_apply]
  split_ifs <;> rfl

/-- A job that `_reclaim_jobs` finds for `w` is outstanding with `w`. -/
theorem Tracked.outstanding_of_found {outstanding : List (Uuid × Uuid)} {q : InMemoryQueue}
    (ht : Tracked outstanding q) {j w : Uuid} (hj : j ∈ (q.jobsOf w).map Job.jobId) :
    (j, w) ∈ outstanding := by
  obtain ⟨job, hjob, hw⟩ := InMemoryQueue.mem_jobsOf_ids.mp hj
  obtain ⟨w', hw', hout⟩ := ht.assigned j job hjob
  obtain rfl : w = w' := Option.some.inj (hw.symm.trans hw')
  exact hout

/-- It finds every job that is outstanding with `w` alone. -/
theorem Tracked.found_of_only {outstanding : List (Uuid × Uuid)} {q : InMemoryQueue}
    (ht : Tracked outstanding q) {j w : Uuid} (hj : (j, w) ∈ outstanding)
    (honly : ∀ w', (j, w') ∈ outstanding → w' = w) : j ∈ (q.jobsOf w).map Job.jobId := by
  obtain ⟨job, hjob⟩ := OrderedDict.mem_iff_get?.mp (ht.inFlight j w hj)
  obtain ⟨w', hw', hout⟩ := ht.assigned j job hjob
  exact InMemoryQueue.mem_jobsOf_ids.mpr ⟨job, hjob, honly w' hout ▸ hw'⟩

/-- It finds every outstanding job that is not in flight afterwards. -/
theorem Tracked.found_of_left {outstanding : List (Uuid × Uuid)} {q : InMemoryQueue}
    (ht : Tracked outstanding q) {j w w' : Uuid} (hj : (j, w') ∈ outstanding)
    (hleft : j ∉ (q.reclaim w).inFlight) : j ∈ (q.jobsOf w).map Job.jobId := by
  by_contra hout
  obtain ⟨job, hjob⟩ := OrderedDict.mem_iff_get?.mp (ht.inFlight j w' hj)
  have hget : (q.reclaim w).inFlight.get? j = some job := by
    rw [get?_inFlight_reclaim, if_neg hout, hjob]
  exact hleft (OrderedDict.mem_of_get? hget)

/-- Where it finds no pending job, it appends what it finds. -/
theorem queue_reclaim {q : InMemoryQueue} {w : Uuid}
    (h : ∀ j ∈ (q.jobsOf w).map Job.jobId, j ∉ q.pendingIds) :
    (q.reclaim w).queue = q.queue ++ (q.jobsOf w).map Job.reset := by
  have hkept : q.queue.map (fun job =>
      if job.jobId ∈ (q.jobsOf w).map Job.jobId then job.reset else job) = q.queue := by
    refine (List.map_congr_left fun job hjob => if_neg fun hmem => ?_).trans (List.map_id _)
    exact h _ hmem (List.mem_map.mpr ⟨job, hjob, rfl⟩)
  rw [InMemoryQueue.reclaim, InMemoryQueue.queue_foldl_requeue, hkept]

section InMemory

variable {s : SchedulerState} {q : InMemoryQueue} {w : Uuid}

/-- If the jobs of `w` are recovered, none of them was pending or had another worker. -/
theorem only_of_recovers (hq : s.queue = .inMemory q) (ht : Tracked s.outstanding q)
    (hrec : s.Recovers w) {j : Uuid} (hj : (j, w) ∈ s.outstanding) :
    j ∉ q.pendingIds ∧ ∀ w', (j, w') ∈ s.outstanding → w' = w := by
  have hqueue : s.queue.reclaimJobs w = .inMemory (q.reclaim w) := by rw [hq]; rfl
  obtain ⟨hcount, hnot, -⟩ := hrec.requeued j hj
  rw [hqueue] at hcount hnot
  change (q.reclaim w).pendingIds.count j = 1 at hcount
  change j ∉ (q.reclaim w).inFlight at hnot
  have hmem := ht.found_of_left hj hnot
  have hin := ht.inFlight j w hj
  refine ⟨fun hpending => ?_, fun w' hw' => ?_⟩
  · -- it would be pending twice
    rw [pendingIds_reclaim, List.count_append] at hcount
    have hleft := List.count_pos_iff.mpr hpending
    have hright := List.count_pos_iff.mpr hmem
    omega
  · -- a job of another worker would still be in flight
    by_contra hne
    have hsame := hrec.others j w' hne hw' (by rw [hq]; exact hin)
    rw [hqueue, hq] at hsame
    obtain ⟨job, hjob⟩ := OrderedDict.mem_iff_get?.mp hin
    exact hnot (OrderedDict.mem_iff_get?.mpr ⟨job, hsame.trans hjob⟩)

theorem recovers_of_only (hq : s.queue = .inMemory q) (ht : Tracked s.outstanding q)
    (hcond : ∀ j, (j, w) ∈ s.outstanding →
      j ∉ q.pendingIds ∧ ∀ w', (j, w') ∈ s.outstanding → w' = w) : s.Recovers w := by
  have hqueue : s.queue.reclaimJobs w = .inMemory (q.reclaim w) := by rw [hq]; rfl
  have hpending := queue_reclaim fun j hj => (hcond j (ht.outstanding_of_found hj)).1
  constructor
  · intro j hj
    have hmem := ht.found_of_only hj (hcond j hj).2
    rw [hqueue]
    refine ⟨?_, ?_, fun job hjob hid => ?_⟩
    · show (q.reclaim w).pendingIds.count j = 1
      rw [pendingIds_reclaim, List.count_append, List.count_eq_zero_of_not_mem (hcond j hj).1,
        List.count_eq_one_of_mem (InMemoryQueue.nodup_jobsOf_ids q w) hmem]
    · show j ∉ (q.reclaim w).inFlight
      rw [← OrderedDict.get?_eq_none_iff, get?_inFlight_reclaim, if_pos hmem]
    · change job ∈ (q.reclaim w).queue at hjob
      rw [hpending] at hjob
      rcases List.mem_append.mp hjob with hold | hnew
      · exact absurd (List.mem_map.mpr ⟨job, hold, hid⟩) (hcond j hj).1
      · obtain ⟨job', -, rfl⟩ := List.mem_map.mp hnew
        rfl
  · intro j w' hne hw' hin
    rw [hqueue, hq]
    show (q.reclaim w).inFlight.get? j = q.inFlight.get? j
    rw [get?_inFlight_reclaim, if_neg]
    intro hmem
    exact hne ((hcond j (ht.outstanding_of_found hmem)).2 w' hw')
  · rw [hqueue, hq]
    show q.queue <+: (q.reclaim w).queue
    rw [hpending]
    exact List.prefix_append _ _

theorem recovers_iff_of_inMemory (hq : s.queue = .inMemory q) (ht : Tracked s.outstanding q) :
    s.Recovers w ↔ s.RecoversWhen w := by
  have hwhen : s.RecoversWhen w ↔ ∀ j, (j, w) ∈ s.outstanding →
      j ∉ q.pendingIds ∧ ∀ w', (j, w') ∈ s.outstanding → w' = w := by rw [RecoversWhen, hq]
  rw [hwhen]
  exact ⟨fun hrec _ hj => only_of_recovers hq ht hrec hj, recovers_of_only hq ht⟩

end InMemory

/-! ## The handlers run `_reclaim_jobs` -/

/-- A handler whose next step is known takes it. -/
theorem step_recover_of_effect {s t : SchedulerState} {r : Recovery} {i : ℕ} {ok : Bool}
    {stage : RecoveryStage} (hi : s.deletes[i]? = some r)
    (heffect : s.recoverEffect r ok = some (t, some stage)) :
    s.step (.recover i ok) =
      some { t with deletes := advance s.deletes i (some { r with stage }) } := by
  simp only [step, hi, heffect, Option.map_some]

theorem getElem?_advance {l : List Recovery} {i : ℕ} {r : Recovery} (h : l[i]? = some r)
    (r' : Recovery) : (advance l i (some r'))[i]? = some r' := by
  obtain ⟨hi, -⟩ := List.getElem?_eq_some_iff.mp h
  exact List.getElem?_set_self hi

/-- Two commands of a handler before the others. -/
theorem exec_recover_cons_cons {s s₁ s₂ s' : SchedulerState} {i k : ℕ}
    (h₁ : s.step (.recover i true) = some s₁) (h₂ : s₁.step (.recover i true) = some s₂)
    (hexec : Machine.exec step s₂ (List.replicate k (.recover i true)) = some s') :
    Machine.exec step s (List.replicate (k + 2) (.recover i true)) = some s' := by
  rw [List.replicate_succ, List.replicate_succ, Machine.exec_cons_of_step _ h₁,
    Machine.exec_cons_of_step _ h₂, hexec]

/-- The loop of `_reclaim_jobs` on Redis, command by command. -/
theorem exec_reclaim_loop {s : SchedulerState} {q : QueueStore} {i : ℕ} {w : Uuid}
    (jobs : List Job) (hq : s.queue = .redis q)
    (hi : s.deletes[i]? = some ⟨w, RecoveryStage.next jobs⟩) :
    ∃ k s', Machine.exec step s (List.replicate k (.recover i true)) = some s' ∧
      s'.queue = .redis (jobs.foldl (fun q job => (q.hdel job.jobId).rpush job.reset) q) := by
  induction jobs generalizing s q with
  | nil => exact ⟨0, s, rfl, hq⟩
  | cons job jobs ih =>
    -- HDEL
    have hhdel : s.recoverEffect ⟨w, .hdel job.reset jobs⟩ true =
        some ({ s with queue := .redis (q.hdel job.jobId) }, some (.rpush job.reset jobs)) := by
      simp only [recoverEffect, hq, JobQueue.redis?, Option.map_some, if_true]
      rfl
    have hstep₁ := step_recover_of_effect hi hhdel
    set s₁ : SchedulerState := { s with
      queue := .redis (q.hdel job.jobId)
      deletes := advance s.deletes i (some ⟨w, .rpush job.reset jobs⟩) } with hs₁
    have hi₁ : s₁.deletes[i]? = some ⟨w, .rpush job.reset jobs⟩ := getElem?_advance hi _
    -- RPUSH
    have hrpush : s₁.recoverEffect ⟨w, .rpush job.reset jobs⟩ true =
        some ({ s₁.settle [job.jobId] with
          queue := .redis ((q.hdel job.jobId).rpush job.reset) }, some (.next jobs)) := rfl
    have hstep₂ := step_recover_of_effect hi₁ hrpush
    obtain ⟨k, s', hexec, hqueue⟩ := ih (s := { s₁.settle [job.jobId] with
      queue := .redis ((q.hdel job.jobId).rpush job.reset)
      deletes := advance s₁.deletes i (some ⟨w, .next jobs⟩) }) rfl (getElem?_advance hi₁ _)
    exact ⟨k + 2, s', exec_recover_cons_cons hstep₁ hstep₂ hexec, hqueue⟩

/-- **A handler computes `_reclaim_jobs`.**  A DELETE that runs without an interleaving
and without a Redis error from its notification on leaves the queue that `reclaimJobs`
gives. -/
theorem exec_recover {s : SchedulerState} {i : ℕ} {w : Uuid}
    (hi : s.deletes[i]? = some ⟨w, .notifying⟩) :
    ∃ k s', Machine.exec step s (List.replicate k (.recover i true)) = some s' ∧
      s'.queue = s.queue.reclaimJobs w := by
  cases hq : s.queue with
  | inMemory q =>
    have hstep : s.step (.recover i true) = some { s.settle ((q.jobsOf w).map Job.jobId) with
        queue := .inMemory (q.reclaim w)
        pool := s.pool.replaceWorkerIfNeeded w s.clock
        deletes := advance s.deletes i none } := by
      simp only [step, hi, recoverEffect, hq, Option.map_some, Option.map_none]
    exact ⟨1, _, Machine.exec_cons_of_step _ hstep [], rfl⟩
  | redis q =>
    have hnotify : s.recoverEffect ⟨w, .notifying⟩ true = some (s, some .fetching) := by
      simp only [recoverEffect, hq]
    have hstep₁ := step_recover_of_effect hi hnotify
    have hi₁ := getElem?_advance hi ⟨w, .fetching⟩
    set s₁ : SchedulerState := { s with
      deletes := advance s.deletes i (some ⟨w, .fetching⟩) } with hs₁
    have hfetch : s₁.recoverEffect ⟨w, .fetching⟩ true =
        some (s₁, some (.next (q.hgetall.filter fun job => job.workerId = some w))) := by
      simp only [recoverEffect, hs₁, hq, JobQueue.redis?, Option.map_some, if_true]
    have hstep₂ := step_recover_of_effect hi₁ hfetch
    have hfound := getElem?_advance hi₁
      ⟨w, .next (q.hgetall.filter fun job => job.workerId = some w)⟩
    obtain ⟨k, s', hexec, hqueue⟩ := exec_reclaim_loop (s := { s₁ with
      deletes := advance s₁.deletes i
        (some ⟨w, .next (q.hgetall.filter fun job => job.workerId = some w)⟩) }) _ hq hfound
    exact ⟨k + 2, s', exec_recover_cons_cons hstep₁ hstep₂ hexec, hqueue⟩

/-! ## Whole runs -/

/-- The invariant of either backend. -/
def Accounted (s : SchedulerState) : Prop :=
  (s.UnassignedOnRedis ∧ s.OneToken ∧ s.Apart) ∨ s.TracksInMemory

theorem step_accounted {s s' : SchedulerState} {l : SchedulerLabel} (hs : s.Accounted)
    (h : s.step l = some s') : s'.Accounted := by
  rcases hs with ⟨hun, htoken, hapart⟩ | htracks
  · exact Or.inl ⟨step_unassigned hun h,
      step_oneToken htoken (reclaimed_of_unassigned hun l) h, step_apart hun htoken hapart h⟩
  · exact Or.inr (step_tracks htracks h)

theorem start_accounted (n : ℕ) (q : StartQueue) (now : Time) : (start n q now).Accounted := by
  have hidle := q.idle
  have hunassigned := q.unassigned
  cases hq : q.queue with
  | redis r =>
    rw [hq] at hidle hunassigned
    change r.inflight = .empty at hidle
    have hstored : r.Unassigned := by
      refine ⟨hunassigned, fun i job hget => ?_⟩
      rw [hidle] at hget
      cases hget
    refine Or.inl ⟨⟨⟨r, hq, hstored⟩, (fun _ hjob => nomatch hjob), fun r hr => ?_⟩,
      start_oneToken n q now, fun _ ha => absurd ha List.not_mem_nil⟩
    rcases hr with ⟨_, _, hmon⟩ | hmem
    · cases hmon
    · exact absurd hmem List.not_mem_nil
  | inMemory r =>
    rw [hq] at hidle
    change r.inFlight = .empty at hidle
    refine Or.inr ⟨r, hq, fun j job hget => ?_, fun _ _ ha => absurd ha List.not_mem_nil⟩
    rw [hidle] at hget
    cases hget

/-- **When a dead worker's jobs are recovered.**  In every state that a run reaches, on
either backend, `_reclaim_jobs` recovers the jobs of `w` if and only if: on Redis, `w`
has none outstanding; in memory, none of them is also pending or assigned to another
worker. -/
theorem recovers_iff (n : ℕ) (q : StartQueue) (now : Time) (ls : List SchedulerLabel)
    (s : SchedulerState) (h : Machine.exec step (start n q now) ls = some s) (w : Uuid) :
    s.Recovers w ↔ s.RecoversWhen w := by
  have hs : s.Accounted :=
    Machine.exec_invariant (fun _ _ _ hs h => step_accounted hs h) (start_accounted n q now) h
  rcases hs with ⟨hun, -, hapart⟩ | ⟨r, hr, htracked⟩
  · exact recovers_iff_of_redis hun hapart w
  · exact recovers_iff_of_inMemory hr htracked

/-- In memory, the job of worker 0 is recovered. -/
theorem recovers_iff_in_memory :
    ∃ s, Machine.exec step (start 1 .inMemory 0)
        [.enqueue "c1" "sha256:1" "nginx", .dispatch true, .dispatch true] = some s ∧
      s.outstanding = [(1, 0)] ∧ s.Recovers 0 := by
  refine ⟨_, rfl, rfl, ?_⟩
  refine (recovers_iff 1 .inMemory 0 [.enqueue "c1" "sha256:1" "nginx", .dispatch true,
    .dispatch true] _ rfl 0).mpr ?_
  intro j hj
  obtain rfl : j = 1 := congrArg Prod.fst (List.mem_singleton.mp hj)
  exact ⟨by decide, fun w' hw' => congrArg Prod.snd (List.mem_singleton.mp hw')⟩

/-- On Redis, job 1 is assigned to worker 0, and `_reclaim_jobs` leaves it in flight. -/
theorem redis_job_not_reclaimed :
    ∃ s, Machine.exec step (start 1 .redis 0)
        [.enqueue "c1" "sha256:1" "nginx", .dispatch true, .dispatch true, .dispatch true,
          .dispatch true] = some s ∧
      s.outstanding = [(1, 0)] ∧ (s.queue.reclaimJobs 0).pendingIds = [] ∧
      1 ∈ (s.queue.reclaimJobs 0).inFlight ∧ ¬ s.Recovers 0 := by
  refine ⟨_, rfl, rfl, rfl, by decide, fun hrec => ?_⟩
  exact absurd (hrec.requeued 1 List.mem_cons_self).1 (by decide)

end SchedulerState
end Rcsce
