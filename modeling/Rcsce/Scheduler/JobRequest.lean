import Rcsce.Scheduler.WorkerDeath

/-!
# What a job asks for, on its way through the scheduler

A job is written anew at many places: it is loaded from Redis, marked as in flight,
assigned, reset, requeued and reclaimed.  None of them touches its id, its container or its
image, which are its `request`.  So what depends on the request only is kept on the way:
`AllJobs P` says that every job that the process or its queue has, wherever it is, has
`P`, and `step_allJobs` that a step keeps it if the job that `enqueue` makes has `P`.

A new process on the same Redis goes on with the jobs that it finds there.
`reclaimInflight` is what `reclaim_inflight` does to Redis, possibly cut short, and `boot`
the process after `create_queue`.
-/

namespace Rcsce

/-- What a job asks for. -/
def Job.request (job : Job) : Uuid × String × String × String :=
  (job.jobId, job.containerId, job.imageId, job.imageName)

/-- The property depends on the request only. -/
def Job.AboutRequest (P : Job → Prop) : Prop :=
  ∀ job job' : Job, job'.request = job.request → P job → P job'

/-- Every job of the queue has the property, pending or in flight. -/
structure JobQueue.AllJobs (P : Job → Prop) (q : JobQueue) : Prop where
  pending : ∀ job ∈ q.pending, P job
  inFlight : ∀ i job, q.inFlight.get? i = some job → P job

namespace JobQueue.AllJobs

variable {P Q : Job → Prop}

theorem mono {q : JobQueue} (h : q.AllJobs P) (hPQ : ∀ job, P job → Q job) : q.AllJobs Q :=
  ⟨fun job hmem => hPQ job (h.pending job hmem), fun i job hget => hPQ job (h.inFlight i job hget)⟩

/-! ## The commands on Redis -/

section Redis

variable {q : QueueStore}

theorem rpush (h : (JobQueue.redis q).AllJobs P) {job : Job} (hjob : P job) :
    (JobQueue.redis (q.rpush job)).AllJobs P := by
  refine ⟨?_, h.inFlight⟩
  exact List.forall_mem_append.mpr ⟨h.pending, List.forall_mem_singleton.mpr hjob⟩

theorem hset (h : (JobQueue.redis q).AllJobs P) {job : Job} (hjob : P job) :
    (JobQueue.redis (q.hset job)).AllJobs P := by
  refine ⟨h.pending, fun i job' hget => ?_⟩
  have hget' : (q.inflight.set job.jobId job).get? i = some job' := hget
  rw [OrderedDict.get?_set] at hget'
  split_ifs at hget'
  · exact Option.some.inj hget' ▸ hjob
  · exact h.inFlight i job' hget'

theorem hdel (h : (JobQueue.redis q).AllJobs P) (jobId : Uuid) :
    (JobQueue.redis (q.hdel jobId)).AllJobs P :=
  ⟨h.pending, fun i job hget => h.inFlight i job (OrderedDict.get?_of_get?_erase hget)⟩

theorem complete (h : (JobQueue.redis q).AllJobs P) (jobId : Uuid) (result : Json) (now : Time) :
    (JobQueue.redis (q.complete jobId result now)).AllJobs P :=
  ⟨h.pending, fun i job hget => h.inFlight i job (OrderedDict.get?_of_get?_erase hget)⟩

theorem blpop (h : (JobQueue.redis q).AllJobs P) {job : Job} {q' : QueueStore}
    (hpop : q.blpop = some (job, q')) : P job ∧ (JobQueue.redis q').AllJobs P := by
  obtain ⟨hpending, hq'⟩ := QueueStore.blpop_eq_some.mp hpop
  have hmem : ∀ job' ∈ job :: q'.pending, P job' := hpending ▸ h.pending
  refine ⟨hmem job List.mem_cons_self, fun job' hjob' => hmem job' (List.mem_cons_of_mem _ hjob'),
    fun i job' hget => ?_⟩
  have hinflight : q'.inflight = q.inflight := by rw [hq']
  have hget' : q'.inflight.get? i = some job' := hget
  rw [hinflight] at hget'
  exact h.inFlight i job' hget'

/-- What HGETALL finds. -/
theorem hgetall (h : (JobQueue.redis q).AllJobs P) : ∀ job ∈ q.hgetall, P job := by
  intro job hmem
  obtain ⟨i, hi⟩ := OrderedDict.mem_values_iff.mp hmem
  exact h.inFlight i job hi

end Redis

/-! ## The methods of the in-memory queue -/

section InMemory

variable {q : InMemoryQueue}

theorem writeJob (h : (JobQueue.inMemory q).AllJobs P) (jobId : Uuid) (f : Job → Job)
    (hf : ∀ job, (f job).jobId = job.jobId) (hP : ∀ job, P job → P (f job)) :
    (JobQueue.inMemory (q.writeJob jobId f hf)).AllJobs P := by
  refine ⟨fun job hmem => ?_, fun i job hget => ?_⟩
  · obtain ⟨job', hjob', rfl⟩ := List.mem_map.mp hmem
    split_ifs
    · exact hP job' (h.pending job' hjob')
    · exact h.pending job' hjob'
  · have hget' : (q.inFlight.modify jobId f).get? i = some job := hget
    rw [OrderedDict.get?_modify] at hget'
    split_ifs at hget'
    · obtain ⟨job', hjob', rfl⟩ := Option.map_eq_some_iff.mp hget'
      exact hP job' (h.inFlight i job' hjob')
    · exact h.inFlight i job hget'

theorem enqueueInMemory (h : (JobQueue.inMemory q).AllJobs P) {job : Job} (hjob : P job) :
    (JobQueue.inMemory (q.enqueue job)).AllJobs P := by
  refine ⟨?_, h.inFlight⟩
  exact List.forall_mem_append.mpr ⟨h.pending, List.forall_mem_singleton.mpr hjob⟩

theorem dequeue (h : (JobQueue.inMemory q).AllJobs P) {job : Job} {q' : InMemoryQueue}
    (htake : q.dequeue = some (job, q')) : P job ∧ (JobQueue.inMemory q').AllJobs P := by
  obtain ⟨hqueue, hinflight⟩ := InMemoryQueue.dequeue_eq_some htake
  have hmem : ∀ job' ∈ job :: q'.queue, P job' := hqueue ▸ h.pending
  have hjob := hmem job List.mem_cons_self
  refine ⟨hjob, fun job' hjob' => hmem job' (List.mem_cons_of_mem _ hjob'), fun i job' hget => ?_⟩
  have hget' : q'.inFlight.get? i = some job' := hget
  rw [hinflight, OrderedDict.get?_set] at hget'
  split_ifs at hget'
  · exact Option.some.inj hget' ▸ hjob
  · exact h.inFlight i job' hget'

theorem requeue (hP : Job.AboutRequest P) (h : (JobQueue.inMemory q).AllJobs P) {job : Job}
    (hjob : P job) : (JobQueue.inMemory (q.requeue job)).AllJobs P := by
  have hreset := h.writeJob job.jobId Job.reset (fun _ => rfl) fun job' => hP job' _ rfl
  refine ⟨fun job' hmem => ?_, fun i job' hget =>
    hreset.inFlight i job' (OrderedDict.get?_of_get?_erase hget)⟩
  rcases List.mem_append.mp hmem with hold | hnew
  · exact hreset.pending job' hold
  · rw [List.mem_singleton.mp hnew]
    exact hP job _ rfl hjob

theorem completeInMemory (hP : Job.AboutRequest P) (h : (JobQueue.inMemory q).AllJobs P)
    (jobId : Uuid) : (JobQueue.inMemory (q.complete jobId)).AllJobs P := by
  have hcomplete := h.writeJob jobId Job.complete (fun _ => rfl) fun job' => hP job' _ rfl
  rw [InMemoryQueue.complete]
  split_ifs
  · exact ⟨hcomplete.pending, fun i job hget =>
      hcomplete.inFlight i job (OrderedDict.get?_of_get?_erase hget)⟩
  · exact h

theorem reclaim (hP : Job.AboutRequest P) (h : (JobQueue.inMemory q).AllJobs P)
    (workerId : Uuid) : (JobQueue.inMemory (q.reclaim workerId)).AllJobs P := by
  have hfound : ∀ job ∈ q.jobsOf workerId, P job := by
    intro job hmem
    obtain ⟨i, hi⟩ := OrderedDict.mem_values_iff.mp (List.mem_of_mem_filter hmem)
    exact h.inFlight i job hi
  rw [InMemoryQueue.reclaim]
  generalize q.jobsOf workerId = jobs at hfound
  induction jobs generalizing q with
  | nil => exact h
  | cons job jobs ih =>
    exact ih (h.requeue hP (hfound job List.mem_cons_self))
      fun job' hmem => hfound job' (List.mem_cons_of_mem _ hmem)

end InMemory

theorem enqueue {q : JobQueue} (h : q.AllJobs P) {job : Job} (hjob : P job) :
    (q.enqueue job).AllJobs P := by
  cases q with
  | redis q => exact h.rpush hjob
  | inMemory q => exact h.enqueueInMemory hjob

theorem assign (hP : Job.AboutRequest P) {q : JobQueue} (h : q.AllJobs P)
    (jobId workerId : Uuid) : (q.assign jobId workerId).AllJobs P := by
  cases q with
  | redis q => exact h
  | inMemory q =>
    exact h.writeJob jobId (fun job => job.assignTo workerId) (fun _ => rfl)
      fun job' => hP job' _ rfl

end JobQueue.AllJobs

/-- The job that the dispatcher has in hand. -/
def DispatchPc.job? : DispatchPc → Option Job
  | .popped _ job | .tracked _ job | .requeueHdel job | .requeueRpush job | .reporting _ job =>
      some job
  | _ => none

namespace SchedulerState

/-- Every job that the process or its queue has, wherever it is, has the property. -/
structure AllJobs (P : Job → Prop) (s : SchedulerState) : Prop where
  queue : s.queue.AllJobs P
  dispatch : ∀ job, s.dispatch.job? = some job → P job
  runs : ∀ run ∈ s.runs, P run.job
  recovering : ∀ r, s.Recovering r → ∀ job ∈ r.stage.jobs, P job

variable {P Q : Job → Prop} {s s' : SchedulerState}

theorem AllJobs.mono (h : s.AllJobs P) (hPQ : ∀ job, P job → Q job) : s.AllJobs Q :=
  ⟨h.queue.mono hPQ, fun job hjob => hPQ job (h.dispatch job hjob),
    fun run hrun => hPQ _ (h.runs run hrun),
    fun r hr job hjob => hPQ job (h.recovering r hr job hjob)⟩

/-- The queue as the step finds it. -/
theorem AllJobs.of_queue (h : s.AllJobs P) {q : JobQueue} (hq : s.queue = q) : q.AllJobs P :=
  hq ▸ h.queue

/-! ## One step of each coroutine -/

theorem dispatch_allJobs (hP : Job.AboutRequest P) (h : s.AllJobs P) (hmove : s.DispatchMove s') :
    s'.AllJobs P := by
  have hheld : ∀ {pc : DispatchPc} {job : Job}, s.dispatch = pc → pc.job? = some job → P job :=
    fun hpc hjob => h.dispatch _ (hpc ▸ hjob)
  cases hmove with
  | idle => exact h
  | waits | stops => exact ⟨h.queue, nofun, h.runs, h.recovering⟩
  | pops w q q' job hq hpc hpop =>
    obtain ⟨hjob, hqueue⟩ := (h.of_queue hq).blpop hpop
    exact ⟨hqueue, fun _ heq => Option.some.inj heq ▸ hP job _ rfl hjob, h.runs, h.recovering⟩
  | tracks w q job hq hpc =>
    have hjob := hheld hpc rfl
    exact ⟨(h.of_queue hq).hset hjob, fun _ heq => Option.some.inj heq ▸ hjob, h.runs,
      h.recovering⟩
  | assigns w job queue node htake hnode =>
    have htaken : P job ∧ queue.AllJobs P := by
      cases htake with
      | redis q hq hpc => exact ⟨hheld hpc rfl, h.of_queue hq⟩
      | inMemory q q' hq hpc htake => exact (h.of_queue hq).dequeue htake
    exact ⟨htaken.2.assign hP _ _, fun _ heq => Option.some.inj heq ▸ hP job _ rfl htaken.1,
      h.runs, h.recovering⟩
  | refuses w job q hq hpc hnode =>
    exact ⟨h.queue, fun _ heq => Option.some.inj heq ▸ hP job _ rfl (hheld hpc rfl), h.runs,
      h.recovering⟩
  | refusesInMemory w job q q' hq hpc htake hnode =>
    obtain ⟨hjob, hqueue⟩ := (h.of_queue hq).dequeue htake
    exact ⟨hqueue.requeue hP hjob, nofun, h.runs, h.recovering⟩
  | hdel q job hq hpc =>
    exact ⟨(h.of_queue hq).hdel _, fun _ heq => Option.some.inj heq ▸ hheld hpc rfl, h.runs,
      h.recovering⟩
  | rpush q job hq hpc =>
    exact ⟨(h.of_queue hq).rpush (hheld hpc rfl), nofun, h.runs, h.recovering⟩
  | launches w job hpc =>
    refine ⟨h.queue, nofun, fun run hrun => ?_, h.recovering⟩
    rcases List.mem_append.mp hrun with hold | hnew
    · exact h.runs run hold
    · rw [List.mem_singleton.mp hnew]
      exact hheld hpc rfl

theorem run_allJobs (hP : Job.AboutRequest P) (h : s.AllJobs P) {run : RunTask} {e : RunEvent}
    {next : Option RunStage} (hjob : P run.job) (hmove : s.RunMove run e s' next) :
    s'.AllJobs P := by
  cases hmove with
  | returns | requeues | ends => exact h
  | fails | completes => exact ⟨h.queue, h.dispatch, h.runs, h.recovering⟩
  | completesInMemory result q hq =>
    exact ⟨(h.of_queue hq).completeInMemory hP _, h.dispatch, h.runs, h.recovering⟩
  | requeuesInMemory q hq =>
    exact ⟨(h.of_queue hq).requeue hP hjob, h.dispatch, h.runs, h.recovering⟩
  | hdel q hq => exact ⟨(h.of_queue hq).hdel _, h.dispatch, h.runs, h.recovering⟩
  | rpush q hq =>
    exact ⟨(h.of_queue hq).rpush (hP run.job _ rfl hjob), h.dispatch, h.runs, h.recovering⟩

/-- The loop of `_reclaim_jobs` has only jobs that it found. -/
theorem jobs_next (hP : Job.AboutRequest P) {jobs : List Job} (hjobs : ∀ job ∈ jobs, P job) :
    ∀ job ∈ (RecoveryStage.next jobs).jobs, P job := by
  cases jobs with
  | nil => exact fun _ hmem => absurd hmem List.not_mem_nil
  | cons first rest =>
    intro job hmem
    rcases List.mem_cons.mp hmem with rfl | hrest
    · exact hP first _ rfl (hjobs first List.mem_cons_self)
    · exact hjobs job (List.mem_cons_of_mem _ hrest)

/-- A step of the handling of a dead worker: the process after it, and the jobs still to
be requeued. -/
theorem recover_allJobs (hP : Job.AboutRequest P) (h : s.AllJobs P) {r : Recovery}
    (hr : ∀ job ∈ r.stage.jobs, P job) {next : Option RecoveryStage}
    (hmove : s.RecoverMove r s' next) :
    s'.AllJobs P ∧ ∀ stage, next = some stage → ∀ job ∈ stage.jobs, P job := by
  cases hmove with
  | notified | gives =>
    refine ⟨h, fun stage hstage job hmem => ?_⟩
    cases hstage
    exact absurd hmem List.not_mem_nil
  | reclaims q hq =>
    exact ⟨⟨(h.of_queue hq).reclaim hP _, h.dispatch, h.runs, h.recovering⟩, nofun⟩
  | fetches q hq =>
    refine ⟨h, fun stage hstage => ?_⟩
    cases hstage
    exact jobs_next hP fun job hmem => (h.of_queue hq).hgetall job (List.mem_of_mem_filter hmem)
  | hdel q job rest hq hpc =>
    rw [hpc] at hr
    refine ⟨⟨(h.of_queue hq).hdel _, h.dispatch, h.runs, h.recovering⟩, fun stage hstage => ?_⟩
    cases hstage
    exact hr
  | rpush q job rest hq hpc =>
    rw [hpc] at hr
    refine ⟨⟨(h.of_queue hq).rpush (hr job List.mem_cons_self), h.dispatch, h.runs,
      h.recovering⟩, fun stage hstage => ?_⟩
    cases hstage
    exact jobs_next hP fun job' hmem => hr job' (List.mem_cons_of_mem _ hmem)
  | ends => exact ⟨⟨h.queue, h.dispatch, h.runs, h.recovering⟩, nofun⟩

/-- A pass of the monitor. -/
theorem watch_allJobs (h : s.AllJobs P) (now : Time) (l : List Uuid) :
    (s.watch now l).AllJobs P := by
  rcases s.watch_cases now l with hend | ⟨w, rest, -, hdead⟩
  · rw [hend]
    refine ⟨h.queue, h.dispatch, h.runs, fun r hr => ?_⟩
    rcases hr with ⟨_, _, hmon⟩ | hmem
    · cases hmon
    · exact h.recovering r (Or.inr hmem)
  · rw [hdead]
    refine ⟨h.queue, h.dispatch, h.runs, fun r hr => ?_⟩
    rcases hr with ⟨_, _, hmon⟩ | hmem
    · cases hmon
      exact fun _ hmem => absurd hmem List.not_mem_nil
    · exact h.recovering r (Or.inr hmem)

theorem monitor_allJobs (hP : Job.AboutRequest P) (h : s.AllJobs P) {ok : Bool}
    (hstep : s.monitorStep ok = some s') : s'.AllJobs P := by
  rcases monitorStep_cases hstep with ⟨-, rfl⟩ | ⟨r, rest, now, t, next, hpc, hmove, hnext⟩
  · exact watch_allJobs h _ _
  · obtain ⟨ht, hstage⟩ := recover_allJobs hP h (h.recovering r (Or.inl ⟨rest, now, hpc⟩)) hmove
    rcases hnext with ⟨stage, hstage', rfl⟩ | ⟨-, rfl⟩
    · refine ⟨ht.queue, ht.dispatch, ht.runs, fun r' hr' => ?_⟩
      rcases hr' with ⟨_, _, hmon⟩ | hmem
      · cases hmon
        exact hstage stage hstage'
      · exact ht.recovering r' (Or.inr hmem)
    · exact watch_allJobs ht _ _

theorem delete_allJobs (h : s.AllJobs P) (w : Uuid) : (s.deleteStep w).AllJobs P := by
  rw [deleteStep]
  split
  · exact h
  · split
    · exact ⟨h.queue, h.dispatch, h.runs, h.recovering⟩
    · refine ⟨h.queue, h.dispatch, h.runs, fun r hr => ?_⟩
      rcases hr with hmon | hmem
      · exact h.recovering r (Or.inl hmon)
      · rcases List.mem_append.mp hmem with hold | hnew
        · exact h.recovering r (Or.inr hold)
        · rw [List.mem_singleton.mp hnew]
          exact fun _ hmem => absurd hmem List.not_mem_nil

/-- **No step of the scheduler changes what a job asks for.**  Every job keeps what depends
on its request only, if the job that an `enqueue` makes has it. -/
theorem step_allJobs (hP : Job.AboutRequest P) (h : s.AllJobs P) {l : SchedulerLabel}
    (hnew : ∀ containerId imageId imageName, l = .enqueue containerId imageId imageName →
      P (.new s.pool.nextUuid containerId imageId imageName))
    (hstep : s.step l = some s') : s'.AllJobs P := by
  cases l with
  | clock | heartbeat =>
    cases hstep
    exact ⟨h.queue, h.dispatch, h.runs, h.recovering⟩
  | enqueue c im n =>
    cases hstep
    exact ⟨h.queue.enqueue (hnew c im n rfl), h.dispatch, h.runs, h.recovering⟩
  | dispatch ok => exact dispatch_allJobs hP h (dispatchStep_cases hstep)
  | run i e =>
    obtain ⟨run, t, next, hrun, hmove, rfl⟩ := step_run hstep
    have hjob := h.runs run (List.mem_of_getElem? hrun)
    have ht := run_allJobs hP h hjob hmove
    refine ⟨ht.queue, ht.dispatch, fun run' hmem => ?_, ht.recovering⟩
    rcases mem_of_mem_advance hrun hmem with hstage | hold
    · obtain ⟨stage, -, rfl⟩ := Option.map_eq_some_iff.mp hstage
      exact hjob
    · exact h.runs run' hold
  | completeExec i ok =>
    obtain ⟨jobId, result, q, hq, -, rfl⟩ := step_completeExec hstep
    refine ⟨?_, h.dispatch, h.runs, h.recovering⟩
    show (JobQueue.redis (if ok then q.complete jobId result s.clock else q)).AllJobs P
    split_ifs
    · exact (h.of_queue hq).complete _ _ _
    · exact h.of_queue hq
  | monitor ok => exact monitor_allJobs hP h hstep
  | delete w =>
    cases hstep
    exact delete_allJobs h w
  | recover i ok =>
    obtain ⟨r, t, next, hget, hmove, rfl⟩ := step_recover hstep
    obtain ⟨ht, hstage⟩ :=
      recover_allJobs hP h (h.recovering r (Or.inr (List.mem_of_getElem? hget))) hmove
    refine ⟨ht.queue, ht.dispatch, ht.runs, fun r' hr' => ?_⟩
    rcases hr' with hmon | hmem
    · exact ht.recovering r' (Or.inl hmon)
    · rcases mem_of_mem_advance hget hmem with hnew' | hold
      · obtain ⟨stage, hnext, rfl⟩ := Option.map_eq_some_iff.mp hnew'
        exact hstage stage hnext
      · exact h.recovering r' (Or.inr hold)
  | scale count =>
    rw [step] at hstep
    split_ifs at hstep
    · cases hstep
      exact ⟨h.queue, h.dispatch, h.runs, h.recovering⟩
    · cases hstep
      exact h

/-! ## A new process -/

/-- The process that starts with `n` workers on a queue. -/
def boot (n : ℕ) (queue : JobQueue) (nextUuid : Uuid) (now : Time) : SchedulerState where
  pool := .spawnWorkers n (.new n nextUuid) now
  queue := queue
  dispatch := .top
  runs := []
  completing := []
  monitor := .sleeping
  deletes := []
  clock := now
  enqueued := queue.pendingIds
  completions := []
  outstanding := []
  calls := []

theorem start_eq_boot (n : ℕ) (q : StartQueue) (now : Time) :
    start n q now = boot n q.queue q.nextUuid now := rfl

/-- A new process has no jobs but those of its queue. -/
theorem boot_allJobs {queue : JobQueue} (h : queue.AllJobs P) (n : ℕ) (nextUuid : Uuid)
    (now : Time) : (boot n queue nextUuid now).AllJobs P := by
  refine ⟨h, nofun, fun run hrun => absurd hrun List.not_mem_nil, fun r hr => ?_⟩
  rcases hr with ⟨_, _, hmon⟩ | hmem
  · cases hmon
  · exact absurd hmem List.not_mem_nil

theorem nextUuid_le_boot (n : ℕ) (queue : JobQueue) (nextUuid : Uuid) (now : Time) :
    nextUuid ≤ (boot n queue nextUuid now).pool.nextUuid :=
  ((WorkerPool.new n nextUuid).spawned_spawnWorkers n now).nextUuid

end SchedulerState

/-- The loop of `reclaim_inflight` over the jobs found, up to so many of its commands. -/
def QueueStore.reclaimLoop (q : QueueStore) : List Job → ℕ → QueueStore
  | [], _ => q
  | _ :: _, 0 => q
  | job :: _, 1 => q.rpush job.reset
  | job :: rest, commands + 2 => ((q.rpush job.reset).hdel job.jobId).reclaimLoop rest commands

/-- `reclaim_inflight`, up to so many of the commands after HGETALL. -/
def QueueStore.reclaimInflight (q : QueueStore) (commands : ℕ) : QueueStore :=
  q.reclaimLoop q.hgetall commands

/-- The jobs that a new process reclaims ask for what they asked for. -/
theorem JobQueue.AllJobs.reclaimInflight {P : Job → Prop} (hP : Job.AboutRequest P)
    {q : QueueStore} (h : (JobQueue.redis q).AllJobs P) (commands : ℕ) :
    (JobQueue.redis (q.reclaimInflight commands)).AllJobs P := by
  have hloop : ∀ (jobs : List Job) (q : QueueStore) (commands : ℕ), (∀ job ∈ jobs, P job) →
      (JobQueue.redis q).AllJobs P → (JobQueue.redis (q.reclaimLoop jobs commands)).AllJobs P := by
    intro jobs
    induction jobs with
    | nil => exact fun _ _ _ h => h
    | cons job rest ih =>
      intro q commands hjobs h
      have hpush := h.rpush (hP job job.reset rfl (hjobs job List.mem_cons_self))
      match commands with
      | 0 => exact h
      | 1 => exact hpush
      | commands + 2 =>
        exact ih _ commands (fun job' hmem => hjobs job' (List.mem_cons_of_mem _ hmem))
          (hpush.hdel job.jobId)
  exact hloop q.hgetall q commands h.hgetall h

end Rcsce
