import Rcsce.Scheduler.Service

/-!
# What a step of the scheduler can do

One inversion for each coroutine: `DispatchMove`, `RunMove` and `RecoverMove` list
what a step of `dispatch_loop`, of a `_run_job` and of the handling of a dead worker
can do to the process, with the guards under which it does it.  Every invariant of
the process is a case analysis over these, and none of them opens the step function
again.

The `finally` of `_run_job` does not show: the load is never negative, so its guard
changes nothing (`WorkerPool.guardLoad_eq`).
-/

namespace Rcsce
namespace SchedulerState

/-! ## The dispatcher -/

/-- `workers[0]` of the current iteration of `dispatch_loop` is `w`: it has just been
chosen, or `dequeue` is waiting for a job. -/
def Candidate (s : SchedulerState) (w : Uuid) : Prop :=
  (s.dispatch = .top ∧ ∃ rest, s.pool.registry.availableWorkers = w :: rest) ∨
    s.dispatch = .waiting w

/-- `dequeue` has returned `job`, and the queue is now `queue`. -/
inductive Takes (s : SchedulerState) (w : Uuid) (job : Job) : JobQueue → Prop
  | redis (q : QueueStore) (hq : s.queue = .redis q) (hpc : s.dispatch = .tracked w job) :
      Takes s w job (.redis q)
  | inMemory (q q' : InMemoryQueue) (hq : s.queue = .inMemory q) (hpc : s.Candidate w)
      (htake : q.dequeue = some (job, q')) : Takes s w job (.inMemory q')

/-- What a step of `dispatch_loop` can do. -/
inductive DispatchMove (s : SchedulerState) : SchedulerState → Prop
  /-- There is no worker, or BLPOP times out. -/
  | idle : DispatchMove s s
  | waits (w : Uuid) (hpc : s.Candidate w) : DispatchMove s { s with dispatch := .waiting w }
  | pops (w : Uuid) (q q' : QueueStore) (job : Job) (hq : s.queue = .redis q)
      (hpc : s.dispatch = .waiting w) (hpop : q.blpop = some (job, q')) :
      DispatchMove s { s with
        queue := .redis q', dispatch := .popped w { job with status := .inflight } }
  | tracks (w : Uuid) (q : QueueStore) (job : Job) (hq : s.queue = .redis q)
      (hpc : s.dispatch = .popped w job) :
      DispatchMove s { s with queue := .redis (q.hset job), dispatch := .tracked w job }
  | assigns (w : Uuid) (job : Job) (queue : JobQueue) (node : WorkerNode)
      (htake : s.Takes w job queue) (hnode : s.pool.registry.getWorker w = some node) :
      DispatchMove s { s with
        pool := s.pool.markAssigned w
        queue := queue.assign job.jobId w
        dispatch := .reporting w (job.assignTo w)
        outstanding := s.outstanding ++ [(job.jobId, w)]
        calls := s.calls ++ [(s.pool.registry, w)] }
  /-- There is no node, on Redis. -/
  | refuses (w : Uuid) (job : Job) (q : QueueStore) (hq : s.queue = .redis q)
      (hpc : s.dispatch = .tracked w job) (hnode : s.pool.registry.getWorker w = none) :
      DispatchMove s { s with dispatch := .requeueHdel job.reset }
  /-- There is no node, in memory. -/
  | refusesInMemory (w : Uuid) (job : Job) (q q' : InMemoryQueue) (hq : s.queue = .inMemory q)
      (hpc : s.Candidate w) (htake : q.dequeue = some (job, q'))
      (hnode : s.pool.registry.getWorker w = none) :
      DispatchMove s { s.settle [job.jobId] with
        queue := .inMemory (q'.requeue job), dispatch := .top }
  | hdel (q : QueueStore) (job : Job) (hq : s.queue = .redis q)
      (hpc : s.dispatch = .requeueHdel job) :
      DispatchMove s { s with queue := .redis (q.hdel job.jobId), dispatch := .requeueRpush job }
  | rpush (q : QueueStore) (job : Job) (hq : s.queue = .redis q)
      (hpc : s.dispatch = .requeueRpush job) :
      DispatchMove s { s.settle [job.jobId] with queue := .redis (q.rpush job), dispatch := .top }
  | launches (w : Uuid) (job : Job) (hpc : s.dispatch = .reporting w job) :
      DispatchMove s { s with runs := s.runs ++ [⟨job, w, .scanning⟩], dispatch := .top }
  /-- A Redis command raises. -/
  | stops (q : QueueStore) (hq : s.queue = .redis q) :
      DispatchMove s { s with dispatch := .stopped }

theorem dequeueInMemory_cases {s : SchedulerState} {q : InMemoryQueue} {w : Uuid}
    (hq : s.queue = .inMemory q) (hpc : s.Candidate w) :
    s.DispatchMove (s.dequeueInMemory q w) := by
  rw [dequeueInMemory]
  split
  · exact .waits w hpc
  · rename_i job q' htake
    rw [assign]
    split
    · rename_i hqueue
      cases hqueue
    · rename_i q₂ hnode hqueue
      cases hqueue
      exact .refusesInMemory w job q q' hq hpc htake hnode
    · rename_i node hnode
      exact .assigns w job (.inMemory q') node (.inMemory q q' hq hpc htake) hnode

theorem dispatchStep_cases {s s' : SchedulerState} {ok : Bool}
    (h : s.dispatchStep ok = some s') : s.DispatchMove s' := by
  rw [dispatchStep] at h
  split at h
  · rename_i hpc
    split at h
    · cases h
      exact .idle
    · rename_i w rest q hworkers hq
      cases h
      exact .waits w (Or.inl ⟨hpc, rest, hworkers⟩)
    · rename_i w rest q hworkers hq
      cases h
      exact dequeueInMemory_cases hq (Or.inl ⟨hpc, rest, hworkers⟩)
  · rename_i w hpc
    split at h
    · rename_i q hq
      cases h
      exact dequeueInMemory_cases hq (Or.inr hpc)
    · rename_i q hq
      split_ifs at h
      · split at h
        · cases h
          exact .idle
        · rename_i job q' hpop
          cases h
          exact .pops w q q' job hq hpc hpop
      · cases h
        exact .stops q hq
  · rename_i w job hpc
    obtain ⟨q, hq, rfl⟩ := JobQueue.map_redis?_eq_some.mp h
    split_ifs
    · exact .tracks w q job hq hpc
    · exact .stops q hq
  · rename_i w job hpc
    obtain ⟨q, hq, rfl⟩ := JobQueue.map_redis?_eq_some.mp h
    rw [assign]
    split
    · rename_i hnode _
      exact .refuses w job q hq hpc hnode
    · rename_i hqueue
      cases hq.symm.trans hqueue
    · rename_i node hnode
      rw [hq]
      exact .assigns w job (.redis q) node (.redis q hq hpc) hnode
  · rename_i job hpc
    obtain ⟨q, hq, rfl⟩ := JobQueue.map_redis?_eq_some.mp h
    split_ifs
    · exact .hdel q job hq hpc
    · exact .stops q hq
  · rename_i job hpc
    obtain ⟨q, hq, rfl⟩ := JobQueue.map_redis?_eq_some.mp h
    split_ifs
    · exact .rpush q job hq hpc
    · exact .stops q hq
  · rename_i w job hpc
    cases h
    exact .launches w job hpc
  · cases h

/-! ## A running job -/

/-- What a step of a `_run_job` can do to the process, and where it is afterwards. -/
inductive RunMove (s : SchedulerState) (run : RunTask) :
    RunEvent → SchedulerState → Option RunStage → Prop
  | returns (result : Json) (hpc : run.stage = .scanning) :
      RunMove s run (.returns result) s (some (.caching result))
  | fails (hpc : run.stage = .scanning) :
      RunMove s run .raises { s with pool := s.pool.markFailedOrRequeued run.workerId }
        (some .failing)
  | completes {ok : Bool} (result : Json) (q : QueueStore) (hq : s.queue = .redis q)
      (hpc : run.stage = .caching result) :
      RunMove s run (.goesOn ok)
        { s.settle [run.job.jobId] with
          pool := s.pool.markCompleted run.workerId
          completions := s.completions ++ [run.job.jobId]
          completing := s.completing ++ [(run.job.jobId, result)] }
        (some .reporting)
  | completesInMemory {ok : Bool} (result : Json) (q : InMemoryQueue) (hq : s.queue = .inMemory q)
      (hpc : run.stage = .caching result) :
      RunMove s run (.goesOn ok)
        { s.settle [run.job.jobId] with
          pool := s.pool.markCompleted run.workerId
          completions := s.completions ++ [run.job.jobId]
          queue := .inMemory (q.complete run.job.jobId) }
        (some .reporting)
  | requeues {ok : Bool} (q : QueueStore) (hq : s.queue = .redis q) (hpc : run.stage = .failing) :
      RunMove s run (.goesOn ok) s (some .requeueHdel)
  | requeuesInMemory {ok : Bool} (q : InMemoryQueue) (hq : s.queue = .inMemory q)
      (hpc : run.stage = .failing) :
      RunMove s run (.goesOn ok)
        { s.settle [run.job.jobId] with queue := .inMemory (q.requeue run.job) } none
  | hdel (q : QueueStore) (hq : s.queue = .redis q) (hpc : run.stage = .requeueHdel) :
      RunMove s run (.goesOn true) { s with queue := .redis (q.hdel run.job.jobId) }
        (some .requeueRpush)
  | rpush (q : QueueStore) (hq : s.queue = .redis q) (hpc : run.stage = .requeueRpush) :
      RunMove s run (.goesOn true)
        { s.settle [run.job.jobId] with queue := .redis (q.rpush run.job.reset) } (some .requeued)
  /-- The task finishes, with its job done, requeued, or lost to a Redis error. -/
  | ends {ok : Bool} : RunMove s run (.goesOn ok) s none

theorem runEffect_cases {s s' : SchedulerState} {run : RunTask} {e : RunEvent}
    {next : Option RunStage} (h : s.runEffect run e = some (s', next)) :
    s.RunMove run e s' next := by
  unfold runEffect at h
  simp only [WorkerPool.guardLoad_eq] at h
  split at h
  · rename_i result hpc
    cases h
    exact .returns result hpc
  · rename_i hpc
    cases h
    exact .fails hpc
  · rename_i result _ hpc
    cases h
    rw [complete]
    split
    · rename_i q hq
      exact .completes result q hq hpc
    · rename_i q hq
      exact .completesInMemory result q hq hpc
  · cases h
    exact .ends
  · rename_i hpc
    split at h
    · rename_i q hq
      cases h
      exact .requeues q hq hpc
    · rename_i q hq
      cases h
      exact .requeuesInMemory q hq hpc
  · rename_i hpc
    obtain ⟨q, hq, hr⟩ := JobQueue.map_redis?_eq_some.mp h
    split_ifs at hr with hok
    · cases hr
      exact hok ▸ .hdel q hq hpc
    · cases hr
      exact .ends
  · rename_i hpc
    obtain ⟨q, hq, hr⟩ := JobQueue.map_redis?_eq_some.mp h
    split_ifs at hr with hok
    · cases hr
      exact hok ▸ .rpush q hq hpc
    · cases hr
      exact .ends
  · cases h
    exact .ends
  · cases h

/-! ## Dead workers -/

/-- What a step of the handling of a dead worker can do to the process, and where it
is afterwards. -/
inductive RecoverMove (s : SchedulerState) (r : Recovery) :
    SchedulerState → Option RecoveryStage → Prop
  | notified (q : QueueStore) (hq : s.queue = .redis q) (hpc : r.stage = .notifying) :
      RecoverMove s r s (some .fetching)
  | reclaims (q : InMemoryQueue) (hq : s.queue = .inMemory q) (hpc : r.stage = .notifying) :
      RecoverMove s r
        { s.settle ((q.jobsOf r.worker).map Job.jobId) with
          queue := .inMemory (q.reclaim r.worker)
          pool := s.pool.replaceWorkerIfNeeded r.worker s.clock } none
  | fetches (q : QueueStore) (hq : s.queue = .redis q) (hpc : r.stage = .fetching) :
      RecoverMove s r s
        (some (.next (q.hgetall.filter fun job => job.workerId = some r.worker)))
  | hdel (q : QueueStore) (job : Job) (rest : List Job) (hq : s.queue = .redis q)
      (hpc : r.stage = .hdel job rest) :
      RecoverMove s r { s with queue := .redis (q.hdel job.jobId) } (some (.rpush job rest))
  | rpush (q : QueueStore) (job : Job) (rest : List Job) (hq : s.queue = .redis q)
      (hpc : r.stage = .rpush job rest) :
      RecoverMove s r { s.settle [job.jobId] with queue := .redis (q.rpush job) }
        (some (.next rest))
  /-- A Redis command raises inside `_reclaim_jobs`, which catches it. -/
  | gives (q : QueueStore) (hq : s.queue = .redis q) : RecoverMove s r s (some .reclaimed)
  | ends (hpc : r.stage = .reclaimed) :
      RecoverMove s r { s with pool := s.pool.replaceWorkerIfNeeded r.worker s.clock } none

theorem recoverEffect_cases {s s' : SchedulerState} {r : Recovery} {ok : Bool}
    {next : Option RecoveryStage} (h : s.recoverEffect r ok = some (s', next)) :
    s.RecoverMove r s' next := by
  rw [recoverEffect] at h
  split at h
  · rename_i hpc
    split at h
    · rename_i q hq
      cases h
      exact .notified q hq hpc
    · rename_i q hq
      cases h
      exact .reclaims q hq hpc
  · rename_i hpc
    obtain ⟨q, hq, hr⟩ := JobQueue.map_redis?_eq_some.mp h
    split_ifs at hr
    · cases hr
      exact .fetches q hq hpc
    · cases hr
      exact .gives q hq
  · rename_i job rest hpc
    obtain ⟨q, hq, hr⟩ := JobQueue.map_redis?_eq_some.mp h
    split_ifs at hr
    · cases hr
      exact .hdel q job rest hq hpc
    · cases hr
      exact .gives q hq
  · rename_i job rest hpc
    obtain ⟨q, hq, hr⟩ := JobQueue.map_redis?_eq_some.mp h
    split_ifs at hr
    · cases hr
      exact .rpush q job rest hq hpc
    · cases hr
      exact .gives q hq
  · rename_i hpc
    cases h
    exact .ends hpc

/-- What the loop of a monitor pass can do: come to its end, or find a dead worker. -/
theorem watch_cases (s : SchedulerState) (now : Time) (l : List Uuid) :
    s.watch now l = { s with monitor := .sleeping } ∨
      ∃ w rest, s.pool.registry.Alive w ∧
        s.watch now l =
          { s with
            pool := s.pool.markDead w
            monitor := .recovering ⟨w, .notifying⟩ rest now } := by
  induction l with
  | nil => exact Or.inl rfl
  | cons w rest ih =>
    rw [watch]
    split
    · exact ih
    · rename_i info hinfo
      split_ifs with hdead hlate
      · exact ih
      · have halive : info.status = .alive := by
          cases hs : info.status with
          | alive => rfl
          | dead => exact absurd hs hdead
        exact Or.inr ⟨w, rest, ⟨info, hinfo, halive⟩, rfl⟩
      · exact ih

/-- What a step of the monitor can do. -/
theorem monitorStep_cases {s s' : SchedulerState} {ok : Bool} (h : s.monitorStep ok = some s') :
    (s.monitor = .sleeping ∧ s' = s.watch s.clock s.pool.registry.workers.keys) ∨
      ∃ r rest now t next, s.monitor = .recovering r rest now ∧ s.RecoverMove r t next ∧
        ((∃ stage, next = some stage ∧
            s' = { t with monitor := .recovering { r with stage } rest now }) ∨
          (next = none ∧ s' = t.watch now rest)) := by
  rw [monitorStep] at h
  split at h
  · rename_i hpc
    cases h
    exact Or.inl ⟨hpc, rfl⟩
  · rename_i r rest now hpc
    split at h
    · cases h
    · rename_i t stage heffect
      cases h
      exact Or.inr ⟨r, rest, now, t, _, hpc, recoverEffect_cases heffect,
        Or.inl ⟨stage, rfl, rfl⟩⟩
    · rename_i t heffect
      cases h
      exact Or.inr ⟨r, rest, now, t, _, hpc, recoverEffect_cases heffect, Or.inr ⟨rfl, rfl⟩⟩

/-! ## The steps of tasks in a list -/

theorem step_run {s s' : SchedulerState} {i : ℕ} {e : RunEvent}
    (h : s.step (.run i e) = some s') :
    ∃ run t next, s.runs[i]? = some run ∧ s.RunMove run e t next ∧
      s' = { t with runs := advance s.runs i (next.map fun stage => { run with stage }) } := by
  rw [step] at h
  split at h
  · cases h
  · rename_i run hrun
    obtain ⟨⟨t, next⟩, heffect, rfl⟩ := Option.map_eq_some_iff.mp h
    exact ⟨run, t, next, hrun, runEffect_cases heffect, rfl⟩

theorem step_recover {s s' : SchedulerState} {i : ℕ} {ok : Bool}
    (h : s.step (.recover i ok) = some s') :
    ∃ r t next, s.deletes[i]? = some r ∧ s.RecoverMove r t next ∧
      s' = { t with deletes := advance s.deletes i (next.map fun stage => { r with stage }) } := by
  rw [step] at h
  split at h
  · cases h
  · rename_i r hr
    obtain ⟨⟨t, next⟩, heffect, rfl⟩ := Option.map_eq_some_iff.mp h
    exact ⟨r, t, next, hr, recoverEffect_cases heffect, rfl⟩

theorem step_completeExec {s s' : SchedulerState} {i : ℕ} {ok : Bool}
    (h : s.step (.completeExec i ok) = some s') :
    ∃ jobId result q, s.queue = .redis q ∧ s.completing[i]? = some (jobId, result) ∧
      s' = { s with
        queue := .redis (if ok then q.complete jobId result s.clock else q)
        completing := advance s.completing i none } := by
  rw [step] at h
  split at h
  · rename_i jobId result q hi hq
    cases h
    exact ⟨jobId, result, q, hq, hi, rfl⟩
  · cases h

/-- No other coroutine touches the pass of the monitor. -/
theorem monitor_of_other {s s' : SchedulerState} {l : SchedulerLabel} (h : s.step l = some s')
    (hl : ∀ ok, l ≠ .monitor ok) : s'.monitor = s.monitor := by
  cases l with
  | clock | heartbeat | enqueue =>
    cases h
    rfl
  | dispatch ok => cases dispatchStep_cases h <;> rfl
  | run i e =>
    obtain ⟨run, t, next, -, hmove, rfl⟩ := step_run h
    cases hmove <;> rfl
  | completeExec i ok =>
    obtain ⟨_, _, _, _, _, rfl⟩ := step_completeExec h
    rfl
  | monitor ok => exact absurd rfl (hl ok)
  | delete w =>
    cases h
    rw [deleteStep]
    split
    · rfl
    · split <;> rfl
  | recover i ok =>
    obtain ⟨r, t, next, -, hmove, rfl⟩ := step_recover h
    cases hmove <;> rfl
  | scale count =>
    rw [step] at h
    split_ifs at h <;> (cases h; rfl)

end SchedulerState
end Rcsce
