import Rcsce.Lib.Machine
import Rcsce.Lib.TaskList
import Rcsce.Scheduler.JobQueue
import Rcsce.Scheduler.WorkerPool

/-!
# The scheduler process

The coroutines of one scheduler process on either queue backend, interleaved at
their awaits: `dispatch_loop`, one `_run_job` for each dispatched job, the
heartbeat monitor, the DELETE and scale requests, and the completions that the
Redis backend schedules.

## What is one step

A step is what one coroutine does between two awaits that can suspend it.
`_spawn_one_worker`, `_replace_worker_if_needed` and the methods of the in-memory
queue never suspend, so they are parts of steps.  An `asyncio.Queue.get` on a queue
that is not empty does not suspend either.  A Redis command is a step of its own,
at the moment it takes effect; where the coroutine touches the process again after
the reply, that is one more step.  A command may also raise, which the label says.

## What is left out

The bodies of the HTTP requests to the control plane and to the cache node: they
are awaits whose failures are swallowed.  `process_job` is the event that it
returned some result or raised.

## Ghosts

`enqueued` and `completions` list the jobs enqueued and completed.  `outstanding`
lists the assignments, a job with its worker, of jobs that have since been neither
completed nor requeued.  `calls` records each `mark_assigned` with the registry
that it found.
-/

namespace Rcsce

/-- Where `dispatch_loop` is. -/
inductive DispatchPc where
  /-- About to start an iteration, possibly after a sleep. -/
  | top
  /-- In `dequeue`, before BLPOP or in `_queue.get`; `w` is `workers[0]`. -/
  | waiting (w : Uuid)
  /-- In `dequeue`, before HSET. -/
  | popped (w : Uuid) (job : Job)
  /-- In `dequeue`, HSET took effect. -/
  | tracked (w : Uuid) (job : Job)
  /-- In `requeue`, before HDEL. -/
  | requeueHdel (job : Job)
  /-- In `requeue`, before RPUSH. -/
  | requeueRpush (job : Job)
  /-- In `_report_to_control_plane`, with the job assigned and not yet running. -/
  | reporting (w : Uuid) (job : Job)
  /-- An exception has ended the loop. -/
  | stopped

/-- Where a `_run_job` is. -/
inductive RunStage where
  /-- In `process_job`. -/
  | scanning
  /-- In the POST to the cache node. -/
  | caching (result : Json)
  /-- In the reports after `queue.complete` and `mark_completed`. -/
  | reporting
  /-- In the report after `mark_failed_or_requeued`. -/
  | failing
  /-- In `requeue`, before HDEL. -/
  | requeueHdel
  /-- In `requeue`, before RPUSH. -/
  | requeueRpush
  /-- In `requeue`, RPUSH took effect. -/
  | requeued

/-- An unfinished `_run_job`. -/
structure RunTask where
  job : Job
  workerId : Uuid
  stage : RunStage

/-- Where the handling of a dead worker is, in the monitor or in a DELETE. -/
inductive RecoveryStage where
  /-- In the notification of the control plane. -/
  | notifying
  /-- In `_reclaim_jobs`, before HGETALL. -/
  | fetching
  /-- In its `requeue`, before HDEL; `rest` is still to do. -/
  | hdel (job : Job) (rest : List Job)
  /-- In its `requeue`, before RPUSH. -/
  | rpush (job : Job) (rest : List Job)
  /-- `_reclaim_jobs` is done, or its exception was caught. -/
  | reclaimed

/-- The handling of a dead worker. -/
structure Recovery where
  worker : Uuid
  stage : RecoveryStage

/-- Where the heartbeat monitor is. -/
inductive MonitorPc where
  | sleeping
  /-- Inside a pass that began at `now`, with `rest` still to look at. -/
  | recovering (r : Recovery) (rest : List Uuid) (now : Time)

/-- The loop of `_reclaim_jobs` takes up its next job. -/
def RecoveryStage.next : List Job → RecoveryStage
  | [] => .reclaimed
  | job :: rest => .hdel job.reset rest

/-- The timeout of the monitor, in seconds. -/
def heartbeatTimeout : Time := 10

/-- The scheduler process. -/
structure SchedulerState where
  pool : WorkerPool
  queue : JobQueue
  dispatch : DispatchPc
  runs : List RunTask
  /-- The scheduled `_complete_async` tasks. -/
  completing : List (Uuid × Json)
  monitor : MonitorPc
  /-- The DELETE requests that are handling a dead worker. -/
  deletes : List Recovery
  clock : Time
  enqueued : List Uuid
  completions : List Uuid
  outstanding : List (Uuid × Uuid)
  calls : List (WorkerRegistry × Uuid)

/-- What can happen inside a `_run_job`. -/
inductive RunEvent where
  /-- `process_job` returns. -/
  | returns (result : Json)
  /-- `process_job` raises. -/
  | raises
  /-- The coroutine goes on; a Redis command takes effect, or raises if not `ok`. -/
  | goesOn (ok : Bool)

/-- What can happen next.  `ok` says that the Redis command of the step, if it has
one, takes effect. -/
inductive SchedulerLabel where
  | clock (now : Time)
  | heartbeat (w : Uuid)
  | enqueue (containerId imageId imageName : String)
  | dispatch (ok : Bool)
  | run (i : ℕ) (e : RunEvent)
  | completeExec (i : ℕ) (ok : Bool)
  | monitor (ok : Bool)
  | delete (w : Uuid)
  | recover (i : ℕ) (ok : Bool)
  | scale (count : ℕ)

namespace SchedulerState

/-- The jobs with these ids are no longer outstanding. -/
def settle (s : SchedulerState) (ids : List Uuid) : SchedulerState :=
  { s with outstanding := s.outstanding.filter fun a => a.1 ∉ ids }

/-! ## The dispatcher -/

/-- From `get_worker` to the report: the job goes to `w`, or back when there is no
node. -/
def assign (s : SchedulerState) (w : Uuid) (job : Job) : SchedulerState :=
  match s.pool.registry.getWorker w, s.queue with
  | none, .redis _ => { s with dispatch := .requeueHdel job.reset }
  | none, .inMemory q =>
      { s.settle [job.jobId] with queue := .inMemory (q.requeue job), dispatch := .top }
  | some _, _ =>
      { s with
        pool := s.pool.markAssigned w
        queue := s.queue.assign job.jobId w
        dispatch := .reporting w (job.assignTo w)
        outstanding := s.outstanding ++ [(job.jobId, w)]
        calls := s.calls ++ [(s.pool.registry, w)] }

/-- `dequeue` on the in-memory queue, and what follows it without an await. -/
def dequeueInMemory (s : SchedulerState) (q : InMemoryQueue) (w : Uuid) : SchedulerState :=
  match q.dequeue with
  | none => { s with dispatch := .waiting w }
  | some (job, q') => { s with queue := .inMemory q' }.assign w job

/-- The next step of `dispatch_loop`. -/
def dispatchStep (s : SchedulerState) (ok : Bool) : Option SchedulerState :=
  match s.dispatch with
  | .top =>
      match s.pool.registry.availableWorkers, s.queue with
      | [], _ => some s
      | w :: _, .redis _ => some { s with dispatch := .waiting w }
      | w :: _, .inMemory q => some (s.dequeueInMemory q w)
  | .waiting w =>
      match s.queue with
      | .inMemory q => some (s.dequeueInMemory q w)
      | .redis q =>
        if ok then
          match q.blpop with
          | none => some s
          | some (job, q') => some { s with
              queue := .redis q'
              dispatch := .popped w { job with status := .inflight } }
        else some { s with dispatch := .stopped }
  | .popped w job => s.queue.redis?.map fun q =>
      if ok then { s with queue := .redis (q.hset job), dispatch := .tracked w job }
      else { s with dispatch := .stopped }
  | .tracked w job => s.queue.redis?.map fun _ => s.assign w job
  | .requeueHdel job => s.queue.redis?.map fun q =>
      if ok then { s with queue := .redis (q.hdel job.jobId), dispatch := .requeueRpush job }
      else { s with dispatch := .stopped }
  | .requeueRpush job => s.queue.redis?.map fun q =>
      if ok then { s.settle [job.jobId] with queue := .redis (q.rpush job), dispatch := .top }
      else { s with dispatch := .stopped }
  | .reporting w job => some { s with runs := s.runs ++ [⟨job, w, .scanning⟩], dispatch := .top }
  | .stopped => none

/-! ## A running job -/

/-- `queue.complete` and `mark_completed`. -/
def complete (s : SchedulerState) (job : Job) (w : Uuid) (result : Json) : SchedulerState :=
  let s' : SchedulerState := { s.settle [job.jobId] with
    pool := s.pool.markCompleted w
    completions := s.completions ++ [job.jobId] }
  match s.queue with
  | .redis _ => { s' with completing := s.completing ++ [(job.jobId, result)] }
  | .inMemory q => { s' with queue := .inMemory (q.complete job.jobId) }

/-- The next step of a `_run_job`: what it does to the process, and where it is
afterwards, if it is not finished. -/
def runEffect (s : SchedulerState) (run : RunTask) (e : RunEvent) :
    Option (SchedulerState × Option RunStage) :=
  let finished : SchedulerState := { s with pool := s.pool.guardLoad run.workerId }
  match run.stage, e with
  | .scanning, .returns result => some (s, some (.caching result))
  | .scanning, .raises =>
      some ({ s with pool := s.pool.markFailedOrRequeued run.workerId }, some .failing)
  | .caching result, .goesOn _ => some (s.complete run.job run.workerId result, some .reporting)
  | .reporting, .goesOn _ => some (finished, none)
  | .failing, .goesOn _ =>
      match s.queue with
      | .redis _ => some (s, some .requeueHdel)
      | .inMemory q =>
          some ({ finished.settle [run.job.jobId] with queue := .inMemory (q.requeue run.job) },
            none)
  | .requeueHdel, .goesOn ok => s.queue.redis?.map fun q =>
      if ok then ({ s with queue := .redis (q.hdel run.job.jobId) }, some .requeueRpush)
      else (finished, none)
  | .requeueRpush, .goesOn ok => s.queue.redis?.map fun q =>
      if ok then
        ({ s.settle [run.job.jobId] with queue := .redis (q.rpush run.job.reset) }, some .requeued)
      else (finished, none)
  | .requeued, .goesOn _ => some (finished, none)
  | _, _ => none

/-! ## Dead workers -/

/-- The next step of the handling of a dead worker: what it does to the process, and
where it is afterwards, if it is not finished. -/
def recoverEffect (s : SchedulerState) (r : Recovery) (ok : Bool) :
    Option (SchedulerState × Option RecoveryStage) :=
  match r.stage with
  | .notifying =>
      match s.queue with
      | .redis _ => some (s, some .fetching)
      | .inMemory q =>
          some ({ s.settle ((q.jobsOf r.worker).map Job.jobId) with
            queue := .inMemory (q.reclaim r.worker)
            pool := s.pool.replaceWorkerIfNeeded r.worker s.clock }, none)
  | .fetching => s.queue.redis?.map fun q =>
      if ok then
        (s, some (.next (q.hgetall.filter fun job => job.workerId = some r.worker)))
      else (s, some .reclaimed)
  | .hdel job rest => s.queue.redis?.map fun q =>
      if ok then ({ s with queue := .redis (q.hdel job.jobId) }, some (.rpush job rest))
      else (s, some .reclaimed)
  | .rpush job rest => s.queue.redis?.map fun q =>
      if ok then ({ s.settle [job.jobId] with queue := .redis (q.rpush job) }, some (.next rest))
      else (s, some .reclaimed)
  | .reclaimed => some ({ s with pool := s.pool.replaceWorkerIfNeeded r.worker s.clock }, none)

/-- The `for` loop of `monitor`, up to the next await: the first worker that is not
dead and whose heartbeat is too old is marked dead. -/
def watch (s : SchedulerState) (now : Time) : List Uuid → SchedulerState
  | [] => { s with monitor := .sleeping }
  | w :: rest =>
      match s.pool.registry.workers.get? w with
      | none => s.watch now rest
      | some info =>
        if info.status = .dead then s.watch now rest
        else if heartbeatTimeout < now - info.lastHeartbeat then
          { s with pool := s.pool.markDead w, monitor := .recovering ⟨w, .notifying⟩ rest now }
        else s.watch now rest

/-- The next step of `monitor`. -/
def monitorStep (s : SchedulerState) (ok : Bool) : Option SchedulerState :=
  match s.monitor with
  | .sleeping => some (s.watch s.clock s.pool.registry.workers.keys)
  | .recovering r rest now =>
      match s.recoverEffect r ok with
      | none => none
      | some (s', some stage) => some { s' with monitor := .recovering { r with stage } rest now }
      | some (s', none) => some (s'.watch now rest)

/-- `deregister_worker`, up to its first await. -/
def deleteStep (s : SchedulerState) (w : Uuid) : SchedulerState :=
  match s.pool.registry.workers.get? w with
  | none => s
  | some info =>
    match info.status with
    | .dead => { s with pool := s.pool.replaceWorkerIfNeeded w s.clock }
    | .alive => { s with pool := s.pool.markDead w, deletes := s.deletes ++ [⟨w, .notifying⟩] }

/-! ## The machine -/

/-- One step. -/
def step (s : SchedulerState) : SchedulerLabel → Option SchedulerState
  | .clock now => some { s with clock := now }
  | .heartbeat w => some { s with pool := s.pool.heartbeat w s.clock }
  | .enqueue containerId imageId imageName => some { s with
      pool := s.pool.drawUuid
      queue := s.queue.enqueue (.new s.pool.nextUuid containerId imageId imageName)
      enqueued := s.enqueued ++ [s.pool.nextUuid] }
  | .dispatch ok => s.dispatchStep ok
  | .run i e =>
      match s.runs[i]? with
      | none => none
      | some run => (s.runEffect run e).map fun r =>
          { r.1 with runs := advance s.runs i (r.2.map fun stage => { run with stage }) }
  | .completeExec i ok =>
      match s.completing[i]?, s.queue with
      | some (jobId, result), .redis q => some { s with
          queue := .redis (if ok then q.complete jobId result s.clock else q)
          completing := advance s.completing i none }
      | _, _ => none
  | .monitor ok => s.monitorStep ok
  | .delete w => some (s.deleteStep w)
  | .recover i ok =>
      match s.deletes[i]? with
      | none => none
      | some r => (s.recoverEffect r ok).map fun e =>
          { e.1 with deletes := advance s.deletes i (e.2.map fun stage => { r with stage }) }
  | .scale count =>
      -- `count` is validated by the query
      if 1 ≤ count ∧ count ≤ maxWorkers then
        some { s with pool := s.pool.scaleWorkers count s.clock }
      else some s

end SchedulerState

/-- What `create_queue` can return.  On Redis, the jobs that an earlier process left
pending, each of them once and none of them assigned; `reclaim_inflight` has emptied
the inflight hash. -/
structure StartQueue where
  queue : JobQueue
  /-- The next value of `uuid.uuid4()`. -/
  nextUuid : Uuid
  idle : queue.inFlight = .empty
  unassigned : ∀ job ∈ queue.pending, job.workerId = none
  once : queue.pendingIds.Nodup
  drawn : ∀ i ∈ queue.pendingIds, i < nextUuid

namespace StartQueue

/-- A new in-memory queue. -/
def inMemory : StartQueue :=
  ⟨.inMemory .empty, 0, rfl, fun _ h => absurd h List.not_mem_nil, List.nodup_nil,
    fun _ h => absurd h List.not_mem_nil⟩

/-- A Redis queue without jobs. -/
def redis : StartQueue :=
  ⟨.redis .empty, 0, rfl, fun _ h => absurd h List.not_mem_nil, List.nodup_nil,
    fun _ h => absurd h List.not_mem_nil⟩

end StartQueue

namespace SchedulerState

/-- The process when `start(n)` has created its workers: nothing in that loop
suspends, so the tasks that it created before have not run yet. -/
def start (n : ℕ) (q : StartQueue) (now : Time) : SchedulerState where
  pool := .spawnWorkers n (.new n q.nextUuid) now
  queue := q.queue
  dispatch := .top
  runs := []
  completing := []
  monitor := .sleeping
  deletes := []
  clock := now
  enqueued := q.queue.pendingIds
  completions := []
  outstanding := []
  calls := []

end SchedulerState
end Rcsce
