import Rcsce.Scheduler.RedisQueue

/-!
# The two queue backends

`InMemoryJobQueue` keeps the job dictionaries themselves, not texts: the same
dictionary is the one that `enqueue` put into the queue, that `dequeue` hands out
and files under `_in_flight`, and that `requeue` puts back.  Whoever writes to it
writes to all of these places.  The model keeps the value in every place and
`writeJob` writes to all of them; a dictionary is known by its job id, which
`enqueue` draws afresh.

`JobQueue` is whichever backend `create_queue` returned.  Its `reclaimJobs` is
`_reclaim_jobs` as a whole; the machine of the scheduler takes it command by
command.
-/

namespace Rcsce

/-- `InMemoryJobQueue`. -/
structure InMemoryQueue where
  /-- `_queue`, head first. -/
  queue : List Job
  /-- `_in_flight`. -/
  inFlight : OrderedDict Uuid Job
  /-- `_in_flight` is keyed by job id. -/
  keyed : ∀ i job, inFlight.get? i = some job → job.jobId = i

namespace InMemoryQueue

/-- `InMemoryJobQueue()`. -/
def empty : InMemoryQueue := ⟨[], .empty, Job.keyed_empty⟩

/-- `enqueue`: `_queue.put`, which never waits. -/
def enqueue (q : InMemoryQueue) (job : Job) : InMemoryQueue := { q with queue := q.queue ++ [job] }

/-- `dequeue`, once the queue is not empty. -/
def dequeue (q : InMemoryQueue) : Option (Job × InMemoryQueue) :=
  match q.queue with
  | [] => none
  | job :: rest => some (job,
      { queue := rest
        inFlight := q.inFlight.set job.jobId job
        keyed := by
          intro i job' h
          rw [OrderedDict.get?_set] at h
          split_ifs at h with hi
          · rw [← Option.some.inj h, hi]
          · exact q.keyed i job' h })

/-- A write to the dictionary of a job; `f` leaves the job id alone. -/
def writeJob (q : InMemoryQueue) (jobId : Uuid) (f : Job → Job)
    (hf : ∀ job, (f job).jobId = job.jobId) : InMemoryQueue :=
  { queue := q.queue.map fun job => if job.jobId = jobId then f job else job
    inFlight := q.inFlight.modify jobId f
    keyed := by
      intro i job h
      rw [OrderedDict.get?_modify] at h
      split_ifs at h with hi
      · obtain ⟨job', hjob', rfl⟩ := Option.map_eq_some_iff.mp h
        rw [hf, q.keyed i job' hjob']
      · exact q.keyed i job h }

/-- `job["worker_id"] = worker_id`, on the dictionary of a job. -/
def assign (q : InMemoryQueue) (jobId workerId : Uuid) : InMemoryQueue :=
  q.writeJob jobId (fun job => job.assignTo workerId) fun _ => rfl

/-- `requeue`: reset the dictionary, put it at the end of the queue, and take it out
of `_in_flight`. -/
def requeue (q : InMemoryQueue) (job : Job) : InMemoryQueue :=
  let q' := q.writeJob job.jobId Job.reset fun _ => rfl
  { queue := q'.queue ++ [job.reset]
    inFlight := q'.inFlight.erase job.jobId
    keyed := fun i job h => q'.keyed i job (OrderedDict.get?_of_get?_erase h) }

/-- `complete`: guarded by membership in `_in_flight`. -/
def complete (q : InMemoryQueue) (jobId : Uuid) : InMemoryQueue :=
  if jobId ∈ q.inFlight then
    let q' := q.writeJob jobId Job.complete fun _ => rfl
    { q' with
      inFlight := q'.inFlight.erase jobId
      keyed := fun i job h => q'.keyed i job (OrderedDict.get?_of_get?_erase h) }
  else q

/-- The in-flight jobs that carry this worker's id, in the order of `_in_flight`. -/
def jobsOf (q : InMemoryQueue) (workerId : Uuid) : List Job :=
  q.inFlight.values.filter fun job => job.workerId = some workerId

/-- `_reclaim_jobs` on this backend: `requeue` the jobs found, one after the other.
Nothing in it waits. -/
def reclaim (q : InMemoryQueue) (workerId : Uuid) : InMemoryQueue :=
  (q.jobsOf workerId).foldl requeue q

/-- The job ids of the queue, head first. -/
def pendingIds (q : InMemoryQueue) : List Uuid := q.queue.map Job.jobId

@[simp] theorem pendingIds_enqueue (q : InMemoryQueue) (job : Job) :
    (q.enqueue job).pendingIds = q.pendingIds ++ [job.jobId] := by
  rw [pendingIds, enqueue, List.map_append, pendingIds, List.map_singleton]

@[simp] theorem pendingIds_writeJob (q : InMemoryQueue) (i : Uuid) (f : Job → Job)
    (hf : ∀ job, (f job).jobId = job.jobId) : (q.writeJob i f hf).pendingIds = q.pendingIds := by
  rw [pendingIds, pendingIds, writeJob, List.map_map]
  refine List.map_congr_left fun job _ => ?_
  by_cases h : job.jobId = i <;> simp [h, hf]

@[simp] theorem pendingIds_assign (q : InMemoryQueue) (i w : Uuid) :
    (q.assign i w).pendingIds = q.pendingIds :=
  pendingIds_writeJob _ _ _ _

@[simp] theorem pendingIds_requeue (q : InMemoryQueue) (job : Job) :
    (q.requeue job).pendingIds = q.pendingIds ++ [job.jobId] := by
  rw [requeue, pendingIds, List.map_append, List.map_singleton, Job.jobId_reset]
  exact congrArg (· ++ [job.jobId]) (pendingIds_writeJob q job.jobId Job.reset fun _ => rfl)

@[simp] theorem pendingIds_complete (q : InMemoryQueue) (i : Uuid) :
    (q.complete i).pendingIds = q.pendingIds := by
  rw [complete]
  split_ifs
  · exact pendingIds_writeJob q i Job.complete fun _ => rfl
  · rfl

theorem dequeue_eq_some {q q' : InMemoryQueue} {job : Job} (h : q.dequeue = some (job, q')) :
    q.queue = job :: q'.queue ∧ q'.inFlight = q.inFlight.set job.jobId job := by
  rw [dequeue] at h
  split at h
  · cases h
  · rename_i head rest hqueue
    cases h
    exact ⟨hqueue, rfl⟩

/-! ## The in-flight jobs -/

theorem get?_inFlight_assign (q : InMemoryQueue) (i w j : Uuid) :
    (q.assign i w).inFlight.get? j =
      if j = i then (q.inFlight.get? j).map (·.assignTo w) else q.inFlight.get? j :=
  OrderedDict.get?_modify _ _ _ _

theorem get?_inFlight_requeue (q : InMemoryQueue) (job : Job) (j : Uuid) :
    (q.requeue job).inFlight.get? j = if j = job.jobId then none else q.inFlight.get? j := by
  show ((q.inFlight.modify job.jobId Job.reset).erase job.jobId).get? j = _
  rw [OrderedDict.get?_erase, OrderedDict.get?_modify]
  split_ifs <;> rfl

theorem get?_inFlight_complete (q : InMemoryQueue) (i j : Uuid) :
    (q.complete i).inFlight.get? j = if j = i then none else q.inFlight.get? j := by
  rw [complete]
  split_ifs with hi hj hj
  · show ((q.inFlight.modify i Job.complete).erase i).get? j = none
    rw [hj, OrderedDict.get?_erase_self]
  · show ((q.inFlight.modify i Job.complete).erase i).get? j = _
    rw [OrderedDict.get?_erase_of_ne _ hj, OrderedDict.get?_modify, if_neg hj]
  · rw [hj, OrderedDict.get?_eq_none_iff]
    exact hi
  · rfl

theorem mem_inFlight_requeue {q : InMemoryQueue} {job : Job} {i : Uuid} :
    i ∈ (q.requeue job).inFlight ↔ i ≠ job.jobId ∧ i ∈ q.inFlight := by
  rw [OrderedDict.mem_iff_get?, OrderedDict.mem_iff_get?, get?_inFlight_requeue]
  by_cases h : i = job.jobId <;> simp [h]

theorem mem_inFlight_complete {q : InMemoryQueue} {i j : Uuid} :
    j ∈ (q.complete i).inFlight ↔ j ≠ i ∧ j ∈ q.inFlight := by
  rw [OrderedDict.mem_iff_get?, OrderedDict.mem_iff_get?, get?_inFlight_complete]
  by_cases h : j = i <;> simp [h]

theorem get?_inFlight_foldl_requeue (jobs : List Job) (q : InMemoryQueue) (j : Uuid) :
    (jobs.foldl requeue q).inFlight.get? j =
      if j ∈ jobs.map Job.jobId then none else q.inFlight.get? j := by
  induction jobs generalizing q with
  | nil => rfl
  | cons job jobs ih =>
    rw [List.foldl_cons, ih, get?_inFlight_requeue, List.map_cons]
    by_cases h : j ∈ jobs.map Job.jobId
    · rw [if_pos h, if_pos (List.mem_cons_of_mem _ h)]
    · by_cases hj : j = job.jobId
      · rw [if_neg h, if_pos hj, if_pos (hj ▸ List.mem_cons_self)]
      · rw [if_neg h, if_neg hj, if_neg fun hmem => (List.mem_cons.mp hmem).elim hj h]

/-- Requeueing several jobs appends them, reset, and resets every pending dictionary
that is one of theirs. -/
theorem queue_foldl_requeue (jobs : List Job) (q : InMemoryQueue) :
    (jobs.foldl requeue q).queue =
      (q.queue.map fun job => if job.jobId ∈ jobs.map Job.jobId then job.reset else job) ++
        jobs.map Job.reset := by
  induction jobs generalizing q with
  | nil =>
    rw [List.foldl_nil]
    exact ((List.append_nil _).trans (List.map_id _)).symm
  | cons job jobs ih =>
    have hqueue : (q.requeue job).queue =
        (q.queue.map fun job' => if job'.jobId = job.jobId then job'.reset else job') ++
          [job.reset] := rfl
    rw [List.foldl_cons, ih, hqueue, List.map_append, List.map_map, List.append_assoc,
      List.map_singleton, List.map_cons, List.singleton_append]
    congr 1
    · refine List.map_congr_left fun job' _ => ?_
      simp only [Function.comp_apply, List.mem_cons]
      by_cases hjob : job'.jobId = job.jobId <;>
        by_cases hrest : job'.jobId ∈ jobs.map Job.jobId <;>
        simp [hjob, hrest, Job.reset]
    · congr 1
      split_ifs <;> rfl

/-- The jobs found for a worker, by their ids. -/
theorem mem_jobsOf_ids {q : InMemoryQueue} {w j : Uuid} :
    j ∈ (q.jobsOf w).map Job.jobId ↔
      ∃ job, q.inFlight.get? j = some job ∧ job.workerId = some w := by
  rw [List.mem_map]
  constructor
  · rintro ⟨job, hmem, rfl⟩
    rw [jobsOf, List.mem_filter, decide_eq_true_iff, OrderedDict.mem_values_iff] at hmem
    obtain ⟨⟨i, hi⟩, hw⟩ := hmem
    exact ⟨job, by rw [q.keyed i job hi, hi], hw⟩
  · rintro ⟨job, hget, hw⟩
    refine ⟨job, ?_, q.keyed j job hget⟩
    rw [jobsOf, List.mem_filter, decide_eq_true_iff, OrderedDict.mem_values_iff]
    exact ⟨⟨j, hget⟩, hw⟩

theorem nodup_jobsOf_ids (q : InMemoryQueue) (w : Uuid) :
    ((q.jobsOf w).map Job.jobId).Nodup := by
  have hkeys : q.inFlight.values.map Job.jobId = q.inFlight.keys := by
    rw [OrderedDict.values, OrderedDict.keys, List.map_map]
    exact List.map_congr_left fun e he =>
      q.keyed e.1 e.2 (OrderedDict.get?_eq_some_iff.mpr he)
  refine List.Nodup.sublist (List.filter_sublist.map Job.jobId) ?_
  rw [hkeys]
  exact q.inFlight.nodup_keys

end InMemoryQueue

/-- What `create_queue` returned. -/
inductive JobQueue where
  | redis (q : QueueStore)
  | inMemory (q : InMemoryQueue)

namespace JobQueue

/-- The pending jobs, head first. -/
def pending : JobQueue → List Job
  | .redis q => q.pending
  | .inMemory q => q.queue

/-- Their ids. -/
def pendingIds : JobQueue → List Uuid
  | .redis q => q.pendingIds
  | .inMemory q => q.pendingIds

/-- The jobs in flight. -/
def inFlight : JobQueue → OrderedDict Uuid Job
  | .redis q => q.inflight
  | .inMemory q => q.inFlight

/-- The Redis behind the queue, if there is one. -/
def redis? : JobQueue → Option QueueStore
  | .redis q => some q
  | .inMemory _ => none

/-- `enqueue`, with RPUSH taking effect on Redis. -/
def enqueue : JobQueue → Job → JobQueue
  | .redis q, job => .redis (q.rpush job)
  | .inMemory q, job => .inMemory (q.enqueue job)

/-- `job["worker_id"] = worker_id` in the dispatcher.  On Redis the dictionary is the
dispatcher's own, loaded from the text that it popped. -/
def assign : JobQueue → Uuid → Uuid → JobQueue
  | .redis q, _, _ => .redis q
  | .inMemory q, jobId, workerId => .inMemory (q.assign jobId workerId)

/-- `_reclaim_jobs`, run to its end with no error and nothing in between. -/
def reclaimJobs : JobQueue → Uuid → JobQueue
  | .redis q, workerId =>
      .redis ((q.hgetall.filter fun job => job.workerId = some workerId).foldl
        (fun q job => (q.hdel job.jobId).rpush job.reset) q)
  | .inMemory q, workerId => .inMemory (q.reclaim workerId)

@[simp] theorem pendingIds_enqueue (q : JobQueue) (job : Job) :
    (q.enqueue job).pendingIds = q.pendingIds ++ [job.jobId] := by
  cases q with
  | redis q => exact QueueStore.pendingIds_rpush q job
  | inMemory q => exact InMemoryQueue.pendingIds_enqueue q job

@[simp] theorem pendingIds_assign (q : JobQueue) (i w : Uuid) :
    (q.assign i w).pendingIds = q.pendingIds := by
  cases q with
  | redis q => rfl
  | inMemory q => exact InMemoryQueue.pendingIds_assign q i w

theorem redis?_eq_some {q : JobQueue} {r : QueueStore} : q.redis? = some r ↔ q = .redis r := by
  cases q <;> simp [redis?]

/-- A command that needs Redis goes on from the Redis of the queue. -/
theorem map_redis?_eq_some {α : Type*} {q : JobQueue} {f : QueueStore → α} {a : α} :
    q.redis?.map f = some a ↔ ∃ r, q = .redis r ∧ f r = a := by
  rw [Option.map_eq_some_iff]
  simp only [redis?_eq_some]

end JobQueue
end Rcsce
