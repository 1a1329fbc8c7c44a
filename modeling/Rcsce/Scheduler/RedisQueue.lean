import Rcsce.Lib.OrderedDict
import Rcsce.Scheduler.Job

/-!
# The Redis side of the job queue

The three structures that `scheduler/queue/job_queue.py` keeps in Redis, and the
commands that `RedisJobQueue` issues on them, each one atomic.  A stored text is
the dump of a job dictionary, which loads back to the same dictionary, so the
model stores the job.

`RedisJobQueue` uses them so: `enqueue` is RPUSH and LLEN; `dequeue` is BLPOP and
HSET; `requeue` is HDEL and RPUSH; `_complete_async` is one transaction;
`reclaim_inflight` is HGETALL and then RPUSH and HDEL for every job found.
-/

namespace Rcsce

/-- `COMPLETED_TTL`, in seconds. -/
def completedTtl : ℕ := 3600

/-- What Redis holds for the queue.  Every HSET on the inflight hash uses the job's
own id as the field, so the hash is keyed by job id. -/
structure QueueStore where
  /-- LIST `rcsce:queue:pending`, head first. -/
  pending : List Job
  /-- HASH `rcsce:queue:inflight`. -/
  inflight : OrderedDict Uuid Job
  /-- HASH `rcsce:queue:completed`. -/
  completed : OrderedDict Uuid Json
  /-- When the completed hash expires, once EXPIRE has been called. -/
  completedExpiry : Option Time
  /-- The field of a job in the inflight hash is its id. -/
  keyed : ∀ i job, inflight.get? i = some job → job.jobId = i

theorem Job.keyed_empty (i : Uuid) (job : Job)
    (h : (OrderedDict.empty : OrderedDict Uuid Job).get? i = some job) : job.jobId = i := by
  cases h

namespace QueueStore

/-- An empty Redis. -/
def empty : QueueStore := ⟨[], .empty, .empty, none, Job.keyed_empty⟩

/-- RPUSH on the pending list. -/
def rpush (q : QueueStore) (job : Job) : QueueStore := { q with pending := q.pending ++ [job] }

/-- BLPOP on the pending list: `none` when it times out on an empty list. -/
def blpop (q : QueueStore) : Option (Job × QueueStore) :=
  match q.pending with
  | [] => none
  | job :: rest => some (job, { q with pending := rest })

/-- HSET on the inflight hash. -/
def hset (q : QueueStore) (job : Job) : QueueStore :=
  { q with
    inflight := q.inflight.set job.jobId job
    keyed := by
      intro i job' h
      rw [OrderedDict.get?_set] at h
      split_ifs at h with hi
      · rw [← Option.some.inj h, hi]
      · exact q.keyed i job' h }

/-- HDEL on the inflight hash. -/
def hdel (q : QueueStore) (jobId : Uuid) : QueueStore :=
  { q with
    inflight := q.inflight.erase jobId
    keyed := fun i job h => q.keyed i job (OrderedDict.get?_of_get?_erase h) }

/-- HGETALL on the inflight hash; the jobs carry their fields. -/
def hgetall (q : QueueStore) : List Job := q.inflight.values

/-- The transaction of `_complete_async`: HDEL from the inflight hash, HSET into
the completed hash and EXPIRE.  The client's pipeline is a MULTI/EXEC block, so the
three take effect together. -/
def complete (q : QueueStore) (jobId : Uuid) (result : Json) (now : Time) : QueueStore :=
  { q with
    inflight := q.inflight.erase jobId
    completed := q.completed.set jobId result
    completedExpiry := some (now + completedTtl)
    keyed := fun i job h => q.keyed i job (OrderedDict.get?_of_get?_erase h) }

/-- Redis drops the completed hash when its time to live has passed. -/
def expireCompleted (q : QueueStore) : QueueStore :=
  { q with completed := .empty, completedExpiry := none }

/-- The job ids of the pending list, head first. -/
def pendingIds (q : QueueStore) : List Uuid := q.pending.map Job.jobId

@[simp] theorem pendingIds_rpush (q : QueueStore) (job : Job) :
    (q.rpush job).pendingIds = q.pendingIds ++ [job.jobId] := by
  rw [pendingIds, rpush, List.map_append, pendingIds, List.map_singleton]

@[simp] theorem pendingIds_hdel (q : QueueStore) (jobId : Uuid) :
    (q.hdel jobId).pendingIds = q.pendingIds := rfl

@[simp] theorem pendingIds_complete (q : QueueStore) (jobId : Uuid) (result : Json) (now : Time) :
    (q.complete jobId result now).pendingIds = q.pendingIds := rfl

@[simp] theorem mem_inflight_hset {q : QueueStore} {job : Job} {i : Uuid} :
    i ∈ (q.hset job).inflight ↔ i = job.jobId ∨ i ∈ q.inflight :=
  OrderedDict.mem_set

@[simp] theorem mem_inflight_hdel {q : QueueStore} {jobId i : Uuid} :
    i ∈ (q.hdel jobId).inflight ↔ i ≠ jobId ∧ i ∈ q.inflight :=
  OrderedDict.mem_erase

@[simp] theorem mem_inflight_complete {q : QueueStore} {jobId i : Uuid} {result : Json}
    {now : Time} : i ∈ (q.complete jobId result now).inflight ↔ i ≠ jobId ∧ i ∈ q.inflight :=
  OrderedDict.mem_erase

/-- BLPOP takes the head. -/
theorem blpop_eq_some {q q' : QueueStore} {job : Job} :
    q.blpop = some (job, q') ↔
      q.pending = job :: q'.pending ∧ q' = { q with pending := q'.pending } := by
  rw [blpop]
  cases hp : q.pending with
  | nil => simp
  | cons head rest =>
    simp only [Option.some.injEq, Prod.mk.injEq, List.cons.injEq]
    constructor
    · rintro ⟨rfl, rfl⟩
      exact ⟨⟨rfl, rfl⟩, rfl⟩
    · rintro ⟨⟨rfl, hrest⟩, hq⟩
      exact ⟨rfl, by rw [hq, hrest]⟩

end QueueStore
end Rcsce
