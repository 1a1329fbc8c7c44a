import Rcsce.Lib.Json

/-!
# Scan jobs

The job dictionaries of `scheduler/queue/job_queue.py`.  A `uuid4` is a number;
that two draws differ is a matter of the machine that draws them.  The
timestamps `submitted_at` and `assigned_at`, and the `result` that the in-memory
queue writes into a job it drops, are written and never read, and are left out.
-/

namespace Rcsce

/-- A value of `uuid.uuid4()`. -/
abbrev Uuid := ℕ

/-- The values of `job["status"]`. -/
inductive JobStatus where
  | pending
  | inflight
  | completed
  deriving DecidableEq

/-- A job dictionary. -/
structure Job where
  jobId : Uuid
  containerId : String
  imageId : String
  imageName : String
  status : JobStatus
  /-- `job.get("worker_id")`. -/
  workerId : Option Uuid
  deriving DecidableEq

namespace Job

/-- The job that both `enqueue` methods make. -/
def new (jobId : Uuid) (containerId imageId imageName : String) : Job :=
  ⟨jobId, containerId, imageId, imageName, .pending, none⟩

/-- `job["status"] = "pending"; job.pop("worker_id", None)`, as both `requeue`
methods and `reclaim_inflight` do. -/
def reset (job : Job) : Job := { job with status := .pending, workerId := none }

/-- `job["worker_id"] = worker_id`, as the dispatcher does. -/
def assignTo (job : Job) (workerId : Uuid) : Job := { job with workerId := some workerId }

/-- `.update({"status": "completed", ...})`, as the in-memory queue does. -/
def complete (job : Job) : Job := { job with status := .completed }

@[simp] theorem jobId_new (i : Uuid) (c im n : String) : (new i c im n).jobId = i := rfl

@[simp] theorem jobId_reset (job : Job) : job.reset.jobId = job.jobId := rfl

end Job
end Rcsce
