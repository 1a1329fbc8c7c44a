import Rcsce.Lib.Machine
import Rcsce.Lib.TaskList
import Rcsce.Scheduler.RedisQueue

/-!
# Which jobs a crash loses

One scheduler process on the Redis queue, at the granularity of Redis commands.
The process may crash between any two commands, any command may raise, and every
restart runs `create_queue`, hence `reclaim_inflight`, before anything else.
Inside a running process the coroutines of `RedisJobQueue` interleave freely, and
their callers are arbitrary: a run may requeue or complete any job at any time.

## The two gaps

`enqueue`, `_complete_async` and `reclaim_inflight` never leave a job without a
stored copy: the first adds one, the second records the completion in the same
transaction, the third pushes before it deletes.  `dequeue` pops before it
records the job as in flight, and `requeue` deletes the record before it pushes.
Between these two commands the job is nowhere but in the memory of the process.

* `noLoss_iff_takesLast` is exact.  Every accepted job is stored at every point of a
  run if and only if no BLPOP and no HDEL of a `requeue` in the run takes the
  last stored copy of an unfinished job.
* `storedOrHeld_of_cutsNoGap` says what such a step costs: as long as no coroutine is
  stopped inside its gap, every accepted job is stored or in the hands of one.
* `popped_job_lost` is the run in which the process crashes between BLPOP and
  HSET: after the restart the job is nowhere.

`Move` lists what a step can do, and the invariants are read off `step_cases`.
-/

namespace Rcsce

/-- A coroutine of `RedisJobQueue`, by the Redis command that it issues next. -/
inductive QueueOp where
  /-- `enqueue`, before RPUSH. -/
  | enqueueRpush (job : Job)
  /-- `enqueue`, before LLEN. -/
  | enqueueLlen
  /-- `dequeue`, before BLPOP. -/
  | dequeueBlpop
  /-- `dequeue`, before HSET. -/
  | dequeueHset (job : Job)
  /-- `requeue`, before HDEL. -/
  | requeueHdel (job : Job)
  /-- `requeue`, before RPUSH. -/
  | requeueRpush (job : Job)
  /-- `_complete_async`, before its transaction. -/
  | completeExec (jobId : Uuid) (result : Json)

namespace QueueOp

/-- The command takes effect: Redis after it, and the coroutine if it goes on. -/
def command (now : Time) (q : QueueStore) : QueueOp → QueueStore × Option QueueOp
  | .enqueueRpush job => (q.rpush job, some .enqueueLlen)
  | .enqueueLlen => (q, none)
  | .dequeueBlpop =>
      match q.blpop with
      | none => (q, some .dequeueBlpop)
      | some (job, q') => (q', some (.dequeueHset { job with status := .inflight }))
  | .dequeueHset job => (q.hset job, none)
  | .requeueHdel job => (q.hdel job.jobId, some (.requeueRpush job))
  | .requeueRpush job => (q.rpush job, none)
  | .completeExec jobId result => (q.complete jobId result now, none)

/-- The job that the RPUSH of `enqueue` makes accepted. -/
def accepts : QueueOp → List Uuid
  | .enqueueRpush job => [job.jobId]
  | _ => []

/-- The job whose completion the transaction records. -/
def records : QueueOp → List Uuid
  | .completeExec jobId _ => [jobId]
  | _ => []

/-- The job of which the command removes a stored copy without recording its
completion. -/
def takes (q : QueueStore) : QueueOp → Option Uuid
  | .dequeueBlpop => q.pending.head?.map Job.jobId
  | .requeueHdel job => some job.jobId
  | _ => none

/-- The job that is nowhere but in the hands of the coroutine. -/
def holds : QueueOp → Option Uuid
  | .dequeueHset job => some job.jobId
  | .requeueRpush job => some job.jobId
  | _ => none

end QueueOp

/-- A call of a `RedisJobQueue` method. -/
inductive QueueCall where
  | enqueue (jobId : Uuid) (containerId imageId imageName : String)
  | dequeue
  | requeue (job : Job)
  | complete (jobId : Uuid) (result : Json)

/-- The coroutine that a call starts. -/
def QueueCall.start : QueueCall → QueueOp
  | .enqueue jobId containerId imageId imageName =>
      .enqueueRpush (.new jobId containerId imageId imageName)
  | .dequeue => .dequeueBlpop
  | .requeue job => .requeueHdel job.reset
  | .complete jobId result => .completeExec jobId result

/-- The scheduler process. -/
inductive SchedulerProc where
  | down
  /-- In `reclaim_inflight`, before HGETALL. -/
  | reclaimHgetall
  /-- In `reclaim_inflight`, before the RPUSH of a job; `rest` is still to do. -/
  | reclaimRpush (job : Job) (rest : List Job)
  /-- In `reclaim_inflight`, before the HDEL of a job. -/
  | reclaimHdel (job : Job) (rest : List Job)
  /-- On the Redis queue, with the unfinished coroutines. -/
  | running (ops : List QueueOp)
  /-- On the in-memory queue that `create_queue` falls back to. -/
  | inMemory

/-- The loop of `reclaim_inflight` takes up its next job. -/
def SchedulerProc.reclaim : List Job → SchedulerProc
  | [] => .running []
  | job :: rest => .reclaimRpush job.reset rest

/-- A process, its Redis, and two ghosts: the jobs ever accepted and the jobs
whose completion was ever recorded. -/
structure QueueRun where
  redis : QueueStore
  proc : SchedulerProc
  accepted : List Uuid
  recorded : List Uuid

/-- What can happen next. -/
inductive CrashLabel where
  /-- The process starts and reaches Redis. -/
  | start
  /-- The process starts and its PING raises. -/
  | startWithoutRedis
  | call (c : QueueCall)
  /-- The next command of the coroutine at this index takes effect. -/
  | command (i : ℕ) (now : Time)
  /-- The coroutine at this index ends with an exception instead. -/
  | raises (i : ℕ)
  /-- The next command of `reclaim_inflight` takes effect. -/
  | reclaim
  /-- It raises: `create_queue` falls back to the in-memory queue. -/
  | reclaimRaises
  | crash
  /-- The completed hash reaches its time to live. -/
  | completedExpires

namespace QueueRun

/-- An empty Redis and no process. -/
def init : QueueRun := ⟨.empty, .down, [], []⟩

/-- One step. -/
def step (s : QueueRun) : CrashLabel → Option QueueRun
  | .start =>
      match s.proc with
      | .down => some { s with proc := .reclaimHgetall }
      | _ => none
  | .startWithoutRedis =>
      match s.proc with
      | .down => some { s with proc := .inMemory }
      | _ => none
  | .call c =>
      match s.proc with
      | .running ops => some { s with proc := .running (ops ++ [c.start]) }
      | _ => none
  | .command i now =>
      match s.proc with
      | .running ops =>
        match ops[i]? with
        | none => none
        | some op =>
          let r := op.command now s.redis
          some ⟨r.1, .running (advance ops i r.2), s.accepted ++ op.accepts,
            s.recorded ++ op.records⟩
      | _ => none
  | .raises i =>
      match s.proc with
      | .running ops =>
        match ops[i]? with
        | none => none
        | some _ => some { s with proc := .running (advance ops i none) }
      | _ => none
  | .reclaim =>
      match s.proc with
      | .reclaimHgetall => some { s with proc := .reclaim s.redis.hgetall }
      | .reclaimRpush job rest =>
          some { s with redis := s.redis.rpush job, proc := .reclaimHdel job rest }
      | .reclaimHdel job rest =>
          some { s with redis := s.redis.hdel job.jobId, proc := .reclaim rest }
      | _ => none
  | .reclaimRaises =>
      match s.proc with
      | .reclaimHgetall => some { s with proc := .inMemory }
      | .reclaimRpush _ _ => some { s with proc := .inMemory }
      | .reclaimHdel _ _ => some { s with proc := .inMemory }
      | _ => none
  | .crash =>
      match s.proc with
      | .down => none
      | _ => some { s with proc := .down }
  | .completedExpires => some { s with redis := s.redis.expireCompleted }

/-! ## The property and the conditions -/

/-- The job is in the pending list, or in the inflight hash, or its completion
has been recorded. -/
def Stored (s : QueueRun) (i : Uuid) : Prop :=
  i ∈ s.redis.pendingIds ∨ i ∈ s.redis.inflight ∨ i ∈ s.recorded

instance (s : QueueRun) (i : Uuid) : Decidable (s.Stored i) :=
  inferInstanceAs (Decidable (_ ∨ _ ∨ _))

/-- No accepted job is lost. -/
def NoLoss (s : QueueRun) : Prop := ∀ i ∈ s.accepted, s.Stored i

instance (s : QueueRun) : Decidable s.NoLoss :=
  inferInstanceAs (Decidable (∀ i ∈ s.accepted, s.Stored i))

/-- The unfinished coroutines. -/
def ops (s : QueueRun) : List QueueOp :=
  match s.proc with
  | .running ops => ops
  | _ => []

/-- The step is the BLPOP of a `dequeue`, or the HDEL of a `requeue`, and it takes
the only stored copy of an accepted job that is not completed. -/
def TakesLast (s : QueueRun) : CrashLabel → Prop
  | .command i _ =>
      match s.ops[i]? with
      | some .dequeueBlpop =>
          match s.redis.pending with
          | [] => False
          | job :: rest => job.jobId ∈ s.accepted ∧ job.jobId ∉ rest.map Job.jobId ∧
              job.jobId ∉ s.redis.inflight ∧ job.jobId ∉ s.recorded
      | some (.requeueHdel job) => job.jobId ∈ s.accepted ∧ job.jobId ∉ s.redis.pendingIds ∧
          job.jobId ∈ s.redis.inflight ∧ job.jobId ∉ s.recorded
      | _ => False
  | _ => False

/-- A coroutine is between the two commands of `dequeue` or of `requeue` with this
job. -/
def Held (s : QueueRun) (i : Uuid) : Prop := ∃ op ∈ s.ops, op.holds = some i

/-- The step does not stop a coroutine inside its gap. -/
def CutsNoGap (s : QueueRun) : CrashLabel → Prop
  | .raises i => ∀ op, s.ops[i]? = some op → op.holds = none
  | .crash => ∀ op ∈ s.ops, op.holds = none
  | _ => True

/-- Between RPUSH and HDEL of `reclaim_inflight` the job is already pending. -/
def ReclaimPushed (s : QueueRun) : Prop :=
  ∀ job rest, s.proc = .reclaimHdel job rest → job.jobId ∈ s.redis.pendingIds

/-! ## What a step does -/

/-- The run after a command; `proc` is the process after it. -/
def after (s : QueueRun) (op : QueueOp) (now : Time) (proc : SchedulerProc) : QueueRun :=
  ⟨(op.command now s.redis).1, proc, s.accepted ++ op.accepts, s.recorded ++ op.records⟩

/-- The moves of the process and of Redis. -/
inductive Move (s : QueueRun) : CrashLabel → QueueRun → Prop
  | starts (hproc : s.proc = .down) : Move s .start { s with proc := .reclaimHgetall }
  | startsInMemory (hproc : s.proc = .down) :
      Move s .startWithoutRedis { s with proc := .inMemory }
  | calls (c : QueueCall) (ops : List QueueOp) (hproc : s.proc = .running ops) :
      Move s (.call c) { s with proc := .running (ops ++ [c.start]) }
  | commands (i : ℕ) (now : Time) (ops : List QueueOp) (op : QueueOp)
      (hproc : s.proc = .running ops) (hop : ops[i]? = some op) :
      Move s (.command i now)
        (s.after op now (.running (advance ops i (op.command now s.redis).2)))
  | raises (i : ℕ) (ops : List QueueOp) (op : QueueOp) (hproc : s.proc = .running ops)
      (hop : ops[i]? = some op) :
      Move s (.raises i) { s with proc := .running (advance ops i none) }
  | hgetall (hproc : s.proc = .reclaimHgetall) :
      Move s .reclaim { s with proc := .reclaim s.redis.hgetall }
  | rpush (job : Job) (rest : List Job) (hproc : s.proc = .reclaimRpush job rest) :
      Move s .reclaim { s with redis := s.redis.rpush job, proc := .reclaimHdel job rest }
  | hdel (job : Job) (rest : List Job) (hproc : s.proc = .reclaimHdel job rest) :
      Move s .reclaim { s with redis := s.redis.hdel job.jobId, proc := .reclaim rest }
  | reclaimRaises (hproc : ∀ ops, s.proc ≠ .running ops) :
      Move s .reclaimRaises { s with proc := .inMemory }
  | crashes : Move s .crash { s with proc := .down }
  | expires : Move s .completedExpires { s with redis := s.redis.expireCompleted }

/-- Every step is one of the moves. -/
theorem step_cases {s s' : QueueRun} {l : CrashLabel} (h : s.step l = some s') : s.Move l s' := by
  cases l with
  | start | startWithoutRedis =>
    rw [step] at h
    split at h
    · rename_i hproc
      cases h
      first
        | exact .starts hproc
        | exact .startsInMemory hproc
    · cases h
  | call c =>
    rw [step] at h
    split at h
    · rename_i ops hproc
      cases h
      exact .calls c ops hproc
    · cases h
  | command i now =>
    rw [step] at h
    split at h
    · rename_i ops hproc
      split at h
      · cases h
      · rename_i op hop
        cases h
        exact .commands i now ops op hproc hop
    · cases h
  | raises i =>
    rw [step] at h
    split at h
    · rename_i ops hproc
      split at h
      · cases h
      · rename_i op hop
        cases h
        exact .raises i ops op hproc hop
    · cases h
  | reclaim =>
    rw [step] at h
    split at h
    · rename_i hproc
      cases h
      exact .hgetall hproc
    · rename_i job rest hproc
      cases h
      exact .rpush job rest hproc
    · rename_i job rest hproc
      cases h
      exact .hdel job rest hproc
    · cases h
  | reclaimRaises =>
    rw [step] at h
    split at h
    case h_4 => cases h
    all_goals
      rename_i hproc
      cases h
      exact .reclaimRaises fun ops hrun => nomatch hproc.symm.trans hrun
  | crash =>
    rw [step] at h
    split at h
    · cases h
    · cases h
      exact .crashes
  | completedExpires =>
    cases h
    exact .expires

/-! ## One command -/

theorem ops_of_running {s : QueueRun} {ops : List QueueOp} (h : s.proc = .running ops) :
    s.ops = ops := by
  rw [QueueRun.ops, h]

/-- A process that is not running has no coroutines. -/
theorem proc_of_mem_ops {s : QueueRun} {op : QueueOp} (h : op ∈ s.ops) :
    s.proc = .running s.ops := by
  cases hproc : s.proc with
  | running ops => rw [ops_of_running hproc]
  | _ =>
    rw [QueueRun.ops, hproc] at h
    exact absurd h List.not_mem_nil

/-- What a command of a running coroutine does. -/
theorem step_command {s s' : QueueRun} {i : ℕ} {now : Time}
    (h : s.step (.command i now) = some s') :
    ∃ op, s.ops[i]? = some op ∧
      s' = s.after op now (.running (advance s.ops i (op.command now s.redis).2)) := by
  cases step_cases h with
  | commands _ _ ops op hproc hop =>
    rw [ops_of_running hproc]
    exact ⟨op, hop, rfl⟩

/-- The steps that issue no command of a running coroutine: they accept nothing,
record nothing and keep every stored copy. -/
theorem step_other {s s' : QueueRun} {l : CrashLabel} (hr : s.ReclaimPushed)
    (h : s.step l = some s') (hl : ∀ i now, l ≠ .command i now) :
    s'.accepted = s.accepted ∧ (∀ i, s.Stored i → s'.Stored i) ∧ ¬ s.TakesLast l := by
  cases step_cases h with
  | commands i now => exact absurd rfl (hl i now)
  | rpush job rest =>
    -- RPUSH only adds a copy
    refine ⟨rfl, fun i hi => ?_, not_false⟩
    rcases hi with hp | hq
    · exact Or.inl (by rw [QueueStore.pendingIds_rpush]; exact List.mem_append_left _ hp)
    · exact Or.inr hq
  | hdel job rest hproc =>
    -- HDEL removes a job that has just been pushed
    refine ⟨rfl, fun i hi => ?_, not_false⟩
    rcases hi with hp | hin | hrec
    · exact Or.inl hp
    · by_cases hij : i = job.jobId
      · exact Or.inl (hij ▸ hr job rest hproc)
      · exact Or.inr (Or.inl (QueueStore.mem_inflight_hdel.mpr ⟨hij, hin⟩))
    · exact Or.inr (Or.inr hrec)
  | _ => exact ⟨rfl, fun _ hi => hi, not_false⟩

/-- A pending job stays pending unless the command takes it. -/
theorem mem_pendingIds_command {q : QueueStore} {op : QueueOp} {j : Uuid}
    (hj : j ∈ q.pendingIds) (htakes : op.takes q ≠ some j) (now : Time) :
    j ∈ (op.command now q).1.pendingIds := by
  cases op with
  | enqueueRpush job | requeueRpush job =>
    rw [QueueOp.command, QueueStore.pendingIds_rpush]
    exact List.mem_append_left _ hj
  | dequeueBlpop =>
    rw [QueueOp.command, QueueStore.blpop]
    rw [QueueStore.pendingIds] at hj
    rw [QueueOp.takes] at htakes
    cases hpend : q.pending with
    | nil => exact absurd (hpend ▸ hj) List.not_mem_nil
    | cons head rest =>
      rw [hpend] at hj htakes
      rcases List.mem_cons.mp hj with heq | hrest
      · exact absurd (congrArg some heq.symm) htakes
      · exact hrest
  | _ => exact hj

/-- A job in flight stays in flight unless the command takes it or records its
completion. -/
theorem mem_inflight_command {q : QueueStore} {op : QueueOp} {j : Uuid}
    (hj : j ∈ q.inflight) (htakes : op.takes q ≠ some j) (hrec : j ∉ op.records) (now : Time) :
    j ∈ (op.command now q).1.inflight := by
  cases op with
  | dequeueBlpop =>
    rw [QueueOp.command, QueueStore.blpop]
    cases q.pending <;> exact hj
  | dequeueHset job => exact QueueStore.mem_inflight_hset.mpr (Or.inr hj)
  | requeueHdel job =>
    exact QueueStore.mem_inflight_hdel.mpr ⟨fun h => htakes (congrArg some h.symm), hj⟩
  | completeExec jobId result =>
    exact QueueStore.mem_inflight_complete.mpr ⟨fun h => hrec (List.mem_singleton.mpr h), hj⟩
  | _ => exact hj

/-- A command leaves every job stored of which it takes no copy. -/
theorem stored_after {s : QueueRun} {op : QueueOp} {j : Uuid} (hj : s.Stored j)
    (htakes : op.takes s.redis ≠ some j) (now : Time) (proc : SchedulerProc) :
    (s.after op now proc).Stored j := by
  rcases hj with hp | hin | hrec
  · exact Or.inl (mem_pendingIds_command hp htakes now)
  · by_cases hnew : j ∈ op.records
    · exact Or.inr (Or.inr (List.mem_append_right _ hnew))
    · exact Or.inr (Or.inl (mem_inflight_command hin htakes hnew now))
  · exact Or.inr (Or.inr (List.mem_append_left _ hrec))

/-- A job that a command makes accepted is stored after it. -/
theorem stored_of_accepts {s : QueueRun} {op : QueueOp} {j : Uuid} (hj : j ∈ op.accepts)
    (now : Time) (proc : SchedulerProc) : (s.after op now proc).Stored j := by
  cases op with
  | enqueueRpush job =>
    left
    rw [after, QueueOp.command, QueueStore.pendingIds_rpush]
    exact List.mem_append_right _ hj
  | _ => exact absurd hj List.not_mem_nil

/-- Only the job that a command takes can be lost by it. -/
theorem noLoss_after_iff {s : QueueRun} {op : QueueOp} (hs : s.NoLoss) (now : Time)
    (proc : SchedulerProc) :
    (s.after op now proc).NoLoss ↔
      ∀ j, op.takes s.redis = some j → j ∈ s.accepted → (s.after op now proc).Stored j := by
  constructor
  · intro h j _ hj
    exact h j (List.mem_append_left _ hj)
  · intro h j hj
    rcases List.mem_append.mp hj with hold | hnew
    · by_cases htakes : op.takes s.redis = some j
      · exact h j htakes hold
      · exact stored_after (hs j hold) htakes now proc
    · exact stored_of_accepts hnew now proc

/-- **One command.**  It keeps every accepted job stored unless it takes the last
stored copy of an unfinished one. -/
theorem noLoss_after {s : QueueRun} {i : ℕ} {op : QueueOp} (hs : s.NoLoss)
    (hop : s.ops[i]? = some op) (now : Time) (proc : SchedulerProc) :
    (s.after op now proc).NoLoss ↔ ¬ s.TakesLast (.command i now) := by
  rw [noLoss_after_iff hs, TakesLast, hop]
  cases op with
  | dequeueBlpop =>
    cases hpend : s.redis.pending with
    | nil => simp [QueueOp.takes, hpend]
    | cons head rest =>
      have hstored : (s.after .dequeueBlpop now proc).Stored head.jobId ↔
          head.jobId ∈ rest.map Job.jobId ∨ head.jobId ∈ s.redis.inflight ∨
            head.jobId ∈ s.recorded := by
        simp [Stored, after, QueueOp.command, QueueOp.records, QueueStore.blpop,
          QueueStore.pendingIds, hpend]
      simp only [QueueOp.takes, hpend, List.head?_cons, Option.map_some, Option.some.injEq,
        forall_eq', hstored]
      tauto
  | requeueHdel job =>
    -- the coroutine that deletes the record may find none; then the job is pending or recorded
    have hstored : (s.after (.requeueHdel job) now proc).Stored job.jobId ↔
        job.jobId ∈ s.redis.pendingIds ∨ job.jobId ∈ s.recorded := by
      simp [Stored, after, QueueOp.command, QueueOp.records]
    simp only [QueueOp.takes, Option.some.injEq, forall_eq', hstored]
    have hbefore : job.jobId ∈ s.accepted → s.Stored job.jobId := hs job.jobId
    rw [Stored] at hbefore
    tauto
  | _ =>
    refine iff_of_true (fun j hj => ?_) not_false
    cases hj

/-! ## Whole runs -/

theorem step_reclaimPushed {s s' : QueueRun} {l : CrashLabel} (hr : s.ReclaimPushed)
    (h : s.step l = some s') : s'.ReclaimPushed := by
  intro job rest hproc
  cases step_cases h with
  | hgetall =>
    change SchedulerProc.reclaim s.redis.hgetall = _ at hproc
    cases hlist : s.redis.hgetall <;> rw [hlist] at hproc <;> cases hproc
  | rpush =>
    cases hproc
    rw [QueueStore.pendingIds_rpush]
    exact List.mem_append_right _ (List.mem_singleton.mpr rfl)
  | hdel _ rest' =>
    change SchedulerProc.reclaim rest' = _ at hproc
    cases rest' <;> cases hproc
  | expires => exact hr job rest hproc
  | _ => cases hproc

/-- **Exactness of the two gaps.**  Every accepted job is stored at every point of
a run if and only if no step of the run takes the last stored copy of an
unfinished job. -/
theorem noLoss_iff_takesLast (ls : List CrashLabel) :
    Machine.Visits step NoLoss init ls ↔
      Machine.Meets step (fun s l _ => ¬ s.TakesLast l) init ls := by
  refine Machine.visits_iff_meets (fun s l s' hr h => step_reclaimPushed hr h) ?_ ?_ ?_ ls
  · intro s l s' hr hs h
    by_cases hl : ∃ i now, l = .command i now
    · obtain ⟨i, now, rfl⟩ := hl
      obtain ⟨op, hop, rfl⟩ := step_command h
      exact noLoss_after hs hop now _
    · obtain ⟨hacc, hkeep, hnot⟩ := step_other hr h fun i now heq => hl ⟨i, now, heq⟩
      exact iff_of_true (fun j hj => hkeep j (hs j (hacc ▸ hj))) hnot
  · intro job rest hproc
    cases hproc
  · intro j hj
    cases hj

/-- Every accepted job is stored or in the hands of a coroutine. -/
def StoredOrHeld (s : QueueRun) : Prop := ∀ j ∈ s.accepted, s.Stored j ∨ s.Held j

/-- A job that a command takes is in the hands of the coroutine afterwards. -/
theorem holds_of_takes {q : QueueStore} {op : QueueOp} {j : Uuid} (h : op.takes q = some j)
    (now : Time) : ∃ op', (op.command now q).2 = some op' ∧ op'.holds = some j := by
  cases op with
  | dequeueBlpop =>
    rw [QueueOp.takes] at h
    rw [QueueOp.command, QueueStore.blpop]
    cases hpend : q.pending with
    | nil => rw [hpend] at h; cases h
    | cons head rest =>
      rw [hpend] at h
      exact ⟨_, rfl, h⟩
  | requeueHdel job => exact ⟨_, rfl, h⟩
  | _ => cases h

/-- A command that ends a gap puts the job back into Redis. -/
theorem stored_of_holds {s : QueueRun} {op : QueueOp} {j : Uuid} (h : op.holds = some j)
    (now : Time) (proc : SchedulerProc) : (s.after op now proc).Stored j := by
  cases op with
  | dequeueHset job =>
    right; left
    exact QueueStore.mem_inflight_hset.mpr (Or.inl (Option.some.inj h).symm)
  | requeueRpush job =>
    left
    rw [after, QueueOp.command, QueueStore.pendingIds_rpush]
    exact List.mem_append_right _ (List.mem_singleton.mpr (Option.some.inj h).symm)
  | _ => cases h

/-- The steps that issue no command of a running coroutine take no job out of the
hands of a coroutine, unless they stop it inside its gap. -/
theorem held_of_step_other {s s' : QueueRun} {l : CrashLabel} {j : Uuid}
    (h : s.step l = some s') (hl : ∀ i now, l ≠ .command i now) (hcut : s.CutsNoGap l)
    (hj : s.Held j) : s'.Held j := by
  obtain ⟨op, hop, hholds⟩ := hj
  have hrunning := proc_of_mem_ops hop
  cases step_cases h with
  | commands i now => exact absurd rfl (hl i now)
  | calls c ops hproc =>
    rw [ops_of_running hproc] at hop
    exact ⟨op, List.mem_append_left _ hop, hholds⟩
  | raises i ops op' hproc hop' =>
    rw [CutsNoGap, ops_of_running hproc] at hcut
    rw [ops_of_running hproc] at hop
    rcases mem_advance hop' hop none with rfl | hrest
    · exact absurd hholds (by rw [hcut op hop']; simp)
    · exact ⟨op, hrest, hholds⟩
  | crashes => exact absurd hholds (by rw [hcut op hop]; simp)
  | expires => exact ⟨op, hop, hholds⟩
  | reclaimRaises hproc => exact absurd hrunning (hproc _)
  | starts hproc | startsInMemory hproc | hgetall hproc | rpush _ _ hproc | hdel _ _ hproc =>
    exact nomatch hproc.symm.trans hrunning

theorem step_storedOrHeld {s s' : QueueRun} {l : CrashLabel} (hr : s.ReclaimPushed)
    (hs : s.StoredOrHeld) (hcut : s.CutsNoGap l) (h : s.step l = some s') : s'.StoredOrHeld := by
  intro j hj
  by_cases hl : ∃ i now, l = .command i now
  · obtain ⟨i, now, rfl⟩ := hl
    obtain ⟨op, hop, rfl⟩ := step_command h
    rcases List.mem_append.mp hj with hold | hnew
    · by_cases htakes : op.takes s.redis = some j
      · -- the job passes into the hands of the coroutine
        obtain ⟨op', hnext, hholds⟩ := holds_of_takes htakes now
        refine Or.inr ⟨op', ?_, hholds⟩
        rw [hnext]
        exact mem_advance_self hop
      · rcases hs j hold with hstored | ⟨op', hmem, hholds⟩
        · exact Or.inl (stored_after hstored htakes now _)
        · rcases mem_advance hop hmem (op.command now s.redis).2 with rfl | hrest
          · exact Or.inl (stored_of_holds hholds now _)
          · exact Or.inr ⟨op', hrest, hholds⟩
    · exact Or.inl (stored_of_accepts hnew now _)
  · have hl' : ∀ i now, l ≠ .command i now := fun i now heq => hl ⟨i, now, heq⟩
    obtain ⟨hacc, hkeep, -⟩ := step_other hr h hl'
    rcases hs j (hacc ▸ hj) with hstored | hheld
    · exact Or.inl (hkeep j hstored)
    · exact Or.inr (held_of_step_other h hl' hcut hheld)

/-- **The cost of a gap.**  As long as no coroutine is stopped between its two
commands, every accepted job is stored or in the hands of a coroutine. -/
theorem storedOrHeld_of_cutsNoGap {ls : List CrashLabel}
    (hcut : Machine.Meets step (fun s l _ => s.CutsNoGap l) init ls) :
    Machine.Visits step StoredOrHeld init ls := by
  refine (Machine.visits_of_meets (I := fun s => s.ReclaimPushed ∧ s.StoredOrHeld) ?_ ?_
    hcut).mono fun _ h => h.2
  · rintro s l s' ⟨hr, hs⟩ hcut h
    exact ⟨step_reclaimPushed hr h, step_storedOrHeld hr hs hcut h⟩
  · constructor
    · intro job rest hproc
      cases hproc
    · intro j hj
      cases hj

/-- **When accepted jobs are kept.**  They are stored at every point of a run iff no
BLPOP and no HDEL of `requeue` takes the last stored copy of an unfinished job, and
a run that stops no coroutine between such a command and the next one has every
accepted job stored or in the hands of a running coroutine. -/
theorem accepted_jobs_kept (ls : List CrashLabel) :
    (Machine.Visits step NoLoss init ls ↔
        Machine.Meets step (fun s l _ => ¬ s.TakesLast l) init ls) ∧
      (Machine.Meets step (fun s l _ => s.CutsNoGap l) init ls →
        Machine.Visits step StoredOrHeld init ls) :=
  ⟨noLoss_iff_takesLast ls, storedOrHeld_of_cutsNoGap⟩

/-- Job 7 is accepted, popped, and lost by a crash before HSET: after the restart
and its `reclaim_inflight` it is nowhere in Redis. -/
theorem popped_job_lost :
    ∃ s, Machine.exec step init
        [.start, .reclaim, .call (.enqueue 7 "c1" "sha256:1" "nginx"), .command 0 0, .command 0 0,
          .call .dequeue, .command 0 1, .crash, .start, .reclaim] = some s ∧
      s.accepted = [7] ∧ ¬ s.NoLoss ∧ s.ops = [] := by
  refine ⟨_, rfl, rfl, ?_, rfl⟩
  decide

end QueueRun
end Rcsce
