import Rcsce.Scheduler.JobRequest

/-!
# Several schedulers on one Redis

The job queue is advertised as shared across several scheduler processes.  A *fleet* is
any number of them on one Redis: each of them starts at some time, runs `create_queue`,
hence `reclaim_inflight`, and is then the process of `SchedulerState`.  Their Redis
commands interleave in any order, and no process crashes.  The `uuid4` counter is shared
as well, since no two processes draw the same value.

## What start-up recovery cannot know

The inflight hash does not say which process an entry belongs to, and `reclaim_inflight`
takes every entry for one that a crash has left behind.  `FindsOrphans` is the condition
under which this is right: no job that a starting process finds at its HGETALL is pending,
or with a live process, or on the list of another process that is starting.

* `no_shared_job` is the invariant over the runs whose steps all satisfy it.  The tokens of
  `Tokens`, now of all processes together, stay distinct, so no job is with two
  processes, and no RPUSH of a `reclaim_inflight` is of a job that a live process has.
* `second_start_steals` is the run in which a second process starts while the first one is
  scanning: it requeues the job, takes it, and both scan it.

A process whose `reclaim_inflight` raises falls back to a queue in its own memory.  It
shares nothing with the others from then on, and the model follows it no further.
-/

namespace Rcsce

/-- A scheduler process of the fleet. -/
inductive SchedulersProc where
  /-- In `reclaim_inflight`, before HGETALL. -/
  | reclaimHgetall
  /-- In `reclaim_inflight`, before the RPUSH of a job; `rest` is still to do. -/
  | reclaimRpush (job : Job) (rest : List Job)
  /-- In `reclaim_inflight`, before the HDEL of a job. -/
  | reclaimHdel (job : Job) (rest : List Job)
  /-- `create_queue` is about to return. -/
  | reclaimed
  | running (s : SchedulerState)
  /-- On the in-memory queue that `create_queue` falls back to. -/
  | inMemory

/-- The scheduler processes, in the order in which they started, their Redis and the next
value of `uuid.uuid4()`. -/
structure Schedulers where
  redis : QueueStore
  nextUuid : Uuid
  procs : List SchedulersProc

/-- What can happen next. -/
inductive SchedulersLabel where
  /-- One more process starts and reaches Redis. -/
  | start
  /-- The process at this index takes its next step in `create_queue`; a Redis command raises
  if not `ok`. -/
  | reclaim (i : ℕ) (ok : Bool)
  /-- `create_queue` returns and `start(n)` goes on. -/
  | boot (i n : ℕ) (now : Time)
  /-- The process at this index takes a step. -/
  | proc (i : ℕ) (l : SchedulerLabel)

/-- The loop of `reclaim_inflight` takes up its next job. -/
def SchedulersProc.reclaim : List Job → SchedulersProc
  | [] => .reclaimed
  | job :: rest => .reclaimRpush job rest

namespace WorkerPool

/-- Other processes have drawn up to this value. -/
def skipTo (p : WorkerPool) (nextUuid : Uuid) : WorkerPool :=
  { p with
    nextUuid := max p.nextUuid nextUuid
    fresh := fun w hw => (p.fresh w hw).trans_le (le_max_left _ _) }

end WorkerPool

/-- The process with the shared Redis and the shared counter as they are now. -/
def SchedulerState.attach (s : SchedulerState) (redis : QueueStore) (nextUuid : Uuid) :
    SchedulerState :=
  { s with queue := .redis redis, pool := s.pool.skipTo nextUuid }

namespace Schedulers

/-- One step of `create_queue`, from the PING that it has already made. -/
def reclaimStep (f : Schedulers) (i : ℕ) : SchedulersProc → Option Schedulers
  | .reclaimHgetall => some { f with procs := f.procs.set i (.reclaim f.redis.hgetall) }
  | .reclaimRpush job rest => some { f with
      redis := f.redis.rpush job.reset
      procs := f.procs.set i (.reclaimHdel job rest) }
  | .reclaimHdel job rest =>
      some { f with redis := f.redis.hdel job.jobId, procs := f.procs.set i (.reclaim rest) }
  | _ => none

/-- One step. -/
def step (f : Schedulers) : SchedulersLabel → Option Schedulers
  | .start => some { f with procs := f.procs ++ [.reclaimHgetall] }
  | .reclaim i ok =>
      match f.procs[i]? with
      | none => none
      | some p =>
        if ok then f.reclaimStep i p
        else (f.reclaimStep i p).map fun _ => { f with procs := f.procs.set i .inMemory }
  | .boot i n now =>
      match f.procs[i]? with
      | some .reclaimed =>
          let s : SchedulerState := .boot n (.redis f.redis) f.nextUuid now
          some { f with nextUuid := s.pool.nextUuid, procs := f.procs.set i (.running s) }
      | _ => none
  | .proc i l =>
      match f.procs[i]? with
      | some (.running s) =>
          ((s.attach f.redis f.nextUuid).step l).bind fun s' => s'.queue.redis?.map fun q =>
            ⟨q, s'.pool.nextUuid, f.procs.set i (.running s')⟩
      | _ => none

/-! ## The property and the condition -/

/-- The ids of some jobs, as tokens. -/
def ids (jobs : List Job) : Multiset Uuid := (jobs.map Job.jobId : List Uuid)

end Schedulers

namespace SchedulersProc

/-- The jobs that the process is executing: with its dispatcher since BLPOP, or with a
`_run_job` that has neither completed it nor put it back. -/
def executing : SchedulersProc → Multiset Uuid
  | .running s => s.held + s.running
  | _ => 0

/-- The jobs that `reclaim_inflight` has still to requeue. -/
def listed : SchedulersProc → Multiset Uuid
  | .reclaimRpush job rest => Schedulers.ids (job :: rest)
  | .reclaimHdel _ rest => Schedulers.ids rest
  | _ => 0

/-- The tokens of the process. -/
def tokens (p : SchedulersProc) : Multiset Uuid := p.executing + p.listed

end SchedulersProc

namespace Schedulers

/-- The tokens in the hands of the processes. -/
def inHands (f : Schedulers) : Multiset Uuid := (f.procs.map SchedulersProc.tokens).sum

/-- All tokens: what is pending, and what the processes have. -/
def tokens (f : Schedulers) : Multiset Uuid := (f.redis.pendingIds : Multiset Uuid) + f.inHands

/-- No two processes are executing the same job. -/
def NoSharedJob (f : Schedulers) : Prop :=
  ∀ (i j : ℕ) (p p' : SchedulersProc), i ≠ j → f.procs[i]? = some p → f.procs[j]? = some p' →
    Disjoint p.executing p'.executing

/-- If the step is the RPUSH of a `reclaim_inflight`, no process is executing the job. -/
def RequeuesOrphans (f : Schedulers) (l : SchedulersLabel) (_ : Schedulers) : Prop :=
  ∀ i job rest, l = .reclaim i true → f.procs[i]? = some (.reclaimRpush job rest) →
    ∀ p ∈ f.procs, job.jobId ∉ p.executing

/-- If the step is the HGETALL of a `reclaim_inflight`, no job that it finds is pending, or
with a live process, or on the list of another process that is starting. -/
def FindsOrphans (f : Schedulers) (l : SchedulersLabel) (_ : Schedulers) : Prop :=
  ∀ i, l = .reclaim i true → f.procs[i]? = some .reclaimHgetall →
    ∀ j ∈ f.redis.inflight, j ∉ f.tokens

/-! ## What a step can do -/

/-- What a step of `create_queue` can do to Redis, and where the process is afterwards. -/
inductive ReclaimMove (f : Schedulers) :
    Bool → SchedulersProc → QueueStore → SchedulersProc → Prop
  | hgetall : ReclaimMove f true .reclaimHgetall f.redis (.reclaim f.redis.hgetall)
  | rpush (job : Job) (rest : List Job) :
      ReclaimMove f true (.reclaimRpush job rest) (f.redis.rpush job.reset)
        (.reclaimHdel job rest)
  | hdel (job : Job) (rest : List Job) :
      ReclaimMove f true (.reclaimHdel job rest) (f.redis.hdel job.jobId) (.reclaim rest)
  /-- A Redis command raises. -/
  | raises (p : SchedulersProc) : ReclaimMove f false p f.redis .inMemory

/-- What a step can do. -/
inductive Move (f : Schedulers) : SchedulersLabel → Schedulers → Prop
  | starts : Move f .start { f with procs := f.procs ++ [.reclaimHgetall] }
  | reclaims (i : ℕ) (ok : Bool) (p p' : SchedulersProc) (q : QueueStore)
      (hp : f.procs[i]? = some p) (hmove : f.ReclaimMove ok p q p') :
      Move f (.reclaim i ok) { f with redis := q, procs := f.procs.set i p' }
  | boots (i n : ℕ) (now : Time) (s : SchedulerState) (hp : f.procs[i]? = some .reclaimed)
      (hs : s = .boot n (.redis f.redis) f.nextUuid now) :
      Move f (.boot i n now)
        { f with nextUuid := s.pool.nextUuid, procs := f.procs.set i (.running s) }
  | steps (i : ℕ) (l : SchedulerLabel) (s s' : SchedulerState) (q : QueueStore)
      (hp : f.procs[i]? = some (.running s))
      (hstep : (s.attach f.redis f.nextUuid).step l = some s') (hq : s'.queue = .redis q) :
      Move f (.proc i l) ⟨q, s'.pool.nextUuid, f.procs.set i (.running s')⟩

theorem reclaimStep_cases {f f' : Schedulers} {i : ℕ} {p : SchedulersProc}
    (h : f.reclaimStep i p = some f') :
    ∃ p' q, f.ReclaimMove true p q p' ∧ f' = { f with redis := q, procs := f.procs.set i p' } := by
  rw [reclaimStep.eq_def] at h
  split at h
  · cases h
    exact ⟨_, _, .hgetall, rfl⟩
  · rename_i job rest
    cases h
    exact ⟨_, _, .rpush job rest, rfl⟩
  · rename_i job rest
    cases h
    exact ⟨_, _, .hdel job rest, rfl⟩
  · cases h

theorem step_cases {f f' : Schedulers} {l : SchedulersLabel} (h : f.step l = some f') :
    f.Move l f' := by
  cases l with
  | start =>
    cases h
    exact .starts
  | reclaim i ok =>
    rw [step] at h
    split at h
    · cases h
    · rename_i p hp
      split_ifs at h with hok
      · obtain ⟨p', q, hmove, rfl⟩ := reclaimStep_cases h
        exact hok ▸ .reclaims i true p p' q hp hmove
      · obtain ⟨g, -, rfl⟩ := Option.map_eq_some_iff.mp h
        rw [Bool.not_eq_true] at hok
        exact hok ▸ .reclaims i false p .inMemory f.redis hp (.raises p)
  | boot i n now =>
    rw [step] at h
    split at h
    · rename_i hp
      cases h
      exact .boots i n now _ hp rfl
    · cases h
  | proc i l =>
    rw [step] at h
    split at h
    · rename_i s hp
      obtain ⟨s', hstep, hmap⟩ := Option.bind_eq_some_iff.mp h
      obtain ⟨q, hq, rfl⟩ := JobQueue.map_redis?_eq_some.mp hmap
      exact .steps i l s s' q hp hstep hq
    · cases h

/-! ## The tokens of the fleet -/

/-- The tokens of the other processes. -/
def others (f : Schedulers) (i : ℕ) : Multiset Uuid :=
  ((f.procs.eraseIdx i).map SchedulersProc.tokens).sum

theorem inHands_eq_add_others {f : Schedulers} {i : ℕ} {p : SchedulersProc}
    (hp : f.procs[i]? = some p) : f.inHands = p.tokens + f.others i :=
  sum_map_eq_add_eraseIdx SchedulersProc.tokens hp

/-- The tokens after a step of the process at `i`. -/
theorem tokens_set {f : Schedulers} {i : ℕ} {p : SchedulersProc} (hp : f.procs[i]? = some p)
    (q : QueueStore) (nextUuid : Uuid) (p' : SchedulersProc) :
    (⟨q, nextUuid, f.procs.set i p'⟩ : Schedulers).tokens =
      (q.pendingIds : Multiset Uuid) + p'.tokens + f.others i := by
  rw [tokens, inHands, add_assoc]
  exact congrArg _ (sum_map_advance SchedulersProc.tokens hp (some p'))

theorem tokens_eq {f : Schedulers} {i : ℕ} {p : SchedulersProc} (hp : f.procs[i]? = some p) :
    f.tokens = (f.redis.pendingIds : Multiset Uuid) + p.tokens + f.others i := by
  rw [tokens, inHands_eq_add_others hp, add_assoc]

theorem ids_cons (job : Job) (rest : List Job) : ids (job :: rest) = {job.jobId} + ids rest :=
  SchedulerState.coe_cons_eq_add job.jobId (rest.map Job.jobId)

theorem tokens_reclaim (jobs : List Job) : (SchedulersProc.reclaim jobs).tokens = ids jobs := by
  rw [SchedulersProc.tokens]
  cases jobs with
  | nil => rfl
  | cons job rest => exact zero_add _

end Schedulers

namespace SchedulerState

/-- The tokens that are not completed. -/
def work (s : SchedulerState) : Multiset Uuid :=
  (s.queue.pendingIds : Multiset Uuid) + s.held + s.running

theorem tokens_eq_work (s : SchedulerState) :
    s.tokens = (s.completions : Multiset Uuid) + s.work := by
  rw [tokens, work]
  abel

/-- No completion is taken back. -/
theorem completions_le {s s' : SchedulerState} {l : SchedulerLabel} (h : s.step l = some s') :
    (s.completions : Multiset Uuid) ≤ (s'.completions : Multiset Uuid) := by
  by_cases hl : ∃ i e, l = .run i e
  · obtain ⟨i, e, rfl⟩ := hl
    obtain ⟨run, t, next, -, hmove, rfl⟩ := step_run h
    cases hmove with
    | completes | completesInMemory =>
      rw [coe_concat_eq_add]
      exact Multiset.le_add_right _ _
    | _ => exact le_rfl
  · rw [(step_tasks h fun i e heq => hl ⟨i, e, heq⟩).1]

/-- Work is only made by `enqueue`, unless a dead worker's job is reclaimed. -/
theorem step_work {s s' : SchedulerState} {l : SchedulerLabel} (h : s.step l = some s')
    (hr : s.reclaimed l = []) :
    s'.work ≤ s.work ∨
      s'.work ≤ s.pool.nextUuid ::ₘ s.work ∧ s'.pool.nextUuid = s.pool.nextUuid + 1 := by
  have hle := completions_le h
  rcases step_tokens h hr with htokens | ⟨htokens, hnext, -⟩
  · left
    rw [tokens_eq_work, tokens_eq_work] at htokens
    exact le_of_add_le_add_left ((add_le_add hle le_rfl).trans htokens)
  · right
    refine ⟨?_, hnext⟩
    rw [tokens_eq_work, tokens_eq_work, ← Multiset.singleton_add, add_left_comm,
      Multiset.singleton_add] at htokens
    exact le_of_add_le_add_left ((add_le_add hle le_rfl).trans htokens.le)

/-- What a process knows by itself, without the queue, about its jobs: they have been drawn,
and those that it may put back carry no `worker_id`. -/
structure Detached (s : SchedulerState) (nextUuid : Uuid) : Prop where
  held : ∀ job, s.unassignedJob = some job → job.workerId = none
  idle : ∀ r, s.Recovering r → r.stage.jobs = []
  dispatch : ∀ job, s.dispatch.job? = some job → job.jobId < nextUuid
  runs : ∀ run ∈ s.runs, run.job.jobId < nextUuid

/-- The job has been drawn. -/
def Drawn (nextUuid : Uuid) (job : Job) : Prop := job.jobId < nextUuid

theorem drawn_aboutRequest (nextUuid : Uuid) : Job.AboutRequest (Drawn nextUuid) := by
  intro job job' heq hjob
  have hid : job'.jobId = job.jobId := congrArg Prod.fst heq
  rw [Drawn, hid]
  exact hjob

theorem Detached.mono {s : SchedulerState} {n n' : Uuid} (h : s.Detached n) (hle : n ≤ n') :
    s.Detached n' :=
  ⟨h.held, h.idle, fun job hjob => (h.dispatch job hjob).trans_le hle,
    fun run hrun => (h.runs run hrun).trans_le hle⟩

theorem Detached.allJobs {s : SchedulerState} {n : Uuid} (h : s.Detached n) {q : QueueStore}
    (hq : (JobQueue.redis q).AllJobs (Drawn n)) : (s.attach q n).AllJobs (Drawn n) := by
  refine ⟨hq, h.dispatch, h.runs, fun r hr job hjob => ?_⟩
  rw [h.idle r hr] at hjob
  exact absurd hjob List.not_mem_nil

theorem Detached.unassignedOnRedis {s : SchedulerState} {n : Uuid} (h : s.Detached n)
    {q : QueueStore} (hq : q.Unassigned) : (s.attach q n).UnassignedOnRedis :=
  ⟨⟨q, rfl, hq⟩, h.held, h.idle⟩

theorem detached_of_step {s : SchedulerState} {n : Uuid} (hun : s.UnassignedOnRedis)
    (hall : s.AllJobs (Drawn n)) : s.Detached n :=
  ⟨hun.held, hun.idle, hall.dispatch, hall.runs⟩

theorem detached_boot (n : ℕ) (queue : JobQueue) (nextUuid : Uuid) (now : Time) (m : Uuid) :
    (boot n queue nextUuid now).Detached m := by
  refine ⟨nofun, fun r hr => ?_, nofun, fun run hrun => absurd hrun List.not_mem_nil⟩
  rcases hr with ⟨_, _, hmon⟩ | hmem
  · cases hmon
  · exact absurd hmem List.not_mem_nil

end SchedulerState

namespace Schedulers

/-! ## The invariant -/

/-- No job is in two places, every id in use has been drawn, and no stored text carries a
`worker_id`. -/
structure Orderly (f : Schedulers) : Prop where
  once : f.tokens.Nodup
  drawn : ∀ i ∈ f.tokens, i < f.nextUuid
  stored : (JobQueue.redis f.redis).AllJobs (SchedulerState.Drawn f.nextUuid)
  unassigned : f.redis.Unassigned
  procs : ∀ s, SchedulersProc.running s ∈ f.procs → s.Detached f.nextUuid

/-- A step of one process that makes no token, or the one that it draws. -/
theorem Orderly.of_tokens {f : Schedulers} (hf : f.Orderly) {t : Multiset Uuid} {n : Uuid}
    (hmono : f.nextUuid ≤ n)
    (h : t ≤ f.tokens ∨ ∃ i, f.nextUuid ≤ i ∧ i < n ∧ t ≤ i ::ₘ f.tokens) :
    t.Nodup ∧ ∀ i ∈ t, i < n := by
  rcases h with hle | ⟨i, hnew, hlt, hle⟩
  · exact ⟨Multiset.nodup_of_le hle hf.once, fun i hi =>
      (hf.drawn i (Multiset.mem_of_le hle hi)).trans_le hmono⟩
  · constructor
    · refine Multiset.nodup_of_le hle (Multiset.nodup_cons.mpr ⟨fun hmem => ?_, hf.once⟩)
      exact absurd (hf.drawn i hmem) (not_lt_of_ge hnew)
    · intro j hj
      rcases Multiset.mem_cons.mp (Multiset.mem_of_le hle hj) with rfl | hold
      · exact hlt
      · exact (hf.drawn j hold).trans_le hmono

/-- The processes after one of them has taken a step. -/
theorem Orderly.procs_set {f : Schedulers} (hf : f.Orderly) {i : ℕ} {p p' : SchedulersProc}
    {n : Uuid} (hp : f.procs[i]? = some p) (hle : f.nextUuid ≤ n)
    (h : ∀ s, p' = .running s → s.Detached n) :
    ∀ s, SchedulersProc.running s ∈ f.procs.set i p' → s.Detached n := by
  intro s hs
  have hs' : SchedulersProc.running s ∈ advance f.procs i (some p') := hs
  rcases mem_of_mem_advance hp hs' with hnew | hold
  · exact h s (Option.some.inj hnew)
  · exact (hf.procs s hold).mono hle

/-- The jobs that HGETALL finds have distinct ids, the keys of the hash. -/
theorem ids_hgetall (q : QueueStore) : ids q.hgetall = (q.inflight.keys : Multiset Uuid) := by
  rw [ids, QueueStore.hgetall, OrderedDict.values, OrderedDict.keys, List.map_map]
  refine congrArg _ (List.map_congr_left fun e he => ?_)
  exact q.keyed e.1 e.2 (OrderedDict.get?_eq_some_iff.mpr he)

/-- **The step of a starting process.** -/
theorem reclaim_orderly {f : Schedulers} (hf : f.Orderly) {i : ℕ} {ok : Bool}
    {p p' : SchedulersProc} {q : QueueStore} (hp : f.procs[i]? = some p)
    (hmove : f.ReclaimMove ok p q p')
    (hC : f.FindsOrphans (.reclaim i ok) { f with redis := q, procs := f.procs.set i p' }) :
    Orderly { f with redis := q, procs := f.procs.set i p' } := by
  have hprocs : (∀ s, p' ≠ .running s) →
      ∀ s, SchedulersProc.running s ∈ f.procs.set i p' → s.Detached f.nextUuid :=
    fun hne => hf.procs_set hp le_rfl fun s heq => absurd heq (hne s)
  have hreclaim : ∀ jobs s, SchedulersProc.reclaim jobs ≠ .running s := by
    intro jobs s
    cases jobs <;> exact nofun
  have htokens := tokens_set hp q f.nextUuid p'
  have hbefore := tokens_eq hp
  cases hmove with
  | hgetall =>
    have hadd : Schedulers.tokens { f with procs := f.procs.set i (.reclaim f.redis.hgetall) } =
        f.tokens + f.redis.inflight.keys := by
      refine htokens.trans ?_
      rw [hbefore, tokens_reclaim, ids_hgetall]
      show _ = (f.redis.pendingIds : Multiset Uuid) + (0 + 0) + f.others i + _
      abel
    refine ⟨?_, fun j hj => ?_, hf.stored, hf.unassigned, hprocs (hreclaim _)⟩
    · rw [hadd, Multiset.nodup_add]
      refine ⟨hf.once, Multiset.coe_nodup.mpr f.redis.inflight.nodup_keys, ?_⟩
      exact Multiset.disjoint_left.mpr fun {j} hj hmem =>
        hC i rfl hp j (Multiset.mem_coe.mp hmem) hj
    · rw [hadd, Multiset.mem_add] at hj
      rcases hj with hold | hmem
      · exact hf.drawn j hold
      · obtain ⟨job, hjob⟩ := OrderedDict.mem_iff_get?.mp (Multiset.mem_coe.mp hmem)
        have hlt := hf.stored.inFlight j job hjob
        rwa [SchedulerState.Drawn, f.redis.keyed j job hjob] at hlt
  | rpush job rest =>
    have hsame : Schedulers.tokens
        ⟨f.redis.rpush job.reset, f.nextUuid, f.procs.set i (.reclaimHdel job rest)⟩ =
        f.tokens := by
      refine htokens.trans ?_
      rw [hbefore, QueueStore.pendingIds_rpush, SchedulerState.coe_concat_eq_add]
      show _ + (0 + ids rest) + _ = _ + (0 + ids (job :: rest)) + _
      rw [ids_cons, Job.jobId_reset]
      abel
    have hmem : job.jobId ∈ f.tokens := by
      rw [hbefore, SchedulersProc.tokens, SchedulersProc.listed, ids_cons]
      simp
    obtain ⟨honce, hdrawn⟩ := hf.of_tokens le_rfl (Or.inl hsame.le)
    exact ⟨honce, hdrawn, hf.stored.rpush (hf.drawn _ hmem), hf.unassigned.rpush rfl,
      hprocs fun s heq => nomatch heq⟩
  | hdel job rest =>
    have hsame : Schedulers.tokens
        ⟨f.redis.hdel job.jobId, f.nextUuid, f.procs.set i (.reclaim rest)⟩ = f.tokens := by
      refine htokens.trans ?_
      rw [hbefore, tokens_reclaim, QueueStore.pendingIds_hdel]
      show _ = _ + (0 + ids rest) + _
      rw [zero_add]
    obtain ⟨honce, hdrawn⟩ := hf.of_tokens le_rfl (Or.inl hsame.le)
    exact ⟨honce, hdrawn, hf.stored.hdel _, hf.unassigned.hdel _, hprocs (hreclaim _)⟩
  | raises =>
    have hle : Schedulers.tokens ⟨f.redis, f.nextUuid, f.procs.set i .inMemory⟩ ≤ f.tokens := by
      refine htokens.trans_le ?_
      rw [hbefore]
      gcongr
      exact Multiset.zero_le _
    obtain ⟨honce, hdrawn⟩ := hf.of_tokens le_rfl (Or.inl hle)
    exact ⟨honce, hdrawn, hf.stored, hf.unassigned, hprocs fun s heq => nomatch heq⟩

theorem work_of_redis {s : SchedulerState} {q : QueueStore} (hq : s.queue = .redis q) :
    s.work = (q.pendingIds : Multiset Uuid) + (SchedulersProc.running s).tokens := by
  rw [SchedulerState.work, hq]
  show (q.pendingIds : Multiset Uuid) + s.held + s.running = _ + (s.held + s.running + 0)
  abel

/-- **The step of a process.**  It finds the shared Redis, which carries no `worker_id`, so
its own recovery of dead workers puts nothing back. -/
theorem proc_orderly {f : Schedulers} (hf : f.Orderly) {i : ℕ} {l : SchedulerLabel}
    {s s' : SchedulerState} {q : QueueStore} (hp : f.procs[i]? = some (.running s))
    (hstep : (s.attach f.redis f.nextUuid).step l = some s') (hq : s'.queue = .redis q) :
    Orderly ⟨q, s'.pool.nextUuid, f.procs.set i (.running s')⟩ := by
  have hlocal := hf.procs s (List.mem_of_getElem? hp)
  have hun := hlocal.unassignedOnRedis hf.unassigned
  have hun' := SchedulerState.step_unassigned hun hstep
  have hmono : f.nextUuid ≤ s'.pool.nextUuid :=
    (le_max_right _ _).trans (SchedulerState.step_nextUuid_le hstep)
  have hall' : s'.AllJobs (SchedulerState.Drawn s'.pool.nextUuid) := by
    have hall := (hlocal.allJobs hf.stored).mono fun job hjob => lt_of_lt_of_le hjob hmono
    refine SchedulerState.step_allJobs (SchedulerState.drawn_aboutRequest _) hall ?_ hstep
    rintro c im n rfl
    cases hstep
    exact Nat.lt_succ_self _
  have hbefore : f.tokens = (s.attach f.redis f.nextUuid).work + f.others i :=
    (tokens_eq hp).trans
      (congrArg (· + f.others i) (work_of_redis (s := s.attach f.redis f.nextUuid) rfl).symm)
  have hafter : Schedulers.tokens ⟨q, s'.pool.nextUuid, f.procs.set i (.running s')⟩ =
      s'.work + f.others i := by
    rw [tokens_set hp, work_of_redis hq]
  have htokens : s'.work + f.others i ≤ f.tokens ∨ ∃ j, f.nextUuid ≤ j ∧ j < s'.pool.nextUuid ∧
      s'.work + f.others i ≤ j ::ₘ f.tokens := by
    rw [hbefore]
    rcases SchedulerState.step_work hstep (SchedulerState.reclaimed_of_unassigned hun l) with
      hle | ⟨hle, hnext⟩
    · exact Or.inl (by gcongr)
    · refine Or.inr ⟨_, le_max_right s.pool.nextUuid _, ?_, ?_⟩
      · rw [hnext]
        exact Nat.lt_succ_self _
      · rw [← Multiset.cons_add]
        gcongr
        exact hle
  obtain ⟨honce, hdrawn⟩ := hf.of_tokens hmono htokens
  rw [← hafter] at honce hdrawn
  refine ⟨honce, hdrawn, hall'.of_queue hq, hun'.of_queue hq, hf.procs_set hp hmono ?_⟩
  rintro t heq
  cases heq
  exact SchedulerState.detached_of_step hun' hall'

/-- **No step of the fleet brings a job to two places**, if a starting process finds orphans
only. -/
theorem step_orderly (f : Schedulers) (l : SchedulersLabel) (f' : Schedulers) (hf : f.Orderly)
    (hC : f.FindsOrphans l f') (h : f.step l = some f') : f'.Orderly := by
  cases step_cases h with
  | starts =>
    have hsame : Schedulers.tokens { f with procs := f.procs ++ [.reclaimHgetall] } = f.tokens := by
      rw [tokens, tokens, inHands, inHands, List.map_append, List.sum_append]
      exact congrArg _ (add_zero _)
    refine ⟨hsame ▸ hf.once, hsame ▸ hf.drawn, hf.stored, hf.unassigned, fun s hs => ?_⟩
    rcases List.mem_append.mp hs with hold | hnew
    · exact hf.procs s hold
    · cases List.mem_singleton.mp hnew
  | reclaims i ok p p' q hp hmove => exact reclaim_orderly hf hp hmove hC
  | boots i n now s hp hs =>
    have hmono : f.nextUuid ≤ s.pool.nextUuid := hs ▸ SchedulerState.nextUuid_le_boot n _ _ now
    have hsame : Schedulers.tokens ⟨f.redis, s.pool.nextUuid, f.procs.set i (.running s)⟩ =
        f.tokens := by
      rw [tokens_set hp, tokens_eq hp, hs]
      rfl
    obtain ⟨honce, hdrawn⟩ := hf.of_tokens hmono (Or.inl hsame.le)
    refine ⟨honce, hdrawn, hf.stored.mono fun job hjob => lt_of_lt_of_le hjob hmono,
      hf.unassigned, hf.procs_set hp hmono fun t heq => ?_⟩
    cases heq
    rw [hs]
    exact SchedulerState.detached_boot n _ _ now _
  | steps i l s s' q hp hstep hq => exact proc_orderly hf hp hstep hq

/-! ## From the invariant to the property -/

/-- What a process has, no other process has. -/
theorem Orderly.disjoint_tokens {f : Schedulers} (hf : f.Orderly) {i j : ℕ} {p p' : SchedulersProc}
    (hij : i ≠ j) (hp : f.procs[i]? = some p) (hp' : f.procs[j]? = some p') :
    Disjoint p.tokens p'.tokens := by
  have honce := hf.once
  rw [tokens_eq hp, Multiset.nodup_add, Multiset.disjoint_add_left] at honce
  obtain ⟨-, -, -, hdisj⟩ := honce
  have hmem : p' ∈ f.procs.eraseIdx i := List.mem_eraseIdx_iff_getElem?.mpr ⟨j, hij.symm, hp'⟩
  have hle : p'.tokens ≤ f.others i := List.le_sum_of_mem (List.mem_map_of_mem hmem)
  exact hdisj.mono_right hle

theorem Orderly.noSharedJob {f : Schedulers} (hf : f.Orderly) : f.NoSharedJob := by
  intro i j p p' hij hp hp'
  exact (hf.disjoint_tokens hij hp hp').mono (Multiset.le_add_right _ _)
    (Multiset.le_add_right _ _)

theorem Orderly.requeuesOrphans {f : Schedulers} (hf : f.Orderly) (l : SchedulersLabel)
    (f' : Schedulers) : f.RequeuesOrphans l f' := by
  intro i job rest _ hi p hp hmem
  obtain ⟨j, hj⟩ := List.mem_iff_getElem?.mp hp
  by_cases hij : i = j
  · rw [← hij, hi] at hj
    cases hj
    exact absurd hmem (Multiset.notMem_zero _)
  · have hlisted : job.jobId ∈ (SchedulersProc.reclaimRpush job rest).tokens := by
      rw [SchedulersProc.tokens, SchedulersProc.listed, ids_cons]
      simp
    exact Multiset.disjoint_left.mp (hf.disjoint_tokens hij hi hj) hlisted
      (Multiset.mem_add.mpr (Or.inl hmem))

end Schedulers

/-- A Redis that earlier schedulers have left behind: no job is pending twice, every id has
been drawn, and, as `dequeue` stores a job before it is assigned, none carries a
`worker_id`. -/
structure SchedulersStart where
  redis : QueueStore
  nextUuid : Uuid
  once : redis.pendingIds.Nodup
  drawn : (JobQueue.redis redis).AllJobs (SchedulerState.Drawn nextUuid)
  unassigned : redis.Unassigned

/-- An empty Redis. -/
def SchedulersStart.empty : SchedulersStart :=
  ⟨.empty, 0, List.nodup_nil, ⟨fun _ h => absurd h List.not_mem_nil, nofun⟩,
    ⟨fun _ h => absurd h List.not_mem_nil, nofun⟩⟩

namespace Schedulers

/-- No process has started. -/
def start (q : SchedulersStart) : Schedulers := ⟨q.redis, q.nextUuid, []⟩

theorem start_orderly (q : SchedulersStart) : (start q).Orderly := by
  have htokens : (start q).tokens = (q.redis.pendingIds : Multiset Uuid) := add_zero _
  refine ⟨htokens ▸ Multiset.coe_nodup.mpr q.once, fun i hi => ?_, q.drawn, q.unassigned,
    fun s hs => absurd hs List.not_mem_nil⟩
  rw [htokens, Multiset.mem_coe, QueueStore.pendingIds, List.mem_map] at hi
  obtain ⟨job, hjob, rfl⟩ := hi
  exact q.drawn.pending job hjob

/-- **A starting scheduler steals no running job, if it finds orphans only.**  In every run
of a fleet in which each HGETALL of a starting process finds no job that is pending, or with
a live process, or being reclaimed by another one, no two processes ever execute the same
job, and no `reclaim_inflight` requeues a job that a process is executing. -/
theorem no_shared_job (q : SchedulersStart) (ls : List SchedulersLabel)
    (h : Machine.Meets step FindsOrphans (start q) ls) :
    Machine.Visits step NoSharedJob (start q) ls ∧
      Machine.Meets step RequeuesOrphans (start q) ls := by
  constructor
  · exact (Machine.visits_of_meets step_orderly (start_orderly q) h).mono
      fun f hf => hf.noSharedJob
  · exact Machine.Meets.of_invariant step_orderly
      (fun f l f' hf _ _ => hf.requeuesOrphans l f') (start_orderly q) h

/-! ## Two runs -/

/-- The process at `i` dispatches the first pending job to its only worker. -/
def dispatchOne (i : ℕ) : List SchedulersLabel := List.replicate 5 (.proc i (.dispatch true))

/-- A process starts with one worker, accepts a job and dispatches it. -/
def firstProcess : List SchedulersLabel :=
  [.start, .reclaim 0 true, .boot 0 1 0, .proc 0 (.enqueue "c" "i" "n")] ++ dispatchOne 0

/-- It completes the job before a second process starts. -/
def startsAfterwards : List SchedulersLabel :=
  firstProcess ++ [.proc 0 (.run 0 (.returns .null)), .proc 0 (.run 0 (.goesOn true)),
    .proc 0 (.completeExec 0 true), .start, .reclaim 1 true, .boot 1 1 0]

theorem findsOrphans_of_empty {f f' : Schedulers} {l : SchedulersLabel}
    (h : f.redis.inflight = .empty) : f.FindsOrphans l f' := by
  intro i _ _ j hj
  rw [h] at hj
  exact absurd hj (OrderedDict.notMem_empty _)

/-- The step of a process that has started is under no condition. -/
theorem meets_proc {f f' : Schedulers} {i : ℕ} {l : SchedulerLabel} {ls : List SchedulersLabel}
    (hstep : f.step (.proc i l) = some f') (h : Machine.Meets step FindsOrphans f' ls) :
    Machine.Meets step FindsOrphans f (.proc i l :: ls) :=
  .cons_of_step hstep (fun _ heq => nomatch heq) h

theorem no_shared_job_afterwards :
    Machine.Visits step NoSharedJob (start .empty) startsAfterwards ∧
      Machine.Meets step RequeuesOrphans (start .empty) startsAfterwards := by
  refine no_shared_job .empty startsAfterwards ?_
  refine .cons_of_step (by with_unfolding_all rfl) (findsOrphans_of_empty rfl) ?_
  refine .cons_of_step (by with_unfolding_all rfl) (findsOrphans_of_empty rfl) ?_
  refine .cons_of_step (by with_unfolding_all rfl) (findsOrphans_of_empty rfl) ?_
  iterate 9 refine meets_proc (by with_unfolding_all rfl) ?_
  refine .cons_of_step (by with_unfolding_all rfl) (findsOrphans_of_empty rfl) ?_
  refine .cons_of_step (by with_unfolding_all rfl) (findsOrphans_of_empty rfl) ?_
  refine .cons_of_step (by with_unfolding_all rfl) (findsOrphans_of_empty rfl) ?_
  exact Machine.meets_nil

/-- A second process starts while the first one is scanning. -/
def startsDuringScan : List SchedulersLabel :=
  firstProcess ++ [.start, .reclaim 1 true, .reclaim 1 true, .reclaim 1 true, .boot 1 1 0] ++
    dispatchOne 1

/-- The process at `i` is scanning the job. -/
def Scans (f : Schedulers) (i : ℕ) (jobId : Uuid) : Prop :=
  ∃ s, f.procs[i]? = some (.running s) ∧
    ∃ run ∈ s.runs, run.stage = .scanning ∧ run.job.jobId = jobId

/-- A job that is being scanned is being executed. -/
theorem Scans.executing {f : Schedulers} {i : ℕ} {jobId : Uuid} (h : f.Scans i jobId) :
    ∃ p, f.procs[i]? = some p ∧ jobId ∈ p.executing := by
  obtain ⟨s, hs, run, hrun, hstage, rfl⟩ := h
  have htoken : run.token = {run.job.jobId} := by rw [RunTask.token, hstage]; rfl
  refine ⟨_, hs, Multiset.mem_add.mpr (Or.inr ?_)⟩
  have hle : run.token ≤ s.running := List.le_sum_of_mem (List.mem_map_of_mem hrun)
  exact Multiset.mem_of_le hle (htoken ▸ Multiset.mem_singleton_self _)

/-- Two processes that scan the same job share it. -/
theorem Scans.not_noSharedJob {f : Schedulers} {i j : ℕ} {jobId : Uuid} (hij : i ≠ j)
    (hi : f.Scans i jobId) (hj : f.Scans j jobId) : ¬ f.NoSharedJob := by
  intro h
  obtain ⟨p, hp, hmem⟩ := hi.executing
  obtain ⟨p', hp', hmem'⟩ := hj.executing
  exact Multiset.disjoint_left.mp (h i j p p' hij hp hp') hmem hmem'

/-- The starting process requeues the job that the first one is scanning, takes it, and
both scan it. -/
theorem second_start_steals :
    ¬ Machine.Meets step RequeuesOrphans (start .empty) startsDuringScan ∧
      ∃ f, Machine.exec step (start .empty) startsDuringScan = some f ∧ f.Scans 0 1 ∧
        f.Scans 1 1 ∧ ¬ f.NoSharedJob := by
  constructor
  · intro h
    have hpush := h (firstProcess ++ [.start, .reclaim 1 true]) (.reclaim 1 true)
      ⟨[.reclaim 1 true, .boot 1 1 0] ++ dispatchOne 1, rfl⟩
      _ _ (by with_unfolding_all rfl) (by with_unfolding_all rfl)
    refine hpush 1 _ _ rfl rfl _ List.mem_cons_self ?_
    decide
  · obtain ⟨f, hf, hfirst, hsecond⟩ :
        ∃ f, Machine.exec step (start .empty) startsDuringScan = some f ∧ f.Scans 0 1 ∧
          f.Scans 1 1 := by
      refine ⟨_, by with_unfolding_all rfl, ?_, ?_⟩
      · exact ⟨_, rfl, _, List.mem_cons_self, rfl, rfl⟩
      · exact ⟨_, rfl, _, List.mem_cons_self, rfl, rfl⟩
    exact ⟨f, hf, hfirst, hsecond, hfirst.not_noSharedJob (by decide) hsecond⟩

end Schedulers

end Rcsce
