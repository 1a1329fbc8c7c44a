import Rcsce.Scheduler.PoolMoves

/-!
# One token for each job

Follow a job through the process as a token: it is in the pending queue, or in the
hands of the dispatcher, or in a `_run_job` that has neither completed nor given it
back, or among the completions.  A step moves tokens, drops them when a Redis
command raises, and makes a new one only in `enqueue` (`step_tokens`).

There is one exception, and it is what the recovery of a dead worker does: it puts a
job back into the queue without taking it from the `_run_job` that has it.
`reclaimed` is the list of the jobs that a step requeues so.

A `_run_job` that is only reporting, or that has requeued its job on Redis and has
not yet returned, is unfinished but has no token.
-/

namespace Rcsce

/-- The task still has its job: it has neither completed it nor put it back. -/
def RunStage.live : RunStage → Bool
  | .reporting => false
  | .requeued => false
  | _ => true

namespace RunTask

/-- The token of the task. -/
def token (run : RunTask) : Multiset Uuid := if run.stage.live then {run.job.jobId} else 0

end RunTask

/-- A step about the workers.  It touches jobs only when it recovers a dead worker. -/
def SchedulerLabel.aboutWorkers : SchedulerLabel → Bool
  | .clock _ | .heartbeat _ | .monitor _ | .delete _ | .recover _ _ | .scale _ => true
  | _ => false

namespace SchedulerState

/-- The token in the hands of the dispatcher. -/
def held (s : SchedulerState) : Multiset Uuid :=
  match s.dispatch with
  | .popped _ job => {job.jobId}
  | .tracked _ job => {job.jobId}
  | .requeueHdel job => {job.jobId}
  | .requeueRpush job => {job.jobId}
  | .reporting _ job => {job.jobId}
  | _ => 0

/-- The tokens in the hands of the running tasks. -/
def running (s : SchedulerState) : Multiset Uuid := (s.runs.map RunTask.token).sum

/-- All tokens. -/
def tokens (s : SchedulerState) : Multiset Uuid :=
  (s.completions : Multiset Uuid) + ((s.queue.pendingIds : Multiset Uuid) + s.held) + s.running

/-- The handling of a dead worker that goes on in this step. -/
def handlerOf (s : SchedulerState) : SchedulerLabel → Option Recovery
  | .monitor _ =>
      match s.monitor with
      | .sleeping => none
      | .recovering r _ _ => some r
  | .recover i _ => s.deletes[i]?
  | _ => none

/-- The jobs that `_reclaim_jobs` puts back into the queue in the next step of this
handling. -/
def reclaimedBy (s : SchedulerState) (r : Recovery) : List Job :=
  match r.stage, s.queue with
  | .notifying, .inMemory q => q.jobsOf r.worker
  | .rpush job _, .redis _ => [job]
  | _, _ => []

/-- The jobs that `_reclaim_jobs` puts back into the queue in this step. -/
def reclaimed (s : SchedulerState) (l : SchedulerLabel) : List Job :=
  match s.handlerOf l with
  | none => []
  | some r => s.reclaimedBy r

/-! ## The dispatcher -/

theorem held_of_candidate {s : SchedulerState} {w : Uuid} (h : s.Candidate w) : s.held = 0 := by
  rcases h with ⟨hpc, -⟩ | hpc <;> rw [held, hpc]

/-- A list as a multiset, its head apart. -/
theorem coe_cons_eq_add (a : Uuid) (l : List Uuid) :
    ((a :: l : List Uuid) : Multiset Uuid) = {a} + (l : Multiset Uuid) := by
  rw [← Multiset.cons_coe, Multiset.singleton_add]

/-- A list as a multiset, its last element apart. -/
theorem coe_concat_eq_add (l : List Uuid) (a : Uuid) :
    ((l ++ [a] : List Uuid) : Multiset Uuid) = (l : Multiset Uuid) + {a} := by
  rw [← Multiset.coe_add, Multiset.coe_singleton]

theorem pendingIds_of_dequeue {q q' : InMemoryQueue} {job : Job}
    (h : q.dequeue = some (job, q')) : q.pendingIds = job.jobId :: q'.pendingIds := by
  rw [InMemoryQueue.pendingIds, (InMemoryQueue.dequeue_eq_some h).1, List.map_cons]
  rfl

/-- The token of the job that `dequeue` returned. -/
theorem tokens_of_takes {s : SchedulerState} {w : Uuid} {job : Job} {queue : JobQueue}
    (h : s.Takes w job queue) :
    (s.queue.pendingIds : Multiset Uuid) + s.held =
      (queue.pendingIds : Multiset Uuid) + {job.jobId} := by
  cases h with
  | redis q hq hpc => rw [hq, held, hpc]
  | inMemory q q' hq hpc htake =>
    rw [hq, held_of_candidate hpc, add_zero]
    show (q.pendingIds : Multiset Uuid) = (q'.pendingIds : Multiset Uuid) + _
    rw [pendingIds_of_dequeue htake, coe_cons_eq_add, add_comm]

/-- A step that touches only the queue and the dispatcher. -/
theorem tokens_le_of_waiting {s s' : SchedulerState} (hcomp : s'.completions = s.completions)
    (hruns : s'.runs = s.runs)
    (h : (s'.queue.pendingIds : Multiset Uuid) + s'.held ≤
      (s.queue.pendingIds : Multiset Uuid) + s.held) : s'.tokens ≤ s.tokens := by
  rw [tokens, tokens, running, running, hcomp, hruns]
  gcongr

/-- The dispatcher makes no token. -/
theorem dispatch_tokens {s s' : SchedulerState} (h : s.DispatchMove s') :
    s'.tokens ≤ s.tokens := by
  cases h with
  | idle => exact le_rfl
  | waits w hpc =>
    refine tokens_le_of_waiting rfl rfl (le_of_eq ?_)
    rw [held_of_candidate hpc]
    rfl
  | pops w q q' job hq hpc hpop =>
    refine tokens_le_of_waiting rfl rfl (le_of_eq ?_)
    have hids : q.pendingIds = job.jobId :: q'.pendingIds := by
      rw [QueueStore.pendingIds, (QueueStore.blpop_eq_some.mp hpop).1]
      rfl
    rw [hq, held, held, hpc]
    show (q'.pendingIds : Multiset Uuid) + {job.jobId} = (q.pendingIds : Multiset Uuid) + 0
    rw [hids, coe_cons_eq_add, add_zero, add_comm]
  | tracks w q job hq hpc =>
    refine tokens_le_of_waiting rfl rfl (le_of_eq ?_)
    rw [hq, held, held, hpc]
    rfl
  | assigns w job queue node htake hnode =>
    refine tokens_le_of_waiting rfl rfl (le_of_eq ?_)
    rw [tokens_of_takes htake]
    show ((queue.assign job.jobId w).pendingIds : Multiset Uuid) + {job.jobId} = _
    rw [JobQueue.pendingIds_assign]
  | refuses w job q hq hpc hnode =>
    refine tokens_le_of_waiting rfl rfl (le_of_eq ?_)
    rw [held, held, hpc]
    rfl
  | refusesInMemory w job q q' hq hpc htake hnode =>
    refine tokens_le_of_waiting rfl rfl (le_of_eq ?_)
    rw [tokens_of_takes (.inMemory q q' hq hpc htake)]
    show ((q'.requeue job).pendingIds : Multiset Uuid) + 0 = (q'.pendingIds : Multiset Uuid) + _
    rw [InMemoryQueue.pendingIds_requeue, coe_concat_eq_add, add_zero]
  | hdel q job hq hpc =>
    refine tokens_le_of_waiting rfl rfl (le_of_eq ?_)
    rw [hq, held, held, hpc]
    rfl
  | rpush q job hq hpc =>
    refine tokens_le_of_waiting rfl rfl (le_of_eq ?_)
    rw [hq, held, held, hpc]
    show ((q.rpush job).pendingIds : Multiset Uuid) + 0 = (q.pendingIds : Multiset Uuid) + _
    rw [QueueStore.pendingIds_rpush, coe_concat_eq_add, add_zero]
  | launches w job hpc =>
    have hrunning : ((s.runs ++ [(⟨job, w, .scanning⟩ : RunTask)]).map RunTask.token).sum =
        s.running + {job.jobId} := by
      rw [List.map_append, List.sum_append]
      rfl
    rw [tokens, tokens, held, held, hpc, running, hrunning]
    refine le_of_eq ?_
    show _ + ((s.queue.pendingIds : Multiset Uuid) + 0) + _ = _
    abel
  | stops q hq =>
    refine tokens_le_of_waiting rfl rfl ?_
    show (s.queue.pendingIds : Multiset Uuid) + 0 ≤ _
    gcongr
    exact Multiset.zero_le _

/-! ## A running job -/

/-- The token of a task in the stage where it is now; none if it is finished. -/
def tokenAfter (run : RunTask) (next : Option RunStage) : Multiset Uuid :=
  ((next.map fun stage => { run with stage }).map RunTask.token).getD 0

/-- A running job makes no token: it keeps its own, completes it, or puts it back. -/
theorem run_tokens {s s' : SchedulerState} {run : RunTask} {e : RunEvent}
    {next : Option RunStage} (h : s.RunMove run e s' next) :
    (s'.completions : Multiset Uuid) + (s'.queue.pendingIds : Multiset Uuid) +
        tokenAfter run next ≤
      (s.completions : Multiset Uuid) + (s.queue.pendingIds : Multiset Uuid) + run.token := by
  have hlive : ∀ stage, run.stage = stage → stage.live = true → run.token = {run.job.jobId} := by
    intro stage hpc hstage
    rw [RunTask.token, hpc, if_pos hstage]
  cases h with
  | returns result hpc => rw [hlive _ hpc rfl]; exact le_rfl
  | fails hpc => rw [hlive _ hpc rfl]; exact le_rfl
  | completes result q hq hpc =>
    rw [hlive _ hpc rfl]
    show ((s.completions ++ [run.job.jobId] : List Uuid) : Multiset Uuid) + _ + 0 ≤ _
    rw [coe_concat_eq_add]
    refine le_of_eq ?_
    show _ + (s.queue.pendingIds : Multiset Uuid) + 0 = _
    abel
  | completesInMemory result q hq hpc =>
    rw [hlive _ hpc rfl]
    show ((s.completions ++ [run.job.jobId] : List Uuid) : Multiset Uuid) +
      ((q.complete run.job.jobId).pendingIds : Multiset Uuid) + 0 ≤ _
    rw [coe_concat_eq_add, InMemoryQueue.pendingIds_complete, hq]
    refine le_of_eq ?_
    show _ = (s.completions : Multiset Uuid) + (q.pendingIds : Multiset Uuid) + _
    abel
  | requeues q hq hpc => rw [hlive _ hpc rfl]; exact le_rfl
  | requeuesInMemory q hq hpc =>
    rw [hlive _ hpc rfl, hq]
    show _ + ((q.requeue run.job).pendingIds : Multiset Uuid) + 0 ≤
      _ + (q.pendingIds : Multiset Uuid) + _
    rw [InMemoryQueue.pendingIds_requeue, coe_concat_eq_add]
    refine le_of_eq ?_
    show (s.completions : Multiset Uuid) + _ + 0 = _
    abel
  | hdel q hq hpc =>
    rw [hlive _ hpc rfl, hq]
    exact le_rfl
  | rpush q hq hpc =>
    rw [hlive _ hpc rfl, hq]
    show _ + ((q.rpush run.job.reset).pendingIds : Multiset Uuid) + 0 ≤
      _ + (q.pendingIds : Multiset Uuid) + _
    rw [QueueStore.pendingIds_rpush, coe_concat_eq_add]
    refine le_of_eq ?_
    show (s.completions : Multiset Uuid) + (_ + {run.job.jobId}) + 0 = _
    abel
  | ends =>
    gcongr
    exact Multiset.zero_le _

/-! ## Dead workers -/

/-- What no step of the recovery of a dead worker touches. -/
def SameTasks (s s' : SchedulerState) : Prop :=
  s'.runs = s.runs ∧ s'.dispatch = s.dispatch ∧ s'.completions = s.completions ∧
    s'.enqueued = s.enqueued ∧ s'.completing = s.completing

theorem recover_sameTasks {s s' : SchedulerState} {r : Recovery} {next : Option RecoveryStage}
    (h : s.RecoverMove r s' next) : s.SameTasks s' := by
  cases h <;> exact ⟨rfl, rfl, rfl, rfl, rfl⟩

/-- A step that requeues no job leaves the pending jobs and the outstanding
assignments alone. -/
theorem recover_of_reclaimedBy {s s' : SchedulerState} {r : Recovery}
    {next : Option RecoveryStage} (h : s.RecoverMove r s' next) (hr : s.reclaimedBy r = []) :
    s'.queue.pendingIds = s.queue.pendingIds ∧ s'.outstanding = s.outstanding := by
  cases h with
  | reclaims q hq hpc =>
    have hnone : q.jobsOf r.worker = [] := by
      rw [reclaimedBy, hpc, hq] at hr
      exact hr
    have hqueue : q.reclaim r.worker = q := by rw [InMemoryQueue.reclaim, hnone, List.foldl_nil]
    refine ⟨?_, ?_⟩
    · show (q.reclaim r.worker).pendingIds = _
      rw [hqueue, hq]
      rfl
    · show s.outstanding.filter _ = s.outstanding
      rw [hnone]
      exact List.filter_eq_self.mpr fun _ _ => rfl
  | rpush q job rest hq hpc =>
    rw [reclaimedBy, hpc, hq] at hr
    cases hr
  | hdel q job rest hq hpc =>
    rw [hq]
    exact ⟨rfl, rfl⟩
  | _ => exact ⟨rfl, rfl⟩

theorem watch_sameTasks (s : SchedulerState) (now : Time) (l : List Uuid) :
    s.SameTasks (s.watch now l) ∧ (s.watch now l).queue = s.queue ∧
      (s.watch now l).outstanding = s.outstanding := by
  rcases s.watch_cases now l with hend | ⟨w, rest, -, hdead⟩
  · rw [hend]
    exact ⟨⟨rfl, rfl, rfl, rfl, rfl⟩, rfl, rfl⟩
  · rw [hdead]
    exact ⟨⟨rfl, rfl, rfl, rfl, rfl⟩, rfl, rfl⟩

theorem delete_sameTasks (s : SchedulerState) (w : Uuid) :
    s.SameTasks (s.deleteStep w) ∧ (s.deleteStep w).queue = s.queue ∧
      (s.deleteStep w).outstanding = s.outstanding := by
  rw [deleteStep]
  split
  · exact ⟨⟨rfl, rfl, rfl, rfl, rfl⟩, rfl, rfl⟩
  · split <;> exact ⟨⟨rfl, rfl, rfl, rfl, rfl⟩, rfl, rfl⟩

/-! ## One step -/

theorem tokens_congr {s s' : SchedulerState} (h : s.SameTasks s')
    (hp : s'.queue.pendingIds = s.queue.pendingIds) : s'.tokens = s.tokens := by
  obtain ⟨hruns, hdispatch, hcomp, -, -⟩ := h
  rw [tokens, tokens, held, held, running, running, hruns, hdispatch, hcomp, hp]

theorem SameTasks.trans {s s' s'' : SchedulerState} (h : s.SameTasks s')
    (h' : s'.SameTasks s'') : s.SameTasks s'' := by
  obtain ⟨h1, h2, h3, h4, h5⟩ := h
  obtain ⟨k1, k2, k3, k4, k5⟩ := h'
  exact ⟨k1.trans h1, k2.trans h2, k3.trans h3, k4.trans h4, k5.trans h5⟩

/-- A step about the workers is a step of the handling of a dead worker, or requeues
nothing. -/
theorem worker_cases {s s' : SchedulerState} {l : SchedulerLabel} (h : s.step l = some s')
    (hl : l.aboutWorkers = true) :
    (s.SameTasks s' ∧ s'.queue = s.queue ∧ s'.outstanding = s.outstanding) ∨
      ∃ r t next, s.handlerOf l = some r ∧ s.RecoverMove r t next ∧ s.SameTasks s' ∧
        s'.queue = t.queue ∧ s'.outstanding = t.outstanding := by
  cases l with
  | clock | heartbeat =>
    cases h
    exact Or.inl ⟨⟨rfl, rfl, rfl, rfl, rfl⟩, rfl, rfl⟩
  | scale count =>
    rw [step] at h
    split_ifs at h <;> (cases h; exact Or.inl ⟨⟨rfl, rfl, rfl, rfl, rfl⟩, rfl, rfl⟩)
  | delete w =>
    cases h
    exact Or.inl (delete_sameTasks s w)
  | monitor ok =>
    rcases monitorStep_cases h with ⟨-, rfl⟩ | ⟨r, rest, now, t, next, hpc, hmove, hnext⟩
    · exact Or.inl (watch_sameTasks s s.clock s.pool.registry.workers.keys)
    · have hr : s.handlerOf (.monitor ok) = some r := by rw [handlerOf, hpc]
      have hsame := recover_sameTasks hmove
      rcases hnext with ⟨stage, -, rfl⟩ | ⟨-, rfl⟩
      · exact Or.inr ⟨r, t, next, hr, hmove, hsame, rfl, rfl⟩
      · obtain ⟨hsame', hqueue, hout⟩ := watch_sameTasks t now rest
        exact Or.inr ⟨r, t, next, hr, hmove, hsame.trans hsame', hqueue, hout⟩
  | recover i ok =>
    obtain ⟨r, t, next, hget, hmove, rfl⟩ := step_recover h
    have hsame := recover_sameTasks hmove
    exact Or.inr ⟨r, t, next, hget, hmove, hsame, rfl, rfl⟩
  | enqueue | dispatch | run | completeExec => cases hl

theorem worker_sameTasks {s s' : SchedulerState} {l : SchedulerLabel}
    (h : s.step l = some s') (hl : l.aboutWorkers = true) : s.SameTasks s' := by
  rcases worker_cases h hl with ⟨hsame, -, -⟩ | ⟨_, _, _, -, -, hsame, -, -⟩ <;> exact hsame

/-- As long as it requeues nothing. -/
theorem worker_of_reclaimed {s s' : SchedulerState} {l : SchedulerLabel}
    (h : s.step l = some s') (hl : l.aboutWorkers = true) (hr : s.reclaimed l = []) :
    s'.queue.pendingIds = s.queue.pendingIds ∧ s'.outstanding = s.outstanding := by
  rcases worker_cases h hl with ⟨-, hqueue, hout⟩ | ⟨r, t, next, hget, hmove, -, hqueue, hout⟩
  · exact ⟨by rw [hqueue], hout⟩
  · rw [reclaimed, hget] at hr
    obtain ⟨hids, hout'⟩ := recover_of_reclaimedBy hmove hr
    exact ⟨by rw [hqueue, hids], hout.trans hout'⟩

/-- **Tokens are only made by `enqueue`**, unless the recovery of a dead worker puts a
job back into the queue. -/
theorem step_tokens {s s' : SchedulerState} {l : SchedulerLabel} (h : s.step l = some s')
    (hr : s.reclaimed l = []) :
    s'.tokens ≤ s.tokens ∨
      s'.tokens = s.pool.nextUuid ::ₘ s.tokens ∧ s'.pool.nextUuid = s.pool.nextUuid + 1 ∧
        s'.enqueued = s.enqueued ++ [s.pool.nextUuid] := by
  cases l with
  | enqueue c im n =>
    cases h
    right
    refine ⟨?_, rfl, rfl⟩
    show (s.completions : Multiset Uuid) +
      (((s.queue.enqueue (.new s.pool.nextUuid c im n)).pendingIds : Multiset Uuid) + s.held) +
        s.running = s.pool.nextUuid ::ₘ s.tokens
    rw [JobQueue.pendingIds_enqueue, Job.jobId_new, coe_concat_eq_add, tokens,
      ← Multiset.singleton_add]
    abel
  | dispatch ok => exact Or.inl (dispatch_tokens (dispatchStep_cases h))
  | run i e =>
    obtain ⟨run, t, next, hrun, hmove, rfl⟩ := step_run h
    left
    have hstep := run_tokens hmove
    have hdispatch : t.dispatch = s.dispatch := (run_sameDispatch hmove).1
    set rest := ((s.runs.eraseIdx i).map RunTask.token).sum with hrest
    have hbefore : s.tokens = ((s.completions : Multiset Uuid) +
        (s.queue.pendingIds : Multiset Uuid) + run.token) + (s.held + rest) := by
      rw [tokens, running, sum_map_eq_add_eraseIdx _ hrun, ← hrest]
      abel
    refine le_of_eq_of_le ?_ ((add_le_add_left hstep (s.held + rest)).trans_eq hbefore.symm)
    rw [tokens, held, running]
    show (t.completions : Multiset Uuid) + ((t.queue.pendingIds : Multiset Uuid) + _) +
      ((advance s.runs i _).map RunTask.token).sum = _
    rw [sum_map_advance _ hrun, hdispatch, ← hrest, tokenAfter, ← held]
    abel
  | completeExec i ok =>
    obtain ⟨jobId, result, q, hq, -, rfl⟩ := step_completeExec h
    left
    refine tokens_le_of_waiting rfl rfl (le_of_eq ?_)
    rw [hq]
    cases ok <;> rfl
  | _ =>
    obtain ⟨hids, -⟩ := worker_of_reclaimed h rfl hr
    exact Or.inl (tokens_congr (worker_sameTasks h rfl) hids).le

/-- Every step that is not one of a `_run_job` completes nothing, and starts at most
one new task. -/
theorem step_tasks {s s' : SchedulerState} {l : SchedulerLabel} (h : s.step l = some s')
    (hl : ∀ i e, l ≠ .run i e) :
    s'.completions = s.completions ∧
      (s'.runs = s.runs ∨ ∃ job w, s'.runs = s.runs ++ [⟨job, w, .scanning⟩]) := by
  cases l with
  | run i e => exact absurd rfl (hl i e)
  | dispatch ok =>
    cases dispatchStep_cases h with
    | launches w job hpc => exact ⟨rfl, Or.inr ⟨job, w, rfl⟩⟩
    | _ => exact ⟨rfl, Or.inl rfl⟩
  | completeExec i ok =>
    obtain ⟨_, _, _, _, _, rfl⟩ := step_completeExec h
    exact ⟨rfl, Or.inl rfl⟩
  | enqueue =>
    cases h
    exact ⟨rfl, Or.inl rfl⟩
  | _ =>
    obtain ⟨hruns, -, hcomp, -⟩ := worker_sameTasks h rfl
    exact ⟨hcomp, Or.inl hruns⟩

/-- No job leaves the list of those enqueued. -/
theorem step_enqueued {s s' : SchedulerState} {l : SchedulerLabel} (h : s.step l = some s') :
    s.enqueued ⊆ s'.enqueued := by
  have hsub : s'.enqueued = s.enqueued ∨ ∃ i, s'.enqueued = s.enqueued ++ [i] := by
    cases l with
    | run i e =>
      obtain ⟨_, _, _, _, hmove, rfl⟩ := step_run h
      cases hmove <;> exact Or.inl rfl
    | dispatch ok => cases dispatchStep_cases h <;> exact Or.inl rfl
    | completeExec i ok =>
      obtain ⟨_, _, _, _, _, rfl⟩ := step_completeExec h
      exact Or.inl rfl
    | enqueue =>
      cases h
      exact Or.inr ⟨_, rfl⟩
    | _ =>
      obtain ⟨-, -, -, henq, -⟩ := worker_sameTasks h rfl
      exact Or.inl henq
  rcases hsub with heq | ⟨i, heq⟩ <;> rw [heq]
  · exact List.Subset.refl _
  · exact List.subset_append_left _ _

/-- No job is in two places, and every id that is in use has been drawn. -/
structure OneToken (s : SchedulerState) : Prop where
  once : s.tokens.Nodup
  drawn : ∀ i ∈ s.tokens, i < s.pool.nextUuid

/-- **One token for each job**, as long as no job is reclaimed. -/
theorem step_oneToken {s s' : SchedulerState} {l : SchedulerLabel} (hs : s.OneToken)
    (hr : s.reclaimed l = []) (h : s.step l = some s') : s'.OneToken := by
  have hmono := step_nextUuid_le h
  rcases step_tokens h hr with hle | ⟨htokens, hnext, -⟩
  · exact ⟨Multiset.nodup_of_le hle hs.once, fun i hi =>
      (hs.drawn i (Multiset.mem_of_le hle hi)).trans_le hmono⟩
  · constructor
    · rw [htokens, Multiset.nodup_cons]
      exact ⟨fun hmem => Nat.lt_irrefl _ (hs.drawn _ hmem), hs.once⟩
    · intro i hi
      rw [htokens] at hi
      rcases Multiset.mem_cons.mp hi with rfl | hold
      · rw [hnext]
        exact Nat.lt_succ_self _
      · exact (hs.drawn i hold).trans_le hmono

theorem start_tokens (n : ℕ) (q : StartQueue) (now : Time) :
    (start n q now).tokens = (q.queue.pendingIds : Multiset Uuid) := by
  show (0 : Multiset Uuid) + ((q.queue.pendingIds : Multiset Uuid) + 0) + 0 = _
  abel

theorem start_oneToken (n : ℕ) (q : StartQueue) (now : Time) : (start n q now).OneToken := by
  have hspawned := (WorkerPool.new n q.nextUuid).spawned_spawnWorkers n now
  constructor
  · rw [start_tokens, Multiset.coe_nodup]
    exact q.once
  · intro i hi
    rw [start_tokens, Multiset.mem_coe] at hi
    exact (q.drawn i hi).trans_le hspawned.nextUuid

end SchedulerState
end Rcsce
