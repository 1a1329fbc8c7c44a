import Rcsce.Lib.Board
import Rcsce.Scheduler.RedisOutage

/-!
# The scheduler as a board of jobs

What the scheduler is for is a board: jobs are submitted, taken, finished or given back.
`board` is the board that a state of the process stands for.  A job is waiting while it is
pending, or in the hands of the dispatcher and not yet assigned; it is running from
`mark_assigned` on, until its `_run_job` completes it or puts it back.

* `dropped` are the jobs that an exception of Redis takes off the board: one that the
  dispatcher has popped, or one that a failing `_run_job` is putting back.
* `Events` relates a step to the events that it makes on the board.  `step_events` finds
  them for every step.
* `exec_events` is the refinement: a run of the process is a run of the board.  It submits
  what was enqueued, finishes what was completed, puts up again what `_reclaim_jobs`
  requeued, and loses what was dropped.
-/

namespace Rcsce

/-- The task is about to issue a Redis command of `requeue`. -/
def RunStage.beforeCommand : RunStage → Bool
  | .requeueHdel | .requeueRpush => true
  | _ => false

namespace SchedulerState

/-- The job that the dispatcher has assigned, while it reports this. -/
def assignedJob (s : SchedulerState) : Option Job :=
  match s.dispatch with
  | .reporting _ job => some job
  | _ => none

/-- The ids of a job that may be there. -/
def idsOf (job : Option Job) : Multiset Uuid := (job.toList.map Job.jobId : List Uuid)

/-- The board. -/
def board (s : SchedulerState) : Board Uuid where
  waiting := (s.queue.pendingIds : Multiset Uuid) + idsOf s.unassignedJob
  running := idsOf s.assignedJob + s.running
  done := (s.completions : Multiset Uuid)

/-- The jobs that an exception of Redis takes off the board in this step. -/
def dropped (s : SchedulerState) : SchedulerLabel → List Uuid
  | .dispatch false =>
      if s.dispatch.beforeCommand then s.unassignedJob.toList.map Job.jobId else []
  | .run i (.goesOn false) =>
      (s.runs[i]?.filter fun run => run.stage.beforeCommand).toList.map fun run => run.job.jobId
  | _ => []

/-- What a step of the process is on the board. -/
structure Events (s : SchedulerState) (l : SchedulerLabel) (s' : SchedulerState)
    (es : List (BoardEvent Uuid)) : Prop where
  exec : Machine.exec Board.step s.board es = some s'.board
  submitted : s'.enqueued = s.enqueued ++ es.filterMap BoardEvent.submitted
  taken : s'.calls.length = s.calls.length + (es.filterMap BoardEvent.taken).length
  finished : s'.completions = s.completions ++ es.filterMap BoardEvent.finished
  repeated : es.filterMap BoardEvent.repeated = (s.reclaimed l).map Job.jobId
  lost : es.filterMap BoardEvent.lost = s.dropped l

/-- The tokens are the jobs on the board. -/
theorem tokens_eq_board_all (s : SchedulerState) : s.tokens = s.board.all := by
  have hheld : s.held = idsOf s.unassignedJob + idsOf s.assignedJob := by
    rw [held, unassignedJob, assignedJob]
    cases s.dispatch <;> rfl
  simp only [tokens, Board.all, board, hheld]
  abel

/-- A step that the board does not show. -/
theorem Events.silent {s s' : SchedulerState} {l : SchedulerLabel} (hboard : s'.board = s.board)
    (henqueued : s'.enqueued = s.enqueued) (hcalls : s'.calls = s.calls)
    (hcompletions : s'.completions = s.completions) (hreclaimed : s.reclaimed l = [])
    (hdropped : s.dropped l = []) : s.Events l s' [] where
  exec := congrArg some hboard.symm
  submitted := henqueued.trans (List.append_nil _).symm
  taken := congrArg List.length hcalls
  finished := hcompletions.trans (List.append_nil _).symm
  repeated := by rw [hreclaimed]; rfl
  lost := hdropped.symm

/-! ## The dispatcher -/

/-- In memory, a job that the loop takes is assigned in the same step. -/
theorem unassignedJob_inMemory {s s' : SchedulerState} {ok : Bool} {q : InMemoryQueue}
    (hq : s.queue = .inMemory q) (h : s.dispatchStep ok = some s') : s.unassignedJob = none := by
  rw [unassignedJob]
  cases hpc : s.dispatch with
  | popped | tracked | requeueHdel | requeueRpush =>
    simp only [dispatchStep, hpc, hq, JobQueue.redis?, Option.map_none] at h
    cases h
  | _ => rfl

/-- The loop drops what it holds when a command ends it, and nothing otherwise. -/
theorem dispatch_dropped {s s' : SchedulerState} {ok : Bool} (h : s.dispatchStep ok = some s') :
    (s'.Stopped → s.dropped (.dispatch ok) = s.unassignedJob.toList.map Job.jobId) ∧
      (¬ s'.Stopped → s.dropped (.dispatch ok) = []) := by
  cases hq : s.queue with
  | redis q =>
    cases hpc : s.dispatch.beforeCommand with
    | false =>
      have hrunning := dispatchStep_local hq hpc h
      refine ⟨fun hstop => absurd hstop hrunning, fun _ => ?_⟩
      cases ok with
      | true => rfl
      | false => rw [dropped, if_neg (by rw [hpc]; decide)]
    | true =>
      have hstopped := dispatchStep_command hq hpc h
      cases ok with
      | true => exact ⟨fun hstop => absurd (hstopped.mp hstop) (by decide), fun _ => rfl⟩
      | false =>
        refine ⟨fun _ => by rw [dropped, if_pos hpc], fun hrunning => ?_⟩
        exact absurd (hstopped.mpr rfl) hrunning
  | inMemory q =>
    have hnone := unassignedJob_inMemory hq h
    have hdropped : s.dropped (.dispatch ok) = [] := by
      cases ok with
      | true => rfl
      | false =>
        rw [dropped, hnone]
        exact ite_self _
    rw [hdropped, hnone]
    exact ⟨fun _ => rfl, fun _ => rfl⟩

/-- The board when the dispatcher holds nothing. -/
theorem board_of_free {s : SchedulerState} (hun : s.unassignedJob = none)
    (has : s.assignedJob = none) : s.board = ⟨s.queue.pendingIds, s.running, s.completions⟩ := by
  rw [board, hun, has]
  simp [idsOf]

/-- The board when it holds a job that it has not assigned. -/
theorem board_of_unassigned {s : SchedulerState} {job : Job} (h : s.unassignedJob = some job) :
    s.board =
      ⟨(s.queue.pendingIds : Multiset Uuid) + {job.jobId}, s.running, s.completions⟩ := by
  have has : s.assignedJob = none := by
    rw [unassignedJob] at h
    rw [assignedJob]
    cases hpc : s.dispatch with
    | reporting w job =>
      rw [hpc] at h
      cases h
    | _ => rfl
  rw [board, h, has]
  simp [idsOf]

/-- The board when it holds a job that it has assigned. -/
theorem board_of_assigned {s : SchedulerState} {job : Job} (h : s.assignedJob = some job) :
    s.board = ⟨s.queue.pendingIds, s.running + {job.jobId}, s.completions⟩ := by
  have hun : s.unassignedJob = none := by
    rw [assignedJob] at h
    rw [unassignedJob]
    cases hpc : s.dispatch with
    | popped | tracked | requeueHdel | requeueRpush =>
      rw [hpc] at h
      cases h
    | _ => rfl
  rw [board, h, hun]
  simp [idsOf, add_comm]

theorem board_of_candidate {s : SchedulerState} {w : Uuid} (h : s.Candidate w) :
    s.board = ⟨s.queue.pendingIds, s.running, s.completions⟩ := by
  refine board_of_free ?_ ?_
  · rw [unassignedJob]
    rcases h with ⟨hpc, -⟩ | hpc <;> rw [hpc]
  · rw [assignedJob]
    rcases h with ⟨hpc, -⟩ | hpc <;> rw [hpc]

/-- A job that the dispatcher takes was waiting. -/
theorem board_of_takes {s : SchedulerState} {w : Uuid} {job : Job} {queue : JobQueue}
    (h : s.Takes w job queue) :
    s.board = ⟨(queue.pendingIds : Multiset Uuid) + {job.jobId}, s.running, s.completions⟩ := by
  cases h with
  | redis q hq hpc =>
    rw [board_of_unassigned (show s.unassignedJob = some job by rw [unassignedJob, hpc]), hq]
  | inMemory q q' hq hpc htake =>
    have hids : s.queue.pendingIds = job.jobId :: q'.pendingIds := by
      rw [hq]
      exact pendingIds_of_dequeue htake
    rw [board_of_candidate hpc, hids, coe_cons_eq_add, add_comm]
    rfl

/-- The events of a step of the dispatcher. -/
theorem dispatch_events {s s' : SchedulerState} {ok : Bool} (h : s.dispatchStep ok = some s') :
    ∃ es, s.Events (.dispatch ok) s' es := by
  obtain ⟨hstopped, hrunning⟩ := dispatch_dropped h
  have hsilent : ¬ s'.Stopped → s'.board = s.board → s'.enqueued = s.enqueued →
      s'.calls = s.calls → s'.completions = s.completions → ∃ es, s.Events (.dispatch ok) s' es :=
    fun hrun hboard henq hcalls hcomp =>
      ⟨[], .silent hboard henq hcalls hcomp rfl (hrunning hrun)⟩
  have hmove := dispatchStep_cases h
  cases hmove with
  | idle =>
    refine hsilent (fun hstop => ?_) rfl rfl rfl rfl
    rw [dispatchStep, hstop] at h
    cases h
  | waits w hpc =>
    refine hsilent (by rintro ⟨⟩) ?_ rfl rfl rfl
    rw [board_of_candidate hpc, board_of_free rfl rfl]
    rfl
  | pops w q q' job hq hpc hpop =>
    refine hsilent (by rintro ⟨⟩) ?_ rfl rfl rfl
    have hids : s.queue.pendingIds = job.jobId :: q'.pendingIds := by
      rw [hq]
      show q.pendingIds = _
      rw [QueueStore.pendingIds, (QueueStore.blpop_eq_some.mp hpop).1]
      rfl
    rw [board_of_candidate (Or.inr hpc), hids, coe_cons_eq_add, add_comm, board_of_unassigned rfl]
    rfl
  | tracks w q job hq hpc =>
    refine hsilent (by rintro ⟨⟩) ?_ rfl rfl rfl
    rw [board_of_unassigned (show s.unassignedJob = some job by rw [unassignedJob, hpc]), hq,
      board_of_unassigned rfl]
    rfl
  | assigns w job queue node htake hnode =>
    have hstep := Board.step_take (queue.pendingIds : Multiset Uuid) s.running s.completions
      job.jobId
    refine ⟨[.take job.jobId], ?_, (List.append_nil _).symm, ?_, (List.append_nil _).symm, rfl,
      (hrunning (by rintro ⟨⟩)).symm⟩
    · rw [board_of_takes htake, Machine.exec_cons_of_step _ hstep, board_of_assigned rfl]
      show _ = some (Board.mk ((queue.assign job.jobId w).pendingIds : Multiset Uuid) _ _)
      rw [JobQueue.pendingIds_assign]
      rfl
    · show (s.calls ++ _).length = _
      rw [List.length_append]
      rfl
  | refuses w job q hq hpc hnode =>
    refine hsilent (by rintro ⟨⟩) ?_ rfl rfl rfl
    rw [board_of_unassigned (show s.unassignedJob = some job by rw [unassignedJob, hpc]),
      board_of_unassigned rfl]
    rfl
  | refusesInMemory w job q q' hq hpc htake hnode =>
    refine hsilent (by rintro ⟨⟩) ?_ rfl rfl rfl
    rw [board_of_takes (.inMemory q q' hq hpc htake), board_of_free rfl rfl]
    show Board.mk ((q'.requeue job).pendingIds : Multiset Uuid) _ _ = _
    rw [InMemoryQueue.pendingIds_requeue, coe_concat_eq_add]
    rfl
  | hdel q job hq hpc =>
    refine hsilent (by rintro ⟨⟩) ?_ rfl rfl rfl
    rw [board_of_unassigned (show s.unassignedJob = some job by rw [unassignedJob, hpc]), hq,
      board_of_unassigned rfl]
    rfl
  | rpush q job hq hpc =>
    refine hsilent (by rintro ⟨⟩) ?_ rfl rfl rfl
    rw [board_of_unassigned (show s.unassignedJob = some job by rw [unassignedJob, hpc]), hq,
      board_of_free rfl rfl]
    show Board.mk ((q.rpush job).pendingIds : Multiset Uuid) _ _ = _
    rw [QueueStore.pendingIds_rpush, coe_concat_eq_add]
    rfl
  | launches w job hpc =>
    refine hsilent (by rintro ⟨⟩) ?_ rfl rfl rfl
    have hlaunched : ((s.runs ++ [(⟨job, w, .scanning⟩ : RunTask)]).map RunTask.token).sum =
        s.running + {job.jobId} := by
      rw [List.map_append, List.sum_append]
      rfl
    rw [board_of_assigned (show s.assignedJob = some job by rw [assignedJob, hpc]),
      board_of_free rfl rfl, running, hlaunched]
  | stops q hq =>
    have hdropped := hstopped rfl
    cases hun : s.unassignedJob with
    | none =>
      have has : s.assignedJob = none := by
        rw [assignedJob]
        cases hpc : s.dispatch with
        | reporting w job =>
          simp only [dispatchStep, hpc] at h
          cases h
        | _ => rfl
      refine ⟨[], .silent ?_ rfl rfl rfl rfl (by rw [hdropped, hun]; rfl)⟩
      rw [board_of_free hun has, board_of_free rfl rfl]
      rfl
    | some job =>
      have hstep := Board.step_loseWaiting (s.queue.pendingIds : Multiset Uuid) s.running
        s.completions job.jobId
      refine ⟨[.loseWaiting job.jobId], ?_, (List.append_nil _).symm, rfl,
        (List.append_nil _).symm, rfl, ?_⟩
      · rw [board_of_unassigned hun, Machine.exec_cons_of_step _ hstep, board_of_free rfl rfl]
        rfl
      · rw [hdropped, hun]
        rfl

/-! ## A running job -/

/-- A task that ends and leaves the process as it is has nothing to put back, or is stopped
by Redis. -/
theorem runEffect_ends {s : SchedulerState} {run : RunTask} {ok : Bool}
    (h : s.runEffect run (.goesOn ok) = some (s, none)) :
    (run.stage.live = false ∧ run.stage.beforeCommand = false) ∨
      (ok = false ∧ run.stage.beforeCommand = true ∧ ∃ q, s.queue = .redis q) := by
  cases hpc : run.stage with
  | scanning | caching => simp [runEffect, hpc] at h
  | reporting | requeued => exact Or.inl ⟨rfl, rfl⟩
  | failing =>
    cases hq : s.queue with
    | redis q =>
      simp only [runEffect, hpc, hq] at h
      cases h
    | inMemory q =>
      -- the job is put back, so the queue is longer
      simp only [runEffect, hpc, hq, Option.some.injEq, Prod.mk.injEq, and_true] at h
      have hqueue : (q.requeue run.job).pendingIds = s.queue.pendingIds :=
        congrArg (fun t : SchedulerState => t.queue.pendingIds) h
      rw [InMemoryQueue.pendingIds_requeue, hq] at hqueue
      exact absurd (congrArg List.length hqueue) (by simp [JobQueue.pendingIds])
  | requeueHdel | requeueRpush =>
    simp only [runEffect, hpc] at h
    obtain ⟨q, hq, hr⟩ := JobQueue.map_redis?_eq_some.mp h
    cases ok with
    | false => exact Or.inr ⟨rfl, rfl, q, hq⟩
    | true => simp at hr

theorem dropped_run {s : SchedulerState} {i : ℕ} {run : RunTask} {ok : Bool}
    (hrun : s.runs[i]? = some run) :
    s.dropped (.run i (.goesOn ok)) =
      if !ok && run.stage.beforeCommand then [run.job.jobId] else [] := by
  cases ok with
  | true => rfl
  | false =>
    rw [dropped, hrun]
    cases hpc : run.stage.beforeCommand <;> simp [hpc]

/-- The board with the job of one task apart. -/
theorem board_of_run {s : SchedulerState} {i : ℕ} {run : RunTask} (hrun : s.runs[i]? = some run) :
    s.board = ⟨(s.queue.pendingIds : Multiset Uuid) + idsOf s.unassignedJob,
      idsOf s.assignedJob + ((s.runs.eraseIdx i).map RunTask.token).sum + run.token,
      s.completions⟩ := by
  rw [board, running, sum_map_eq_add_eraseIdx RunTask.token hrun, add_comm run.token, add_assoc]

/-- The board after a step of the task. -/
theorem board_after_run {s t : SchedulerState} {i : ℕ} {run : RunTask}
    (hrun : s.runs[i]? = some run) (hdispatch : t.dispatch = s.dispatch)
    (next : Option RunStage) :
    ({ t with runs := advance s.runs i (next.map fun stage => { run with stage }) } :
        SchedulerState).board =
      ⟨(t.queue.pendingIds : Multiset Uuid) + idsOf s.unassignedJob,
        idsOf s.assignedJob + ((s.runs.eraseIdx i).map RunTask.token).sum + tokenAfter run next,
        t.completions⟩ := by
  have hsum : ((advance s.runs i (next.map fun stage => { run with stage })).map
      RunTask.token).sum = ((s.runs.eraseIdx i).map RunTask.token).sum + tokenAfter run next := by
    rw [sum_map_advance RunTask.token hrun, add_comm]
    rfl
  rw [board, running, unassignedJob, assignedJob, unassignedJob, assignedJob]
  dsimp only
  rw [hsum, hdispatch, add_assoc]

/-- The events of a step of a running job. -/
theorem run_events {s s' : SchedulerState} {i : ℕ} {e : RunEvent}
    (h : s.step (.run i e) = some s') : ∃ es, s.Events (.run i e) s' es := by
  rw [step] at h
  split at h
  · cases h
  rename_i run hrun
  obtain ⟨⟨t, next⟩, heffect, hs'⟩ := Option.map_eq_some_iff.mp h
  have hmove := runEffect_cases heffect
  have hafter := board_after_run hrun (run_sameDispatch hmove).1 next
  obtain ⟨henqueued, hcalls, hcompletions⟩ :
      s'.enqueued = t.enqueued ∧ s'.calls = t.calls ∧ s'.completions = t.completions := by
    rw [← hs']
    exact ⟨rfl, rfl, rfl⟩
  dsimp only at hs'
  rw [hs'] at hafter
  have hbefore := board_of_run hrun
  have hlive : ∀ stage, run.stage = stage → stage.live = true → run.token = {run.job.jobId} := by
    intro stage hpc hstage
    rw [RunTask.token, hpc, if_pos hstage]
  have hkept : ∀ ok, run.stage.beforeCommand = false → s.dropped (.run i (.goesOn ok)) = [] := by
    intro ok hpc
    rw [dropped_run hrun, hpc, Bool.and_false]
    rfl
  -- a step that leaves the token with the task
  have hsilent : s.dropped (.run i e) = [] → run.token = tokenAfter run next →
      t.queue.pendingIds = s.queue.pendingIds → t.enqueued = s.enqueued → t.calls = s.calls →
        t.completions = s.completions → ∃ es, s.Events (.run i e) s' es := by
    intro hdropped htoken hids henq hcall hcomp
    refine ⟨[], .silent ?_ (henqueued.trans henq) (hcalls.trans hcall) (hcompletions.trans hcomp)
      rfl hdropped⟩
    rw [hafter, hbefore, htoken, hids, hcomp]
  -- a step that puts the job back
  have hback : s.dropped (.run i e) = [] → run.token = {run.job.jobId} →
      tokenAfter run next = 0 → t.queue.pendingIds = s.queue.pendingIds ++ [run.job.jobId] →
        t.enqueued = s.enqueued → t.calls = s.calls → t.completions = s.completions →
          ∃ es, s.Events (.run i e) s' es := by
    intro hdropped htoken hnext hids henq hcall hcomp
    refine ⟨[.giveBack run.job.jobId], ?_, ?_, ?_, ?_, rfl, hdropped.symm⟩
    · rw [hbefore, htoken, Machine.exec_cons_of_step _ (Board.step_giveBack _ _ _ _), hafter, hnext,
        hids, hcomp, coe_concat_eq_add, add_zero, add_right_comm]
      rfl
    · exact (henqueued.trans henq).trans (List.append_nil _).symm
    · exact congrArg List.length (hcalls.trans hcall)
    · exact (hcompletions.trans hcomp).trans (List.append_nil _).symm
  -- a step that completes it
  have hdone : s.dropped (.run i e) = [] → run.token = {run.job.jobId} →
      tokenAfter run next = 0 → t.queue.pendingIds = s.queue.pendingIds →
        t.enqueued = s.enqueued → t.calls = s.calls →
          t.completions = s.completions ++ [run.job.jobId] → ∃ es, s.Events (.run i e) s' es := by
    intro hdropped htoken hnext hids henq hcall hcomp
    refine ⟨[.finish run.job.jobId], ?_, ?_, ?_, hcompletions.trans hcomp, rfl, hdropped.symm⟩
    · rw [hbefore, htoken, Machine.exec_cons_of_step _ (Board.step_finish _ _ _ _), hafter, hnext,
        hids, hcomp, coe_concat_eq_add, add_zero]
      rfl
    · exact (henqueued.trans henq).trans (List.append_nil _).symm
    · exact congrArg List.length (hcalls.trans hcall)
  cases hmove with
  | returns result hpc => exact hsilent rfl (hlive _ hpc rfl) rfl rfl rfl rfl
  | fails hpc => exact hsilent rfl (hlive _ hpc rfl) rfl rfl rfl rfl
  | completes result q hq hpc =>
    exact hdone (hkept _ (by rw [hpc]; rfl)) (hlive _ hpc rfl) rfl rfl rfl rfl rfl
  | completesInMemory result q hq hpc =>
    refine hdone (hkept _ (by rw [hpc]; rfl)) (hlive _ hpc rfl) rfl ?_ rfl rfl rfl
    rw [hq]
    exact InMemoryQueue.pendingIds_complete q run.job.jobId
  | requeues q hq hpc =>
    exact hsilent (hkept _ (by rw [hpc]; rfl)) (hlive _ hpc rfl) rfl rfl rfl rfl
  | requeuesInMemory q hq hpc =>
    refine hback (hkept _ (by rw [hpc]; rfl)) (hlive _ hpc rfl) rfl ?_ rfl rfl rfl
    rw [hq]
    exact InMemoryQueue.pendingIds_requeue q run.job
  | hdel q hq hpc =>
    refine hsilent rfl (hlive _ hpc rfl) ?_ rfl rfl rfl
    rw [hq]
    rfl
  | rpush q hq hpc =>
    refine hback rfl (hlive _ hpc rfl) rfl ?_ rfl rfl rfl
    rw [hq]
    exact QueueStore.pendingIds_rpush q run.job.reset
  | ends =>
    rcases runEffect_ends heffect with ⟨hdead, hcommand⟩ | ⟨rfl, hcommand, -⟩
    · refine hsilent (hkept _ hcommand) ?_ rfl rfl rfl rfl
      rw [RunTask.token, hdead]
      rfl
    · have htoken : run.token = {run.job.jobId} := by
        cases hpc : run.stage with
        | requeueHdel | requeueRpush => exact hlive _ hpc rfl
        | _ =>
          rw [hpc] at hcommand
          cases hcommand
      refine ⟨[.loseRunning run.job.jobId], ?_, henqueued.trans (List.append_nil _).symm,
        congrArg List.length hcalls, hcompletions.trans (List.append_nil _).symm, rfl, ?_⟩
      · rw [hbefore, htoken, Machine.exec_cons_of_step _ (Board.step_loseRunning _ _ _ _), hafter]
        show some (Board.mk _ _ _) = some (Board.mk _ (_ + 0) _)
        rw [add_zero]
      · rw [dropped_run hrun, hcommand]
        rfl

/-! ## Dead workers -/

/-- In memory, a job in flight is running. -/
def HeldInMemory (s : SchedulerState) : Prop :=
  ∃ q, s.queue = .inMemory q ∧ ∀ i ∈ q.inFlight, i ∈ s.board.running

/-- What makes a job that `_reclaim_jobs` requeues one that is running. -/
def Backed (s : SchedulerState) : Prop := s.UnassignedOnRedis ∨ s.HeldInMemory

/-- The handling of a dead worker that goes on in a step makes one of its moves. -/
theorem handler_moves {s s' : SchedulerState} {l : SchedulerLabel} {r : Recovery}
    (hr : s.handlerOf l = some r) (h : s.step l = some s') :
    ∃ t next, s.RecoverMove r t next ∧ s'.queue = t.queue := by
  cases l with
  | monitor ok =>
    rcases monitorStep_cases h with ⟨hpc, -⟩ | ⟨r', rest, now, t, next, hpc, hmove, hnext⟩
    · rw [handlerOf, hpc] at hr
      cases hr
    · rw [handlerOf, hpc] at hr
      obtain rfl := Option.some.inj hr
      rcases hnext with ⟨stage, -, rfl⟩ | ⟨-, rfl⟩
      · exact ⟨t, next, hmove, rfl⟩
      · exact ⟨t, next, hmove, (watch_sameTasks t now rest).2.1⟩
  | recover i ok =>
    obtain ⟨r', t, next, hget, hmove, rfl⟩ := step_recover h
    obtain rfl := Option.some.inj (hget.symm.trans hr)
    exact ⟨t, next, hmove, rfl⟩
  | _ => cases hr

/-- A step about the workers appends to the pending jobs what it reclaims, and every job
that it reclaims is running. -/
theorem worker_reclaims {s s' : SchedulerState} {l : SchedulerLabel} (hs : s.Backed)
    (hl : l.aboutWorkers = true) (h : s.step l = some s') :
    s'.queue.pendingIds = s.queue.pendingIds ++ (s.reclaimed l).map Job.jobId ∧
      ∀ i ∈ (s.reclaimed l).map Job.jobId, i ∈ s.board.running := by
  have hnothing : s.reclaimed l = [] →
      s'.queue.pendingIds = s.queue.pendingIds ++ (s.reclaimed l).map Job.jobId ∧
        ∀ i ∈ (s.reclaimed l).map Job.jobId, i ∈ s.board.running := by
    intro hr
    rw [hr, (worker_of_reclaimed h hl hr).1]
    exact ⟨(List.append_nil _).symm, fun i hi => absurd hi List.not_mem_nil⟩
  rcases hs with hredis | ⟨q, hq, hheld⟩
  · exact hnothing (reclaimed_of_unassigned hredis l)
  cases hr : s.handlerOf l with
  | none => exact hnothing (by rw [reclaimed, hr])
  | some r =>
    obtain ⟨t, next, hmove, hqueue⟩ := handler_moves hr h
    cases hmove with
    | reclaims q' hq' hpc =>
      obtain rfl : q = q' := JobQueue.inMemory.inj (hq.symm.trans hq')
      have hreclaimed : s.reclaimed l = q.jobsOf r.worker := by
        rw [reclaimed, hr]
        simp only [reclaimedBy, hpc, hq]
      rw [hreclaimed]
      refine ⟨?_, fun i hi => ?_⟩
      · rw [hqueue, hq]
        exact pendingIds_reclaim q r.worker
      · obtain ⟨job, hget, -⟩ := InMemoryQueue.mem_jobsOf_ids.mp hi
        exact hheld i (OrderedDict.mem_of_get? hget)
    | ends hpc =>
      refine hnothing ?_
      rw [reclaimed, hr]
      simp only [reclaimedBy, hpc]
    | notified q' hq' | fetches q' hq' | hdel q' _ _ hq' | rpush q' _ _ hq' | gives q' hq' =>
      cases hq.symm.trans hq'

/-- The events of a step about the workers. -/
theorem worker_events {s s' : SchedulerState} {l : SchedulerLabel} (hs : s.Backed)
    (hl : l.aboutWorkers = true) (h : s.step l = some s') : ∃ es, s.Events l s' es := by
  obtain ⟨hruns, hdispatch, hcompletions, henqueued, -⟩ := worker_sameTasks h hl
  have hcalls : s'.calls = s.calls :=
    (step_other_moves h fun ok heq => by rw [heq] at hl; cases hl).1.2
  have hdropped : s.dropped l = [] := by cases l <;> first | rfl | cases hl
  obtain ⟨hids, hrunning⟩ := worker_reclaims hs hl h
  set ids := (s.reclaimed l).map Job.jobId with hids'
  have hboard : s'.board = ⟨s.board.waiting + (ids : Multiset Uuid), s.board.running,
      s.board.done⟩ := by
    simp only [board, unassignedJob, assignedJob, running, hruns, hdispatch, hcompletions, hids,
      ← Multiset.coe_add, add_right_comm]
  have hnone : ∀ f : BoardEvent Uuid → Option Uuid, (∀ i, f (.again i) = none) →
      (ids.map BoardEvent.again).filterMap f = [] := by
    intro f hf
    rw [List.filterMap_map, List.filterMap_eq_nil_iff]
    exact fun i _ => hf i
  refine ⟨ids.map .again, ?_, ?_, ?_, ?_, ?_, ?_⟩
  · rw [hboard]
    exact Board.exec_again hrunning
  · rw [hnone _ fun _ => rfl, List.append_nil, henqueued]
  · rw [hnone _ fun _ => rfl, hcalls]
    rfl
  · rw [hnone _ fun _ => rfl, List.append_nil, hcompletions]
  · rw [List.filterMap_map]
    exact List.filterMap_some
  · rw [hnone _ fun _ => rfl, hdropped]

/-! ## One step -/

/-- **The refinement of one step.**  Every step of the process is a sequence of events on
the board. -/
theorem step_events {s s' : SchedulerState} {l : SchedulerLabel} (hs : s.Backed)
    (h : s.step l = some s') : ∃ es, s.Events l s' es := by
  cases l with
  | enqueue c im n =>
    cases h
    refine ⟨[.submit s.pool.nextUuid], ?_, rfl, rfl, (List.append_nil _).symm, rfl, rfl⟩
    have hids : ((s.queue.enqueue (.new s.pool.nextUuid c im n)).pendingIds : Multiset Uuid) =
        s.pool.nextUuid ::ₘ s.queue.pendingIds := by
      rw [JobQueue.pendingIds_enqueue, Job.jobId_new, coe_concat_eq_add, add_comm,
        Multiset.singleton_add]
    show some (Board.mk (_ ::ₘ (_ + _)) _ _) = some (Board.mk (_ + _) _ _)
    rw [hids, Multiset.cons_add]
    rfl
  | dispatch ok => exact dispatch_events h
  | run i e => exact run_events h
  | completeExec i ok =>
    obtain ⟨jobId, result, q, hq, -, rfl⟩ := step_completeExec h
    refine ⟨[], .silent ?_ rfl rfl rfl rfl rfl⟩
    have hids : (if ok then q.complete jobId result s.clock else q).pendingIds = q.pendingIds := by
      split_ifs <;> rfl
    show Board.mk (((if ok then q.complete jobId result s.clock else q).pendingIds :
      Multiset Uuid) + _) _ _ = _
    rw [hids, board, hq]
    rfl
  | _ => exact worker_events hs rfl h

/-- A job in flight is running, after a step of the dispatcher. -/
theorem dispatch_held {s s' : SchedulerState} (hs : s.HeldInMemory) (h : s.DispatchMove s') :
    s'.HeldInMemory := by
  obtain ⟨q, hq, hheld⟩ := hs
  have hfree : ∀ w, s.Candidate w → ∀ i ∈ q.inFlight, i ∈ s.running := by
    intro w hpc i hi
    have hrunning := hheld i hi
    rwa [board_of_candidate hpc] at hrunning
  cases h with
  | idle => exact ⟨q, hq, hheld⟩
  | waits w hpc =>
    refine ⟨q, hq, fun i hi => ?_⟩
    rw [board_of_free rfl rfl]
    exact hfree w hpc i hi
  | assigns w job queue node htake hnode =>
    cases htake with
    | redis q' hq' => cases hq.symm.trans hq'
    | inMemory q₁ q' hq₁ hpc htake =>
      obtain rfl := JobQueue.inMemory.inj (hq.symm.trans hq₁)
      refine ⟨q'.assign job.jobId w, rfl, fun i hi => ?_⟩
      rw [board_of_assigned rfl, Multiset.mem_add]
      have hi' : i ∈ q'.inFlight := OrderedDict.mem_modify.mp hi
      rw [(InMemoryQueue.dequeue_eq_some htake).2, OrderedDict.mem_set] at hi'
      rcases hi' with rfl | hold
      · exact Or.inr (Multiset.mem_singleton_self _)
      · exact Or.inl (hfree w hpc i hold)
  | refusesInMemory w job q₁ q' hq₁ hpc htake hnode =>
    obtain rfl := JobQueue.inMemory.inj (hq.symm.trans hq₁)
    refine ⟨q'.requeue job, rfl, fun i hi => ?_⟩
    rw [board_of_free rfl rfl]
    obtain ⟨hne, hold⟩ := InMemoryQueue.mem_inFlight_requeue.mp hi
    rw [(InMemoryQueue.dequeue_eq_some htake).2, OrderedDict.mem_set] at hold
    exact hfree w hpc i (hold.resolve_left hne)
  | launches w job hpc =>
    refine ⟨q, hq, fun i hi => ?_⟩
    have hrunning := hheld i hi
    rw [board_of_assigned (show s.assignedJob = some job by rw [assignedJob, hpc])] at hrunning
    rw [board_of_free rfl rfl, running, List.map_append, List.sum_append]
    exact hrunning
  | pops _ _ _ _ hq' | tracks _ _ _ hq' | refuses _ _ _ hq' | hdel _ _ hq' | rpush _ _ hq'
  | stops _ hq' => cases hq.symm.trans hq'

/-- The same after a step of a running job. -/
theorem run_held {s s' : SchedulerState} {i : ℕ} {e : RunEvent} (hs : s.HeldInMemory)
    (h : s.step (.run i e) = some s') : s'.HeldInMemory := by
  obtain ⟨q, hq, hheld⟩ := hs
  rw [step] at h
  split at h
  · cases h
  rename_i run hrun
  obtain ⟨⟨t, next⟩, heffect, hs'⟩ := Option.map_eq_some_iff.mp h
  have hmove := runEffect_cases heffect
  have hafter := board_after_run hrun (run_sameDispatch hmove).1 next
  have hqueue : s'.queue = t.queue := by rw [← hs']
  dsimp only at hs'
  rw [hs'] at hafter
  rw [board_of_run hrun] at hheld
  -- a step that leaves the token with the task, and the queue alone
  have hsame : t.queue = s.queue → run.token ≤ tokenAfter run next → s'.HeldInMemory := by
    intro hsameQueue htoken
    refine ⟨q, by rw [hqueue, hsameQueue, hq], fun j hj => ?_⟩
    rw [hafter]
    exact Multiset.mem_of_le (add_le_add_right htoken _) (hheld j hj)
  -- a step that ends the flight of the job
  have hlands : ∀ q', t.queue = .inMemory q' →
      (∀ j ∈ q'.inFlight, j ≠ run.job.jobId ∧ j ∈ q.inFlight) → s'.HeldInMemory := by
    intro q' hq' hinFlight
    refine ⟨q', by rw [hqueue, hq'], fun j hj => ?_⟩
    obtain ⟨hne, hmem⟩ := hinFlight j hj
    rw [hafter]
    rcases Multiset.mem_add.mp (hheld j hmem) with hother | hself
    · exact Multiset.mem_add.mpr (Or.inl hother)
    · rw [RunTask.token] at hself
      split_ifs at hself
      · exact absurd (Multiset.mem_singleton.mp hself) hne
      · exact absurd hself (Multiset.notMem_zero j)
  have hlive : ∀ stage next', run.stage = stage → next = some next' →
      stage.live = next'.live → run.token ≤ tokenAfter run next := by
    rintro stage next' hpc rfl hlive
    simp [RunTask.token, tokenAfter, hpc, hlive]
  cases hmove with
  | returns result hpc => exact hsame rfl (hlive _ _ hpc rfl rfl)
  | fails hpc => exact hsame rfl (hlive _ _ hpc rfl rfl)
  | completesInMemory result q₁ hq₁ hpc =>
    obtain rfl := JobQueue.inMemory.inj (hq.symm.trans hq₁)
    exact hlands _ rfl fun j hj => InMemoryQueue.mem_inFlight_complete.mp hj
  | requeuesInMemory q₁ hq₁ hpc =>
    obtain rfl := JobQueue.inMemory.inj (hq.symm.trans hq₁)
    exact hlands _ rfl fun j hj => InMemoryQueue.mem_inFlight_requeue.mp hj
  | ends =>
    rcases runEffect_ends heffect with ⟨hdead, -⟩ | ⟨-, -, q₁, hq₁⟩
    · refine hsame rfl ?_
      rw [RunTask.token, hdead]
      exact Multiset.zero_le _
    · cases hq.symm.trans hq₁
  | completes _ _ hq₁ | requeues _ hq₁ | hdel _ hq₁ | rpush _ hq₁ => cases hq.symm.trans hq₁

/-- `_reclaim_jobs` puts nothing in flight. -/
theorem mem_of_mem_inFlight_reclaim {q : InMemoryQueue} {w i : Uuid}
    (h : i ∈ (q.reclaim w).inFlight) : i ∈ q.inFlight := by
  obtain ⟨job, hjob⟩ := OrderedDict.mem_iff_get?.mp h
  rw [get?_inFlight_reclaim] at hjob
  split_ifs at hjob
  exact OrderedDict.mem_of_get? hjob

/-- The same after a step about the workers. -/
theorem worker_held {s s' : SchedulerState} {l : SchedulerLabel} (hs : s.HeldInMemory)
    (hl : l.aboutWorkers = true) (h : s.step l = some s') : s'.HeldInMemory := by
  obtain ⟨q, hq, hheld⟩ := hs
  obtain ⟨hruns, hdispatch, -⟩ := worker_sameTasks h hl
  have hrunning : s'.board.running = s.board.running := by
    simp only [board, assignedJob, running, hruns, hdispatch]
  have hsame : s'.queue = s.queue → s'.HeldInMemory := fun hqueue =>
    ⟨q, hqueue.trans hq, fun i hi => hrunning ▸ hheld i hi⟩
  rcases worker_cases h hl with ⟨-, hqueue, -⟩ | ⟨r, t, next, -, hmove, -, hqueue, -⟩
  · exact hsame hqueue
  · cases hmove with
    | reclaims q₁ hq₁ hpc =>
      obtain rfl := JobQueue.inMemory.inj (hq.symm.trans hq₁)
      refine ⟨q.reclaim r.worker, hqueue, fun i hi => ?_⟩
      rw [hrunning]
      exact hheld i (mem_of_mem_inFlight_reclaim hi)
    | ends => exact hsame hqueue
    | notified q₁ hq₁ | fetches q₁ hq₁ | hdel q₁ _ _ hq₁ | rpush q₁ _ _ hq₁ | gives q₁ hq₁ =>
      cases hq.symm.trans hq₁

theorem step_backed {s s' : SchedulerState} {l : SchedulerLabel} (hs : s.Backed)
    (h : s.step l = some s') : s'.Backed := by
  rcases hs with hredis | hmemory
  · exact Or.inl (step_unassigned hredis h)
  · right
    cases l with
    | enqueue c im n =>
      cases h
      obtain ⟨q, hq, hheld⟩ := hmemory
      exact ⟨q.enqueue (.new s.pool.nextUuid c im n), by rw [hq]; rfl, hheld⟩
    | dispatch ok => exact dispatch_held hmemory (dispatchStep_cases h)
    | run i e => exact run_held hmemory h
    | completeExec i ok =>
      obtain ⟨_, _, q', hq', -, -⟩ := step_completeExec h
      obtain ⟨q, hq, -⟩ := hmemory
      cases hq.symm.trans hq'
    | _ => exact worker_held hmemory rfl h

theorem start_backed (n : ℕ) (q : StartQueue) (now : Time) : (start n q now).Backed := by
  rcases start_accounted n q now with ⟨hun, -, -⟩ | ⟨r, hr, -⟩
  · exact Or.inl hun
  · refine Or.inr ⟨r, hr, fun i hi => ?_⟩
    have hidle := q.idle
    rw [show q.queue = .inMemory r from hr] at hidle
    rw [show r.inFlight = .empty from hidle] at hi
    exact absurd hi (OrderedDict.notMem_empty i)

/-! ## Whole runs -/

/-- The jobs that `_reclaim_jobs` puts back in this step. -/
def reclaimedIds (s : SchedulerState) (l : SchedulerLabel) : List Uuid :=
  (s.reclaimed l).map Job.jobId

/-- What a run of the process is on the board. -/
structure RunEvents (s : SchedulerState) (ls : List SchedulerLabel) (t : SchedulerState)
    (es : List (BoardEvent Uuid)) : Prop where
  exec : Machine.exec Board.step s.board es = some t.board
  submitted : t.enqueued = s.enqueued ++ es.filterMap BoardEvent.submitted
  taken : t.calls.length = s.calls.length + (es.filterMap BoardEvent.taken).length
  finished : t.completions = s.completions ++ es.filterMap BoardEvent.finished
  repeated : es.filterMap BoardEvent.repeated = Machine.gather step reclaimedIds s ls
  lost : es.filterMap BoardEvent.lost = Machine.gather step dropped s ls

theorem RunEvents.cons {s s' t : SchedulerState} {l : SchedulerLabel} {ls : List SchedulerLabel}
    {es es' : List (BoardEvent Uuid)} (hstep : s.step l = some s') (h : s.Events l s' es)
    (h' : s'.RunEvents ls t es') : s.RunEvents (l :: ls) t (es ++ es') where
  exec := by rw [Machine.exec_append, h.exec, Option.bind_some, h'.exec]
  submitted := by rw [h'.submitted, h.submitted, List.filterMap_append, List.append_assoc]
  taken := by rw [h'.taken, h.taken, List.filterMap_append, List.length_append, Nat.add_assoc]
  finished := by rw [h'.finished, h.finished, List.filterMap_append, List.append_assoc]
  repeated := by
    rw [List.filterMap_append, h.repeated, h'.repeated, Machine.gather_cons_of_step _ hstep]
    rfl
  lost := by rw [List.filterMap_append, h.lost, h'.lost, Machine.gather_cons_of_step _ hstep]

/-- Every run from a state with the invariant is a run of the board. -/
theorem exec_events {s t : SchedulerState} {ls : List SchedulerLabel} (hs : s.Backed)
    (h : Machine.exec step s ls = some t) : ∃ es, s.RunEvents ls t es := by
  induction ls generalizing s with
  | nil =>
    cases h
    exact ⟨[], rfl, (List.append_nil _).symm, rfl, (List.append_nil _).symm, rfl, rfl⟩
  | cons l ls ih =>
    obtain ⟨s', hl, hrest⟩ := (Machine.exec_cons_eq_some step).mp h
    obtain ⟨es, hes⟩ := step_events hs hl
    obtain ⟨es', hes'⟩ := ih (step_backed hs hl) hrest
    exact ⟨es ++ es', .cons hl hes hes'⟩

/-- **The scheduler refines the board.**  On either backend, every run of the process is a
run of the board on which exactly the jobs that were enqueued are submitted, in that order, a
job is taken for each `mark_assigned`, exactly the completions are finished, only what
`_reclaim_jobs` requeued is put up again, and only what a Redis error dropped is lost. -/
theorem scheduler_refines_board (n : ℕ) (q : StartQueue) (now : Time) (ls : List SchedulerLabel)
    (s : SchedulerState) (h : Machine.exec step (start n q now) ls = some s) :
    ∃ es, (start n q now).RunEvents ls s es :=
  exec_events (start_backed n q now) h

/-- A job that is reclaimed from a worker while its task runs on is submitted, taken and put
up again. -/
theorem scheduler_refines_board_reclaimed :
    ∃ s, Machine.exec step (start 2 .inMemory 0) [.enqueue "c1" "sha256:1" "nginx",
        .dispatch true, .dispatch true, .delete 0, .recover 0 true] = some s ∧
      s.board.waiting = {2} ∧ s.board.running = {2} ∧
      ∃ es, (start 2 .inMemory 0).RunEvents [.enqueue "c1" "sha256:1" "nginx", .dispatch true,
        .dispatch true, .delete 0, .recover 0 true] s es := by
  refine ⟨_, rfl, rfl, rfl, ?_⟩
  exact scheduler_refines_board 2 .inMemory 0 _ _ rfl

/-- **The balance of the jobs.**  In every state that a run reaches: the jobs that were
enqueued, and those put back while they were running, are the jobs that are waiting, running
or done, and those that a Redis error dropped. -/
theorem jobs_balance (n : ℕ) (q : StartQueue) (now : Time) (ls : List SchedulerLabel)
    (s : SchedulerState) (h : Machine.exec step (start n q now) ls = some s) :
    (s.enqueued : Multiset Uuid) + (Machine.gather step reclaimedIds (start n q now) ls) =
      s.board.waiting + s.board.running + s.board.done +
        (Machine.gather step dropped (start n q now) ls) := by
  obtain ⟨es, hes⟩ := exec_events (start_backed n q now) h
  have hall := Board.exec_all hes.exec
  rw [← tokens_eq_board_all, start_tokens, hes.repeated, hes.lost, ← add_assoc, Multiset.coe_add]
    at hall
  rw [hes.submitted]
  exact hall

/-- After the reclaim above, the one job that was enqueued is waiting and running. -/
theorem jobs_balance_reclaimed :
    ∃ s, Machine.exec step (start 2 .inMemory 0) [.enqueue "c1" "sha256:1" "nginx",
        .dispatch true, .dispatch true, .delete 0, .recover 0 true] = some s ∧
      s.enqueued = [2] ∧ s.board.waiting + s.board.running + s.board.done = {2, 2} := by
  refine ⟨_, rfl, rfl, ?_⟩
  exact (jobs_balance 2 .inMemory 0 [.enqueue "c1" "sha256:1" "nginx", .dispatch true,
    .dispatch true, .delete 0, .recover 0 true] _ rfl).symm

end SchedulerState
end Rcsce
