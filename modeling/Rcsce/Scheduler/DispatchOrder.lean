import Rcsce.Lib.Fifo
import Rcsce.Scheduler.Drain

/-!
# Jobs are started in the order in which they came

A job waits in `pending`, or in the hands of the dispatcher between BLPOP and `mark_assigned`.
`line` is the order in which these will be started.  It is joined by what is enqueued, by a
failed job that `_run_job` puts back and by what `_reclaim_jobs` puts back, each at the end, and
left by a job that is assigned, or dropped with the dispatcher when Redis raises.

`dispatch_in_order` says that there is no other way into or out of the line, in every run on
either backend.  The branch of `dispatch_loop` that gives a job back because its worker has no
node would let a job lose its place; no run takes it, since a record is never removed and every
worker has a node (`Staffs`).
-/

namespace Rcsce
namespace SchedulerState

/-- The ids of the waiting jobs, the next one first. -/
def line (s : SchedulerState) : List Uuid :=
  s.unassignedJob.toList.map Job.jobId ++ s.queue.pendingIds

/-- What a `_run_job` puts back when it goes on. -/
def requeuedBy (s : SchedulerState) (run : RunTask) (ok : Bool) : List Uuid :=
  match run.stage, s.queue with
  | .failing, .inMemory _ => [run.job.jobId]
  | .requeueRpush, .redis _ => if ok then [run.job.jobId] else []
  | _, _ => []

/-- The jobs that join the line in this step. -/
def joined (s : SchedulerState) : SchedulerLabel → List Uuid
  | .enqueue _ _ _ => [s.pool.nextUuid]
  | .run i (.goesOn ok) => (s.runs[i]?.map fun run => s.requeuedBy run ok).getD []
  | l => s.reclaimedIds l

/-- The job that is assigned in this step: `mark_assigned` is called, and the dispatcher goes on
to report the job. -/
def started (s : SchedulerState) (l : SchedulerLabel) : List Uuid :=
  match s.step l with
  | none => []
  | some s' =>
      if s.calls.length < s'.calls.length then s'.assignedJob.toList.map Job.jobId else []

/-- The jobs that leave the line in this step: one that is assigned, or one that the dispatcher
holds when a Redis command ends it. -/
def departed (s : SchedulerState) : SchedulerLabel → List Uuid
  | .dispatch ok => s.started (.dispatch ok) ++ s.dropped (.dispatch ok)
  | _ => []

/-- The dispatcher is in `requeue`, with a job that it could not assign. -/
def GivesBack (s : SchedulerState) : Prop :=
  ∃ job, s.dispatch = .requeueHdel job ∨ s.dispatch = .requeueRpush job

/-- The process can serve the worker that the dispatcher has chosen, and reclaims only jobs that
run. -/
structure Staffs (s : SchedulerState) : Prop where
  backed : s.Backed
  staffed : s.pool.registry.Staffed
  chosen : ∀ w, s.waitingFor = some w → w ∈ s.pool.registry.workers
  keeps : ¬ s.GivesBack

theorem started_of_step {s s' : SchedulerState} {l : SchedulerLabel} (h : s.step l = some s') :
    s.started l =
      if s.calls.length < s'.calls.length then s'.assignedJob.toList.map Job.jobId else [] := by
  rw [started, h]

/-- A worker that the dispatcher has chosen has a node. -/
theorem Staffs.node_of_candidate {s : SchedulerState} (hs : s.Staffs) {w : Uuid}
    (h : s.Candidate w) : ∃ node, s.pool.registry.getWorker w = some node := by
  refine hs.staffed.getWorker ?_
  rcases h with ⟨-, rest, hworkers⟩ | hpc
  · exact (WorkerRegistry.leastLoaded_of_head hworkers).1.alive.mem
  · exact hs.chosen w (by rw [waitingFor, hpc])

theorem step_keeps {s s' : SchedulerState} {l : SchedulerLabel} (hs : s.Staffs)
    (h : s.step l = some s') : ¬ s'.GivesBack := by
  by_cases hl : ∃ ok, l = .dispatch ok
  · obtain ⟨ok, rfl⟩ := hl
    rintro ⟨job', hback⟩
    cases dispatchStep_cases h with
    | idle => exact hs.keeps ⟨job', hback⟩
    | refuses w job q hq hpc hnode =>
      obtain ⟨node, hnode'⟩ := hs.staffed.getWorker (hs.chosen w (by rw [waitingFor, hpc]))
      cases hnode.symm.trans hnode'
    | hdel q job hq hpc => exact hs.keeps ⟨job, Or.inl hpc⟩
    | _ => rcases hback with hback | hback <;> cases hback
  · rintro ⟨job, hback⟩
    rw [(step_other_moves h fun ok heq => hl ⟨ok, heq⟩).1.1] at hback
    exact hs.keeps ⟨job, hback⟩

theorem step_staffs {s s' : SchedulerState} {l : SchedulerLabel} (hs : s.Staffs)
    (h : s.step l = some s') : s'.Staffs :=
  ⟨step_backed hs.backed h, (step_pool h).2.1 hs.staffed, step_chosen hs.chosen h,
    step_keeps hs h⟩

theorem start_staffs (n : ℕ) (q : StartQueue) (now : Time) : (start n q now).Staffs := by
  refine ⟨start_backed n q now, (start_serving n q now).staffed, nofun, ?_⟩
  rintro ⟨job, hback⟩
  rcases hback with hback | hback <;> cases hback

/-! ## The dispatcher -/

theorem line_of_free {s : SchedulerState} (h : s.unassignedJob = none) :
    s.line = s.queue.pendingIds := by
  rw [line, h]
  rfl

theorem line_of_unassigned {s : SchedulerState} {job : Job} (h : s.unassignedJob = some job) :
    s.line = job.jobId :: s.queue.pendingIds := by
  rw [line, h]
  rfl

theorem unassigned_of_candidate {s : SchedulerState} {w : Uuid} (h : s.Candidate w) :
    s.unassignedJob = none := by
  rw [unassignedJob]
  rcases h with ⟨hpc, -⟩ | hpc <;> rw [hpc]

/-- The job that `dequeue` returns is the first in the line. -/
theorem line_of_takes {s : SchedulerState} {w : Uuid} {job : Job} {queue : JobQueue}
    (h : s.Takes w job queue) : s.line = job.jobId :: queue.pendingIds := by
  cases h with
  | redis q hq hpc =>
    rw [line_of_unassigned (show s.unassignedJob = some job by rw [unassignedJob, hpc]), hq]
  | inMemory q q' hq hpc htake =>
    rw [line_of_free (unassigned_of_candidate hpc), hq]
    exact pendingIds_of_dequeue htake

/-- The dispatcher serves the line in order. -/
theorem dispatch_inLine {s s' : SchedulerState} {ok : Bool} (hs : s.Staffs)
    (h : s.dispatchStep ok = some s') :
    Machine.InLine line joined departed s (.dispatch ok) s' := by
  obtain ⟨hstopped, hrunning⟩ := dispatch_dropped h
  have hstarted := started_of_step (s := s) (l := .dispatch ok) h
  -- a step in which the line stays
  have hstays : ¬ s'.Stopped → s'.calls = s.calls → s'.line = s.line →
      Machine.InLine line joined departed s (.dispatch ok) s' := by
    intro hrun hcalls hline
    have hnone : s.started (.dispatch ok) = [] := by
      rw [hstarted, hcalls, if_neg (Nat.lt_irrefl _)]
    rw [Machine.InLine, departed, hnone, hrunning hrun, hline]
    exact List.append_nil _
  have hmove := dispatchStep_cases h
  cases hmove with
  | idle =>
    refine hstays (fun hstop => ?_) rfl rfl
    rw [dispatchStep, hstop] at h
    cases h
  | waits w hpc =>
    refine hstays (by rintro ⟨⟩) rfl ?_
    rw [line_of_free (unassigned_of_candidate hpc), line_of_free rfl]
  | pops w q q' job hq hpc hpop =>
    refine hstays (by rintro ⟨⟩) rfl ?_
    rw [line_of_unassigned rfl, line_of_free (unassigned_of_candidate (Or.inr hpc)), hq]
    show _ = q.pendingIds
    rw [QueueStore.pendingIds, (QueueStore.blpop_eq_some.mp hpop).1]
    rfl
  | tracks w q job hq hpc =>
    refine hstays (by rintro ⟨⟩) rfl ?_
    rw [line_of_unassigned rfl,
      line_of_unassigned (show s.unassignedJob = some job by rw [unassignedJob, hpc]), hq]
    rfl
  | assigns w job queue node htake hnode =>
    have hgrown : s.calls.length < (s.calls ++ [(s.pool.registry, w)]).length := by
      rw [List.length_append]
      exact Nat.lt_succ_self _
    rw [Machine.InLine, departed, hstarted, if_pos hgrown, hrunning (by rintro ⟨⟩),
      line_of_takes htake, line_of_free rfl]
    show job.jobId :: queue.pendingIds ++ [] = _ :: (queue.assign job.jobId w).pendingIds
    rw [List.append_nil, JobQueue.pendingIds_assign]
    rfl
  | refuses w job q hq hpc hnode =>
    obtain ⟨node, hnode'⟩ := hs.staffed.getWorker (hs.chosen w (by rw [waitingFor, hpc]))
    cases hnode.symm.trans hnode'
  | refusesInMemory w job q q' hq hpc htake hnode =>
    obtain ⟨node, hnode'⟩ := hs.node_of_candidate hpc
    cases hnode.symm.trans hnode'
  | hdel q job hq hpc => exact absurd ⟨job, Or.inl hpc⟩ hs.keeps
  | rpush q job hq hpc => exact absurd ⟨job, Or.inr hpc⟩ hs.keeps
  | launches w job hpc =>
    refine hstays (by rintro ⟨⟩) rfl ?_
    rw [line_of_free rfl, line_of_free (by rw [unassignedJob, hpc])]
  | stops q hq =>
    rw [Machine.InLine, departed, hstarted, if_neg (Nat.lt_irrefl _), hstopped rfl, line,
      line_of_free (s := { s with dispatch := .stopped }) rfl]
    exact List.append_nil _

/-! ## The other steps -/

/-- A step that only adds to the line. -/
theorem inLine_of_joined {s s' : SchedulerState} {l : SchedulerLabel}
    (hdeparted : s.departed l = []) (hdispatch : s'.dispatch = s.dispatch)
    (hids : s'.queue.pendingIds = s.queue.pendingIds ++ s.joined l) :
    Machine.InLine line joined departed s l s' := by
  rw [Machine.InLine, hdeparted, line, line, unassignedJob_congr hdispatch, hids,
    List.append_assoc]
  rfl

/-- What a `_run_job` puts back is at the end of the queue. -/
theorem runMove_ids {s t : SchedulerState} {run : RunTask} {ok : Bool} {next : Option RunStage}
    (heffect : s.runEffect run (.goesOn ok) = some (t, next)) :
    t.queue.pendingIds = s.queue.pendingIds ++ s.requeuedBy run ok := by
  have hmove := runEffect_cases heffect
  cases hmove with
  | completes result q hq hpc =>
    simp only [requeuedBy, hpc, List.append_nil]
    rfl
  | requeues q hq hpc => simp only [requeuedBy, hpc, hq, List.append_nil]
  | completesInMemory result q hq hpc =>
    simp only [requeuedBy, hpc, hq, List.append_nil]
    exact InMemoryQueue.pendingIds_complete q run.job.jobId
  | requeuesInMemory q hq hpc =>
    simp only [requeuedBy, hpc, hq]
    exact InMemoryQueue.pendingIds_requeue q run.job
  | hdel q hq hpc =>
    simp only [requeuedBy, hpc, hq, List.append_nil]
    rfl
  | rpush q hq hpc =>
    simp only [requeuedBy, hpc, hq, if_true]
    exact QueueStore.pendingIds_rpush q run.job.reset
  | ends =>
    have hnone : s.requeuedBy run ok = [] := by
      rcases runEffect_ends heffect with ⟨hdead, -⟩ | ⟨rfl, -, q, hq⟩
      · cases hpc : run.stage with
        | reporting | requeued => simp only [requeuedBy, hpc]
        | _ =>
          rw [hpc] at hdead
          cases hdead
      · cases hpc : run.stage <;> simp [requeuedBy, hpc, hq]
    rw [hnone, List.append_nil]

theorem run_inLine {s s' : SchedulerState} {i : ℕ} {e : RunEvent}
    (h : s.step (.run i e) = some s') : Machine.InLine line joined departed s (.run i e) s' := by
  rw [step] at h
  split at h
  · cases h
  rename_i run hrun
  obtain ⟨⟨t, next⟩, heffect, rfl⟩ := Option.map_eq_some_iff.mp h
  refine inLine_of_joined rfl (run_sameDispatch (runEffect_cases heffect)).1 ?_
  show t.queue.pendingIds = _
  cases e with
  | goesOn ok =>
    rw [joined, hrun]
    exact runMove_ids heffect
  | returns | raises =>
    cases runEffect_cases heffect
    exact (List.append_nil _).symm

theorem step_inLine {s s' : SchedulerState} {l : SchedulerLabel} (hs : s.Staffs)
    (h : s.step l = some s') : Machine.InLine line joined departed s l s' := by
  cases l with
  | enqueue c im n =>
    cases h
    exact inLine_of_joined rfl rfl (JobQueue.pendingIds_enqueue _ _)
  | dispatch ok => exact dispatch_inLine hs h
  | run i e => exact run_inLine h
  | completeExec i ok =>
    obtain ⟨jobId, result, q, hq, -, rfl⟩ := step_completeExec h
    refine inLine_of_joined rfl rfl ?_
    rw [hq]
    split_ifs <;> exact (List.append_nil _).symm
  | _ =>
    obtain ⟨-, hdispatch, -⟩ := worker_sameTasks h rfl
    exact inLine_of_joined rfl hdispatch (worker_reclaims hs.backed rfl h).1

/-- **Jobs are started in the order in which they came.**  On either backend, between any two
states of a run: the jobs that were waiting at the beginning, followed by those that were
enqueued, requeued or reclaimed meanwhile in the order in which this happened, are the jobs that
were started or dropped meanwhile, in the order in which this happened, followed by those that
are waiting at the end. -/
theorem dispatch_in_order (n : ℕ) (q : StartQueue) (now : Time) (ls ls' : List SchedulerLabel)
    (s t : SchedulerState) (h : Machine.exec step (start n q now) ls = some s)
    (h' : Machine.exec step s ls' = some t) :
    s.line ++ Machine.gather step joined s ls' = Machine.gather step departed s ls' ++ t.line := by
  have hs : s.Staffs :=
    Machine.exec_invariant (fun _ _ _ hs hstep => step_staffs hs hstep) (start_staffs n q now) h
  exact Machine.exec_inLine (fun _ _ _ hs hstep => step_staffs hs hstep)
    (fun _ _ _ hs hstep => step_inLine hs hstep) hs h'

/-- The first of two jobs is started, fails and is put back behind a third; the second is dropped
when Redis raises. -/
theorem dispatch_in_order_requeued :
    ∃ s t ls, Machine.exec step (start 1 .redis 0) [.enqueue "c1" "sha256:1" "nginx",
        .enqueue "c2" "sha256:2" "redis"] = some s ∧ Machine.exec step s ls = some t ∧
      s.line = [1, 2] ∧ Machine.gather step joined s ls = [3, 1] ∧ t.line = [3, 1] ∧
      s.line ++ Machine.gather step joined s ls = Machine.gather step departed s ls ++ t.line := by
  refine ⟨_, _, [.dispatch true, .dispatch true, .dispatch true, .dispatch true, .dispatch true,
    .enqueue "c3" "sha256:3" "nginx", .run 0 .raises, .run 0 (.goesOn true),
    .run 0 (.goesOn true), .run 0 (.goesOn true), .dispatch true, .dispatch true,
    .dispatch false], by with_unfolding_all rfl, by with_unfolding_all rfl,
    by with_unfolding_all rfl, by with_unfolding_all rfl, by with_unfolding_all rfl, ?_⟩
  exact dispatch_in_order 1 .redis 0 [.enqueue "c1" "sha256:1" "nginx",
    .enqueue "c2" "sha256:2" "redis"] _ _ _ (by with_unfolding_all rfl)
    (by with_unfolding_all rfl)

end SchedulerState
end Rcsce
