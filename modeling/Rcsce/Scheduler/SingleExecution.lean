import Rcsce.Scheduler.Tokens

/-!
# No double execution

When no token is made but by `enqueue`, a job is never in two places.  Two kinds of
step break this, and `Orderly` excludes exactly them:

* `_reclaim_jobs` requeues a job, while the dispatcher or a `_run_job` still has it;
* a failing `_run_job` on Redis requeues its job, while it has not returned yet.

`single_execution` is the invariant over runs all of whose steps are orderly.
`reclaimed_job_runs_twice` is the run in which a worker is deleted while it is
scanning: its job is dispatched again and both tasks complete it.
-/

namespace Rcsce

/-- The task has completed its job and is reporting. -/
def RunStage.isReporting : RunStage → Bool
  | .reporting => true
  | _ => false

/-- The job of a task that is reporting. -/
def RunTask.report (run : RunTask) : Multiset Uuid :=
  if run.stage.isReporting then {run.job.jobId} else 0

namespace SchedulerState

/-- The jobs of the tasks that are reporting. -/
def reporting (s : SchedulerState) : Multiset Uuid := (s.runs.map RunTask.report).sum

/-- No two unfinished `_run_job` tasks have the same job, no pending job has one, no
job is completed twice, and the workers' counters together do not exceed the number of
jobs enqueued. -/
structure SingleExecution (s : SchedulerState) : Prop where
  oneTask : (s.runs.map fun run => run.job.jobId).Nodup
  notPending : ∀ run ∈ s.runs, run.job.jobId ∉ s.queue.pendingIds
  completedOnce : s.completions.Nodup
  total : s.pool.registry.totalCompleted ≤ s.enqueued.toFinset.card

/-- The step is the RPUSH by which a failing `_run_job` requeues its job. -/
def RequeuesRun (s : SchedulerState) (l : SchedulerLabel) : Prop :=
  ∃ i run, l = .run i (.goesOn true) ∧ s.runs[i]? = some run ∧ run.stage = .requeueRpush

/-- The step neither reclaims a job nor requeues the job of a failing task on Redis. -/
def Orderly (s : SchedulerState) (l : SchedulerLabel) (_ : SchedulerState) : Prop :=
  s.reclaimed l = [] ∧ ¬ s.RequeuesRun l

/-- The invariant. -/
structure Single (s : SchedulerState) : Prop where
  token : s.OneToken
  known : ∀ i ∈ s.tokens, i ∈ s.enqueued
  reportedOnce : s.reporting.Nodup
  reportedDone : ∀ i ∈ s.reporting, i ∈ s.completions
  returned : ∀ run ∈ s.runs, run.stage ≠ .requeued
  counted : s.pool.registry.totalCompleted ≤ s.completions.length

/-! ## From the invariant to the property -/

/-- An unfinished task has its token or is reporting. -/
theorem token_add_report {run : RunTask} (h : run.stage ≠ .requeued) :
    run.token + run.report = {run.job.jobId} := by
  rw [RunTask.token, RunTask.report]
  cases hstage : run.stage with
  | requeued => exact absurd hstage h
  | reporting => exact zero_add _
  | _ => exact add_zero _

theorem running_add_reporting {s : SchedulerState} (h : ∀ run ∈ s.runs, run.stage ≠ .requeued) :
    s.running + s.reporting = (s.runs.map fun run => run.job.jobId : List Uuid) := by
  rw [running, reporting]
  generalize s.runs = runs at h
  induction runs with
  | nil => rfl
  | cons run runs ih =>
    rw [List.map_cons, List.map_cons, List.map_cons, List.sum_cons, List.sum_cons,
      coe_cons_eq_add, ← ih fun r hr => h r (List.mem_cons_of_mem _ hr),
      ← token_add_report (h run List.mem_cons_self)]
    abel

theorem Single.singleExecution {s : SchedulerState} (hs : s.Single) : s.SingleExecution := by
  have honce := hs.token.once
  rw [tokens, Multiset.nodup_add, Multiset.nodup_add] at honce
  obtain ⟨⟨hcomp, -, hcompWaiting⟩, hrunning, hdisj⟩ := honce
  rw [Multiset.disjoint_add_left] at hdisj
  obtain ⟨hcompRunning, hwaitingRunning⟩ := hdisj
  have hunfinished := running_add_reporting hs.returned
  constructor
  · rw [← Multiset.coe_nodup, ← hunfinished, Multiset.nodup_add]
    refine ⟨hrunning, hs.reportedOnce, ?_⟩
    rw [Multiset.disjoint_left]
    intro i hi hi'
    exact Multiset.disjoint_left.mp hcompRunning (Multiset.mem_coe.mpr (hs.reportedDone i hi')) hi
  · intro run hrun hpending
    have hmem : run.job.jobId ∈ s.running + s.reporting := by
      rw [hunfinished, Multiset.mem_coe]
      exact List.mem_map.mpr ⟨run, hrun, rfl⟩
    have hwaiting : run.job.jobId ∈ (s.queue.pendingIds : Multiset Uuid) + s.held :=
      Multiset.mem_add.mpr (Or.inl (Multiset.mem_coe.mpr hpending))
    rcases Multiset.mem_add.mp hmem with htoken | hreport
    · exact Multiset.disjoint_left.mp hwaitingRunning hwaiting htoken
    · exact Multiset.disjoint_left.mp hcompWaiting
        (Multiset.mem_coe.mpr (hs.reportedDone _ hreport)) hwaiting
  · exact Multiset.coe_nodup.mp hcomp
  · have hcard : s.completions.length = s.completions.toFinset.card :=
      (List.toFinset_card_of_nodup (Multiset.coe_nodup.mp hcomp)).symm
    refine hs.counted.trans (hcard.le.trans (Finset.card_le_card fun i hi => ?_))
    rw [List.mem_toFinset] at hi ⊢
    refine hs.known i ?_
    rw [tokens, Multiset.mem_add, Multiset.mem_add]
    exact Or.inl (Or.inl (Multiset.mem_coe.mpr hi))

/-! ## One step -/

/-- The job that a task is reporting after a step. -/
def reportAfter (run : RunTask) (next : Option RunStage) : Multiset Uuid :=
  ((next.map fun stage => { run with stage }).map RunTask.report).getD 0

/-- A step of a task completes its job and begins to report it, or neither. -/
theorem run_report {s s' : SchedulerState} {run : RunTask} {e : RunEvent}
    {next : Option RunStage} (h : s.RunMove run e s' next) :
    (run.token = {run.job.jobId} ∧ s'.completions = s.completions ++ [run.job.jobId] ∧
        reportAfter run next = {run.job.jobId}) ∨
      s'.completions = s.completions ∧ reportAfter run next = 0 := by
  cases h with
  | completes result q hq hpc => exact Or.inl ⟨by rw [RunTask.token, hpc]; rfl, rfl, rfl⟩
  | completesInMemory result q hq hpc => exact Or.inl ⟨by rw [RunTask.token, hpc]; rfl, rfl, rfl⟩
  | _ => exact Or.inr ⟨rfl, rfl⟩

/-- The job of a task that has its token is not completed. -/
theorem not_completed_of_token {s : SchedulerState} (hs : s.OneToken) {i : ℕ} {run : RunTask}
    (hrun : s.runs[i]? = some run) (htoken : run.token = {run.job.jobId}) :
    run.job.jobId ∉ s.completions := by
  have honce := hs.once
  rw [tokens, running, sum_map_eq_add_eraseIdx _ hrun, htoken, Multiset.nodup_add,
    Multiset.disjoint_add_left] at honce
  intro hmem
  exact Multiset.disjoint_left.mp honce.2.2.1 (Multiset.mem_coe.mpr hmem)
    (Multiset.mem_add.mpr (Or.inl (Multiset.mem_singleton_self _)))

/-- The reports of a step. -/
theorem step_reporting {s s' : SchedulerState} {l : SchedulerLabel} (hs : s.Single)
    (h : s.step l = some s') :
    s'.reporting.Nodup ∧ ∀ i ∈ s'.reporting, i ∈ s'.completions := by
  by_cases hl : ∃ i e, l = .run i e
  · obtain ⟨i, e, rfl⟩ := hl
    obtain ⟨run, t, next, hrun, hmove, rfl⟩ := step_run h
    set rest := ((s.runs.eraseIdx i).map RunTask.report).sum with hrest
    have hbefore : s.reporting = run.report + rest := sum_map_eq_add_eraseIdx _ hrun
    have hafter : ({ t with
        runs := advance s.runs i (next.map fun stage => { run with stage }) } :
          SchedulerState).reporting = reportAfter run next + rest := sum_map_advance _ hrun _
    have hle : rest ≤ s.reporting := by
      rw [hbefore]
      exact Multiset.le_add_left _ _
    have hrestNodup := Multiset.nodup_of_le hle hs.reportedOnce
    have hrestDone : ∀ j ∈ rest, j ∈ s.completions := fun j hj =>
      hs.reportedDone j (Multiset.mem_of_le hle hj)
    rw [hafter]
    rcases run_report hmove with ⟨htoken, hcomp, hreport⟩ | ⟨hcomp, hreport⟩
    · rw [hreport]
      -- the job had its token until now, so it was not completed, hence not reported
      have hnew := not_completed_of_token hs.token hrun htoken
      constructor
      · rw [Multiset.singleton_add, Multiset.nodup_cons]
        exact ⟨fun hmem => hnew (hrestDone _ hmem), hrestNodup⟩
      · intro j hj
        show j ∈ t.completions
        rw [hcomp]
        rcases Multiset.mem_add.mp hj with hself | hother
        · exact List.mem_append_right _ (List.mem_singleton.mpr (Multiset.mem_singleton.mp hself))
        · exact List.mem_append_left _ (hrestDone j hother)
    · rw [hreport, zero_add]
      refine ⟨hrestNodup, fun j hj => ?_⟩
      show j ∈ t.completions
      rw [hcomp]
      exact hrestDone j hj
  · obtain ⟨hcomp, hruns⟩ := step_tasks h fun i e heq => hl ⟨i, e, heq⟩
    have hsame : s'.reporting = s.reporting := by
      rw [reporting, reporting]
      rcases hruns with heq | ⟨job, w, heq⟩
      · rw [heq]
      · rw [heq, List.map_append, List.sum_append]
        exact add_zero _
    rw [hsame, hcomp]
    exact ⟨hs.reportedOnce, hs.reportedDone⟩

/-- No task is between the RPUSH of its `requeue` and its end. -/
theorem step_returned {s s' : SchedulerState} {l : SchedulerLabel}
    (hs : ∀ run ∈ s.runs, run.stage ≠ .requeued) (hl : ¬ s.RequeuesRun l)
    (h : s.step l = some s') : ∀ run ∈ s'.runs, run.stage ≠ .requeued := by
  by_cases hrunl : ∃ i e, l = .run i e
  · obtain ⟨i, e, rfl⟩ := hrunl
    obtain ⟨run, t, next, hrun, hmove, rfl⟩ := step_run h
    intro r hr
    rcases mem_of_mem_advance hrun hr with hnew | hold
    · obtain ⟨stage, hstage, rfl⟩ := Option.map_eq_some_iff.mp hnew
      rintro rfl
      cases hmove with
      | rpush q hq hpc => exact hl ⟨i, run, rfl, hrun, hpc⟩
      | _ => cases hstage
    · exact hs r hold
  · obtain ⟨-, hruns⟩ := step_tasks h fun i e heq => hrunl ⟨i, e, heq⟩
    intro r hr
    rcases hruns with heq | ⟨job, w, heq⟩
    · exact hs r (heq ▸ hr)
    · rw [heq] at hr
      rcases List.mem_append.mp hr with hold | hnew
      · exact hs r hold
      · rw [List.mem_singleton.mp hnew]
        exact nofun

/-- **The step of the invariant.**  Every orderly step keeps it. -/
theorem step_single {s s' : SchedulerState} {l : SchedulerLabel} (hs : s.Single)
    (hl : s.Orderly l s') (h : s.step l = some s') : s'.Single := by
  obtain ⟨hreports, hdone⟩ := step_reporting hs h
  refine ⟨step_oneToken hs.token hl.1 h, fun i hi => ?_, hreports, hdone,
    step_returned hs.returned hl.2 h, step_total_le hs.counted h⟩
  have henq := step_enqueued h
  rcases step_tokens h hl.1 with hle | ⟨htokens, -, hnew⟩
  · exact henq (hs.known i (Multiset.mem_of_le hle hi))
  · rw [htokens] at hi
    rcases Multiset.mem_cons.mp hi with rfl | hold
    · rw [hnew]
      exact List.mem_append_right _ (List.mem_singleton.mpr rfl)
    · exact henq (hs.known i hold)

/-! ## Whole runs -/

theorem start_single (n : ℕ) (q : StartQueue) (now : Time) : (start n q now).Single := by
  have hspawned := (WorkerPool.new n q.nextUuid).spawned_spawnWorkers n now
  refine ⟨start_oneToken n q now, fun i hi => ?_, Multiset.nodup_zero, ?_, ?_,
    hspawned.total.le⟩
  · rw [start_tokens, Multiset.mem_coe] at hi
    exact hi
  · exact fun i hi => absurd hi (Multiset.notMem_zero i)
  · exact fun run hrun => absurd hrun List.not_mem_nil

/-- **No double execution.**  In every run all of whose steps are orderly, no job has two
unfinished tasks, none is pending while it has one, none is completed twice, and the
workers' counters together never exceed the number of jobs enqueued. -/
theorem single_execution (n : ℕ) (q : StartQueue) (now : Time) (ls : List SchedulerLabel)
    (h : Machine.Meets step Orderly (start n q now) ls) :
    Machine.Visits step SingleExecution (start n q now) ls := by
  have hvisits : Machine.Visits step Single (start n q now) ls := by
    refine Machine.visits_of_meets ?_ (start_single n q now) h
    intro s l s' hs hl hstep
    exact step_single hs hl hstep
  exact hvisits.mono fun _ hs => hs.singleExecution

/-- One job on the in-memory queue, from `enqueue` to its completion. -/
theorem single_execution_of_one_job :
    Machine.Visits step SingleExecution (start 1 .inMemory 0)
      [.enqueue "c1" "sha256:1" "nginx", .dispatch true, .dispatch true, .run 0 (.returns .null),
        .run 0 (.goesOn true)] := by
  refine single_execution 1 .inMemory 0 _ ?_
  refine .cons_of_step rfl ⟨rfl, ?_⟩ <| .cons_of_step rfl ⟨rfl, ?_⟩ <|
    .cons_of_step rfl ⟨rfl, ?_⟩ <| .cons_of_step rfl ⟨rfl, ?_⟩ <|
      .cons_of_step rfl ⟨rfl, ?_⟩ Machine.meets_nil
  all_goals
    rintro ⟨i, run, hl, hrun, hpc⟩
    cases hl
  cases hrun
  cases hpc

/-- Worker 0 is deleted while it scans job 2.  The job is requeued and dispatched to
worker 1, both tasks go on, and both complete it. -/
theorem reclaimed_job_runs_twice :
    ∃ s, Machine.exec step (start 2 .inMemory 0)
        [.enqueue "c1" "sha256:1" "nginx", .dispatch true, .dispatch true, .delete 0,
          .recover 0 true, .dispatch true, .dispatch true, .run 0 (.returns .null),
          .run 1 (.returns .null), .run 0 (.goesOn true), .run 1 (.goesOn true)] = some s ∧
      s.enqueued = [2] ∧ s.completions = [2, 2] ∧ s.pool.registry.totalCompleted = 2 ∧
      (s.runs.map fun run => run.job.jobId) = [2, 2] ∧ ¬ s.SingleExecution := by
  refine ⟨_, rfl, rfl, rfl, by decide, rfl, fun hs => ?_⟩
  exact absurd hs.completedOnce (by decide)

end SchedulerState
end Rcsce
