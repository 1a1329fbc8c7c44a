import Rcsce.Scheduler.Tokens

/-!
# The load of a worker

`WorkerRegistry` counts for each worker the jobs assigned to it and completed by it, and
its load.  `LoadLedger` is the scheduler with a record of how each run went:
`mark_completed` or `mark_failed_or_requeued`.

* `WorkerInfo.Accounted` compares a record with what happened.
* `WorkerRegistry.Quiet` is what all operations but the three marks have in common: they
  leave the counters alone, and the load of a worker that is alive.
* `load_accounting_exact`: in every run of the process the counters of a worker that is
  alive are exact, and no clamp changes a value of such a worker.

Of a dead worker only the load is not exact: `mark_dead` resets it, and the runs that were
assigned before finish later.
-/

namespace Rcsce

/-! ## Counters that nothing changes -/

namespace WorkerInfo

/-- The counters are the same, and the load of a worker that is still alive. -/
structure Keeps (info info' : WorkerInfo) : Prop where
  jobsAssigned : info'.jobsAssigned = info.jobsAssigned
  jobsCompleted : info'.jobsCompleted = info.jobsCompleted
  eventsAssigned : info'.eventsAssigned = info.eventsAssigned
  eventsCompleted : info'.eventsCompleted = info.eventsCompleted
  load : info'.status = .alive → info.status = .alive ∧ info'.load = info.load

theorem Keeps.refl (info : WorkerInfo) : info.Keeps info := ⟨rfl, rfl, rfl, rfl, fun h => ⟨h, rfl⟩⟩

theorem Keeps.trans {info info' info'' : WorkerInfo} (h : info.Keeps info')
    (h' : info'.Keeps info'') : info.Keeps info'' := by
  refine ⟨h'.jobsAssigned.trans h.jobsAssigned, h'.jobsCompleted.trans h.jobsCompleted,
    h'.eventsAssigned.trans h.eventsAssigned, h'.eventsCompleted.trans h.eventsCompleted,
    fun halive => ?_⟩
  obtain ⟨halive', hload'⟩ := h'.load halive
  obtain ⟨halive₀, hload⟩ := h.load halive'
  exact ⟨halive₀, hload'.trans hload⟩

/-- The record of a worker to which `assigned` jobs were assigned, of which it completed
`completed` and has `active` still to finish. -/
structure Accounted (info : WorkerInfo) (assigned completed active : ℕ) : Prop where
  jobsAssigned : info.jobsAssigned = assigned
  jobsCompleted : info.jobsCompleted = completed
  eventsAssigned : info.eventsAssigned = assigned
  eventsCompleted : info.eventsCompleted = completed
  load : info.status = .alive → info.load = active

theorem Accounted.keeps {info info' : WorkerInfo} {assigned completed active : ℕ}
    (h : info.Accounted assigned completed active) (hkeeps : info.Keeps info') :
    info'.Accounted assigned completed active :=
  ⟨hkeeps.jobsAssigned.trans h.jobsAssigned, hkeeps.jobsCompleted.trans h.jobsCompleted,
    hkeeps.eventsAssigned.trans h.eventsAssigned, hkeeps.eventsCompleted.trans h.eventsCompleted,
    fun halive => (hkeeps.load halive).2.trans (h.load (hkeeps.load halive).1)⟩

theorem accounted_fresh (node : Option WorkerNode) (now : Time) :
    (WorkerRegistry.fresh node now).Accounted 0 0 0 := ⟨rfl, rfl, rfl, rfl, fun _ => rfl⟩

end WorkerInfo

namespace WorkerRegistry

/-- From `r` to `r'` no record goes away and no counter changes, and a new worker has
nothing to count. -/
structure Quiet (r r' : WorkerRegistry) : Prop where
  mem : ∀ w ∈ r.workers, w ∈ r'.workers
  kept : ∀ w info info', r.workers.get? w = some info → r'.workers.get? w = some info' →
    info.Keeps info'
  new : ∀ w info', r'.workers.get? w = some info' → w ∉ r.workers → info'.Accounted 0 0 0

theorem Quiet.refl (r : WorkerRegistry) : r.Quiet r := by
  refine ⟨fun _ h => h, fun w info info' h h' => ?_,
    fun w info' h hnot => absurd (OrderedDict.mem_of_get? h) hnot⟩
  obtain rfl := Option.some.inj (h.symm.trans h')
  exact .refl info

theorem Quiet.trans {r r' r'' : WorkerRegistry} (h : r.Quiet r') (h' : r'.Quiet r'') :
    r.Quiet r'' := by
  refine ⟨fun w hw => h'.mem w (h.mem w hw), fun w info info'' hinfo hinfo'' => ?_,
    fun w info'' hinfo'' hnot => ?_⟩
  · obtain ⟨info', hinfo'⟩ :=
      OrderedDict.mem_iff_get?.mp (h.mem w (OrderedDict.mem_of_get? hinfo))
    exact (h.kept w info info' hinfo hinfo').trans (h'.kept w info' info'' hinfo' hinfo'')
  · by_cases hw : w ∈ r'.workers
    · obtain ⟨info', hinfo'⟩ := OrderedDict.mem_iff_get?.mp hw
      exact (h.new w info' hinfo' hnot).keeps (h'.kept w info' info'' hinfo' hinfo'')
    · exact h'.new w info'' hinfo'' hw

/-- A record after an adjustment is the adjusted one, or another one as it was. -/
theorem get?_of_get?_adjust {r : WorkerRegistry} {w v : Uuid} {f : WorkerInfo → WorkerInfo}
    {info' : WorkerInfo} (h : (r.adjust w f).workers.get? v = some info') :
    (w = v ∧ ∃ info, r.workers.get? v = some info ∧ f info = info') ∨
      (w ≠ v ∧ r.workers.get? v = some info') := by
  rw [get?_adjust] at h
  split_ifs at h with hv
  · exact Or.inl ⟨hv.symm, Option.map_eq_some_iff.mp h⟩
  · exact Or.inr ⟨Ne.symm hv, h⟩

theorem quiet_adjust (r : WorkerRegistry) (w : Uuid) {f : WorkerInfo → WorkerInfo}
    (hf : ∀ info : WorkerInfo, info.Keeps (f info)) : r.Quiet (r.adjust w f) := by
  refine ⟨fun _ hv => mem_adjust.mpr hv, fun v info info' hinfo hinfo' => ?_,
    fun v info' hinfo' hnot => absurd (mem_adjust.mp (OrderedDict.mem_of_get? hinfo')) hnot⟩
  rcases get?_of_get?_adjust hinfo' with ⟨-, info₁, hinfo₁, rfl⟩ | ⟨-, hinfo₁⟩
  · obtain rfl := Option.some.inj (hinfo.symm.trans hinfo₁)
    exact hf info
  · obtain rfl := Option.some.inj (hinfo.symm.trans hinfo₁)
    exact .refl info

theorem quiet_heartbeat (r : WorkerRegistry) (w : Uuid) (now : Time) :
    r.Quiet (r.heartbeat w now) :=
  quiet_adjust r w fun _ => ⟨rfl, rfl, rfl, rfl, fun h => ⟨h, rfl⟩⟩

theorem quiet_markDead (r : WorkerRegistry) (w : Uuid) : r.Quiet (r.markDead w) :=
  quiet_adjust r w fun _ => ⟨rfl, rfl, rfl, rfl, fun h => nomatch h⟩

theorem quiet_register {r : WorkerRegistry} {w : Uuid} (h : w ∉ r.workers)
    (node : Option WorkerNode) (now : Time) : r.Quiet (r.register w node now) := by
  rw [register_of_notMem h]
  refine ⟨fun v hv => OrderedDict.mem_set.mpr (Or.inr hv), fun v info info' hinfo hinfo' => ?_,
    fun v info' hinfo' hnot => ?_⟩
  · have hne : v ≠ w := fun heq => h (heq ▸ OrderedDict.mem_of_get? hinfo)
    rw [OrderedDict.get?_set_of_ne _ _ hne, hinfo] at hinfo'
    rw [← Option.some.inj hinfo']
    exact .refl info
  · rw [OrderedDict.get?_set] at hinfo'
    split_ifs at hinfo'
    · rw [← Option.some.inj hinfo']
      exact WorkerInfo.accounted_fresh node now
    · exact absurd (OrderedDict.mem_of_get? hinfo') hnot

end WorkerRegistry

namespace WorkerPool

/-- `mark_completed`, `mark_failed_or_requeued`, or neither of them. -/
def mark (p : WorkerPool) (w : Uuid) : Option Bool → WorkerPool
  | some true => p.markCompleted w
  | some false => p.markFailedOrRequeued w
  | none => p

theorem registry_mark_true (p : WorkerPool) (w : Uuid) :
    (p.mark w (some true)).registry = p.registry.markCompleted w := rfl

theorem registry_mark_false (p : WorkerPool) (w : Uuid) :
    (p.mark w (some false)).registry = p.registry.markFailedOrRequeued w := rfl

/-- Every mark takes one from the load, where there is one to take. -/
theorem load_mark {p : WorkerPool} {w : Uuid} {info : WorkerInfo} (ok : Bool)
    (h : p.registry.workers.get? w = some info) :
    ∃ info', (p.mark w (some ok)).registry.workers.get? w = some info' ∧
      info'.load = info.load - 1 := by
  cases ok with
  | true =>
    rw [registry_mark_true, WorkerRegistry.markCompleted, WorkerRegistry.get?_adjust,
      if_pos rfl, h]
    exact ⟨_, rfl, rfl⟩
  | false =>
    rw [registry_mark_false, WorkerRegistry.markFailedOrRequeued, WorkerRegistry.get?_adjust,
      if_pos rfl, h]
    exact ⟨_, rfl, rfl⟩

theorem quiet_spawnWorkers (n : ℕ) (p : WorkerPool) (now : Time) :
    p.registry.Quiet (spawnWorkers n p now).registry := by
  induction n generalizing p with
  | zero => exact .refl _
  | succ n ih =>
    refine WorkerRegistry.Quiet.trans ?_ (ih (p.spawnOneWorker now))
    rw [spawnOneWorker]
    split_ifs
    · exact .refl _
    · exact WorkerRegistry.quiet_register p.nextUuid_notMem _ _

theorem quiet_replaceWorkerIfNeeded (p : WorkerPool) (dead : Uuid) (now : Time) :
    p.registry.Quiet (p.replaceWorkerIfNeeded dead now).registry := by
  rw [replaceWorkerIfNeeded]
  split_ifs
  · exact .refl _
  · exact .refl _
  · exact quiet_spawnWorkers (p.desiredWorkers - p.registry.aliveCount)
      { p with
        replacedDeadWorkers := p.replacedDeadWorkers ++ [dead]
        spawnedFor := p.spawnedFor ++ [dead] } now

theorem quiet_scaleWorkers (p : WorkerPool) (count : ℕ) (now : Time) :
    p.registry.Quiet (p.scaleWorkers count now).registry := by
  rw [scaleWorkers]
  split_ifs
  · exact .refl _
  · exact quiet_spawnWorkers _ p now

end WorkerPool

/-! ## Active jobs -/

/-- The task has executed neither `mark_completed` nor `mark_failed_or_requeued`. -/
def RunStage.unmarked : RunStage → Bool
  | .scanning => true
  | .caching _ => true
  | _ => false

/-- What the task executes next: `mark_completed`, which is `true`, or
`mark_failed_or_requeued`. -/
def RunStage.mark : RunStage → RunEvent → Option Bool
  | .scanning, .raises => some false
  | .caching _, .goesOn _ => some true
  | _, _ => none

/-- The task is one of the worker, and unmarked. -/
def RunTask.loads (w : Uuid) (run : RunTask) : Bool := run.workerId = w ∧ run.stage.unmarked

namespace SchedulerState

/-- The assignment that `dispatch_loop` is reporting, and has not yet made a task of. -/
def reportingTo (s : SchedulerState) (w : Uuid) : ℕ :=
  match s.dispatch with
  | .reporting v _ => if v = w then 1 else 0
  | _ => 0

/-- The jobs assigned to the worker whose `_run_job` has executed neither
`mark_completed` nor `mark_failed_or_requeued`. -/
def active (s : SchedulerState) (w : Uuid) : ℕ := s.reportingTo w + s.runs.countP (RunTask.loads w)

/-- The calls of `mark_assigned` for the worker. -/
def assignments (s : SchedulerState) (w : Uuid) : ℕ := s.calls.countP fun c => c.2 = w

/-- The worker that the step marks, and how. -/
def markOf (s : SchedulerState) : SchedulerLabel → Option (Uuid × Bool)
  | .run i e => s.runs[i]?.bind fun run => (run.stage.mark e).map fun ok => (run.workerId, ok)
  | _ => none

end SchedulerState

/-- The scheduler, and how the runs went. -/
structure LoadLedger where
  state : SchedulerState
  /-- A worker for each run that is marked, with `true` when it completed its job. -/
  outcomes : List (Uuid × Bool)

namespace LoadLedger

/-- One step. -/
def step (b : LoadLedger) (l : SchedulerLabel) : Option LoadLedger :=
  (b.state.step l).map fun s => ⟨s, b.outcomes ++ (b.state.markOf l).toList⟩

def start (n : ℕ) (q : StartQueue) (now : Time) : LoadLedger := ⟨.start n q now, []⟩

def completedRuns (b : LoadLedger) (w : Uuid) : ℕ := b.outcomes.count (w, true)

def failedRuns (b : LoadLedger) (w : Uuid) : ℕ := b.outcomes.count (w, false)

end LoadLedger

/-! ## What a step does to the books -/

namespace SchedulerState

/-- The dispatcher assigns a job, which is active then, or changes nothing that counts. -/
theorem dispatchStep_books {s s' : SchedulerState} {ok : Bool}
    (h : s.dispatchStep ok = some s') :
    (s'.pool = s.pool ∧ s'.calls = s.calls ∧ ∀ w, s'.active w = s.active w) ∨
      ∃ w, w ∈ s.pool.registry.workers ∧ s'.pool = s.pool.markAssigned w ∧
        s'.calls = s.calls ++ [(s.pool.registry, w)] ∧
        ∀ v, s'.active v = s.active v + if w = v then 1 else 0 := by
  by_cases hreporting : ∃ w job, s.dispatch = .reporting w job
  · obtain ⟨w, job, hpc⟩ := hreporting
    rw [dispatchStep, hpc] at h
    cases h
    refine Or.inl ⟨rfl, rfl, fun v => ?_⟩
    rw [active, active, reportingTo, reportingTo, hpc, List.countP_append, List.countP_singleton,
      RunTask.loads]
    simp [RunStage.unmarked, add_comm]
  · have hzero : ∀ v, s.reportingTo v = 0 := by
      intro v
      rw [reportingTo]
      split
      · rename_i w job hpc
        exact absurd ⟨w, job, hpc⟩ hreporting
      · rfl
    have hsame : ∀ {t : SchedulerState}, (∀ v, t.reportingTo v = 0) → t.runs = s.runs →
        ∀ v, t.active v = s.active v := by
      intro t ht hruns v
      rw [active, active, ht, hzero, hruns]
    cases dispatchStep_cases h with
    | assigns w job queue node htake hnode =>
      refine Or.inr ⟨w, ?_, rfl, rfl, fun v => ?_⟩
      · obtain ⟨info, hinfo, -⟩ := Option.bind_eq_some_iff.mp hnode
        exact OrderedDict.mem_of_get? hinfo
      · rw [active, active, hzero, zero_add, add_comm]
        rfl
    | launches w job hpc => exact absurd ⟨w, job, hpc⟩ hreporting
    | idle => exact Or.inl ⟨rfl, rfl, fun _ => rfl⟩
    | _ => exact Or.inl ⟨rfl, rfl, hsame (fun _ => rfl) rfl⟩

/-- A run is unmarked before it is marked, and only then. -/
theorem runEffect_books {s s' : SchedulerState} {run : RunTask} {e : RunEvent}
    {next : Option RunStage} (h : s.runEffect run e = some (s', next)) :
    s'.pool = s.pool.mark run.workerId (run.stage.mark e) ∧
      run.stage.unmarked = (next.any RunStage.unmarked || (run.stage.mark e).isSome) ∧
      (next.any RunStage.unmarked = true → run.stage.mark e = none) := by
  have hends : s.runEffect run e = some (s', none) → run.stage.unmarked = false := by
    intro hnone
    cases hstage : run.stage with
    | scanning => cases e <;> simp [runEffect, hstage] at hnone
    | caching => cases e <;> simp [runEffect, hstage] at hnone
    | _ => rfl
  have hmark : run.stage.unmarked = false → run.stage.mark e = none := by
    cases hstage : run.stage <;> simp [RunStage.unmarked, RunStage.mark]
  cases runEffect_cases h with
  | ends =>
    have hunmarked := hends h
    rw [hmark hunmarked, hunmarked]
    exact ⟨rfl, rfl, fun _ => rfl⟩
  | returns result hpc | fails hpc | completes result q hq hpc | completesInMemory result q hq hpc
  | requeues q hq hpc | requeuesInMemory q hq hpc | hdel q hq hpc | rpush q hq hpc =>
    rw [hpc]
    exact ⟨rfl, rfl, fun h => by first | rfl | cases h⟩

/-- What a step does to the books, with the mark that it sets. -/
inductive BookMove (s : SchedulerState) : Option (Uuid × Bool) → SchedulerState → Prop
  | quiet (s' : SchedulerState) (hquiet : s.pool.registry.Quiet s'.pool.registry)
      (hcalls : s'.calls = s.calls) (hactive : ∀ v, s'.active v = s.active v) : BookMove s none s'
  | assigns (s' : SchedulerState) (w : Uuid) (hw : w ∈ s.pool.registry.workers)
      (hpool : s'.pool = s.pool.markAssigned w)
      (hcalls : s'.calls = s.calls ++ [(s.pool.registry, w)])
      (hactive : ∀ v, s'.active v = s.active v + if w = v then 1 else 0) : BookMove s none s'
  | marks (s' : SchedulerState) (w : Uuid) (ok : Bool)
      (hpool : s'.pool = s.pool.mark w (some ok)) (hcalls : s'.calls = s.calls)
      (hactive : ∀ v, s.active v = s'.active v + if w = v then 1 else 0) :
      BookMove s (some (w, ok)) s'

theorem active_congr {s s' : SchedulerState} (hdispatch : s'.dispatch = s.dispatch)
    (hruns : s'.runs = s.runs) (w : Uuid) : s'.active w = s.active w := by
  rw [active, active, reportingTo, reportingTo, hdispatch, hruns]

theorem run_books {s s' : SchedulerState} {i : ℕ} {e : RunEvent}
    (h : s.step (.run i e) = some s') : s.BookMove (s.markOf (.run i e)) s' := by
  rw [step] at h
  split at h
  · cases h
  · rename_i run hrun
    obtain ⟨⟨t, next⟩, heffect, rfl⟩ := Option.map_eq_some_iff.mp h
    obtain ⟨hpool, hunmarked, hnext⟩ := runEffect_books heffect
    obtain ⟨hdispatch, hcalls⟩ := run_sameDispatch (runEffect_cases heffect)
    have hmark : s.markOf (.run i e) = (run.stage.mark e).map fun ok => (run.workerId, ok) := by
      rw [markOf, hrun, Option.bind_some]
    have hbefore : ∀ v, s.active v = s.reportingTo v + ((s.runs.eraseIdx i).countP
        (RunTask.loads v) + if run.loads v then 1 else 0) := by
      intro v
      rw [active, countP_eq_eraseIdx_add _ hrun]
    have hafter : ∀ v, ({ t with
        runs := advance s.runs i (next.map fun stage => { run with stage }) } :
          SchedulerState).active v = s.reportingTo v + ((s.runs.eraseIdx i).countP
            (RunTask.loads v) +
              if run.workerId = v ∧ next.any RunStage.unmarked = true then 1 else 0) := by
      intro v
      rw [active, countP_advance _ hrun, reportingTo, reportingTo, hdispatch]
      cases next with
      | none => simp
      | some stage => simp [RunTask.loads, List.countP_cons]
    rw [hmark]
    cases hmarked : run.stage.mark e with
    | none =>
      rw [hmarked] at hpool hunmarked
      refine .quiet _ (hpool ▸ .refl _) hcalls fun v => ?_
      rw [hbefore, hafter, RunTask.loads, hunmarked]
      simp
    | some ok =>
      rw [hmarked] at hpool hunmarked hnext
      refine .marks _ run.workerId ok hpool hcalls fun v => ?_
      have hdone : next.any RunStage.unmarked = false := by
        cases hany : next.any RunStage.unmarked with
        | false => rfl
        | true => cases hnext hany
      rw [hbefore, hafter, RunTask.loads, hunmarked, hdone]
      simp [add_assoc]

/-- The steps about the workers are quiet. -/
theorem quiet_recover {s s' : SchedulerState} {r : Recovery} {next : Option RecoveryStage}
    (h : s.RecoverMove r s' next) : s.pool.registry.Quiet s'.pool.registry := by
  rw [(recover_pool h).1]
  split_ifs
  · exact .refl _
  · exact WorkerPool.quiet_replaceWorkerIfNeeded _ _ _

theorem quiet_watch (s : SchedulerState) (now : Time) (l : List Uuid) :
    s.pool.registry.Quiet (s.watch now l).pool.registry := by
  rcases s.watch_cases now l with hend | ⟨w, rest, -, hdead⟩
  · rw [hend]
    exact .refl _
  · rw [hdead]
    exact WorkerRegistry.quiet_markDead _ w

theorem quiet_worker {s s' : SchedulerState} {l : SchedulerLabel} (h : s.step l = some s')
    (hl : l.aboutWorkers = true) : s.pool.registry.Quiet s'.pool.registry := by
  cases l with
  | clock =>
    cases h
    exact .refl _
  | heartbeat w =>
    cases h
    exact WorkerRegistry.quiet_heartbeat _ w _
  | scale count =>
    rw [step] at h
    split_ifs at h
    · cases h
      exact WorkerPool.quiet_scaleWorkers _ count _
    · cases h
      exact .refl _
  | delete w =>
    cases h
    rw [deleteStep]
    split
    · exact .refl _
    · split
      · exact WorkerPool.quiet_replaceWorkerIfNeeded _ w _
      · exact WorkerRegistry.quiet_markDead _ w
  | monitor ok =>
    rcases monitorStep_cases h with ⟨-, rfl⟩ | ⟨r, rest, now, t, next, -, hmove, hnext⟩
    · exact quiet_watch _ _ _
    · have hquiet := quiet_recover hmove
      rcases hnext with ⟨stage, -, rfl⟩ | ⟨-, rfl⟩
      · exact hquiet
      · exact hquiet.trans (quiet_watch t now rest)
  | recover i ok =>
    obtain ⟨r, t, next, -, hmove, rfl⟩ := step_recover h
    have hquiet := quiet_recover hmove
    exact hquiet
  | enqueue | dispatch | run | completeExec => cases hl

theorem step_books {s s' : SchedulerState} {l : SchedulerLabel} (h : s.step l = some s') :
    s.BookMove (s.markOf l) s' := by
  cases l with
  | dispatch ok =>
    rcases dispatchStep_books h with ⟨hpool, hcalls, hactive⟩ | ⟨w, hw, hpool, hcalls, hactive⟩
    · exact .quiet s' (hpool ▸ .refl _) hcalls hactive
    · exact .assigns s' w hw hpool hcalls hactive
  | run i e => exact run_books h
  | enqueue =>
    cases h
    exact .quiet _ (.refl _) rfl fun _ => rfl
  | completeExec i ok =>
    obtain ⟨_, _, _, _, _, rfl⟩ := step_completeExec h
    exact .quiet _ (.refl _) rfl fun _ => rfl
  | _ =>
    obtain ⟨hruns, hdispatch, -⟩ := worker_sameTasks h rfl
    have hcalls := (step_other_moves h (by simp)).1.2
    exact .quiet s' (quiet_worker h rfl) hcalls fun v => active_congr hdispatch hruns v

end SchedulerState

/-! ## The books balance -/

namespace WorkerInfo

variable {info : WorkerInfo} {assigned completed active : ℕ}

theorem Accounted.markAssigned (h : info.Accounted assigned completed active) :
    ({ info with
      load := info.load + 1
      jobsAssigned := info.jobsAssigned + 1
      eventsAssigned := info.eventsAssigned + 1 } : WorkerInfo).Accounted
        (assigned + 1) completed (active + 1) where
  jobsAssigned := congrArg (· + 1) h.jobsAssigned
  jobsCompleted := h.jobsCompleted
  eventsAssigned := congrArg (· + 1) h.eventsAssigned
  eventsCompleted := h.eventsCompleted
  load halive := congrArg (· + 1) (h.load halive)

theorem Accounted.markCompleted (h : info.Accounted assigned completed (active + 1)) :
    ({ info with
      load := info.load - 1
      jobsCompleted := info.jobsCompleted + 1
      eventsCompleted := info.eventsCompleted + 1 } : WorkerInfo).Accounted
        assigned (completed + 1) active where
  jobsAssigned := h.jobsAssigned
  jobsCompleted := congrArg (· + 1) h.jobsCompleted
  eventsAssigned := h.eventsAssigned
  eventsCompleted := congrArg (· + 1) h.eventsCompleted
  load halive := congrArg (· - 1) (h.load halive)

theorem Accounted.markFailed (h : info.Accounted assigned completed (active + 1)) :
    ({ info with load := info.load - 1 } : WorkerInfo).Accounted assigned completed active where
  jobsAssigned := h.jobsAssigned
  jobsCompleted := h.jobsCompleted
  eventsAssigned := h.eventsAssigned
  eventsCompleted := h.eventsCompleted
  load halive := congrArg (· - 1) (h.load halive)

end WorkerInfo

namespace LoadLedger

/-- Every assignment is active or has had its outcome, and the records say so. -/
structure Balanced (b : LoadLedger) : Prop where
  known : ∀ w, w ∉ b.state.pool.registry.workers → b.state.assignments w = 0
  balance : ∀ w, b.state.assignments w = b.completedRuns w + b.failedRuns w + b.state.active w
  accounted : ∀ w info, b.state.pool.registry.workers.get? w = some info →
    info.Accounted (b.state.assignments w) (b.completedRuns w) (b.state.active w)

/-- A worker that is new has nothing to count. -/
theorem Balanced.of_notMem {b : LoadLedger} (h : b.Balanced) {w : Uuid}
    (hw : w ∉ b.state.pool.registry.workers) :
    b.state.assignments w = 0 ∧ b.completedRuns w = 0 ∧ b.state.active w = 0 := by
  have hknown := h.known w hw
  have hbalance := h.balance w
  omega

theorem step_eq_some {b b' : LoadLedger} {l : SchedulerLabel} (h : b.step l = some b') :
    ∃ s', b.state.step l = some s' ∧
      b' = ⟨s', b.outcomes ++ (b.state.markOf l).toList⟩ := by
  obtain ⟨s', hs', rfl⟩ := Option.map_eq_some_iff.mp h
  exact ⟨s', hs', rfl⟩

/-- A quiet step keeps the balance. -/
theorem balanced_quiet {b : LoadLedger} {s' : SchedulerState} (hb : b.Balanced)
    (hquiet : b.state.pool.registry.Quiet s'.pool.registry) (hcalls : s'.calls = b.state.calls)
    (hactive : ∀ v, s'.active v = b.state.active v) : (⟨s', b.outcomes⟩ : LoadLedger).Balanced := by
  have hassignments : ∀ w, s'.assignments w = b.state.assignments w := fun w => by
    rw [SchedulerState.assignments, SchedulerState.assignments, hcalls]
  refine ⟨fun w hw => ?_, fun w => ?_, fun w info' hinfo' => ?_⟩
  · rw [hassignments]
    exact hb.known w fun hmem => hw (hquiet.mem w hmem)
  · rw [hassignments, hactive]
    exact hb.balance w
  · rw [hassignments, hactive]
    by_cases hw : w ∈ b.state.pool.registry.workers
    · obtain ⟨info, hinfo⟩ := OrderedDict.mem_iff_get?.mp hw
      exact (hb.accounted w info hinfo).keeps (hquiet.kept w info info' hinfo hinfo')
    · obtain ⟨hzero, hzero', hzero''⟩ := hb.of_notMem hw
      have hnew := hquiet.new w info' hinfo' hw
      rw [hzero, hzero'']
      exact hzero' ▸ hnew

/-- An assignment makes one more active job. -/
theorem balanced_assigns {b : LoadLedger} {s' : SchedulerState} {w : Uuid} (hb : b.Balanced)
    (hw : w ∈ b.state.pool.registry.workers) (hpool : s'.pool = b.state.pool.markAssigned w)
    (hcalls : s'.calls = b.state.calls ++ [(b.state.pool.registry, w)])
    (hactive : ∀ v, s'.active v = b.state.active v + if w = v then 1 else 0) :
    (⟨s', b.outcomes⟩ : LoadLedger).Balanced := by
  have hassignments : ∀ v, s'.assignments v = b.state.assignments v + if w = v then 1 else 0 :=
    fun v => by
      rw [SchedulerState.assignments, SchedulerState.assignments, hcalls, List.countP_append,
        List.countP_singleton]
      simp
  have hregistry : s'.pool.registry = b.state.pool.registry.markAssigned w :=
    congrArg WorkerPool.registry hpool
  refine ⟨fun v hv => ?_, fun v => ?_, fun v info' hinfo' => ?_⟩
  · rw [hregistry, WorkerRegistry.markAssigned, WorkerRegistry.mem_adjust] at hv
    have hne : w ≠ v := fun heq => hv (heq ▸ hw)
    rw [hassignments, if_neg hne, hb.known v hv]
  · have hbalance := hb.balance v
    show s'.assignments v = b.completedRuns v + b.failedRuns v + s'.active v
    rw [hassignments, hactive]
    omega
  · show info'.Accounted (s'.assignments v) (b.completedRuns v) (s'.active v)
    rw [hassignments, hactive]
    rw [hregistry, WorkerRegistry.markAssigned] at hinfo'
    rcases WorkerRegistry.get?_of_get?_adjust hinfo' with ⟨rfl, info, hinfo, rfl⟩ | ⟨hne, hinfo⟩
    · rw [if_pos rfl]
      exact (hb.accounted w info hinfo).markAssigned
    · rw [if_neg hne]
      exact hb.accounted v info' hinfo

/-- A mark turns an active job into an outcome. -/
theorem balanced_marks {b : LoadLedger} {s' : SchedulerState} {w : Uuid} {ok : Bool}
    (hb : b.Balanced) (hpool : s'.pool = b.state.pool.mark w (some ok))
    (hcalls : s'.calls = b.state.calls)
    (hactive : ∀ v, b.state.active v = s'.active v + if w = v then 1 else 0) :
    (⟨s', b.outcomes ++ [(w, ok)]⟩ : LoadLedger).Balanced := by
  have hassignments : ∀ v, s'.assignments v = b.state.assignments v := fun v => by
    rw [SchedulerState.assignments, SchedulerState.assignments, hcalls]
  have hcompleted : ∀ v, (⟨s', b.outcomes ++ [(w, ok)]⟩ : LoadLedger).completedRuns v =
      b.completedRuns v + if w = v ∧ ok = true then 1 else 0 := fun v => by
    simp [completedRuns, List.count_singleton]
  have hfailed : ∀ v, (⟨s', b.outcomes ++ [(w, ok)]⟩ : LoadLedger).failedRuns v =
      b.failedRuns v + if w = v ∧ ok = false then 1 else 0 := fun v => by
    simp [failedRuns, List.count_singleton]
  refine ⟨fun v hv => ?_, fun v => ?_, fun v info' hinfo' => ?_⟩
  · rw [hassignments]
    refine hb.known v fun hmem => hv ?_
    show v ∈ s'.pool.registry.workers
    rw [hpool]
    cases ok <;> exact WorkerRegistry.mem_adjust.mpr hmem
  · have hbalance := hb.balance v
    rw [hactive] at hbalance
    show s'.assignments v = _ + _ + s'.active v
    rw [hassignments, hcompleted, hfailed]
    cases ok <;> split_ifs at hbalance ⊢ <;> simp_all <;> omega
  · show info'.Accounted (s'.assignments v) _ (s'.active v)
    have haccounted := hb.accounted v
    have hget : (b.state.pool.mark w (some ok)).registry.workers.get? v = some info' :=
      hpool ▸ hinfo'
    rw [hactive] at haccounted
    rw [hassignments, hcompleted]
    cases ok with
    | true =>
      rw [WorkerPool.registry_mark_true, WorkerRegistry.markCompleted] at hget
      rcases WorkerRegistry.get?_of_get?_adjust hget with ⟨rfl, info, hinfo, rfl⟩ | ⟨hne, hinfo⟩
      · rw [if_pos rfl] at haccounted
        rw [if_pos ⟨rfl, rfl⟩]
        exact (haccounted info hinfo).markCompleted
      · rw [if_neg hne] at haccounted
        rw [if_neg fun h => hne h.1]
        exact haccounted info' hinfo
    | false =>
      rw [WorkerPool.registry_mark_false, WorkerRegistry.markFailedOrRequeued] at hget
      rw [if_neg fun h => Bool.false_ne_true h.2, add_zero]
      rcases WorkerRegistry.get?_of_get?_adjust hget with ⟨rfl, info, hinfo, rfl⟩ | ⟨hne, hinfo⟩
      · rw [if_pos rfl] at haccounted
        exact (haccounted info hinfo).markFailed
      · rw [if_neg hne] at haccounted
        exact haccounted info' hinfo

theorem step_balanced {b b' : LoadLedger} {l : SchedulerLabel} (hb : b.Balanced)
    (h : b.step l = some b') : b'.Balanced := by
  obtain ⟨s', hs', rfl⟩ := step_eq_some h
  have hmove := SchedulerState.step_books hs'
  generalize b.state.markOf l = mark at hmove
  cases hmove with
  | quiet _ hquiet hcalls hactive =>
    rw [Option.toList_none, List.append_nil]
    exact balanced_quiet hb hquiet hcalls hactive
  | assigns _ w hw hpool hcalls hactive =>
    rw [Option.toList_none, List.append_nil]
    exact balanced_assigns hb hw hpool hcalls hactive
  | marks _ w ok hpool hcalls hactive => exact balanced_marks hb hpool hcalls hactive

/-- A scheduler that has just started has empty books. -/
theorem balanced_start (n : ℕ) (q : StartQueue) (now : Time) : (start n q now).Balanced := by
  have hquiet := WorkerPool.quiet_spawnWorkers n (.new n q.nextUuid) now
  refine ⟨fun _ _ => rfl, fun _ => rfl, fun w info hinfo => ?_⟩
  exact hquiet.new w info hinfo (OrderedDict.notMem_empty w)

/-! ## Every run -/

/-- The counters of a worker that is alive. -/
structure LoadExact (b : LoadLedger) (w : Uuid) (info : WorkerInfo) : Prop where
  load : info.load = b.state.active w
  jobsAssigned : info.jobsAssigned = b.state.assignments w
  jobsCompleted : info.jobsCompleted = b.completedRuns w
  jobs : info.jobsAssigned = info.jobsCompleted + b.failedRuns w + info.load
  eventsAssigned : info.eventsAssigned = info.jobsAssigned
  eventsCompleted : info.eventsCompleted = info.jobsCompleted

/-- A mark of a worker that is alive takes one from its load, and the guard at the end of
a run changes nothing. -/
structure ClampsIdle (b : LoadLedger) (l : SchedulerLabel) (b' : LoadLedger) : Prop where
  marks : ∀ w ok info, b.state.markOf l = some (w, ok) →
    b.state.pool.registry.workers.get? w = some info → info.status = .alive →
      ∃ info', b'.state.pool.registry.workers.get? w = some info' ∧
        (info'.load : ℤ) = (info.load : ℤ) - 1
  guard : ∀ w, b'.state.pool.guardLoad w = b'.state.pool

theorem Balanced.loadExact {b : LoadLedger} (hb : b.Balanced) {w : Uuid} {info : WorkerInfo}
    (h : b.state.pool.registry.workers.get? w = some info) (halive : info.status = .alive) :
    b.LoadExact w info := by
  have hinfo := hb.accounted w info h
  have hload := hinfo.load halive
  refine ⟨hload, hinfo.jobsAssigned, hinfo.jobsCompleted, ?_,
    hinfo.eventsAssigned.trans hinfo.jobsAssigned.symm,
    hinfo.eventsCompleted.trans hinfo.jobsCompleted.symm⟩
  rw [hinfo.jobsAssigned, hinfo.jobsCompleted, hload]
  exact hb.balance w

theorem step_clampsIdle {b b' : LoadLedger} {l : SchedulerLabel} (hb : b.Balanced)
    (h : b.step l = some b') : b.ClampsIdle l b' := by
  obtain ⟨s', hs', rfl⟩ := step_eq_some h
  refine ⟨fun w ok info hmark hinfo halive => ?_, fun w => WorkerPool.guardLoad_eq _ w⟩
  have hmove := SchedulerState.step_books hs'
  rw [hmark] at hmove
  cases hmove with
  | marks _ _ _ hpool hcalls hactive =>
    obtain ⟨info', hinfo', hload'⟩ := WorkerPool.load_mark ok hinfo
    -- the run that is marked is one of the active ones
    have hone := hactive w
    rw [if_pos rfl, ← (hb.accounted w info hinfo).load halive] at hone
    refine ⟨info', ?_, ?_⟩
    · show s'.pool.registry.workers.get? w = some info'
      rw [hpool, hinfo']
    · omega

/-- **The load accounting is exact.**  In every state of every run the counters of a worker
that is alive are those of its jobs, and no clamp ever changes a value of such a worker. -/
theorem load_accounting_exact (n : ℕ) (q : StartQueue) (now : Time) (ls : List SchedulerLabel) :
    Machine.Visits step (fun b => ∀ w info,
        b.state.pool.registry.workers.get? w = some info → info.status = .alive →
          b.LoadExact w info) (start n q now) ls ∧
      Machine.Meets step ClampsIdle (start n q now) ls := by
  have hstart := balanced_start n q now
  have hmeets : Machine.Meets step (fun _ _ _ => True) (start n q now) ls :=
    fun _ _ _ _ _ _ _ => trivial
  refine ⟨(Machine.visits_of_meets (fun s l s' hs _ h => step_balanced hs h) hstart hmeets).mono
    fun b hb w info hinfo halive => hb.loadExact hinfo halive, ?_⟩
  exact Machine.Meets.of_invariant (fun s l s' hs _ h => step_balanced hs h)
    (fun s l s' hs _ h => step_clampsIdle hs h) hstart hmeets

end LoadLedger
end Rcsce
