import Rcsce.Lib.Progress
import Rcsce.Scheduler.JobBoard
import Rcsce.Scheduler.LeastLoaded
import Rcsce.Scheduler.PoolSize

/-!
# The scheduler can finish what it has accepted

The coroutines of the scheduler wait for each other in many places: the dispatcher for a
worker and for a job, a failed job for its `requeue`, a pool without workers for the handler
that fills it up.  `scheduler_drains` says that they never wait in a circle.  As long as no
Redis command raises, every state that a run reaches can go on, by steps of its own
coroutines alone, to one in which every accepted job is completed and nothing is left to do.

* `Serving` is the invariant of the states from which this works: there is a handler that
  will fill an empty pool, every worker has a node, and no coroutine of the in-memory queue
  waits for Redis.
* `reaches_staffed` ends one handling, if no worker is alive.
* `todo` is what is left to do, and `exists_step` a step that leaves less of it.
-/

namespace Rcsce

/-- No Redis command of the step raises. -/
def SchedulerLabel.ok : SchedulerLabel → Bool
  | .dispatch ok | .run _ (.goesOn ok) | .completeExec _ ok | .monitor ok | .recover _ ok => ok
  | _ => true

/-- A step of the coroutines of the process, in which nothing raises. -/
def SchedulerLabel.own : SchedulerLabel → Bool
  | .dispatch ok | .run _ (.goesOn ok) | .monitor ok | .recover _ ok => ok
  | .run _ (.returns _) => true
  | _ => false

/-- How many steps a task has to go at most, and what it then leaves to do. -/
def RunStage.left : RunStage → ℕ
  | .scanning => 3
  | .caching _ => 2
  | .reporting => 1
  | .failing => 12
  | .requeueHdel => 11
  | .requeueRpush => 10
  | .requeued => 1

/-- The same for the dispatcher, up to its next wait. -/
def DispatchPc.left : DispatchPc → ℕ
  | .top => 1
  | .waiting _ => 0
  | .popped _ _ => 7
  | .tracked _ _ => 6
  | .requeueHdel _ => 11
  | .requeueRpush _ => 10
  | .reporting _ _ => 5
  | .stopped => 0

/-! ## The pool -/

/-- Every worker has a node. -/
def WorkerRegistry.Staffed (r : WorkerRegistry) : Prop :=
  ∀ w info, r.workers.get? w = some info → info.node.isSome

namespace WorkerRegistry

theorem Evolves.staffed {r r' : WorkerRegistry} (h : r.Evolves r') (hr : r.Staffed) :
    r'.Staffed := by
  intro w info' hw'
  by_cases hmem : w ∈ r.workers
  · obtain ⟨info, hw⟩ := OrderedDict.mem_iff_get?.mp hmem
    obtain ⟨info₂, hw₂, hnode, -⟩ := h.kept w info hw
    obtain rfl : info₂ = info' := Option.some.inj (hw₂.symm.trans hw')
    rw [hnode]
    exact hr w info hw
  · exact (h.new w info' hw' hmem).2

theorem Staffed.markAssigned {r : WorkerRegistry} (hr : r.Staffed) (w : Uuid) :
    (r.markAssigned w).Staffed := by
  intro v info hv
  rw [WorkerRegistry.markAssigned, get?_adjust] at hv
  split_ifs at hv
  · obtain ⟨old, hold, rfl⟩ := Option.map_eq_some_iff.mp hv
    exact hr v old hold
  · exact hr v info hv

/-- A worker of a staffed registry has a node. -/
theorem Staffed.getWorker {r : WorkerRegistry} (hr : r.Staffed) {w : Uuid} (hw : w ∈ r.workers) :
    ∃ node, r.getWorker w = some node := by
  obtain ⟨info, hinfo⟩ := OrderedDict.mem_iff_get?.mp hw
  obtain ⟨node, hnode⟩ := Option.isSome_iff_exists.mp (hr w info hinfo)
  exact ⟨node, by rw [WorkerRegistry.getWorker, hinfo, Option.bind_some, hnode]⟩

/-- When nobody is alive, every worker is dead. -/
theorem dead_of_aliveCount {r : WorkerRegistry} (h : r.aliveCount = 0) {w : Uuid}
    (hw : w ∈ r.workers) : r.Dead w := by
  obtain ⟨info, hinfo⟩ := OrderedDict.mem_iff_get?.mp hw
  refine ⟨info, hinfo, ?_⟩
  have hnot := List.countP_eq_zero.mp h info (OrderedDict.mem_values_iff.mpr ⟨w, hinfo⟩)
  cases hs : info.status with
  | dead => rfl
  | alive => exact absurd (decide_eq_true hs) hnot

/-- When somebody is, `available_workers` is not empty. -/
theorem Staffed.availableWorkers {r : WorkerRegistry} (hr : r.Staffed) (h : 0 < r.aliveCount) :
    ∃ w rest, r.availableWorkers = w :: rest := by
  obtain ⟨info, hinfo, halive⟩ := List.countP_pos_iff.mp h
  obtain ⟨w, hw⟩ := OrderedDict.mem_values_iff.mp hinfo
  have hav : info.available := available_iff.mpr ⟨of_decide_eq_true halive, hr w info hw⟩
  have hmem : w ∈ r.availableWorkers := mem_availableWorkers.mpr ⟨info, hw, hav⟩
  exact List.exists_cons_of_ne_nil (List.ne_nil_of_mem hmem)

end WorkerRegistry

theorem PoolMove.desired {v v' : PoolView} (h : PoolMove v v') :
    v'.pool.desiredWorkers = v.pool.desiredWorkers := by
  cases h with
  | handled p _ _ w now => exact (p.replaceWorkerIfNeeded_keeps w now).2.1
  | repeated _ w now _ => exact (v.pool.replaceWorkerIfNeeded_keeps w now).2.1
  | scale _ count now => exact (v.pool.spawned_scaleWorkers count now).desired
  | adjust | complete | draw | kill => rfl

namespace SchedulerState

/-- What every step keeps of the pool. -/
theorem step_pool {s s' : SchedulerState} {l : SchedulerLabel} (h : s.step l = some s') :
    (∀ w ∈ s.pool.registry.workers, w ∈ s'.pool.registry.workers) ∧
      (s.pool.registry.Staffed → s'.pool.registry.Staffed) ∧
        s'.pool.desiredWorkers = s.pool.desiredWorkers := by
  rcases step_moves h with ⟨w, hview⟩ | hmoves
  · have hpool : s'.pool = s.pool.markAssigned w := congrArg PoolView.pool hview
    rw [hpool]
    exact ⟨fun v hv => WorkerRegistry.mem_adjust.mpr hv, fun hs => hs.markAssigned w, rfl⟩
  · refine ⟨fun w hw => hmoves.evolves.mem hw, fun hs => hmoves.evolves.staffed hs, ?_⟩
    exact hmoves.invariant (I := fun v => v.pool.desiredWorkers = s.pool.desiredWorkers)
      (fun v v' hv hmove => hmove.desired.trans hv) rfl

/-! ## The invariant -/

/-- No coroutine of a process with the in-memory queue is before a Redis command. -/
structure OffRedis (s : SchedulerState) : Prop where
  dispatch : s.unassignedJob = none
  runs : ∀ run ∈ s.runs, run.stage.beforeCommand = false
  recoveries : ∀ r, s.Recovering r → r.stage = .notifying

/-- What a process in which no Redis command has raised keeps. -/
structure Serving (n : ℕ) (s : SchedulerState) : Prop where
  backed : s.Backed
  sized : Sized s.view
  desired : s.pool.desiredWorkers = n
  staffed : s.pool.registry.Staffed
  /-- The worker that the dispatcher has chosen is one of the registry. -/
  chosen : ∀ w, s.waitingFor = some w → w ∈ s.pool.registry.workers
  /-- So are those that the monitor has still to look at. -/
  passed : ∀ r rest now, s.monitor = .recovering r rest now →
    ∀ w ∈ rest, w ∈ s.pool.registry.workers
  offRedis : ∀ q, s.queue = .inMemory q → s.OffRedis
  running : ¬ s.Stopped
  /-- Every accepted job is on the board. -/
  accepted : ∀ i ∈ s.enqueued, i ∈ s.board.all

theorem unassignedJob_congr {s s' : SchedulerState} (h : s'.dispatch = s.dispatch) :
    s'.unassignedJob = s.unassignedJob := by
  rw [unassignedJob, unassignedJob, h]

theorem step_chosen {s s' : SchedulerState} {l : SchedulerLabel}
    (hs : ∀ w, s.waitingFor = some w → w ∈ s.pool.registry.workers) (h : s.step l = some s') :
    ∀ w, s'.waitingFor = some w → w ∈ s'.pool.registry.workers := by
  have hkept := (step_pool h).1
  by_cases hl : ∃ ok, l = .dispatch ok
  · obtain ⟨ok, rfl⟩ := hl
    intro w hw
    have hsame : s.waitingFor = some w → w ∈ s'.pool.registry.workers := fun hw =>
      hkept w (hs w hw)
    cases dispatchStep_cases h with
    | idle => exact hsame hw
    | waits w' hpc =>
      obtain rfl := Option.some.inj hw
      rcases hpc with ⟨-, rest, hworkers⟩ | hpc
      · exact (WorkerRegistry.leastLoaded_of_head hworkers).1.alive.mem
      · exact hsame (by rw [waitingFor, hpc])
    | pops w' q q' job hq hpc hpop =>
      obtain rfl := Option.some.inj hw
      exact hsame (by rw [waitingFor, hpc])
    | tracks w' q job hq hpc =>
      obtain rfl := Option.some.inj hw
      exact hsame (by rw [waitingFor, hpc])
    | _ => cases hw
  · intro w hw
    rw [waitingFor_congr (step_other_moves h fun ok heq => hl ⟨ok, heq⟩).1] at hw
    exact hkept w (hs w hw)

/-- A pass of the monitor goes through the workers that it began with. -/
theorem watch_passed {s : SchedulerState} {now : Time} {l : List Uuid} {r : Recovery}
    {rest : List Uuid} {now' : Time} (h : (s.watch now l).monitor = .recovering r rest now') :
    ∀ w ∈ rest, w ∈ l := by
  induction l with
  | nil => cases h
  | cons v l ih =>
    have hcons : (∀ w ∈ rest, w ∈ l) → ∀ w ∈ rest, w ∈ v :: l := fun hrest w hw =>
      List.mem_cons_of_mem v (hrest w hw)
    rw [watch] at h
    split at h
    · exact hcons (ih h)
    · split_ifs at h
      · exact hcons (ih h)
      · cases h
        exact fun w hw => List.mem_cons_of_mem v hw
      · exact hcons (ih h)

theorem watch_pool_mem (s : SchedulerState) (now : Time) (l : List Uuid) {w : Uuid} :
    w ∈ (s.watch now l).pool.registry.workers ↔ w ∈ s.pool.registry.workers := by
  rcases s.watch_cases now l with hend | ⟨v, rest, -, hdead⟩
  · rw [hend]
  · rw [hdead]
    exact WorkerRegistry.mem_adjust

theorem step_passed {s s' : SchedulerState} {l : SchedulerLabel}
    (hs : ∀ r rest now, s.monitor = .recovering r rest now →
      ∀ w ∈ rest, w ∈ s.pool.registry.workers) (h : s.step l = some s') :
    ∀ r rest now, s'.monitor = .recovering r rest now →
      ∀ w ∈ rest, w ∈ s'.pool.registry.workers := by
  have hkept := (step_pool h).1
  intro r rest now hmon w hw
  by_cases hl : ∃ ok, l = .monitor ok
  · obtain ⟨ok, rfl⟩ := hl
    rcases monitorStep_cases h with ⟨-, rfl⟩ | ⟨r₀, rest₀, now₀, t, next, hpc, hmove, hnext⟩
    · rw [watch_pool_mem]
      exact watch_passed hmon w hw
    · rcases hnext with ⟨stage, -, rfl⟩ | ⟨-, rfl⟩
      · cases hmon
        exact hkept w (hs _ _ _ hpc w hw)
      · exact hkept w (hs _ _ _ hpc w (watch_passed hmon w hw))
  · rw [monitor_of_other h fun ok heq => hl ⟨ok, heq⟩] at hmon
    exact hkept w (hs r rest now hmon w hw)

/-- In memory a handling is over in one step. -/
theorem recover_inMemory {s s' : SchedulerState} {q : InMemoryQueue} {r : Recovery}
    {next : Option RecoveryStage} (hq : s.queue = .inMemory q) (h : s.RecoverMove r s' next) :
    next = none := by
  cases h with
  | reclaims | ends => rfl
  | notified q' hq' | fetches q' hq' | hdel q' _ _ hq' | rpush q' _ _ hq' | gives q' hq' =>
    cases hq.symm.trans hq'

/-- A pass that is interrupted has just found a dead worker. -/
theorem watch_notifying {s : SchedulerState} {now : Time} {l : List Uuid} {r : Recovery}
    {rest : List Uuid} {now' : Time} (h : (s.watch now l).monitor = .recovering r rest now') :
    r.stage = .notifying := by
  rcases s.watch_cases now l with hend | ⟨w, rest', -, hdead⟩
  · rw [hend] at h
    cases h
  · rw [hdead] at h
    cases h
    rfl

theorem watch_deletes (s : SchedulerState) (now : Time) (l : List Uuid) :
    (s.watch now l).deletes = s.deletes := by
  rcases s.watch_cases now l with hend | ⟨w, rest', -, hdead⟩
  · rw [hend]
  · rw [hdead]

theorem step_offRedis {s s' : SchedulerState} {l : SchedulerLabel} {q : InMemoryQueue}
    (hq : s.queue = .inMemory q) (hs : s.OffRedis) (h : s.step l = some s') : s'.OffRedis := by
  have hsame : s'.unassignedJob = none → (∀ run ∈ s'.runs, run.stage.beforeCommand = false) →
      s'.monitor = s.monitor → s'.deletes = s.deletes → s'.OffRedis := by
    intro hdispatch hruns hmonitor hdeletes
    refine ⟨hdispatch, hruns, fun r hr => hs.recoveries r ?_⟩
    rwa [Recovering, hmonitor, hdeletes] at hr
  cases l with
  | enqueue c im n =>
    cases h
    exact hsame hs.dispatch hs.runs rfl rfl
  | dispatch ok =>
    cases dispatchStep_cases h with
    | idle => exact hs
    | launches w job hpc =>
      refine hsame rfl (fun run hrun => ?_) rfl rfl
      rcases List.mem_append.mp hrun with hold | hnew
      · exact hs.runs run hold
      · rw [List.mem_singleton.mp hnew]
        rfl
    | waits | assigns | refusesInMemory => exact hsame rfl hs.runs rfl rfl
    | pops _ _ _ _ hq' | tracks _ _ _ hq' | refuses _ _ _ hq' | hdel _ _ hq' | rpush _ _ hq'
    | stops _ hq' => cases hq.symm.trans hq'
  | run i e =>
    obtain ⟨run, t, next, hrun, hmove, rfl⟩ := step_run h
    have hrest : ∀ stage : Option RunStage, (∀ st, stage = some st → st.beforeCommand = false) →
        ∀ r ∈ advance s.runs i (stage.map fun st => { run with stage := st }),
          r.stage.beforeCommand = false := by
      intro stage hstage r hr
      rcases mem_of_mem_advance hrun hr with hnew | hold
      · obtain ⟨st, hst, rfl⟩ := Option.map_eq_some_iff.mp hnew
        exact hstage st hst
      · exact hs.runs r hold
    cases hmove with
    | returns | fails | completesInMemory =>
      exact hsame hs.dispatch (hrest _ fun st hst => Option.some.inj hst ▸ rfl) rfl rfl
    | requeuesInMemory | ends =>
      exact hsame hs.dispatch (hrest none (by rintro _ ⟨⟩)) rfl rfl
    | completes _ _ hq' | requeues _ hq' | hdel _ hq' | rpush _ hq' => cases hq.symm.trans hq'
  | completeExec i ok =>
    obtain ⟨_, _, q', hq', -, -⟩ := step_completeExec h
    cases hq.symm.trans hq'
  | clock | heartbeat =>
    cases h
    exact hsame hs.dispatch hs.runs rfl rfl
  | scale count =>
    rw [step] at h
    split_ifs at h <;> (cases h; exact hsame hs.dispatch hs.runs rfl rfl)
  | delete w =>
    cases h
    obtain ⟨⟨hruns, hdispatch, -⟩, -⟩ := delete_sameTasks s w
    refine ⟨(unassignedJob_congr hdispatch).trans hs.dispatch,
      fun run hrun => hs.runs run (hruns ▸ hrun), fun r hr => ?_⟩
    rw [deleteStep] at hr
    split at hr
    · exact hs.recoveries r hr
    · split at hr
      · exact hs.recoveries r hr
      · rcases hr with hmon | hmem
        · exact hs.recoveries r (Or.inl hmon)
        · rcases List.mem_append.mp hmem with hold | hnew
          · exact hs.recoveries r (Or.inr hold)
          · rw [List.mem_singleton.mp hnew]
  | monitor ok =>
    obtain ⟨hruns, hdispatch, -⟩ := worker_sameTasks h rfl
    refine ⟨(unassignedJob_congr hdispatch).trans hs.dispatch,
      fun run hrun => hs.runs run (hruns ▸ hrun), fun r hr => ?_⟩
    rcases monitorStep_cases h with ⟨-, rfl⟩ | ⟨r₀, rest₀, now₀, t, next, hpc, hmove, hnext⟩
    · rcases hr with ⟨rest, now, hmon⟩ | hmem
      · exact watch_notifying hmon
      · exact hs.recoveries r (Or.inr (watch_deletes _ _ _ ▸ hmem))
    · obtain rfl := recover_inMemory hq hmove
      rcases hnext with ⟨stage, hnone, -⟩ | ⟨-, rfl⟩
      · cases hnone
      · rcases hr with ⟨rest, now, hmon⟩ | hmem
        · exact watch_notifying hmon
        · refine hs.recoveries r (Or.inr ?_)
          rw [watch_deletes] at hmem
          cases hmove <;> exact hmem
  | recover i ok =>
    obtain ⟨r₀, t, next, hget, hmove, rfl⟩ := step_recover h
    obtain rfl := recover_inMemory hq hmove
    obtain ⟨hruns, hdispatch, -⟩ := recover_sameTasks hmove
    have hmonitor : t.monitor = s.monitor := by cases hmove <;> rfl
    refine ⟨(unassignedJob_congr hdispatch).trans hs.dispatch,
      fun run hrun => hs.runs run (hruns ▸ hrun), fun r hr => ?_⟩
    rcases hr with ⟨rest, now, hmon⟩ | hmem
    · exact hs.recoveries r (Or.inl ⟨rest, now, hmonitor ▸ hmon⟩)
    · exact hs.recoveries r (Or.inr (List.mem_of_mem_eraseIdx hmem))

/-- The dispatcher goes on, as long as no Redis command raises. -/
theorem step_running {s s' : SchedulerState} {l : SchedulerLabel} (hs : s.Backed)
    (hrunning : ¬ s.Stopped) (hok : l.ok = true) (h : s.step l = some s') : ¬ s'.Stopped := by
  rcases hs with hredis | ⟨q, hq, -⟩
  · refine (step_not_stopped_iff hredis hrunning h).mpr ?_
    rintro ok rfl -
    exact hok
  · by_cases hl : ∃ ok, l = .dispatch ok
    · obtain ⟨ok, rfl⟩ := hl
      cases dispatchStep_cases h with
      | idle => exact hrunning
      | stops q' hq' => cases hq.symm.trans hq'
      | _ => exact nofun
    · rw [Stopped, dispatch_of_other h fun ok heq => hl ⟨ok, heq⟩]
      exact hrunning

/-- A step drops no job, as long as no Redis command raises. -/
theorem dropped_of_ok (s : SchedulerState) {l : SchedulerLabel} (hok : l.ok = true) :
    s.dropped l = [] := by
  cases l with
  | dispatch ok =>
    cases hok
    rfl
  | run i e =>
    cases e with
    | goesOn ok =>
      cases hok
      rfl
    | _ => rfl
  | _ => rfl

theorem step_accepted {s s' : SchedulerState} {l : SchedulerLabel} (hs : s.Backed)
    (haccepted : ∀ i ∈ s.enqueued, i ∈ s.board.all) (hok : l.ok = true)
    (h : s.step l = some s') : ∀ i ∈ s'.enqueued, i ∈ s'.board.all := by
  obtain ⟨es, hes⟩ := step_events hs h
  intro i hi
  rw [hes.submitted] at hi
  refine Board.mem_all_of_exec hes.exec (hes.lost.trans (s.dropped_of_ok hok)) ?_
  exact (List.mem_append.mp hi).imp_left (haccepted i)

/-- **The step of the invariant.** -/
theorem step_serving {n : ℕ} {s s' : SchedulerState} {l : SchedulerLabel} (hs : Serving n s)
    (hok : l.ok = true) (h : s.step l = some s') : Serving n s' := by
  obtain ⟨-, hstaffed, hdesired⟩ := step_pool h
  have hbacked := step_backed hs.backed h
  refine ⟨hbacked, step_sized hs.sized h, hdesired.trans hs.desired, hstaffed hs.staffed,
    step_chosen hs.chosen h, step_passed hs.passed h, fun q' hq' => ?_,
    step_running hs.backed hs.running hok h, step_accepted hs.backed hs.accepted hok h⟩
  rcases hs.backed with hredis | ⟨q, hq, -⟩
  · obtain ⟨q, hq, -⟩ := (step_unassigned hredis h).queue
    cases hq.symm.trans hq'
  · exact step_offRedis hq (hs.offRedis q hq) h

theorem start_serving (n : ℕ) (q : StartQueue) (now : Time) : Serving n (start n q now) := by
  have hspawned := (WorkerPool.new n q.nextUuid).spawned_spawnWorkers n now
  have hempty : (WorkerPool.new n q.nextUuid).registry.Staffed := fun w info h => nomatch h
  refine ⟨start_backed n q now, start_sized n q now, hspawned.desired,
    hspawned.evolves.staffed hempty, (fun _ h => nomatch h), (fun _ _ _ h => nomatch h),
    fun _ _ => ⟨rfl, fun _ h => absurd h List.not_mem_nil, fun r hr => ?_⟩, nofun, fun i hi => ?_⟩
  · rcases hr with ⟨_, _, hmon⟩ | hmem
    · cases hmon
    · exact absurd hmem List.not_mem_nil
  · rw [← tokens_eq_board_all, start_tokens]
    exact Multiset.mem_coe.mpr hi

/-! ## A pool without workers -/

/-- A pass that meets dead workers only comes to its end. -/
theorem watch_of_dead {s : SchedulerState} (now : Time) {l : List Uuid}
    (h : ∀ w ∈ l, s.pool.registry.Dead w) :
    s.watch now l = { s with monitor := .sleeping } := by
  induction l with
  | nil => rfl
  | cons w l ih =>
    obtain ⟨info, hinfo, hdead⟩ := h w List.mem_cons_self
    rw [watch]
    simp only [hinfo, hdead, if_true]
    exact ih fun v hv => h v (List.mem_cons_of_mem w hv)

/-- The handling of a dead worker that the label lets go on. -/
def Handles (s : SchedulerState) (l : SchedulerLabel) (r : Recovery) : Prop :=
  (l = .monitor true ∨ ∃ i, l = .recover i true) ∧ s.handlerOf l = some r

/-- It takes a step after which it is not over. -/
theorem Handles.step_some {s : SchedulerState} {l : SchedulerLabel} {r : Recovery}
    {stage : RecoveryStage} (hr : s.Handles l r)
    (h : s.recoverEffect r true = some (s, some stage)) :
    ∃ s', s.step l = some s' ∧ s'.Handles l { r with stage } ∧ s'.pool = s.pool := by
  obtain ⟨rfl | ⟨i, rfl⟩, hof⟩ := hr
  · rw [handlerOf] at hof
    split at hof
    · cases hof
    · rename_i r' rest now hmon
      obtain rfl := Option.some.inj hof
      refine ⟨{ s with monitor := .recovering { r' with stage } rest now }, ?_,
        ⟨Or.inl rfl, rfl⟩, rfl⟩
      simp only [step, monitorStep, hmon, h]
  · have hget : s.deletes[i]? = some r := hof
    refine ⟨_, step_recover_of_effect hget h, ⟨Or.inr ⟨i, rfl⟩, ?_⟩, rfl⟩
    exact getElem?_advance hget _

/-- It ends, with workers that are all dead and a pool that is then filled up. -/
theorem Handles.step_none {n : ℕ} {s t : SchedulerState} {l : SchedulerLabel} {r : Recovery}
    (hs : Serving n s) (hempty : s.pool.registry.aliveCount = 0) (hr : s.Handles l r)
    (h : s.recoverEffect r true = some (t, none))
    (hevolves : s.pool.registry.Evolves t.pool.registry) :
    ∃ s', s.step l = some s' ∧ s'.pool = t.pool := by
  obtain ⟨rfl | ⟨i, rfl⟩, hof⟩ := hr
  · rw [handlerOf] at hof
    split at hof
    · cases hof
    · rename_i r' rest now hmon
      obtain rfl := Option.some.inj hof
      have hdead : ∀ w ∈ rest, t.pool.registry.Dead w := fun w hw =>
        hevolves.dead (WorkerRegistry.dead_of_aliveCount hempty (hs.passed _ _ _ hmon w hw))
      refine ⟨{ t with monitor := .sleeping }, ?_, rfl⟩
      simp only [step, monitorStep, hmon, h, watch_of_dead now hdead]
  · have hget : s.deletes[i]? = some r := hof
    refine ⟨{ t with deletes := advance s.deletes i none }, ?_, rfl⟩
    simp only [step, hget, h, Option.map_some, Option.map_none]

/-- What the last step of a handling does, when nobody is alive and the handler will fill
the pool up. -/
theorem Handles.reaches_of_last {n : ℕ} (hn : 0 < n) {s t : SchedulerState} {l : SchedulerLabel}
    {r : Recovery} (hs : Serving n s) (hempty : s.pool.registry.aliveCount = 0)
    (hr : s.Handles l r) (hnew : r.worker ∉ s.pool.replacedDeadWorkers)
    (h : s.recoverEffect r true = some (t, none))
    (hpool : t.pool = s.pool.replaceWorkerIfNeeded r.worker s.clock) :
    ∃ s', s.step l = some s' ∧ 0 < s'.pool.registry.aliveCount := by
  have hevolves : s.pool.registry.Evolves t.pool.registry :=
    hpool ▸ (s.pool.replaceWorkerIfNeeded_keeps r.worker s.clock).1
  obtain ⟨s', hstep, hpool'⟩ := hr.step_none hs hempty h hevolves
  refine ⟨s', hstep, ?_⟩
  rw [hpool', hpool, WorkerPool.aliveCount_replaceWorkerIfNeeded, if_neg hnew, hs.desired]
  have hmax : maxWorkers = 20 := rfl
  omega

theorem ok_of_own {l : SchedulerLabel} (h : l.own = true) : l.ok = true := by
  cases l with
  | run i e => cases e <;> first | exact h | rfl
  | completeExec => cases h
  | _ => first | exact h | rfl

theorem Handles.recovering {s : SchedulerState} {l : SchedulerLabel} {r : Recovery}
    (h : s.Handles l r) : s.Recovering r := by
  obtain ⟨rfl | ⟨i, rfl⟩, hof⟩ := h
  · rw [handlerOf] at hof
    split at hof
    · cases hof
    · rename_i r' rest now hmon
      obtain rfl := Option.some.inj hof
      exact Or.inl ⟨rest, now, hmon⟩
  · exact Or.inr (List.mem_of_getElem? hof)

/-- A step of the coroutines of the process, in which nothing raises; the scan of a task
returns the answer that is given for it. -/
structure Own (answer : RunTask → Json) (s : SchedulerState) (l : SchedulerLabel) : Prop where
  own : l.own = true
  answers : ∀ i result, l = .run i (.returns result) →
    ∃ run, s.runs[i]? = some run ∧ result = answer run

/-- Steps of the coroutines of the process lead from one state to the other. -/
abbrev Drains (answer : RunTask → Json) : SchedulerState → SchedulerState → Prop :=
  Machine.Reaches step (Own answer)

variable {answer : RunTask → Json}

theorem Handles.own {s : SchedulerState} {l : SchedulerLabel} {r : Recovery}
    (h : s.Handles l r) : s.Own answer l := by
  obtain ⟨rfl | ⟨i, rfl⟩, -⟩ := h <;> exact ⟨rfl, nofun⟩

theorem Handles.ok {s : SchedulerState} {l : SchedulerLabel} {r : Recovery}
    (h : s.Handles l r) : l.ok = true := by
  obtain ⟨rfl | ⟨i, rfl⟩, -⟩ := h <;> rfl

variable (answer) in
/-- **A pool without workers is filled up.** -/
theorem reaches_staffed {n : ℕ} (hn : 0 < n) {s : SchedulerState} (hs : Serving n s) :
    ∃ t, Drains answer s t ∧ Serving n t ∧ 0 < t.pool.registry.aliveCount := by
  rcases Nat.eq_zero_or_pos s.pool.registry.aliveCount with hempty | hpos
  swap
  · exact ⟨s, .refl s, hs, hpos⟩
  -- a handler whose worker has not been replaced
  have hshort : s.view.pool.registry.aliveCount < min s.view.pool.desiredWorkers maxWorkers := by
    show s.pool.registry.aliveCount < min s.pool.desiredWorkers maxWorkers
    have hmax : maxWorkers = 20 := rfl
    rw [hempty, hs.desired]
    omega
  obtain ⟨w, hw, hnew⟩ := hs.sized.short hshort
  obtain ⟨l, r, hr, rfl⟩ : ∃ l r, s.Handles l r ∧ r.worker = w := by
    rcases Multiset.mem_add.mp hw with hmon | hdel
    · rw [monitored] at hmon
      split at hmon
      · exact absurd hmon (Multiset.notMem_zero w)
      · rename_i r rest now hpc
        refine ⟨.monitor true, r, ⟨Or.inl rfl, ?_⟩, (Multiset.mem_singleton.mp hmon).symm⟩
        rw [handlerOf, hpc]
    · obtain ⟨r, hmem, heq⟩ := List.mem_map.mp (Multiset.mem_coe.mp hdel)
      obtain ⟨i, hi⟩ := List.getElem?_of_mem hmem
      exact ⟨.recover i true, r, ⟨Or.inr ⟨i, rfl⟩, hi⟩, heq⟩
  -- the three stages of a handling that reclaims nothing, the last one first
  have hlast : ∀ s' t r', Serving n s' → s'.pool = s.pool → s'.Handles l r' →
      r'.worker = r.worker → s'.recoverEffect r' true = some (t, none) →
        t.pool = s'.pool.replaceWorkerIfNeeded r'.worker s'.clock →
          ∃ t, Drains answer s' t ∧ Serving n t ∧ 0 < t.pool.registry.aliveCount := by
    intro s' t r' hs' hpool hr' hworker heffect hfilled
    obtain ⟨t', hstep, halive⟩ := hr'.reaches_of_last hn hs' (by rw [hpool]; exact hempty)
      (by rw [hpool, hworker]; exact hnew) heffect hfilled
    exact ⟨t', .single hr'.own hstep, step_serving hs' hr'.ok hstep, halive⟩
  have hreclaimed : ∀ s' r', Serving n s' → s'.pool = s.pool → s'.Handles l r' →
      r'.worker = r.worker → r'.stage = .reclaimed →
        ∃ t, Drains answer s' t ∧ Serving n t ∧ 0 < t.pool.registry.aliveCount := by
    intro s' r' hs' hpool hr' hworker hstage
    have heffect : s'.recoverEffect r' true =
        some ({ s' with pool := s'.pool.replaceWorkerIfNeeded r'.worker s'.clock }, none) := by
      simp only [recoverEffect, hstage]
    exact hlast s' _ r' hs' hpool hr' hworker heffect rfl
  have hfetching : ∀ s' r', Serving n s' → s'.UnassignedOnRedis → s'.pool = s.pool →
      s'.Handles l r' → r'.worker = r.worker → r'.stage = .fetching →
        ∃ t, Drains answer s' t ∧ Serving n t ∧ 0 < t.pool.registry.aliveCount := by
    intro s' r' hs' hredis hpool hr' hworker hstage
    obtain ⟨q, hq, hun⟩ := hredis.queue
    have heffect : s'.recoverEffect r' true = some (s', some .reclaimed) := by
      simp only [recoverEffect, hstage, hq, JobQueue.redis?, Option.map_some, if_true,
        hun.jobs_eq_nil, RecoveryStage.next]
    obtain ⟨s'', hstep, hr'', hpool'⟩ := hr'.step_some heffect
    have hok := hr'.ok
    obtain ⟨t, ht, hrest⟩ := hreclaimed s'' _ (step_serving hs' hok hstep) (hpool'.trans hpool)
      hr'' hworker rfl
    exact ⟨t, ht.head hr'.own hstep, hrest⟩
  rcases hs.backed with hredis | ⟨q, hq, -⟩
  · have hidle := hredis.idle r hr.recovering
    cases hstage : r.stage with
    | reclaimed => exact hreclaimed s r hs rfl hr rfl hstage
    | fetching => exact hfetching s r hs hredis rfl hr rfl hstage
    | notifying =>
      obtain ⟨q, hq, -⟩ := hredis.queue
      have heffect : s.recoverEffect r true = some (s, some .fetching) := by
        simp only [recoverEffect, hstage, hq]
      obtain ⟨s', hstep, hr', hpool⟩ := hr.step_some heffect
      have hok := hr.ok
      obtain ⟨t, ht, hrest⟩ := hfetching s' _ (step_serving hs hok hstep)
        (step_unassigned hredis hstep) hpool hr' rfl rfl
      exact ⟨t, ht.head hr.own hstep, hrest⟩
    | hdel | rpush =>
      rw [hstage] at hidle
      cases hidle
  · -- in memory the next step is the last one
    have hstage := (hs.offRedis q hq).recoveries r hr.recovering
    have heffect : s.recoverEffect r true =
        some ({ s.settle ((q.jobsOf r.worker).map Job.jobId) with
          queue := .inMemory (q.reclaim r.worker)
          pool := s.pool.replaceWorkerIfNeeded r.worker s.clock }, none) := by
      simp only [recoverEffect, hstage, hq]
    exact hlast s _ r hs rfl hr rfl heffect rfl

/-! ## A step that leaves less to do -/

/-- What is left to do: a pending job takes eight steps. -/
def todo (s : SchedulerState) : ℕ :=
  s.dispatch.left + 8 * s.queue.pendingIds.length + (s.runs.map fun run => run.stage.left).sum

/-- What is left of a task after a step. -/
def leftAfter (next : Option RunStage) : ℕ := (next.map RunStage.left).getD 0

variable (answer) in
/-- A task can go on, and leaves less to do. -/
theorem exists_runEffect {n : ℕ} {s : SchedulerState} (hs : Serving n s) {run : RunTask}
    (hrun : run ∈ s.runs) : ∃ e t next, (SchedulerLabel.run 0 e).own = true ∧
      (∀ result, e = .returns result → result = answer run) ∧
        s.runEffect run e = some (t, next) ∧
        8 * t.queue.pendingIds.length + leftAfter next <
          8 * s.queue.pendingIds.length + run.stage.left := by
  have hpush : ∀ {k : ℕ}, 8 < k → ∀ ids : List Uuid,
      8 * (ids ++ [run.job.jobId]).length + 0 < 8 * ids.length + k := by
    intro k hk ids
    rw [List.length_append, List.length_singleton]
    omega
  have hgoes : ∀ result, RunEvent.goesOn true = .returns result → result = answer run := by
    rintro result ⟨⟩
  cases hpc : run.stage with
  | scanning =>
    refine ⟨.returns (answer run), s, some (.caching (answer run)), rfl, ?_, ?_, ?_⟩
    · exact fun result heq => (RunEvent.returns.inj heq).symm
    · simp only [runEffect, hpc]
    · exact Nat.add_lt_add_left (Nat.lt_succ_self 2) _
  | caching result =>
    refine ⟨.goesOn true, s.complete run.job run.workerId result, some .reporting, rfl, hgoes,
      ?_, ?_⟩
    · simp only [runEffect, hpc]
    · have hids : (s.complete run.job run.workerId result).queue.pendingIds =
          s.queue.pendingIds := by
        rw [complete]
        cases hq : s.queue with
        | redis q => exact congrArg JobQueue.pendingIds hq
        | inMemory q => exact InMemoryQueue.pendingIds_complete q run.job.jobId
      rw [hids]
      exact Nat.add_lt_add_left (by decide : 1 < 2) _
  | reporting | requeued =>
    refine ⟨.goesOn true, { s with pool := s.pool.guardLoad run.workerId }, none, rfl, hgoes,
      ?_, ?_⟩
    · simp only [runEffect, hpc]
    · exact Nat.add_lt_add_left (by decide : 0 < 1) _
  | failing =>
    cases hq : s.queue with
    | redis q =>
      refine ⟨.goesOn true, s, some .requeueHdel, rfl, hgoes, ?_, ?_⟩
      · simp only [runEffect, hpc, hq]
      · rw [hq]
        exact Nat.add_lt_add_left (by decide : 11 < 12) _
    | inMemory q =>
      refine ⟨.goesOn true, { ({ s with pool := s.pool.guardLoad run.workerId } :
        SchedulerState).settle [run.job.jobId] with queue := .inMemory (q.requeue run.job) },
        none, rfl, hgoes,
      ?_, ?_⟩
      · simp only [runEffect, hpc, hq]
      · show 8 * (q.requeue run.job).pendingIds.length + 0 < _
        rw [InMemoryQueue.pendingIds_requeue]
        exact hpush (by decide) _
  | requeueHdel =>
    cases hq : s.queue with
    | inMemory q =>
      have hfalse := (hs.offRedis q hq).runs run hrun
      rw [hpc] at hfalse
      cases hfalse
    | redis q =>
      refine ⟨.goesOn true, { s with queue := .redis (q.hdel run.job.jobId) }, some .requeueRpush,
        rfl, hgoes, ?_, ?_⟩
      · simp only [runEffect, hpc, hq, JobQueue.redis?, Option.map_some, if_true]
      · exact Nat.add_lt_add_left (by decide : 10 < 11) _
  | requeueRpush =>
    cases hq : s.queue with
    | inMemory q =>
      have hfalse := (hs.offRedis q hq).runs run hrun
      rw [hpc] at hfalse
      cases hfalse
    | redis q =>
      refine ⟨.goesOn true, { s.settle [run.job.jobId] with
        queue := .redis (q.rpush run.job.reset) }, some .requeued, rfl, hgoes, ?_, ?_⟩
      · simp only [runEffect, hpc, hq, JobQueue.redis?, Option.map_some, if_true]
      · show 8 * (q.rpush run.job.reset).pendingIds.length + 1 < 8 * q.pendingIds.length + 10
        rw [QueueStore.pendingIds_rpush, List.length_append, List.length_singleton]
        omega

/-- A step of the dispatcher or of a running job leaves as many workers alive. -/
theorem aliveCount_step {s s' : SchedulerState} {l : SchedulerLabel} (h : s.step l = some s')
    (hl : (∃ ok, l = .dispatch ok) ∨ ∃ i e, l = .run i e) :
    s'.pool.registry.aliveCount = s.pool.registry.aliveCount := by
  rcases hl with ⟨ok, rfl⟩ | ⟨i, e, rfl⟩
  · rcases dispatch_view (dispatchStep_cases h) with ⟨w, -, hview⟩ | ⟨-, hview⟩
    · have hpool : s'.pool = s.pool.markAssigned w := congrArg PoolView.pool hview
      rw [hpool]
      exact WorkerRegistry.aliveCount_adjust fun _ => rfl
    · rw [show s'.pool = s.pool from congrArg PoolView.pool hview]
  · obtain ⟨run, t, next, -, hmove, rfl⟩ := step_run h
    show t.pool.registry.aliveCount = _
    cases hmove with
    | fails | completes | completesInMemory =>
      exact WorkerRegistry.aliveCount_adjust fun _ => rfl
    | _ => rfl

variable (answer) in
/-- A running job can go on. -/
theorem exists_run_step {n : ℕ} {s : SchedulerState} (hs : Serving n s) {run : RunTask}
    {rest : List RunTask} (hruns : s.runs = run :: rest) :
    ∃ e s', s.Own answer (.run 0 e) ∧ s.step (.run 0 e) = some s' ∧ s'.todo < s.todo := by
  obtain ⟨e, t, next, hown, hanswer, heffect, hlt⟩ :=
    exists_runEffect answer hs (hruns ▸ List.mem_cons_self : run ∈ s.runs)
  have hget : s.runs[0]? = some run := by rw [hruns]; rfl
  have hdispatch := (run_sameDispatch (runEffect_cases heffect)).1
  have hown' : s.Own answer (.run 0 e) := by
    refine ⟨hown, fun i result heq => ?_⟩
    obtain ⟨rfl, rfl⟩ := SchedulerLabel.run.inj heq
    exact ⟨run, hget, hanswer result rfl⟩
  refine ⟨e, { t with runs := advance s.runs 0 (next.map fun stage => { run with stage }) }, hown',
    by simp only [step, hget, heffect, Option.map_some], ?_⟩
  have hsum : ((advance s.runs 0 (next.map fun stage => { run with stage })).map
      fun run => run.stage.left).sum =
        leftAfter next + ((s.runs.eraseIdx 0).map fun run => run.stage.left).sum := by
    rw [sum_map_advance _ hget]
    cases next <;> rfl
  rw [todo, todo]
  show t.dispatch.left + 8 * t.queue.pendingIds.length +
    ((advance s.runs 0 (next.map fun stage => { run with stage })).map
      fun run => run.stage.left).sum < _
  rw [hsum, sum_map_eq_add_eraseIdx _ hget, hdispatch]
  omega

/-- A job that is assigned leaves five steps to do, and those of the queue and the tasks. -/
theorem todo_assign {s : SchedulerState} {w : Uuid} {node : WorkerNode} (job : Job)
    (hnode : s.pool.registry.getWorker w = some node) :
    (s.assign w job).todo =
      5 + 8 * s.queue.pendingIds.length + (s.runs.map fun run => run.stage.left).sum := by
  rw [assign]
  simp only [hnode]
  show DispatchPc.left (.reporting w _) + 8 * (s.queue.assign job.jobId w).pendingIds.length + _ =
    _
  rw [JobQueue.pendingIds_assign]
  rfl

/-- The same for a job of the in-memory queue; without one the dispatcher waits. -/
theorem todo_dequeueInMemory {s : SchedulerState} {q : InMemoryQueue} {w : Uuid}
    {node : WorkerNode} (hq : s.queue = .inMemory q)
    (hnode : s.pool.registry.getWorker w = some node)
    (hleft : 0 < s.dispatch.left + 8 * s.queue.pendingIds.length)
    (hpc : s.dispatch.left ≤ 1) : (s.dequeueInMemory q w).todo < s.todo := by
  rw [dequeueInMemory]
  cases hdequeue : q.dequeue with
  | none =>
    have hempty : q.pendingIds = [] := by
      rw [InMemoryQueue.dequeue] at hdequeue
      split at hdequeue
      · rename_i hqueue
        rw [InMemoryQueue.pendingIds, hqueue]
        rfl
      · cases hdequeue
    rw [hq, JobQueue.pendingIds, hempty] at hleft
    rw [todo, todo]
    show 0 + 8 * s.queue.pendingIds.length + (s.runs.map fun run => run.stage.left).sum < _
    have hzero : 8 * ([] : List Uuid).length = 0 := rfl
    omega
  | some r =>
    obtain ⟨job, q'⟩ := r
    have hids := pendingIds_of_dequeue hdequeue
    simp only
    rw [todo_assign (s := { s with queue := .inMemory q' }) job hnode, todo, hq]
    simp only [JobQueue.pendingIds, hids, List.length_cons]
    omega

/-- The dispatcher can go on, when it has a job or the queue has one. -/
theorem exists_dispatch_step {n : ℕ} {s : SchedulerState} (hs : Serving n s)
    (halive : 0 < s.pool.registry.aliveCount)
    (hleft : 0 < s.dispatch.left + 8 * s.queue.pendingIds.length) :
    ∃ s', s.step (.dispatch true) = some s' ∧ s'.todo < s.todo := by
  have hnode : ∀ w, s.waitingFor = some w → ∃ node, s.pool.registry.getWorker w = some node :=
    fun w hw => hs.staffed.getWorker (hs.chosen w hw)
  -- a job in the hands of the dispatcher comes from Redis
  have hredis : ∀ job, s.unassignedJob = some job → ∃ q, s.queue = .redis q := by
    intro job hjob
    cases hq : s.queue with
    | redis q => exact ⟨q, rfl⟩
    | inMemory q => cases (hs.offRedis q hq).dispatch.symm.trans hjob
  cases hpc : s.dispatch with
  | top =>
    obtain ⟨w, rest, hworkers⟩ := hs.staffed.availableWorkers halive
    obtain ⟨node, hget⟩ := hs.staffed.getWorker
      (WorkerRegistry.leastLoaded_of_head hworkers).1.alive.mem
    cases hq : s.queue with
    | redis q =>
      refine ⟨{ s with dispatch := .waiting w }, ?_, ?_⟩
      · simp only [step, dispatchStep, hpc, hworkers, hq]
      · simp only [todo, hpc, DispatchPc.left]
        omega
    | inMemory q =>
      refine ⟨s.dequeueInMemory q w, ?_, todo_dequeueInMemory hq hget hleft (by rw [hpc]; rfl)⟩
      simp only [step, dispatchStep, hpc, hworkers, hq]
  | waiting w =>
    obtain ⟨node, hget⟩ := hnode w (by rw [waitingFor, hpc])
    cases hq : s.queue with
    | inMemory q =>
      refine ⟨s.dequeueInMemory q w, ?_,
        todo_dequeueInMemory hq hget hleft (by rw [hpc]; exact Nat.zero_le 1)⟩
      simp only [step, dispatchStep, hpc, hq]
    | redis q =>
      cases hpending : q.pending with
      | nil =>
        rw [hpc, hq] at hleft
        simp [DispatchPc.left, JobQueue.pendingIds, QueueStore.pendingIds, hpending] at hleft
      | cons job rest =>
        have hpop : q.blpop = some (job, { q with pending := rest }) := by
          rw [QueueStore.blpop, hpending]
        refine ⟨{ s with
          queue := .redis { q with pending := rest }
          dispatch := .popped w { job with status := .inflight } }, ?_, ?_⟩
        · simp only [step, dispatchStep, hpc, hq, hpop, if_true]
        · simp only [todo, hpc, hq, DispatchPc.left, JobQueue.pendingIds, QueueStore.pendingIds,
            hpending, List.length_map, List.length_cons]
          omega
  | popped w job =>
    obtain ⟨q, hq⟩ := hredis job (by rw [unassignedJob, hpc])
    refine ⟨{ s with queue := .redis (q.hset job), dispatch := .tracked w job }, ?_, ?_⟩
    · simp only [step, dispatchStep, hpc, hq, JobQueue.redis?, Option.map_some, if_true]
    · rw [todo, todo, hpc, hq]
      exact Nat.add_lt_add_right (Nat.add_lt_add_right (by decide : 6 < 7) _) _
  | tracked w job =>
    obtain ⟨q, hq⟩ := hredis job (by rw [unassignedJob, hpc])
    obtain ⟨node, hget⟩ := hnode w (by rw [waitingFor, hpc])
    refine ⟨s.assign w job, ?_, ?_⟩
    · simp only [step, dispatchStep, hpc, hq, JobQueue.redis?, Option.map_some]
    · rw [todo_assign job hget, todo, hpc]
      exact Nat.add_lt_add_right (Nat.add_lt_add_right (by decide : 5 < 6) _) _
  | requeueHdel job =>
    obtain ⟨q, hq⟩ := hredis job (by rw [unassignedJob, hpc])
    refine ⟨{ s with queue := .redis (q.hdel job.jobId), dispatch := .requeueRpush job }, ?_, ?_⟩
    · simp only [step, dispatchStep, hpc, hq, JobQueue.redis?, Option.map_some, if_true]
    · rw [todo, todo, hpc, hq]
      exact Nat.add_lt_add_right (Nat.add_lt_add_right (by decide : 10 < 11) _) _
  | requeueRpush job =>
    obtain ⟨q, hq⟩ := hredis job (by rw [unassignedJob, hpc])
    refine ⟨{ s.settle [job.jobId] with queue := .redis (q.rpush job), dispatch := .top }, ?_, ?_⟩
    · simp only [step, dispatchStep, hpc, hq, JobQueue.redis?, Option.map_some, if_true]
    · rw [todo, todo, hpc, hq]
      show 1 + 8 * (q.rpush job).pendingIds.length + (s.runs.map _).sum <
        10 + 8 * q.pendingIds.length + _
      rw [QueueStore.pendingIds_rpush, List.length_append, List.length_singleton]
      omega
  | reporting w job =>
    refine ⟨{ s with runs := s.runs ++ [⟨job, w, .scanning⟩], dispatch := .top }, ?_, ?_⟩
    · simp only [step, dispatchStep, hpc]
    · have hsum : ((s.runs ++ [(⟨job, w, .scanning⟩ : RunTask)]).map
          fun run => run.stage.left).sum = (s.runs.map fun run => run.stage.left).sum + 3 := by
        rw [List.map_append, List.sum_append]
        rfl
      rw [todo, todo, hpc]
      show 1 + 8 * s.queue.pendingIds.length + ((s.runs ++ [(⟨job, w, .scanning⟩ : RunTask)]).map
        fun run => run.stage.left).sum < 5 + 8 * s.queue.pendingIds.length + _
      rw [hsum]
      omega
  | stopped => exact absurd hpc hs.running

variable (answer) in
/-- **Progress.**  A process with a worker that has something left to do has a step that
leaves less. -/
theorem exists_step {n : ℕ} {s : SchedulerState} (hs : Serving n s)
    (halive : 0 < s.pool.registry.aliveCount) (hleft : 0 < s.todo) :
    ∃ l s', s.Own answer l ∧ s.step l = some s' ∧
      (Serving n s' ∧ 0 < s'.pool.registry.aliveCount) ∧ s'.todo < s.todo := by
  obtain ⟨l, s', hl, hown, hstep, hlt⟩ : ∃ l s',
      ((∃ ok, l = .dispatch ok) ∨ ∃ i e, l = .run i e) ∧ s.Own answer l ∧
        s.step l = some s' ∧ s'.todo < s.todo := by
    cases hruns : s.runs with
    | cons run rest =>
      obtain ⟨e, s', hown, hstep, hlt⟩ := exists_run_step answer hs hruns
      exact ⟨.run 0 e, s', Or.inr ⟨0, e, rfl⟩, hown, hstep, hlt⟩
    | nil =>
      rw [todo, hruns] at hleft
      obtain ⟨s', hstep, hlt⟩ := exists_dispatch_step hs halive hleft
      exact ⟨.dispatch true, s', Or.inl ⟨true, rfl⟩, ⟨rfl, nofun⟩, hstep, hlt⟩
  refine ⟨l, s', hown, hstep, ⟨step_serving hs (ok_of_own hown.own) hstep, ?_⟩, hlt⟩
  rw [aliveCount_step hstep hl]
  exact halive

/-! ## Nothing left to do -/

/-- Every accepted job is completed, and no coroutine has a job. -/
structure Quiescent (s : SchedulerState) : Prop where
  completed : ∀ i ∈ s.enqueued, i ∈ s.completions
  pending : s.queue.pending = []
  runs : s.runs = []
  dispatch : ∃ w, s.dispatch = .waiting w

/-- A process with nothing left to do has completed what is on its board. -/
theorem quiescent_of_todo {n : ℕ} {s : SchedulerState} (hs : Serving n s) (hzero : s.todo = 0) :
    s.Quiescent := by
  rw [todo] at hzero
  have hids : s.queue.pendingIds = [] := List.length_eq_zero_iff.mp (by omega)
  have hruns : s.runs = [] := by
    cases hruns : s.runs with
    | nil => rfl
    | cons run rest =>
      have hpos : 0 < run.stage.left := by cases run.stage <;> exact Nat.succ_pos _
      rw [hruns, List.map_cons, List.sum_cons] at hzero
      omega
  obtain ⟨w, hpc⟩ : ∃ w, s.dispatch = .waiting w := by
    have hleft : s.dispatch.left = 0 := by omega
    cases hpc : s.dispatch with
    | waiting w => exact ⟨w, rfl⟩
    | stopped => exact absurd hpc hs.running
    | _ =>
      rw [hpc] at hleft
      cases hleft
  have hboard : s.board = ⟨0, 0, s.completions⟩ := by
    rw [board_of_candidate (Or.inr hpc), hids, running, hruns]
    rfl
  refine ⟨fun i hi => ?_, ?_, hruns, w, hpc⟩
  · have hmem := hs.accepted i hi
    rw [hboard, Board.all, zero_add, zero_add] at hmem
    exact Multiset.mem_coe.mp hmem
  · cases hq : s.queue <;> rw [hq] at hids <;> exact List.map_eq_nil_iff.mp hids

theorem exec_serving {n : ℕ} {s t : SchedulerState} {ls : List SchedulerLabel}
    (hs : Serving n s) (hls : ∀ l ∈ ls, l.ok = true) (h : Machine.exec step s ls = some t) :
    Serving n t :=
  Machine.exec_invariant_of_labels (fun _ _ _ hs hok hstep => step_serving hs hok hstep) hs hls h

/-- The coroutines of the process enqueue nothing. -/
theorem enqueued_of_own {s s' : SchedulerState} {l : SchedulerLabel} (hl : l.own = true)
    (h : s.step l = some s') : s'.enqueued = s.enqueued := by
  cases l with
  | dispatch ok => cases dispatchStep_cases h <;> rfl
  | run i e =>
    obtain ⟨_, _, _, _, hmove, rfl⟩ := step_run h
    cases hmove <;> rfl
  | monitor | recover => exact (worker_sameTasks h rfl).2.2.2.1
  | clock | heartbeat | enqueue | completeExec | delete | scale => cases hl

/-- A process that serves can finish, whatever its scans return. -/
theorem Serving.drains {n : ℕ} (hn : 0 < n) {s : SchedulerState} (hs : Serving n s)
    (answer : RunTask → Json) :
    ∃ t, Drains answer s t ∧ Serving n t ∧ t.enqueued = s.enqueued ∧ t.Quiescent := by
  obtain ⟨r, hr, hrs, halive⟩ := reaches_staffed answer hn hs
  obtain ⟨t, ht, ⟨hts, -⟩, hzero⟩ := Machine.reaches_of_measure
    (I := fun s => Serving n s ∧ 0 < s.pool.registry.aliveCount) todo
    (fun s hs hleft => exists_step answer hs.1 hs.2 hleft) ⟨hrs, halive⟩
  have hdrains := hr.trans ht
  have henqueued : t.enqueued = s.enqueued := by
    refine hdrains.invariant (I := fun u => u.enqueued = s.enqueued) ?_ rfl
    intro u l u' hu hl hstep
    rw [enqueued_of_own hl.own hstep, hu]
  exact ⟨t, hdrains, hts, henqueued, quiescent_of_todo hts hzero⟩

/-- **The scheduler can always finish.**  On either backend, with at least one worker asked
for, and as long as no Redis command raises: whatever has happened (enqueues, failing and
succeeding jobs, silent and deleted workers, interleaved in any way), the coroutines of the
process can go on by themselves, whatever their scans return, until every accepted job is
completed, the queue is empty and the dispatcher waits for the next job. -/
theorem scheduler_drains (n : ℕ) (hn : 0 < n) (q : StartQueue) (now : Time)
    (ls : List SchedulerLabel) (hls : ∀ l ∈ ls, l.ok = true) (s : SchedulerState)
    (h : Machine.exec step (start n q now) ls = some s) (answer : RunTask → Json) :
    ∃ t, Drains answer s t ∧ t.enqueued = s.enqueued ∧ t.Quiescent := by
  have hs := exec_serving (start_serving n q now) hls h
  obtain ⟨t, ht, -, henqueued, hquiescent⟩ := hs.drains hn answer
  exact ⟨t, ht, henqueued, hquiescent⟩

/-- The only worker is deleted while its job fails, and before the request fills the pool up
again. -/
theorem scheduler_drains_without_worker :
    ∃ s, Machine.exec step (start 1 .redis 0) [.enqueue "c1" "sha256:1" "nginx", .dispatch true,
        .dispatch true, .dispatch true, .dispatch true, .dispatch true, .run 0 .raises,
        .delete 0] = some s ∧
      s.pool.registry.aliveCount = 0 ∧ s.enqueued = [1] ∧
      ∃ t, Drains (fun _ => .null) s t ∧ t.enqueued = s.enqueued ∧ t.Quiescent := by
  refine ⟨_, by with_unfolding_all rfl, by decide, rfl, ?_⟩
  exact scheduler_drains 1 (by decide) .redis 0 [.enqueue "c1" "sha256:1" "nginx", .dispatch true,
    .dispatch true, .dispatch true, .dispatch true, .dispatch true, .run 0 .raises, .delete 0]
    (by decide) _ (by with_unfolding_all rfl) _

end SchedulerState
end Rcsce
