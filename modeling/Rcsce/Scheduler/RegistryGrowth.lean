import Rcsce.Scheduler.ServiceMoves

/-!
# What a worker's record never loses

`Evolves` leaves out `mark_assigned` and says nothing of the counters of one worker.  `Grows`
is what every operation on the registry has in common: a record stays, a dead worker stays
dead, and its `jobs_assigned` and `jobs_completed` do not decrease.  `grows_step` has it of
every step of the process, so what a worker reports later says at least as much.
-/

namespace Rcsce

/-- The second record is one that the first can turn into. -/
structure WorkerInfo.Grown (info info' : WorkerInfo) : Prop where
  dead : info.status = .dead → info'.status = .dead
  assigned : info.jobsAssigned ≤ info'.jobsAssigned
  completed : info.jobsCompleted ≤ info'.jobsCompleted

theorem WorkerInfo.Grown.refl (info : WorkerInfo) : info.Grown info := ⟨id, le_rfl, le_rfl⟩

theorem WorkerInfo.Grown.trans {info info' info'' : WorkerInfo} (h : info.Grown info')
    (h' : info'.Grown info'') : info.Grown info'' :=
  ⟨fun hdead => h'.dead (h.dead hdead), h.assigned.trans h'.assigned,
    h.completed.trans h'.completed⟩

namespace WorkerRegistry

/-- Every record stays, and only grows. -/
def Grows (r r' : WorkerRegistry) : Prop :=
  ∀ w info, r.workers.get? w = some info → ∃ info', r'.workers.get? w = some info' ∧
    info.Grown info'

theorem Grows.refl (r : WorkerRegistry) : r.Grows r := fun _ info h => ⟨info, h, .refl info⟩

theorem Grows.trans {r r' r'' : WorkerRegistry} (h : r.Grows r') (h' : r'.Grows r'') :
    r.Grows r'' := by
  intro w info hinfo
  obtain ⟨info', hinfo', hgrown⟩ := h w info hinfo
  obtain ⟨info'', hinfo'', hgrown'⟩ := h' w info' hinfo'
  exact ⟨info'', hinfo'', hgrown.trans hgrown'⟩

theorem grows_adjust (r : WorkerRegistry) (w : Uuid) {f : WorkerInfo → WorkerInfo}
    (hf : ∀ info : WorkerInfo, info.Grown (f info)) : r.Grows (r.adjust w f) := by
  intro v info hinfo
  rw [get?_adjust, hinfo]
  split_ifs
  · exact ⟨f info, rfl, hf info⟩
  · exact ⟨info, rfl, .refl info⟩

theorem grows_heartbeat (r : WorkerRegistry) (w : Uuid) (now : Time) :
    r.Grows (r.heartbeat w now) :=
  grows_adjust r w fun _ => ⟨id, le_rfl, le_rfl⟩

theorem grows_markAssigned (r : WorkerRegistry) (w : Uuid) : r.Grows (r.markAssigned w) :=
  grows_adjust r w fun _ => ⟨id, Nat.le_succ _, le_rfl⟩

theorem grows_markCompleted (r : WorkerRegistry) (w : Uuid) : r.Grows (r.markCompleted w) :=
  grows_adjust r w fun _ => ⟨id, le_rfl, Nat.le_succ _⟩

theorem grows_markFailedOrRequeued (r : WorkerRegistry) (w : Uuid) :
    r.Grows (r.markFailedOrRequeued w) :=
  grows_adjust r w fun _ => ⟨id, le_rfl, le_rfl⟩

theorem grows_markDead (r : WorkerRegistry) (w : Uuid) : r.Grows (r.markDead w) :=
  grows_adjust r w fun _ => ⟨fun _ => rfl, le_rfl, le_rfl⟩

theorem grows_register {r : WorkerRegistry} {w : Uuid} (h : w ∉ r.workers)
    (node : Option WorkerNode) (now : Time) : r.Grows (r.register w node now) := by
  rw [register_of_notMem h]
  intro v info hinfo
  have hne : v ≠ w := fun heq => h (heq ▸ OrderedDict.mem_of_get? hinfo)
  exact ⟨info, (OrderedDict.get?_set_of_ne _ _ hne).trans hinfo, .refl info⟩

end WorkerRegistry

namespace WorkerPool

theorem grows_spawnOneWorker (p : WorkerPool) (now : Time) :
    p.registry.Grows (p.spawnOneWorker now).registry := by
  rw [spawnOneWorker]
  split_ifs
  · exact .refl _
  · exact WorkerRegistry.grows_register p.nextUuid_notMem _ _

theorem grows_spawnWorkers (n : ℕ) (p : WorkerPool) (now : Time) :
    p.registry.Grows (spawnWorkers n p now).registry := by
  induction n generalizing p with
  | zero => exact .refl _
  | succ n ih => exact (grows_spawnOneWorker p now).trans (ih _)

theorem grows_replaceWorkerIfNeeded (p : WorkerPool) (dead : Uuid) (now : Time) :
    p.registry.Grows (p.replaceWorkerIfNeeded dead now).registry := by
  rw [replaceWorkerIfNeeded]
  split_ifs
  · exact .refl _
  · exact .refl _
  · exact grows_spawnWorkers (p.desiredWorkers - p.registry.aliveCount)
      { p with
        replacedDeadWorkers := p.replacedDeadWorkers ++ [dead]
        spawnedFor := p.spawnedFor ++ [dead] } now

theorem grows_scaleWorkers (p : WorkerPool) (count : ℕ) (now : Time) :
    p.registry.Grows (p.scaleWorkers count now).registry := by
  rw [scaleWorkers]
  split_ifs
  · exact .refl _
  · exact grows_spawnWorkers _ _ now

end WorkerPool

namespace SchedulerState

variable {s s' : SchedulerState}

theorem grows_dispatch (h : s.DispatchMove s') : s.pool.registry.Grows s'.pool.registry := by
  cases h with
  | assigns w => exact WorkerRegistry.grows_markAssigned _ w
  | _ => exact .refl _

theorem grows_run {run : RunTask} {e : RunEvent} {next : Option RunStage}
    (h : s.RunMove run e s' next) : s.pool.registry.Grows s'.pool.registry := by
  cases h with
  | fails => exact WorkerRegistry.grows_markFailedOrRequeued _ _
  | completes | completesInMemory => exact WorkerRegistry.grows_markCompleted _ _
  | _ => exact .refl _

theorem grows_recover {r : Recovery} {next : Option RecoveryStage} (h : s.RecoverMove r s' next) :
    s.pool.registry.Grows s'.pool.registry := by
  cases h with
  | reclaims | ends => exact s.pool.grows_replaceWorkerIfNeeded _ _
  | _ => exact .refl _

theorem grows_watch (s : SchedulerState) (now : Time) (l : List Uuid) :
    s.pool.registry.Grows (s.watch now l).pool.registry := by
  rcases s.watch_cases now l with hend | ⟨w, rest, -, hdead⟩
  · rw [hend]
    exact .refl _
  · rw [hdead]
    exact WorkerRegistry.grows_markDead _ w

/-- **No step makes a record lose anything.** -/
theorem grows_step {l : SchedulerLabel} (h : s.step l = some s') :
    s.pool.registry.Grows s'.pool.registry := by
  cases l with
  | clock now =>
    cases h
    exact .refl _
  | heartbeat w =>
    cases h
    exact WorkerRegistry.grows_heartbeat _ w _
  | enqueue containerId imageId imageName =>
    cases h
    exact .refl _
  | dispatch ok => exact grows_dispatch (dispatchStep_cases h)
  | run i e =>
    obtain ⟨run, t, next, -, hmove, rfl⟩ := step_run h
    have hgrows := grows_run hmove
    exact hgrows
  | completeExec i ok =>
    obtain ⟨_, _, _, _, _, rfl⟩ := step_completeExec h
    exact .refl _
  | monitor ok =>
    rcases monitorStep_cases h with ⟨-, rfl⟩ | ⟨r, rest, now, t, next, -, hmove, hnext⟩
    · exact grows_watch _ _ _
    · rcases hnext with ⟨stage, -, rfl⟩ | ⟨-, rfl⟩
      · have hgrows := grows_recover hmove
        exact hgrows
      · exact (grows_recover hmove).trans (grows_watch t now rest)
  | delete w =>
    cases h
    rw [deleteStep]
    split
    · exact .refl _
    · split
      · exact s.pool.grows_replaceWorkerIfNeeded w _
      · exact WorkerRegistry.grows_markDead _ w
  | recover i ok =>
    obtain ⟨r, t, next, -, hmove, rfl⟩ := step_recover h
    have hgrows := grows_recover hmove
    exact hgrows
  | scale count =>
    rw [step] at h
    split_ifs at h
    · cases h
      exact s.pool.grows_scaleWorkers count _
    · cases h
      exact .refl _

end SchedulerState
end Rcsce
