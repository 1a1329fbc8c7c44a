import Rcsce.Scheduler.ServiceMoves

/-!
# The pool as its handlers see it

Of the whole process, the size of the pool concerns only the pool itself and the
dead workers whose failure is being handled, by the monitor or by a DELETE.  A
`PoolView` is that much, and the number of completions so far.  `PoolMove` lists
what can happen to it: an operation on one worker's record, a completion, a death,
the end of a handling, a repeated DELETE, a scale request.

`step_moves` is the refinement: every step of the process that is not a call of
`mark_assigned` is a sequence of moves, and one that is leaves everything in the
view alone but that worker's record.
-/

namespace Rcsce

/-- The pool, the dead workers being handled, and the number of completions. -/
structure PoolView where
  pool : WorkerPool
  handlers : Multiset Uuid
  completed : ℕ

/-- What can happen to the pool. -/
inductive PoolMove : PoolView → PoolView → Prop
  /-- A heartbeat or a failed job. -/
  | adjust (v : PoolView) (r : WorkerRegistry) (h : ∀ w ∈ r.workers, w ∈ v.pool.registry.workers)
      (hev : v.pool.registry.Evolves r) (halive : r.aliveCount = v.pool.registry.aliveCount)
      (htotal : r.totalCompleted = v.pool.registry.totalCompleted) :
      PoolMove v { v with pool := v.pool.onRegistry r h }
  | complete (v : PoolView) (w : Uuid) :
      PoolMove v { v with pool := v.pool.markCompleted w, completed := v.completed + 1 }
  | draw (v : PoolView) : PoolMove v { v with pool := v.pool.drawUuid }
  /-- A live worker is found dead, and its handling begins. -/
  | kill (v : PoolView) (w : Uuid) (h : v.pool.registry.Alive w) :
      PoolMove v { v with pool := v.pool.markDead w, handlers := w ::ₘ v.handlers }
  /-- The handling of a dead worker ends. -/
  | handled (p : WorkerPool) (rest : Multiset Uuid) (n : ℕ) (w : Uuid) (now : Time) :
      PoolMove ⟨p, w ::ₘ rest, n⟩ ⟨p.replaceWorkerIfNeeded w now, rest, n⟩
  /-- A DELETE of a worker that is dead already. -/
  | repeated (v : PoolView) (w : Uuid) (now : Time) (h : v.pool.registry.Dead w) :
      PoolMove v { v with pool := v.pool.replaceWorkerIfNeeded w now }
  | scale (v : PoolView) (count : ℕ) (now : Time) :
      PoolMove v { v with pool := v.pool.scaleWorkers count now }

/-- Any number of moves. -/
abbrev PoolMoves : PoolView → PoolView → Prop := Relation.ReflTransGen PoolMove

/-- Whatever else moves do, they only let the registry evolve. -/
theorem PoolMove.evolves {v v' : PoolView} (h : PoolMove v v') :
    v.pool.registry.Evolves v'.pool.registry := by
  cases h with
  | adjust _ _ _ hev _ _ => exact hev
  | complete _ w => exact WorkerRegistry.evolves_markCompleted _ w
  | draw => exact .refl _
  | kill _ w _ => exact WorkerRegistry.evolves_markDead _ w
  | handled p _ _ w now => exact (p.replaceWorkerIfNeeded_keeps w now).1
  | repeated _ w now _ => exact (v.pool.replaceWorkerIfNeeded_keeps w now).1
  | scale _ count now => exact (v.pool.spawned_scaleWorkers count now).evolves

theorem PoolMoves.evolves {v v' : PoolView} (h : PoolMoves v v') :
    v.pool.registry.Evolves v'.pool.registry := by
  induction h with
  | refl => exact .refl _
  | tail _ hmove ih => exact ih.trans hmove.evolves

/-- Ids are drawn upwards. -/
theorem PoolMove.nextUuid_le {v v' : PoolView} (h : PoolMove v v') :
    v.pool.nextUuid ≤ v'.pool.nextUuid := by
  cases h with
  | adjust | complete | kill => exact le_rfl
  | draw => exact Nat.le_succ _
  | handled p _ _ w now => exact (p.replaceWorkerIfNeeded_keeps w now).2.2.2
  | repeated _ w now _ => exact (v.pool.replaceWorkerIfNeeded_keeps w now).2.2.2
  | scale _ count now => exact (v.pool.spawned_scaleWorkers count now).nextUuid

theorem PoolMoves.nextUuid_le {v v' : PoolView} (h : PoolMoves v v') :
    v.pool.nextUuid ≤ v'.pool.nextUuid := by
  induction h with
  | refl => exact le_rfl
  | tail _ hmove ih => exact ih.trans hmove.nextUuid_le

/-- No worker's `jobs_completed` grows but with a completion. -/
theorem PoolMove.total_le {v v' : PoolView}
    (hv : v.pool.registry.totalCompleted ≤ v.completed) (h : PoolMove v v') :
    v'.pool.registry.totalCompleted ≤ v'.completed := by
  cases h with
  | adjust _ _ _ _ _ htotal => exact htotal.le.trans hv
  | complete _ w =>
    show (v.pool.registry.markCompleted w).totalCompleted ≤ v.completed + 1
    by_cases hw : w ∈ v.pool.registry.workers
    · rw [WorkerRegistry.totalCompleted_markCompleted hw]
      exact Nat.succ_le_succ hv
    · rw [WorkerRegistry.markCompleted, WorkerRegistry.adjust, OrderedDict.modify_of_notMem hw]
      exact hv.trans (Nat.le_succ _)
  | draw => exact hv
  | kill _ w _ =>
    have htotal : (v.pool.registry.markDead w).totalCompleted = v.pool.registry.totalCompleted :=
      WorkerRegistry.totalCompleted_adjust fun _ => rfl
    exact htotal.le.trans hv
  | handled p _ _ w now => exact (p.replaceWorkerIfNeeded_keeps w now).2.2.1.le.trans hv
  | repeated _ w now _ => exact (v.pool.replaceWorkerIfNeeded_keeps w now).2.2.1.le.trans hv
  | scale _ count now => exact (v.pool.spawned_scaleWorkers count now).total.le.trans hv

/-- A property kept by every move is kept by any number of them. -/
theorem PoolMoves.invariant {I : PoolView → Prop} (hI : ∀ v v', I v → PoolMove v v' → I v')
    {v v' : PoolView} (h : PoolMoves v v') (hv : I v) : I v' := by
  induction h with
  | refl => exact hv
  | tail _ hmove ih => exact hI _ _ ih hmove

namespace SchedulerState

/-- The dead worker that the monitor is handling. -/
def monitored (s : SchedulerState) : Multiset Uuid :=
  match s.monitor with
  | .sleeping => 0
  | .recovering r _ _ => {r.worker}

/-- The dead workers being handled. -/
def handlers (s : SchedulerState) : Multiset Uuid :=
  s.monitored + (s.deletes.map Recovery.worker : Multiset Uuid)

/-- The view of the process. -/
def view (s : SchedulerState) : PoolView := ⟨s.pool, s.handlers, s.completions.length⟩

/-- The dispatcher calls `mark_assigned`, or leaves the view as it is. -/
theorem dispatch_view {s s' : SchedulerState} (h : s.DispatchMove s') :
    (∃ w, s'.calls = s.calls ++ [(s.pool.registry, w)] ∧
        s'.view = { s.view with pool := s.pool.markAssigned w }) ∨
      s'.calls = s.calls ∧ s'.view = s.view := by
  cases h with
  | assigns w job queue node htake hnode => exact Or.inl ⟨w, rfl, rfl⟩
  | _ => exact Or.inr ⟨rfl, rfl⟩

/-- A running job completes, fails, or leaves the view as it is. -/
theorem run_moves {s s' : SchedulerState} {run : RunTask} {e : RunEvent}
    {next : Option RunStage} (h : s.RunMove run e s' next) : PoolMoves s.view s'.view := by
  have hcomplete : PoolMove s.view ⟨s.pool.markCompleted run.workerId, s.handlers,
      (s.completions ++ [run.job.jobId]).length⟩ := by
    rw [List.length_append]
    exact .complete s.view run.workerId
  cases h with
  | fails hpc =>
    exact .single (.adjust s.view _ (fun _ => WorkerRegistry.mem_adjust.mp)
      (WorkerRegistry.evolves_markFailedOrRequeued _ _)
      (WorkerRegistry.aliveCount_adjust fun _ => rfl)
      (WorkerRegistry.totalCompleted_adjust fun _ => rfl))
  | completes result q hq hpc => exact .single hcomplete
  | completesInMemory result q hq hpc => exact .single hcomplete
  | _ => exact .refl

/-- What only the dispatcher touches. -/
def SameDispatch (s s' : SchedulerState) : Prop := s'.dispatch = s.dispatch ∧ s'.calls = s.calls

theorem run_sameDispatch {s s' : SchedulerState} {run : RunTask} {e : RunEvent}
    {next : Option RunStage} (h : s.RunMove run e s' next) : s.SameDispatch s' := by
  cases h <;> exact ⟨rfl, rfl⟩

theorem recover_sameDispatch {s s' : SchedulerState} {r : Recovery} {next : Option RecoveryStage}
    (h : s.RecoverMove r s' next) : s.SameDispatch s' := by
  cases h <;> exact ⟨rfl, rfl⟩

theorem watch_sameDispatch (s : SchedulerState) (now : Time) (l : List Uuid) :
    s.SameDispatch (s.watch now l) := by
  rcases s.watch_cases now l with hend | ⟨w, rest, -, hdead⟩
  · rw [hend]
    exact ⟨rfl, rfl⟩
  · rw [hdead]
    exact ⟨rfl, rfl⟩

/-- Handling a dead worker replaces it in its last step and touches the pool in no
other. -/
theorem recover_pool {s s' : SchedulerState} {r : Recovery} {next : Option RecoveryStage}
    (h : s.RecoverMove r s' next) :
    s'.pool = (if next.isSome then s.pool else s.pool.replaceWorkerIfNeeded r.worker s.clock) ∧
      s'.deletes = s.deletes ∧ s'.completions = s.completions := by
  cases h <;> exact ⟨rfl, rfl, rfl⟩

theorem recover_monitor {s s' : SchedulerState} {r : Recovery} {next : Option RecoveryStage}
    (h : s.RecoverMove r s' next) : s'.monitor = s.monitor := by
  cases h <;> rfl

/-- The view without what the monitor is handling. -/
def deletesView (s : SchedulerState) : PoolView :=
  ⟨s.pool, (s.deletes.map Recovery.worker : Multiset Uuid), s.completions.length⟩

theorem view_of_sleeping {s : SchedulerState} (h : s.monitor = .sleeping) :
    s.view = s.deletesView := by
  rw [view, handlers, monitored, h, zero_add]
  rfl

theorem view_of_recovering {s : SchedulerState} {r : Recovery} {rest : List Uuid} {now : Time}
    (h : s.monitor = .recovering r rest now) :
    s.view = ⟨s.pool, r.worker ::ₘ s.deletesView.handlers, s.completions.length⟩ := by
  rw [view, handlers, monitored, h, Multiset.singleton_add]
  rfl

/-- The loop of a monitor pass may find one worker dead. -/
theorem watch_moves (s : SchedulerState) (now : Time) (l : List Uuid) :
    PoolMoves s.deletesView (s.watch now l).view := by
  rcases s.watch_cases now l with hend | ⟨w, rest, halive, hdead⟩
  · rw [hend, view_of_sleeping rfl]
    exact .refl
  · rw [hdead, view_of_recovering rfl]
    exact .single (.kill s.deletesView w halive)

theorem monitor_moves {s s' : SchedulerState} {ok : Bool} (h : s.monitorStep ok = some s') :
    s.SameDispatch s' ∧ PoolMoves s.view s'.view := by
  rcases monitorStep_cases h with ⟨hpc, rfl⟩ | ⟨r, rest, now, t, next, hpc, hmove, hnext⟩
  · rw [view_of_sleeping hpc]
    exact ⟨watch_sameDispatch _ _ _, watch_moves _ _ _⟩
  · obtain ⟨hpool, hdel, hcomp⟩ := recover_pool hmove
    have hsame := recover_sameDispatch hmove
    rw [view_of_recovering hpc]
    rcases hnext with ⟨stage, rfl, rfl⟩ | ⟨rfl, rfl⟩
    · rw [view_of_recovering rfl, deletesView, hpool, hdel, hcomp]
      exact ⟨hsame, .refl⟩
    · -- the handling ends and the pass goes on, in one step
      have hwatch := watch_sameDispatch t now rest
      refine ⟨⟨hwatch.1.trans hsame.1, hwatch.2.trans hsame.2⟩,
        .head ?_ (watch_moves t now rest)⟩
      have hafter : t.deletesView = ⟨s.pool.replaceWorkerIfNeeded r.worker s.clock,
          s.deletesView.handlers, s.completions.length⟩ := by
        rw [deletesView, hpool, hdel, hcomp]
        rfl
      rw [hafter]
      exact .handled _ _ _ r.worker s.clock

theorem delete_moves (s : SchedulerState) (w : Uuid) :
    s.SameDispatch (s.deleteStep w) ∧ PoolMoves s.view (s.deleteStep w).view := by
  rw [deleteStep]
  split
  · exact ⟨⟨rfl, rfl⟩, .refl⟩
  · rename_i info hinfo
    split
    · rename_i hdead
      exact ⟨⟨rfl, rfl⟩, .single (.repeated s.view w s.clock ⟨info, hinfo, hdead⟩)⟩
    · rename_i halive
      refine ⟨⟨rfl, rfl⟩, .single ?_⟩
      have hhandlers : s.monitored +
          ((s.deletes ++ [(⟨w, .notifying⟩ : Recovery)]).map Recovery.worker : Multiset Uuid) =
            w ::ₘ s.handlers := by
        rw [handlers, List.map_append, ← Multiset.coe_add, ← add_assoc, add_comm,
          List.map_singleton, Multiset.coe_singleton, Multiset.singleton_add]
      have hkill := PoolMove.kill s.view w ⟨info, hinfo, halive⟩
      rw [show s.view.handlers = s.handlers from rfl, ← hhandlers] at hkill
      exact hkill

theorem recover_moves {s s' : SchedulerState} {i : ℕ} {ok : Bool}
    (h : s.step (.recover i ok) = some s') :
    s.SameDispatch s' ∧ PoolMoves s.view s'.view := by
  obtain ⟨r, t, next, hr, hmove, rfl⟩ := step_recover h
  obtain ⟨hpool, hdel, hcomp⟩ := recover_pool hmove
  have hsame := recover_sameDispatch hmove
  refine ⟨hsame, ?_⟩
  -- the other handlers, the one of the monitor included
  set others := s.monitored + ((s.deletes.eraseIdx i).map Recovery.worker : Multiset Uuid)
    with hothers
  have hbefore : s.handlers = r.worker ::ₘ others := by
    rw [handlers, Multiset.coe_eq_coe.mpr ((perm_cons_eraseIdx hr).map Recovery.worker),
      List.map_cons, ← Multiset.cons_coe, Multiset.add_cons]
  have hafter : ({ t with
      deletes := advance s.deletes i (next.map fun stage => { r with stage }) } :
        SchedulerState).handlers = (next.map fun _ => r.worker).toList + others := by
    rw [handlers, monitored, recover_monitor hmove, ← monitored]
    rw [Multiset.coe_eq_coe.mpr ((advance_perm hr _).map Recovery.worker), List.map_append,
      ← Multiset.coe_add, add_left_comm]
    cases next <;> rfl
  rw [view, view, hafter, hbefore, hcomp]
  show PoolMoves _ ⟨t.pool, _, _⟩
  rw [hpool]
  cases next with
  | none =>
    have hnone : (((none : Option RecoveryStage).map fun _ => r.worker).toList : Multiset Uuid) +
        others = others := zero_add others
    rw [hnone]
    exact .single (.handled _ _ _ r.worker s.clock)
  | some stage => exact .refl

/-- Every step but one of the dispatcher leaves the dispatcher alone, and is a sequence
of moves. -/
theorem step_other_moves {s s' : SchedulerState} {l : SchedulerLabel}
    (h : s.step l = some s') (hl : ∀ ok, l ≠ .dispatch ok) :
    s.SameDispatch s' ∧ PoolMoves s.view s'.view := by
  cases l with
  | clock now =>
    cases h
    exact ⟨⟨rfl, rfl⟩, .refl⟩
  | heartbeat w =>
    cases h
    exact ⟨⟨rfl, rfl⟩, .single (.adjust s.view _ (fun _ => WorkerRegistry.mem_adjust.mp)
      (WorkerRegistry.evolves_heartbeat _ _ _) (WorkerRegistry.aliveCount_adjust fun _ => rfl)
      (WorkerRegistry.totalCompleted_adjust fun _ => rfl))⟩
  | enqueue c im n =>
    cases h
    exact ⟨⟨rfl, rfl⟩, .single (.draw s.view)⟩
  | dispatch ok => exact absurd rfl (hl ok)
  | run i e =>
    obtain ⟨run, t, next, -, hmove, rfl⟩ := step_run h
    have hsame := run_sameDispatch hmove
    have hmoves := run_moves hmove
    exact ⟨hsame, hmoves⟩
  | completeExec i ok =>
    obtain ⟨_, _, _, _, _, rfl⟩ := step_completeExec h
    exact ⟨⟨rfl, rfl⟩, .refl⟩
  | monitor ok => exact monitor_moves h
  | delete w =>
    cases h
    exact delete_moves s w
  | recover i ok => exact recover_moves h
  | scale count =>
    rw [step] at h
    split_ifs at h
    · cases h
      exact ⟨⟨rfl, rfl⟩, .single (.scale s.view count s.clock)⟩
    · cases h
      exact ⟨⟨rfl, rfl⟩, .refl⟩

/-- **The refinement.**  A step of the process calls `mark_assigned`, and touches
nothing else in the view, or is a sequence of moves. -/
theorem step_moves {s s' : SchedulerState} {l : SchedulerLabel} (h : s.step l = some s') :
    (∃ w, s'.view = { s.view with pool := s.pool.markAssigned w }) ∨
      PoolMoves s.view s'.view := by
  by_cases hl : ∃ ok, l = .dispatch ok
  · obtain ⟨ok, rfl⟩ := hl
    rcases dispatch_view (dispatchStep_cases h) with ⟨w, -, hassign⟩ | ⟨-, hview⟩
    · exact Or.inl ⟨w, hassign⟩
    · exact Or.inr (hview ▸ .refl)
  · exact Or.inr (step_other_moves h fun ok heq => hl ⟨ok, heq⟩).2

theorem step_nextUuid_le {s s' : SchedulerState} {l : SchedulerLabel} (h : s.step l = some s') :
    s.pool.nextUuid ≤ s'.pool.nextUuid := by
  rcases step_moves h with ⟨w, hview⟩ | hmoves
  · have hpool : s'.pool = s.pool.markAssigned w := congrArg PoolView.pool hview
    rw [hpool]
    exact le_rfl
  · exact hmoves.nextUuid_le

/-- The sum of `jobs_completed` never exceeds the number of completions. -/
theorem step_total_le {s s' : SchedulerState} {l : SchedulerLabel}
    (hs : s.pool.registry.totalCompleted ≤ s.completions.length) (h : s.step l = some s') :
    s'.pool.registry.totalCompleted ≤ s'.completions.length := by
  rcases step_moves h with ⟨w, hview⟩ | hmoves
  · have hpool : s'.pool = s.pool.markAssigned w := congrArg PoolView.pool hview
    have hcompleted : s'.completions.length = s.completions.length :=
      congrArg PoolView.completed hview
    have htotal : (s.pool.registry.markAssigned w).totalCompleted =
        s.pool.registry.totalCompleted := WorkerRegistry.totalCompleted_adjust fun _ => rfl
    rw [hpool, hcompleted]
    exact htotal.le.trans hs
  · exact hmoves.invariant (I := fun v => v.pool.registry.totalCompleted ≤ v.completed)
      (fun _ _ hv hmove => hmove.total_le hv) hs

end SchedulerState
end Rcsce
