import Rcsce.Scheduler.PoolMoves

/-!
# Which worker a job is dispatched to

`dispatch_loop` takes `workers[0]` before it waits for a job, and does not look at
the registry again when the job is there.  While it waits, workers die, are
replaced, and finish jobs.

* `candidateLeast_iff_undisturbed` is exact about the wait: the candidate is alive
  and least loaded in every state of a run if and only if no step taken while
  `dispatch_loop` waits disturbs it, in one of the three ways that
  `WorkerRegistry.Undisturbed` lists.
* `dispatch_targets_least_loaded` is the consequence for `mark_assigned`.
* `dead_worker_assigned` is the run in which the candidate is deleted during the
  wait: the job goes to the dead worker.
-/

namespace Rcsce
namespace SchedulerState

/-- The worker that `dispatch_loop` has chosen and has not yet been assigned a job. -/
def waitingFor (s : SchedulerState) : Option Uuid :=
  match s.dispatch with
  | .waiting w => some w
  | .popped w _ => some w
  | .tracked w _ => some w
  | _ => none

/-- The chosen worker is alive and least loaded. -/
def CandidateLeast (s : SchedulerState) : Prop :=
  ∀ w, s.waitingFor = some w → s.pool.registry.LeastLoaded w

/-- Every call of `mark_assigned` so far was for a worker that was alive and least
loaded at that moment. -/
def CallsLeast (s : SchedulerState) : Prop := ∀ c ∈ s.calls, c.1.LeastLoaded c.2

/-- A step taken while `dispatch_loop` waits with `w` does not disturb `w`. -/
def KeepsCandidate (s : SchedulerState) (_ : SchedulerLabel) (s' : SchedulerState) : Prop :=
  ∀ w, s.waitingFor = some w → s'.waitingFor = some w →
    s.pool.registry.Undisturbed s'.pool.registry w

theorem candidateLeast_of_none {s : SchedulerState} (h : s.waitingFor = none) :
    s.CandidateLeast := by
  intro w hw
  rw [h] at hw
  cases hw

theorem candidateLeast_of_some {s : SchedulerState} {w : Uuid} (h : s.waitingFor = some w)
    (hw : s.pool.registry.LeastLoaded w) : s.CandidateLeast := by
  intro v hv
  obtain rfl : w = v := Option.some.inj (h.symm.trans hv)
  exact hw

theorem leastLoaded_of_candidate {s : SchedulerState} {w : Uuid} (hs : s.CandidateLeast)
    (h : s.Candidate w) : s.pool.registry.LeastLoaded w := by
  rcases h with ⟨-, rest, hworkers⟩ | hpc
  · exact WorkerRegistry.leastLoaded_of_head hworkers
  · exact hs w (by rw [waitingFor, hpc])

theorem leastLoaded_of_takes {s : SchedulerState} {w : Uuid} {job : Job} {queue : JobQueue}
    (hs : s.CandidateLeast) (h : s.Takes w job queue) : s.pool.registry.LeastLoaded w := by
  cases h with
  | redis q hq hpc => exact hs w (by rw [waitingFor, hpc])
  | inMemory q q' hq hpc htake => exact leastLoaded_of_candidate hs hpc

/-- A step of the dispatcher keeps the candidate, leaves the registry alone while it
waits, and calls `mark_assigned` for the candidate only. -/
theorem dispatch_candidate {s s' : SchedulerState} (hs : s.CandidateLeast)
    (h : s.DispatchMove s') :
    s'.CandidateLeast ∧ (s'.pool = s.pool ∨ s'.waitingFor = none) ∧
      (s'.calls = s.calls ∨ ∃ w, s'.calls = s.calls ++ [(s.pool.registry, w)] ∧
        s.pool.registry.LeastLoaded w) := by
  cases h with
  | idle => exact ⟨hs, Or.inl rfl, Or.inl rfl⟩
  | waits w hpc =>
    have hleast := leastLoaded_of_candidate hs hpc
    exact ⟨candidateLeast_of_some rfl hleast, Or.inl rfl, Or.inl rfl⟩
  | pops w q q' job hq hpc hpop =>
    have hleast := hs w (by rw [waitingFor, hpc])
    exact ⟨candidateLeast_of_some rfl hleast, Or.inl rfl, Or.inl rfl⟩
  | tracks w q job hq hpc =>
    have hleast := hs w (by rw [waitingFor, hpc])
    exact ⟨candidateLeast_of_some rfl hleast, Or.inl rfl, Or.inl rfl⟩
  | assigns w job queue node htake hnode =>
    exact ⟨candidateLeast_of_none rfl, Or.inr rfl,
      Or.inr ⟨w, rfl, leastLoaded_of_takes hs htake⟩⟩
  | _ => exact ⟨candidateLeast_of_none rfl, Or.inl rfl, Or.inl rfl⟩

/-! ## One step -/

theorem waitingFor_congr {s s' : SchedulerState} (h : s.SameDispatch s') :
    s'.waitingFor = s.waitingFor := by
  rw [waitingFor, waitingFor, h.1]

/-- A step keeps the candidate least loaded exactly when it does not disturb it. -/
theorem step_candidateLeast_iff {s s' : SchedulerState} {l : SchedulerLabel}
    (hs : s.CandidateLeast) (h : s.step l = some s') :
    s'.CandidateLeast ↔ s.KeepsCandidate l s' := by
  by_cases hl : ∃ ok, l = .dispatch ok
  · obtain ⟨ok, rfl⟩ := hl
    obtain ⟨hs', hpool, -⟩ := dispatch_candidate hs (dispatchStep_cases h)
    refine iff_of_true hs' fun w hw hw' => ?_
    rcases hpool with hsame | hnone
    · rw [hsame]
      exact (WorkerRegistry.leastLoaded_iff_undisturbed (.refl _) (hs w hw)).mp (hs w hw)
    · rw [hnone] at hw'
      cases hw'
  · obtain ⟨hdispatch, hmoves⟩ := step_other_moves h fun ok heq => hl ⟨ok, heq⟩
    have hwait := waitingFor_congr hdispatch
    have hiff : ∀ w, s.waitingFor = some w →
        (s'.pool.registry.LeastLoaded w ↔ s.pool.registry.Undisturbed s'.pool.registry w) :=
      fun w hw => WorkerRegistry.leastLoaded_iff_undisturbed hmoves.evolves (hs w hw)
    constructor
    · intro hs' w hw hw'
      exact (hiff w hw).mp (hs' w hw')
    · intro hkeep w hw'
      have hw : s.waitingFor = some w := hwait ▸ hw'
      exact (hiff w hw).mpr (hkeep w hw hw')

/-- While the candidate is least loaded, `mark_assigned` is called for a least loaded
worker. -/
theorem step_callsLeast {s s' : SchedulerState} {l : SchedulerLabel} (hs : s.CandidateLeast)
    (hcalls : s.CallsLeast) (h : s.step l = some s') : s'.CallsLeast := by
  by_cases hl : ∃ ok, l = .dispatch ok
  · obtain ⟨ok, rfl⟩ := hl
    obtain ⟨-, -, hsame | ⟨w, hnew, hleast⟩⟩ := dispatch_candidate hs (dispatchStep_cases h)
    · rw [CallsLeast, hsame]
      exact hcalls
    · intro c hc
      rw [hnew] at hc
      rcases List.mem_append.mp hc with hold | hlast
      · exact hcalls c hold
      · rw [List.mem_singleton.mp hlast]
        exact hleast
  · obtain ⟨hdispatch, -⟩ := step_other_moves h fun ok heq => hl ⟨ok, heq⟩
    rw [CallsLeast, hdispatch.2]
    exact hcalls

/-! ## Whole runs -/

/-- **Exactness.**  The candidate is alive and least loaded throughout a run if and
only if no step disturbs it during a wait. -/
theorem candidateLeast_iff_undisturbed (n : ℕ) (q : StartQueue) (now : Time)
    (ls : List SchedulerLabel) :
    Machine.Visits step CandidateLeast (start n q now) ls ↔
      Machine.Meets step KeepsCandidate (start n q now) ls := by
  refine Machine.visits_iff_meets (I := fun _ => True) (fun _ _ _ _ _ => trivial) ?_ trivial ?_ ls
  · intro s l s' _ hs h
    exact step_candidateLeast_iff hs h
  · exact candidateLeast_of_none rfl

theorem callsLeast_of_keepsCandidate (n : ℕ) (q : StartQueue) (now : Time)
    {ls : List SchedulerLabel} (h : Machine.Meets step KeepsCandidate (start n q now) ls) :
    Machine.Visits step CallsLeast (start n q now) ls := by
  refine (Machine.visits_of_meets (I := fun s => s.CandidateLeast ∧ s.CallsLeast) ?_ ?_ h).mono
    fun _ hs => hs.2
  · rintro s l s' ⟨hs, hcalls⟩ hkeep hstep
    exact ⟨(step_candidateLeast_iff hs hstep).mpr hkeep, step_callsLeast hs hcalls hstep⟩
  · refine ⟨candidateLeast_of_none rfl, fun c hc => ?_⟩
    exact absurd hc List.not_mem_nil

/-- **When dispatch targets a least loaded worker.**  In every run in which no step
disturbs the candidate while `dispatch_loop` waits, each call of `mark_assigned` is
for a worker that is alive and least loaded at that moment; and the candidate is such
a worker throughout the waits of a run only if no step disturbs it. -/
theorem dispatch_targets_least_loaded (n : ℕ) (q : StartQueue) (now : Time)
    (ls : List SchedulerLabel) :
    (Machine.Meets step KeepsCandidate (start n q now) ls →
        Machine.Visits step CallsLeast (start n q now) ls) ∧
      (Machine.Visits step CandidateLeast (start n q now) ls ↔
        Machine.Meets step KeepsCandidate (start n q now) ls) :=
  ⟨callsLeast_of_keepsCandidate n q now, candidateLeast_iff_undisturbed n q now ls⟩

/-- The dispatcher waits with worker 0; worker 0 is deleted; a job comes and is
assigned to it. -/
theorem dead_worker_assigned :
    ∃ s r, Machine.exec step (start 2 .inMemory 0)
        [.dispatch true, .delete 0, .enqueue "c1" "sha256:1" "nginx", .dispatch true] = some s ∧
      s.calls = [(r, 0)] ∧ r.Dead 0 ∧ ¬ s.CallsLeast := by
  have hdead : ∀ r : WorkerRegistry, r.Dead 0 → ¬ r.LeastLoaded 0 := fun r hr hleast =>
    WorkerRegistry.not_dead_of_alive hleast.1.alive hr
  refine ⟨_, _, rfl, rfl, ⟨_, rfl, rfl⟩, fun hcalls => ?_⟩
  exact hdead _ ⟨_, rfl, rfl⟩ (hcalls _ List.mem_cons_self)

end SchedulerState
end Rcsce
