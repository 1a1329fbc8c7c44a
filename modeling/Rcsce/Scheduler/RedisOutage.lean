import Rcsce.Scheduler.WorkerDeath

/-!
# Dispatching through a Redis outage

`dispatch_loop` runs as a task that nobody awaits.  An exception that leaves the loop ends
it, and the process goes on without it: it accepts jobs, and no job is dispatched any more.
On Redis, four commands inside the loop can raise: BLPOP and HSET of `dequeue`, HDEL and
RPUSH of `requeue`.  The report to the control plane is the one await of the loop that is
wrapped in a `try`.

* `CanIterate` is what the loop should keep: from the state reached there is a run to the
  top of the loop.  `canIterate_iff` says that it is lost only by the end of the loop.
* `dispatch_survives_iff` is exact.  The loop can take its next iteration in every state of a
  run if and only if none of these four commands raises in the run.
-/

namespace Rcsce

/-- The loop is about to issue a Redis command. -/
def DispatchPc.beforeCommand : DispatchPc → Bool
  | .waiting _ | .popped _ _ | .requeueHdel _ | .requeueRpush _ => true
  | _ => false

namespace SchedulerState

/-- `dispatch_loop` has ended. -/
def Stopped (s : SchedulerState) : Prop := s.dispatch = .stopped

/-- `dispatch_loop` can still come to the top of its loop. -/
def CanIterate (s : SchedulerState) : Prop :=
  ∃ ls t, Machine.exec step s ls = some t ∧ t.dispatch = .top

/-- If the step is a Redis command of `dispatch_loop`, it does not raise. -/
def CommandSucceeds (s : SchedulerState) (l : SchedulerLabel) (_ : SchedulerState) : Prop :=
  ∀ ok, l = .dispatch ok → s.dispatch.beforeCommand = true → ok = true

/-! ## When the loop ends -/

/-- No other coroutine touches the loop. -/
theorem dispatch_of_other {s s' : SchedulerState} {l : SchedulerLabel} (h : s.step l = some s')
    (hl : ∀ ok, l ≠ .dispatch ok) : s'.dispatch = s.dispatch :=
  (step_other_moves h hl).1.1

/-- A step of the loop before a Redis command. -/
theorem dispatchStep_command {s s' : SchedulerState} {ok : Bool} {q : QueueStore}
    (hq : s.queue = .redis q) (hpc : s.dispatch.beforeCommand = true)
    (h : s.dispatchStep ok = some s') : s'.Stopped ↔ ok = false := by
  cases ok with
  | false =>
    refine iff_of_true ?_ rfl
    cases hdispatch : s.dispatch with
    | waiting | popped | requeueHdel | requeueRpush =>
      simp only [dispatchStep, hdispatch, hq, JobQueue.redis?, Option.map_some] at h
      cases h
      rfl
    | _ =>
      rw [hdispatch] at hpc
      cases hpc
  | true =>
    refine iff_of_false (fun hstop => ?_) (by decide)
    cases hdispatch : s.dispatch with
    | waiting w =>
      simp only [dispatchStep, hdispatch, hq, if_true] at h
      split at h
      · cases h
        cases hdispatch.symm.trans hstop
      · cases h
        cases hstop
    | popped | requeueHdel | requeueRpush =>
      simp only [dispatchStep, hdispatch, hq, JobQueue.redis?, Option.map_some, if_true] at h
      cases h
      cases hstop
    | _ =>
      rw [hdispatch] at hpc
      cases hpc

/-- The job is given to the worker, or it is on its way back. -/
theorem dispatch_assign (s : SchedulerState) {q : QueueStore} (hq : s.queue = .redis q) (w : Uuid)
    (job : Job) :
    (s.assign w job).dispatch = .requeueHdel job.reset ∨
      (s.assign w job).dispatch = .reporting w (job.assignTo w) := by
  rw [assign, hq]
  cases s.pool.registry.getWorker w with
  | none => exact Or.inl rfl
  | some node => exact Or.inr rfl

/-- The other steps of the loop do not end it. -/
theorem dispatchStep_local {s s' : SchedulerState} {ok : Bool} {q : QueueStore}
    (hq : s.queue = .redis q) (hpc : s.dispatch.beforeCommand = false)
    (h : s.dispatchStep ok = some s') : ¬ s'.Stopped := by
  intro hstop
  cases hdispatch : s.dispatch with
  | top =>
    simp only [dispatchStep, hdispatch, hq] at h
    split at h
    · cases h
      cases hdispatch.symm.trans hstop
    · cases h
      cases hstop
    · rename_i heq
      cases heq
  | tracked w job =>
    simp only [dispatchStep, hdispatch, hq, JobQueue.redis?, Option.map_some] at h
    cases h
    rcases s.dispatch_assign hq w job with hback | hgiven
    · cases hback.symm.trans hstop
    · cases hgiven.symm.trans hstop
  | reporting w job =>
    simp only [dispatchStep, hdispatch] at h
    cases h
    cases hstop
  | stopped =>
    simp only [dispatchStep, hdispatch] at h
    cases h
  | _ =>
    rw [hdispatch] at hpc
    cases hpc

/-- A step ends the loop exactly when it is a Redis command of the loop that raises. -/
theorem step_not_stopped_iff {s s' : SchedulerState} {l : SchedulerLabel}
    (hs : s.UnassignedOnRedis) (hrunning : ¬ s.Stopped) (h : s.step l = some s') :
    ¬ s'.Stopped ↔ s.CommandSucceeds l s' := by
  obtain ⟨q, hq, -⟩ := hs.queue
  by_cases hl : ∃ ok, l = .dispatch ok
  · obtain ⟨ok, rfl⟩ := hl
    cases hpc : s.dispatch.beforeCommand with
    | false =>
      refine iff_of_true (dispatchStep_local hq hpc h) fun _ _ htrue => ?_
      cases hpc.symm.trans htrue
    | true =>
      rw [dispatchStep_command hq hpc h, Bool.not_eq_false]
      constructor
      · rintro rfl ok heq -
        cases heq
        rfl
      · intro hC
        exact hC ok rfl hpc
  · have hother : ∀ ok, l ≠ .dispatch ok := fun ok heq => hl ⟨ok, heq⟩
    refine iff_of_true ?_ fun ok heq => absurd heq (hother ok)
    rw [Stopped, dispatch_of_other h hother]
    exact hrunning

/-! ## Coming back to the top -/

theorem CanIterate.of_step {s s' : SchedulerState} {l : SchedulerLabel} (h : s.step l = some s')
    (hs' : s'.CanIterate) : s.CanIterate := by
  obtain ⟨ls, t, ht, htop⟩ := hs'
  exact ⟨l :: ls, t, by rw [Machine.exec_cons_of_step step h, ht], htop⟩

theorem canIterate_of_top {s : SchedulerState} (h : s.dispatch = .top) : s.CanIterate :=
  ⟨[], s, rfl, h⟩

theorem canIterate_of_reporting {s : SchedulerState} {w : Uuid} {job : Job}
    (h : s.dispatch = .reporting w job) : s.CanIterate := by
  have hstep : s.step (.dispatch true) =
      some { s with runs := s.runs ++ [⟨job, w, .scanning⟩], dispatch := .top } := by
    simp only [step, dispatchStep, h]
  exact .of_step hstep (canIterate_of_top rfl)

section OnRedis

variable {s : SchedulerState} {q : QueueStore} {w : Uuid} {job : Job}

theorem canIterate_of_requeueRpush (hq : s.queue = .redis q) (h : s.dispatch = .requeueRpush job) :
    s.CanIterate := by
  have hstep : s.step (.dispatch true) =
      some { s.settle [job.jobId] with queue := .redis (q.rpush job), dispatch := .top } := by
    simp only [step, dispatchStep, h, hq, JobQueue.redis?, Option.map_some, if_true]
  exact .of_step hstep (canIterate_of_top rfl)

theorem canIterate_of_requeueHdel (hq : s.queue = .redis q) (h : s.dispatch = .requeueHdel job) :
    s.CanIterate := by
  have hstep : s.step (.dispatch true) =
      some { s with queue := .redis (q.hdel job.jobId), dispatch := .requeueRpush job } := by
    simp only [step, dispatchStep, h, hq, JobQueue.redis?, Option.map_some, if_true]
  exact .of_step hstep (canIterate_of_requeueRpush rfl rfl)

theorem canIterate_of_tracked (hq : s.queue = .redis q) (h : s.dispatch = .tracked w job) :
    s.CanIterate := by
  have hstep : s.step (.dispatch true) = some (s.assign w job) := by
    simp only [step, dispatchStep, h, hq, JobQueue.redis?, Option.map_some]
  refine .of_step hstep ?_
  rcases s.dispatch_assign hq w job with hback | hgiven
  · have hqueue : (s.assign w job).queue = .redis q := by
      rw [assign, hq]
      cases s.pool.registry.getWorker w <;> rfl
    exact canIterate_of_requeueHdel hqueue hback
  · exact canIterate_of_reporting hgiven

theorem canIterate_of_popped (hq : s.queue = .redis q) (h : s.dispatch = .popped w job) :
    s.CanIterate := by
  have hstep : s.step (.dispatch true) =
      some { s with queue := .redis (q.hset job), dispatch := .tracked w job } := by
    simp only [step, dispatchStep, h, hq, JobQueue.redis?, Option.map_some, if_true]
  exact .of_step hstep (canIterate_of_tracked rfl rfl)

theorem canIterate_of_pending {rest : List Job} (hq : s.queue = .redis q)
    (h : s.dispatch = .waiting w) (hpending : q.pending = job :: rest) : s.CanIterate := by
  have hpop : q.blpop = some (job, { q with pending := rest }) := by
    rw [QueueStore.blpop, hpending]
  have hstep : s.step (.dispatch true) =
      some { s with
        queue := .redis { q with pending := rest }
        dispatch := .popped w { job with status := .inflight } } := by
    simp only [step, dispatchStep, h, hq, hpop, if_true]
  exact .of_step hstep (canIterate_of_popped rfl rfl)

/-- A loop that waits for a job goes on when there is one. -/
theorem canIterate_of_waiting (hq : s.queue = .redis q) (h : s.dispatch = .waiting w) :
    s.CanIterate := by
  cases hpending : q.pending with
  | cons job rest => exact canIterate_of_pending hq h hpending
  | nil =>
    have hstep : s.step (.enqueue "" "" "") = some { s with
        pool := s.pool.drawUuid
        queue := .redis (q.rpush (.new s.pool.nextUuid "" "" ""))
        enqueued := s.enqueued ++ [s.pool.nextUuid] } := by
      rw [step, hq]
      rfl
    have hpushed : (q.rpush (.new s.pool.nextUuid "" "" "")).pending =
        [.new s.pool.nextUuid "" "" ""] := by
      rw [QueueStore.rpush, hpending, List.nil_append]
    exact .of_step hstep (canIterate_of_pending rfl h hpushed)

end OnRedis

/-- A loop that has ended never runs again. -/
theorem stopped_of_exec {s t : SchedulerState} {ls : List SchedulerLabel} (hs : s.Stopped)
    (h : Machine.exec step s ls = some t) : t.Stopped := by
  refine Machine.exec_invariant (fun s l s' hs hstep => ?_) hs h
  by_cases hl : ∃ ok, l = .dispatch ok
  · obtain ⟨ok, rfl⟩ := hl
    have hnone : s.dispatchStep ok = none := by
      simp only [dispatchStep, show s.dispatch = _ from hs]
    cases hnone.symm.trans hstep
  · exact (dispatch_of_other hstep fun ok heq => hl ⟨ok, heq⟩).trans hs

/-- **The loop can come back to its top as long as it has not ended.** -/
theorem canIterate_iff {s : SchedulerState} (hs : s.UnassignedOnRedis) :
    s.CanIterate ↔ ¬ s.Stopped := by
  obtain ⟨q, hq, -⟩ := hs.queue
  constructor
  · rintro ⟨ls, t, ht, htop⟩ hstop
    cases htop.symm.trans (stopped_of_exec hstop ht)
  · intro hrunning
    cases hpc : s.dispatch with
    | top => exact canIterate_of_top hpc
    | waiting w => exact canIterate_of_waiting hq hpc
    | popped w job => exact canIterate_of_popped hq hpc
    | tracked w job => exact canIterate_of_tracked hq hpc
    | requeueHdel job => exact canIterate_of_requeueHdel hq hpc
    | requeueRpush job => exact canIterate_of_requeueRpush hq hpc
    | reporting w job => exact canIterate_of_reporting hpc
    | stopped => exact absurd hpc hrunning

/-! ## Whole runs -/

theorem start_unassignedOnRedis (n : ℕ) {q : StartQueue} {r : QueueStore}
    (hq : q.queue = .redis r) (now : Time) : (start n q now).UnassignedOnRedis := by
  rcases start_accounted n q now with ⟨hun, -, -⟩ | ⟨r', hr', -⟩
  · exact hun
  · cases hq.symm.trans hr'

/-- **Dispatching survives exactly as long as no Redis command of the loop raises.**  In a run
of the scheduler on Redis, `dispatch_loop` can take its next iteration in every state if and
only if no BLPOP, HSET, HDEL or RPUSH that the loop issues raises. -/
theorem dispatch_survives_iff (n : ℕ) (q : StartQueue) (r : QueueStore) (hq : q.queue = .redis r)
    (now : Time) (ls : List SchedulerLabel) :
    Machine.Visits step CanIterate (start n q now) ls ↔
      Machine.Meets step CommandSucceeds (start n q now) ls := by
  refine Machine.visits_iff_meets (I := UnassignedOnRedis)
    (fun s l s' hs hstep => step_unassigned hs hstep) (fun s l s' hs hP hstep => ?_)
    (start_unassignedOnRedis n hq now) (canIterate_of_top rfl) ls
  rw [canIterate_iff (step_unassigned hs hstep)]
  exact step_not_stopped_iff hs ((canIterate_iff hs).mp hP) hstep

/-- A worker is there, a job comes in, and the loop dispatches it. -/
theorem dispatch_survives_without_error :
    Machine.Visits step CanIterate (start 1 .redis 0)
      [.dispatch true, .enqueue "c1" "sha256:1" "nginx", .dispatch true, .dispatch true] := by
  refine (dispatch_survives_iff 1 .redis .empty rfl 0 _).mpr ?_
  refine .cons_of_step (by with_unfolding_all rfl) ?_ ?_
  · exact fun _ _ h => nomatch h
  refine .cons_of_step (by with_unfolding_all rfl) ?_ ?_
  · exact fun _ h => nomatch h
  refine .cons_of_step (by with_unfolding_all rfl) ?_ ?_
  · rintro ok ⟨⟩ -
    rfl
  refine .cons_of_step (by with_unfolding_all rfl) ?_ Machine.meets_nil
  rintro ok ⟨⟩ -
  rfl

/-- The loop waits for a job, and BLPOP raises: no later step brings it back. -/
theorem blpop_error_ends_dispatching :
    ∃ s, Machine.exec step (start 1 .redis 0) [.dispatch true, .dispatch false] = some s ∧
      s.Stopped ∧ ¬ s.CanIterate := by
  obtain ⟨s, hs, hstop⟩ :
      ∃ s, Machine.exec step (start 1 .redis 0) [.dispatch true, .dispatch false] = some s ∧
        s.dispatch = .stopped :=
    ⟨_, by with_unfolding_all rfl, rfl⟩
  refine ⟨s, hs, hstop, ?_⟩
  rintro ⟨ls, t, ht, htop⟩
  cases htop.symm.trans (stopped_of_exec hstop ht)

end SchedulerState
end Rcsce
