import Rcsce.Scheduler.WorkerRegistry

/-!
# Keeping the worker pool at its size

The part of `SchedulerService` that creates workers: `_spawn_one_worker`,
`_replace_worker_if_needed`, `_handle_worker_failure` and the loop of
`scale_workers`.  None of them waits for anything, so each call is one atomic
step; what is interleaved is when they are called.

A `uuid4` is the next value of a counter, and `fresh`, a field, says that no
worker has an id that is still to be drawn.

`aliveCount_spawnWorkers` and `aliveCount_replaceWorkerIfNeeded` say exactly what
these calls do to the number of alive workers.
-/

namespace Rcsce

def maxWorkers : ℕ := 20

/-- The state of `SchedulerService` that concerns its workers. -/
structure WorkerPool where
  registry : WorkerRegistry
  desiredWorkers : ℕ
  replacedDeadWorkers : List Uuid
  /-- The next value of `uuid.uuid4()`. -/
  nextUuid : Uuid
  /-- A ghost: the dead workers whose handling reached the spawning loop. -/
  spawnedFor : List Uuid
  fresh : ∀ w ∈ registry.workers, w < nextUuid

namespace WorkerPool

/-- `SchedulerService()`, with `desired_workers` as `start` sets it. -/
def new (desiredWorkers : ℕ) (nextUuid : Uuid) : WorkerPool :=
  ⟨.empty, desiredWorkers, [], nextUuid, [], fun _ h => absurd h (OrderedDict.notMem_empty _)⟩

/-- An operation on the registry that adds no worker. -/
def onRegistry (p : WorkerPool) (r : WorkerRegistry)
    (h : ∀ w ∈ r.workers, w ∈ p.registry.workers) : WorkerPool :=
  { p with registry := r, fresh := fun w hw => p.fresh w (h w hw) }

theorem onRegistry_eq_self {p : WorkerPool} {r : WorkerRegistry} (hr : r = p.registry)
    (h : ∀ w ∈ r.workers, w ∈ p.registry.workers) : p.onRegistry r h = p := by
  subst hr
  rfl

def heartbeat (p : WorkerPool) (w : Uuid) (now : Time) : WorkerPool :=
  p.onRegistry (p.registry.heartbeat w now) fun _ => WorkerRegistry.mem_adjust.mp

def markAssigned (p : WorkerPool) (w : Uuid) : WorkerPool :=
  p.onRegistry (p.registry.markAssigned w) fun _ => WorkerRegistry.mem_adjust.mp

def markCompleted (p : WorkerPool) (w : Uuid) : WorkerPool :=
  p.onRegistry (p.registry.markCompleted w) fun _ => WorkerRegistry.mem_adjust.mp

def markFailedOrRequeued (p : WorkerPool) (w : Uuid) : WorkerPool :=
  p.onRegistry (p.registry.markFailedOrRequeued w) fun _ => WorkerRegistry.mem_adjust.mp

def markDead (p : WorkerPool) (w : Uuid) : WorkerPool :=
  p.onRegistry (p.registry.markDead w) fun _ => WorkerRegistry.mem_adjust.mp

/-- The `finally` of `_run_job`: `update_load(worker_id, max(0, current_load))`. -/
def guardLoad (p : WorkerPool) (w : Uuid) : WorkerPool :=
  match p.registry.workers.get? w with
  | none => p
  | some info =>
      p.onRegistry (p.registry.updateLoad w (max 0 info.load)) fun _ => WorkerRegistry.mem_adjust.mp

/-- A load is never negative, so the guard changes nothing. -/
theorem guardLoad_eq (p : WorkerPool) (w : Uuid) : p.guardLoad w = p := by
  rw [guardLoad]
  split
  · rfl
  · rename_i info hinfo
    have hreg : p.registry.updateLoad w (max 0 info.load) = p.registry := by
      rw [WorkerRegistry.updateLoad, WorkerRegistry.adjust,
        OrderedDict.modify_eq_self hinfo (by rw [Nat.zero_max])]
    exact onRegistry_eq_self hreg _

/-- A draw of `uuid.uuid4()` for something other than a worker. -/
def drawUuid (p : WorkerPool) : WorkerPool :=
  { p with nextUuid := p.nextUuid + 1, fresh := fun w hw => Nat.lt_succ_of_lt (p.fresh w hw) }

theorem nextUuid_notMem (p : WorkerPool) : p.nextUuid ∉ p.registry.workers :=
  fun h => Nat.lt_irrefl _ (p.fresh _ h)

/-- `_spawn_one_worker`: the constructor of `WorkerNode` registers it. -/
def spawnOneWorker (p : WorkerPool) (now : Time) : WorkerPool :=
  if maxWorkers ≤ p.registry.aliveCount then p
  else
    { p with
      registry := p.registry.register p.nextUuid (some ⟨p.nextUuid⟩) now
      nextUuid := p.nextUuid + 1
      fresh := by
        intro w hw
        rw [WorkerRegistry.register_of_notMem p.nextUuid_notMem, OrderedDict.mem_set] at hw
        rcases hw with rfl | hw
        · exact Nat.lt_succ_self _
        · exact Nat.lt_succ_of_lt (p.fresh w hw) }

/-- `for _ in range(n): await self._spawn_one_worker(...)`. -/
def spawnWorkers : ℕ → WorkerPool → Time → WorkerPool
  | 0, p, _ => p
  | n + 1, p, now => spawnWorkers n (p.spawnOneWorker now) now

/-- `_replace_worker_if_needed`, and `_handle_worker_failure` which only calls it. -/
def replaceWorkerIfNeeded (p : WorkerPool) (dead : Uuid) (now : Time) : WorkerPool :=
  if dead ∈ p.replacedDeadWorkers then p
  else if p.desiredWorkers ≤ p.registry.aliveCount then
    { p with replacedDeadWorkers := p.replacedDeadWorkers ++ [dead] }
  else
    -- marked as handled before anything is spawned
    spawnWorkers (p.desiredWorkers - p.registry.aliveCount)
      { p with
        replacedDeadWorkers := p.replacedDeadWorkers ++ [dead]
        spawnedFor := p.spawnedFor ++ [dead] } now

/-- `scale_workers`, for a `count` that passes the validation of the query. -/
def scaleWorkers (p : WorkerPool) (count : ℕ) (now : Time) : WorkerPool :=
  if maxWorkers - p.registry.aliveCount = 0 then p
  else spawnWorkers (min count (maxWorkers - p.registry.aliveCount)) p now

/-! ## Spawning -/

/-- What spawning leaves alone, and how the registry changes. -/
structure Spawned (p p' : WorkerPool) : Prop where
  evolves : p.registry.Evolves p'.registry
  desired : p'.desiredWorkers = p.desiredWorkers
  replaced : p'.replacedDeadWorkers = p.replacedDeadWorkers
  spawnedFor : p'.spawnedFor = p.spawnedFor
  total : p'.registry.totalCompleted = p.registry.totalCompleted
  nextUuid : p.nextUuid ≤ p'.nextUuid

theorem Spawned.refl (p : WorkerPool) : p.Spawned p := ⟨.refl _, rfl, rfl, rfl, rfl, le_rfl⟩

theorem Spawned.trans {p p' p'' : WorkerPool} (h : p.Spawned p') (h' : p'.Spawned p'') :
    p.Spawned p'' :=
  ⟨h.evolves.trans h'.evolves, h'.desired.trans h.desired, h'.replaced.trans h.replaced,
    h'.spawnedFor.trans h.spawnedFor, h'.total.trans h.total, h.nextUuid.trans h'.nextUuid⟩

theorem spawned_spawnOneWorker (p : WorkerPool) (now : Time) :
    p.Spawned (p.spawnOneWorker now) := by
  rw [spawnOneWorker]
  split_ifs
  · exact .refl p
  · exact ⟨WorkerRegistry.evolves_register p.nextUuid_notMem _ _, rfl, rfl, rfl,
      WorkerRegistry.totalCompleted_register p.nextUuid_notMem _ _, Nat.le_succ _⟩

theorem spawned_spawnWorkers (n : ℕ) (p : WorkerPool) (now : Time) :
    p.Spawned (spawnWorkers n p now) := by
  induction n generalizing p with
  | zero => exact .refl p
  | succ n ih => exact (spawned_spawnOneWorker p now).trans (ih _)

theorem aliveCount_spawnOneWorker (p : WorkerPool) (now : Time) :
    (p.spawnOneWorker now).registry.aliveCount =
      max p.registry.aliveCount (min (p.registry.aliveCount + 1) maxWorkers) := by
  rw [spawnOneWorker]
  split_ifs with h
  · omega
  · show (p.registry.register _ _ _).aliveCount = _
    rw [WorkerRegistry.aliveCount_register p.nextUuid_notMem]
    omega

/-- Spawning `n` workers adds `n`, but never past the maximum. -/
theorem aliveCount_spawnWorkers (n : ℕ) (p : WorkerPool) (now : Time) :
    (spawnWorkers n p now).registry.aliveCount =
      max p.registry.aliveCount (min (p.registry.aliveCount + n) maxWorkers) := by
  induction n generalizing p with
  | zero => rw [spawnWorkers]; omega
  | succ n ih => rw [spawnWorkers, ih, aliveCount_spawnOneWorker]; omega

/-! ## Replacing -/

/-- `_replace_worker_if_needed` leaves a pool that lacks workers as it is, or fills
it up. -/
theorem aliveCount_replaceWorkerIfNeeded (p : WorkerPool) (dead : Uuid) (now : Time) :
    (p.replaceWorkerIfNeeded dead now).registry.aliveCount =
      if dead ∈ p.replacedDeadWorkers then p.registry.aliveCount
      else max p.registry.aliveCount (min p.desiredWorkers maxWorkers) := by
  rw [replaceWorkerIfNeeded]
  split_ifs with hrep hdes
  · rfl
  · show p.registry.aliveCount = _
    omega
  · rw [aliveCount_spawnWorkers]
    show max p.registry.aliveCount
      (min (p.registry.aliveCount + (p.desiredWorkers - p.registry.aliveCount)) maxWorkers) = _
    omega

theorem replaced_replaceWorkerIfNeeded (p : WorkerPool) (dead : Uuid) (now : Time) :
    (p.replaceWorkerIfNeeded dead now).replacedDeadWorkers =
      if dead ∈ p.replacedDeadWorkers then p.replacedDeadWorkers
      else p.replacedDeadWorkers ++ [dead] := by
  rw [replaceWorkerIfNeeded]
  split_ifs
  · rfl
  · rfl
  · exact (spawned_spawnWorkers _ _ now).replaced

/-- A dead worker triggers spawning at most when it is marked as handled. -/
theorem spawnedFor_replaceWorkerIfNeeded (p : WorkerPool) (dead : Uuid) (now : Time) :
    (p.replaceWorkerIfNeeded dead now).spawnedFor = p.spawnedFor ∨
      dead ∉ p.replacedDeadWorkers ∧
        (p.replaceWorkerIfNeeded dead now).spawnedFor = p.spawnedFor ++ [dead] := by
  rw [replaceWorkerIfNeeded]
  split_ifs with hrep
  · exact Or.inl rfl
  · exact Or.inl rfl
  · exact Or.inr ⟨hrep, (spawned_spawnWorkers _ _ now).spawnedFor⟩

/-- What replacing has in common with the other operations on workers. -/
theorem replaceWorkerIfNeeded_keeps (p : WorkerPool) (dead : Uuid) (now : Time) :
    p.registry.Evolves (p.replaceWorkerIfNeeded dead now).registry ∧
      (p.replaceWorkerIfNeeded dead now).desiredWorkers = p.desiredWorkers ∧
      (p.replaceWorkerIfNeeded dead now).registry.totalCompleted = p.registry.totalCompleted ∧
      p.nextUuid ≤ (p.replaceWorkerIfNeeded dead now).nextUuid := by
  rw [replaceWorkerIfNeeded]
  split_ifs
  · exact ⟨.refl _, rfl, rfl, le_rfl⟩
  · exact ⟨.refl _, rfl, rfl, le_rfl⟩
  · have h := spawned_spawnWorkers (p.desiredWorkers - p.registry.aliveCount)
      { p with
        replacedDeadWorkers := p.replacedDeadWorkers ++ [dead]
        spawnedFor := p.spawnedFor ++ [dead] } now
    exact ⟨h.evolves, h.desired, h.total, h.nextUuid⟩

theorem spawned_scaleWorkers (p : WorkerPool) (count : ℕ) (now : Time) :
    p.Spawned (p.scaleWorkers count now) := by
  rw [scaleWorkers]
  split_ifs
  · exact .refl p
  · exact spawned_spawnWorkers _ p now

theorem aliveCount_scaleWorkers (p : WorkerPool) (count : ℕ) (now : Time) :
    p.registry.aliveCount ≤ (p.scaleWorkers count now).registry.aliveCount ∧
      (p.scaleWorkers count now).registry.aliveCount ≤ max p.registry.aliveCount maxWorkers := by
  rw [scaleWorkers]
  split_ifs
  · omega
  · rw [aliveCount_spawnWorkers]
    omega

end WorkerPool
end Rcsce
