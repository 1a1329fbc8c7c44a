import Rcsce.Scheduler.PoolMoves

/-!
# The size of the worker pool

Several workers can be dead and half handled at the same moment, found by the
monitor or by a DELETE, and the handler of one of them may spawn the replacements
of the others.  `Sized` is the inductive invariant over the view of the pool: when
workers are missing, some handler is still on its way whose worker is not marked as
replaced, and that handler will fill the pool up.

It is kept by every move (`Sized.move`), hence by every step of the process
(`step_sized`), hence in every run after `start` (`pool_size_law`).
-/

namespace Rcsce

/-- The invariant of the pool. -/
structure Sized (v : PoolView) : Prop where
  capped : v.pool.registry.aliveCount ≤ maxWorkers
  replacedDead : ∀ w ∈ v.pool.replacedDeadWorkers, v.pool.registry.Dead w
  handledDead : ∀ w ∈ v.handlers, v.pool.registry.Dead w
  /-- Missing workers have a handler that will spawn them. -/
  short : v.pool.registry.aliveCount < min v.pool.desiredWorkers maxWorkers →
    ∃ w ∈ v.handlers, w ∉ v.pool.replacedDeadWorkers
  spawnedOnce : v.pool.spawnedFor.Nodup
  spawnedReplaced : ∀ w ∈ v.pool.spawnedFor, w ∈ v.pool.replacedDeadWorkers

namespace Sized

/-- An operation on records that kills nobody and revives nobody. -/
theorem onRegistry {v : PoolView} (hv : Sized v) {r : WorkerRegistry}
    (h : ∀ w ∈ r.workers, w ∈ v.pool.registry.workers)
    (hdead : ∀ w, v.pool.registry.Dead w → r.Dead w)
    (halive : r.aliveCount = v.pool.registry.aliveCount) (n : ℕ) :
    Sized ⟨v.pool.onRegistry r h, v.handlers, n⟩ where
  capped := halive.le.trans hv.capped
  replacedDead w hw := hdead w (hv.replacedDead w hw)
  handledDead w hw := hdead w (hv.handledDead w hw)
  short hlt := hv.short (halive ▸ hlt)
  spawnedOnce := hv.spawnedOnce
  spawnedReplaced := hv.spawnedReplaced

/-- `_replace_worker_if_needed` for a dead worker, which may be one of those being
handled; `rest` are the handlers that remain. -/
theorem replace {v : PoolView} (hv : Sized v) {w : Uuid} (hw : v.pool.registry.Dead w)
    {rest : Multiset Uuid} (hrest : ∀ u ∈ v.handlers, u ≠ w → u ∈ rest)
    (hsub : ∀ u ∈ rest, u ∈ v.handlers) (now : Time) (n : ℕ) :
    Sized ⟨v.pool.replaceWorkerIfNeeded w now, rest, n⟩ := by
  obtain ⟨hev, hdes, -, -⟩ := v.pool.replaceWorkerIfNeeded_keeps w now
  have halive := v.pool.aliveCount_replaceWorkerIfNeeded w now
  have hrep := v.pool.replaced_replaceWorkerIfNeeded w now
  have hmono : ∀ u ∈ v.pool.replacedDeadWorkers,
      u ∈ (v.pool.replaceWorkerIfNeeded w now).replacedDeadWorkers := by
    intro u hu
    rw [hrep]
    split_ifs
    · exact hu
    · exact List.mem_append_left _ hu
  have hcapped := hv.capped
  constructor
  · show (v.pool.replaceWorkerIfNeeded w now).registry.aliveCount ≤ _
    rw [halive]
    split_ifs <;> omega
  · intro u hu
    refine hev.dead ?_
    change u ∈ (v.pool.replaceWorkerIfNeeded w now).replacedDeadWorkers at hu
    rw [hrep] at hu
    split_ifs at hu with hmem
    · exact hv.replacedDead u hu
    · rcases List.mem_append.mp hu with hold | hnew
      · exact hv.replacedDead u hold
      · exact List.mem_singleton.mp hnew ▸ hw
  · intro u hu
    exact hev.dead (hv.handledDead u (hsub u hu))
  · intro hlt
    change (v.pool.replaceWorkerIfNeeded w now).registry.aliveCount <
      min (v.pool.replaceWorkerIfNeeded w now).desiredWorkers maxWorkers at hlt
    rw [halive, hdes] at hlt
    split_ifs at hlt with hmem
    · -- `w` was marked already, so the handler that fills the pool is another one
      obtain ⟨u, hu, hnot⟩ := hv.short hlt
      have hne : u ≠ w := fun heq => hnot (heq ▸ hmem)
      refine ⟨u, hrest u hu hne, ?_⟩
      show u ∉ (v.pool.replaceWorkerIfNeeded w now).replacedDeadWorkers
      rw [hrep, if_pos hmem]
      exact hnot
    · omega
  · show (v.pool.replaceWorkerIfNeeded w now).spawnedFor.Nodup
    rcases v.pool.spawnedFor_replaceWorkerIfNeeded w now with heq | ⟨hnot, heq⟩
    · rw [heq]
      exact hv.spawnedOnce
    · rw [heq]
      exact hv.spawnedOnce.append (List.nodup_singleton w) fun u hu hu' =>
        hnot (List.mem_singleton.mp hu' ▸ hv.spawnedReplaced u hu)
  · intro u hu
    change u ∈ (v.pool.replaceWorkerIfNeeded w now).spawnedFor at hu
    rcases v.pool.spawnedFor_replaceWorkerIfNeeded w now with heq | ⟨hnot, heq⟩
    · exact hmono u (hv.spawnedReplaced u (heq ▸ hu))
    · rw [heq] at hu
      rcases List.mem_append.mp hu with hold | hnew
      · exact hmono u (hv.spawnedReplaced u hold)
      · show u ∈ (v.pool.replaceWorkerIfNeeded w now).replacedDeadWorkers
        rw [hrep, if_neg hnot]
        exact List.mem_append_right _ hnew

/-- A worker dies.  It was alive, so it is not marked as replaced. -/
theorem kill {v : PoolView} (hv : Sized v) {w : Uuid} (halive : v.pool.registry.Alive w) :
    Sized { v with pool := v.pool.markDead w, handlers := w ::ₘ v.handlers } := by
  have hev := WorkerRegistry.evolves_markDead v.pool.registry w
  have hcount := WorkerRegistry.aliveCount_markDead halive
  have hcapped := hv.capped
  have hnew : w ∉ v.pool.replacedDeadWorkers := fun hmem =>
    WorkerRegistry.not_dead_of_alive halive (hv.replacedDead w hmem)
  refine ⟨?_, fun u hu => hev.dead (hv.replacedDead u hu), ?_, fun _ => ?_, hv.spawnedOnce,
    hv.spawnedReplaced⟩
  · show (v.pool.registry.markDead w).aliveCount ≤ maxWorkers
    omega
  · intro u hu
    rcases Multiset.mem_cons.mp hu with rfl | hold
    · exact WorkerRegistry.dead_markDead halive.mem
    · exact hev.dead (hv.handledDead u hold)
  · exact ⟨w, Multiset.mem_cons_self _ _, hnew⟩

/-- A scale request spawns workers and marks none as replaced. -/
theorem scale {v : PoolView} (hv : Sized v) (count : ℕ) (now : Time) :
    Sized { v with pool := v.pool.scaleWorkers count now } := by
  have hspawned := v.pool.spawned_scaleWorkers count now
  obtain ⟨hle, hge⟩ := v.pool.aliveCount_scaleWorkers count now
  refine ⟨hge.trans (max_le hv.capped le_rfl), ?_,
    fun u hu => hspawned.evolves.dead (hv.handledDead u hu), ?_, ?_, ?_⟩
  · intro u hu
    exact hspawned.evolves.dead (hv.replacedDead u (hspawned.replaced ▸ hu))
  · intro hlt
    change (v.pool.scaleWorkers count now).registry.aliveCount <
      min (v.pool.scaleWorkers count now).desiredWorkers maxWorkers at hlt
    rw [hspawned.desired] at hlt
    obtain ⟨u, hu, hnot⟩ := hv.short (hle.trans_lt hlt)
    refine ⟨u, hu, ?_⟩
    show u ∉ (v.pool.scaleWorkers count now).replacedDeadWorkers
    rwa [hspawned.replaced]
  · show (v.pool.scaleWorkers count now).spawnedFor.Nodup
    rw [hspawned.spawnedFor]
    exact hv.spawnedOnce
  · intro u hu
    change u ∈ (v.pool.scaleWorkers count now).spawnedFor at hu
    show u ∈ (v.pool.scaleWorkers count now).replacedDeadWorkers
    rw [hspawned.spawnedFor] at hu
    rw [hspawned.replaced]
    exact hv.spawnedReplaced u hu

/-- **The step of the invariant.**  Every move keeps it. -/
theorem move {v v' : PoolView} (hv : Sized v) (h : PoolMove v v') : Sized v' := by
  cases h with
  | adjust _ r hmem hev halive _ => exact hv.onRegistry hmem (fun _ => hev.dead) halive _
  | complete _ w =>
    have hev := WorkerRegistry.evolves_markCompleted v.pool.registry w
    exact hv.onRegistry (fun _ => WorkerRegistry.mem_adjust.mp) (fun _ => hev.dead)
      (WorkerRegistry.aliveCount_adjust fun _ => rfl) _
  | draw => exact ⟨hv.capped, hv.replacedDead, hv.handledDead, hv.short, hv.spawnedOnce,
      hv.spawnedReplaced⟩
  | kill _ w halive => exact hv.kill halive
  | handled p rest n w now =>
    have hdead := hv.handledDead w (Multiset.mem_cons_self _ _)
    exact hv.replace hdead (fun u hu hne => (Multiset.mem_cons.mp hu).resolve_left hne)
      (fun u hu => Multiset.mem_cons_of_mem hu) now n
  | repeated _ w now hdead => exact hv.replace hdead (fun u hu _ => hu) (fun u hu => hu) now _
  | scale _ count now => exact hv.scale count now

end Sized

namespace SchedulerState

/-- Every step of the process keeps the invariant of the pool. -/
theorem step_sized {s s' : SchedulerState} {l : SchedulerLabel} (hs : Sized s.view)
    (h : s.step l = some s') : Sized s'.view := by
  rcases step_moves h with ⟨w, hview⟩ | hmoves
  · rw [hview]
    exact hs.onRegistry (r := s.pool.registry.markAssigned w)
      (fun _ => WorkerRegistry.mem_adjust.mp) (fun _ => WorkerRegistry.dead_markAssigned)
      (WorkerRegistry.aliveCount_adjust fun _ => rfl) _
  · exact hmoves.invariant (fun _ _ hv hmove => hv.move hmove) hs

/-- `start` fills the pool. -/
theorem start_sized (n : ℕ) (q : StartQueue) (now : Time) : Sized (start n q now).view := by
  have hspawned := (WorkerPool.new n q.nextUuid).spawned_spawnWorkers n now
  have halive := WorkerPool.aliveCount_spawnWorkers n (.new n q.nextUuid) now
  have hzero : (WorkerPool.new n q.nextUuid).registry.aliveCount = 0 := rfl
  rw [hzero] at halive
  have hnone : (start n q now).pool.replacedDeadWorkers = [] := hspawned.replaced
  have hnotSpawned : (start n q now).pool.spawnedFor = [] := hspawned.spawnedFor
  have hdesired : (start n q now).pool.desiredWorkers = n := hspawned.desired
  change (start n q now).pool.registry.aliveCount = _ at halive
  constructor
  · show (start n q now).pool.registry.aliveCount ≤ maxWorkers
    omega
  · intro w hw
    change w ∈ (start n q now).pool.replacedDeadWorkers at hw
    rw [hnone] at hw
    exact absurd hw List.not_mem_nil
  · intro w hw
    exact absurd hw (Multiset.notMem_zero w)
  · intro hlt
    change (start n q now).pool.registry.aliveCount <
      min (start n q now).pool.desiredWorkers maxWorkers at hlt
    omega
  · show (start n q now).pool.spawnedFor.Nodup
    rw [hnotSpawned]
    exact List.nodup_nil
  · intro w hw
    change w ∈ (start n q now).pool.spawnedFor at hw
    rw [hnotSpawned] at hw
    exact absurd hw List.not_mem_nil

/-- **The pool size law.**  In every state that a run after `start` reaches: there
are never more than the maximum of alive workers; when workers are missing, some dead
worker that is not marked as replaced is still being handled;
`_replace_worker_if_needed` raises the count at most to the desired one; and no dead
worker triggers spawning twice. -/
theorem pool_size_law (n : ℕ) (q : StartQueue) (now : Time)
    (ls : List SchedulerLabel) (s : SchedulerState)
    (h : Machine.exec step (start n q now) ls = some s) :
    s.pool.registry.aliveCount ≤ maxWorkers ∧
      (s.pool.registry.aliveCount < min s.pool.desiredWorkers maxWorkers →
        ∃ w ∈ s.handlers, s.pool.registry.Dead w ∧ w ∉ s.pool.replacedDeadWorkers) ∧
      (∀ dead t, (s.pool.replaceWorkerIfNeeded dead t).registry.aliveCount ≤
        max s.pool.registry.aliveCount (min s.pool.desiredWorkers maxWorkers)) ∧
      s.pool.spawnedFor.Nodup := by
  have hs : Sized s.view :=
    Machine.exec_invariant (I := fun s => Sized s.view) (fun _ _ _ hs h => step_sized hs h)
      (start_sized n q now) h
  refine ⟨hs.capped, fun hlt => ?_, fun dead t => ?_, hs.spawnedOnce⟩
  · obtain ⟨w, hw, hnot⟩ := hs.short hlt
    exact ⟨w, hw, hs.handledDead w hw, hnot⟩
  · rw [s.pool.aliveCount_replaceWorkerIfNeeded dead t]
    split_ifs <;> omega

/-- After the DELETE of one of two workers one is missing, and the request is still
handling the dead one. -/
theorem pool_size_law_during_delete :
    ∃ s, Machine.exec step (start 2 .inMemory 0) [.delete 0] = some s ∧
      s.pool.registry.aliveCount = 1 ∧
      ∃ w ∈ s.handlers, s.pool.registry.Dead w ∧ w ∉ s.pool.replacedDeadWorkers := by
  refine ⟨_, rfl, by decide, ?_⟩
  exact (pool_size_law 2 .inMemory 0 [.delete 0] _ rfl).2.1 (by decide)

end SchedulerState
end Rcsce
