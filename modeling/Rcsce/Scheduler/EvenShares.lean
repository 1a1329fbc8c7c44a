import Mathlib.Data.Set.Equitable
import Rcsce.Scheduler.LeastLoaded
import Rcsce.Scheduler.LoadAccounting

/-!
# Even shares

Each job goes to a worker with the least load, as long as the one that `dispatch_loop` has
chosen stays one while it waits.  Over a stretch in which nothing else changes who is there and
what they have to do, this deals the jobs out evenly: if no two workers differ by more than one
job, no two ever do (`Dealt.step`), so that each has its share of all the jobs, or one more
(`even_shares`).

`Steady` says that the steps of the other coroutines leave the workers and their loads alone.
The heartbeats, the requests that enqueue jobs, the scans that go on and the passes of the
monitor that find nobody dead are such steps; a scan that ends is none.
-/

namespace Rcsce
namespace WorkerRegistry

variable {r : WorkerRegistry} {w v : Uuid}

/-- An adjustment that keeps the status and the node. -/
theorem available_adjust {f : WorkerInfo → WorkerInfo}
    (hf : ∀ info : WorkerInfo, (f info).available = info.available) :
    (r.adjust w f).Available v ↔ r.Available v := by
  rw [Available, Available, get?_adjust]
  split_ifs
  · constructor
    · rintro ⟨info, hinfo, hav⟩
      obtain ⟨old, hold, rfl⟩ := Option.map_eq_some_iff.mp hinfo
      exact ⟨old, hold, hf old ▸ hav⟩
    · rintro ⟨info, hinfo, hav⟩
      exact ⟨_, Option.map_eq_some_iff.mpr ⟨info, hinfo, rfl⟩, (hf info).symm ▸ hav⟩
  · exact Iff.rfl

/-- An adjustment that keeps the load. -/
theorem loadOf_adjust {f : WorkerInfo → WorkerInfo}
    (hf : ∀ info : WorkerInfo, (f info).load = info.load) :
    (r.adjust w f).loadOf v = r.loadOf v := by
  rw [loadOf, loadOf, get?_adjust]
  split_ifs
  · rw [Option.map_map]
    congr 1
    exact Option.map_congr fun info _ => hf info
  · rfl

theorem available_markAssigned : (r.markAssigned w).Available v ↔ r.Available v := by
  unfold markAssigned
  exact available_adjust fun _ => rfl

theorem loadOf_markAssigned (hw : w ∈ r.workers) :
    (r.markAssigned w).loadOf = Function.update r.loadOf w (r.loadOf w + 1) := by
  obtain ⟨info, hinfo⟩ := OrderedDict.mem_iff_get?.mp hw
  funext v
  rw [loadOf, markAssigned, get?_adjust, Function.update_apply]
  split_ifs with hv
  · rw [hv, hinfo, loadOf_of_get? hinfo]
    rfl
  · rfl

/-- The loads of the workers together. -/
def totalLoad (r : WorkerRegistry) : ℕ := ∑ w ∈ r.availableWorkers.toFinset, r.loadOf w

end WorkerRegistry

namespace SchedulerState

variable {s s' t : SchedulerState} {l : SchedulerLabel} {W : Finset Uuid} {total : ℕ}

/-- A step of another coroutine leaves the workers and their loads alone. -/
def Steady (s : SchedulerState) (l : SchedulerLabel) (s' : SchedulerState) : Prop :=
  (∀ ok, l ≠ .dispatch ok) → ∀ w,
    (s'.pool.registry.Available w ↔ s.pool.registry.Available w) ∧
      s'.pool.registry.loadOf w = s.pool.registry.loadOf w

/-- The workers are `W`, no two differ by more than one job, and since `total` was the sum of
their loads the calls of `mark_assigned` have gone up from `before`. -/
structure Dealt (W : Finset Uuid) (total before : ℕ) (s : SchedulerState) : Prop where
  workers : ∀ w, s.pool.registry.Available w ↔ w ∈ W
  candidate : s.CandidateLeast
  even : Set.EquitableOn W s.pool.registry.loadOf
  sum : ∑ w ∈ W, s.pool.registry.loadOf w + before = total + s.calls.length
  grown : before ≤ s.calls.length

namespace Dealt

variable {before : ℕ}

theorem of_same (hs : Dealt W total before s) (hcandidate : s'.CandidateLeast)
    (hworkers : ∀ w, (s'.pool.registry.Available w ↔ s.pool.registry.Available w) ∧
      s'.pool.registry.loadOf w = s.pool.registry.loadOf w) (hcalls : s'.calls = s.calls) :
    Dealt W total before s' := by
  have hload : s'.pool.registry.loadOf = s.pool.registry.loadOf := funext fun w => (hworkers w).2
  exact ⟨fun w => (hworkers w).1.trans (hs.workers w), hcandidate, hload ▸ hs.even,
    hload ▸ hcalls ▸ hs.sum, hcalls ▸ hs.grown⟩

/-- A least loaded worker gets one more job. -/
theorem assigned {w : Uuid} (hs : Dealt W total before s)
    (hleast : s.pool.registry.LeastLoaded w) (hcandidate : s'.CandidateLeast)
    (hregistry : s'.pool.registry = s.pool.registry.markAssigned w)
    (hcalls : s'.calls = s.calls ++ [(s.pool.registry, w)]) : Dealt W total before s' := by
  have hw : w ∈ W := (hs.workers w).mp hleast.1
  have hmem : w ∈ s.pool.registry.workers := by
    obtain ⟨info, hinfo, -⟩ := hleast.1
    exact OrderedDict.mem_of_get? hinfo
  have hload := WorkerRegistry.loadOf_markAssigned hmem
  refine ⟨fun v => ?_, hcandidate, ?_, ?_, ?_⟩
  · rw [hregistry, WorkerRegistry.available_markAssigned]
    exact hs.workers v
  · intro a b ha hb
    have hmin : s.pool.registry.loadOf w ≤ s.pool.registry.loadOf b :=
      hleast.2 b ((hs.workers b).mpr hb)
    have hab := hs.even ha hb
    have hbb : s.pool.registry.loadOf b ≤ Function.update s.pool.registry.loadOf w
        (s.pool.registry.loadOf w + 1) b := by
      rw [Function.update_apply]
      split_ifs with heq
      · rw [heq]
        exact Nat.le_succ _
      · exact le_rfl
    rw [hregistry, hload]
    refine le_trans ?_ (Nat.succ_le_succ hbb)
    rw [Function.update_apply]
    split_ifs
    · exact Nat.succ_le_succ hmin
    · exact hab
  · rw [hregistry, hload, Finset.sum_update_of_mem hw, hcalls, List.length_append,
      List.length_singleton]
    have hsum := hs.sum
    rw [← Finset.add_sum_erase W _ hw, Finset.erase_eq] at hsum
    omega
  · rw [hcalls, List.length_append]
    exact hs.grown.trans (Nat.le_add_right _ _)

/-- **The step of the invariant.** -/
theorem step (hs : Dealt W total before s) (hsteady : s.Steady l s') (h : s.step l = some s') :
    Dealt W total before s' := by
  by_cases hl : ∃ ok, l = .dispatch ok
  · obtain ⟨ok, rfl⟩ := hl
    have hmove := dispatchStep_cases h
    have hcandidate := (dispatch_candidate hs.candidate hmove).1
    cases hmove with
    | assigns w job queue node htake =>
      exact hs.assigned (leastLoaded_of_takes hs.candidate htake) hcandidate rfl rfl
    | _ => exact hs.of_same hcandidate (fun _ => ⟨Iff.rfl, rfl⟩) rfl
  · have hother : ∀ ok, l ≠ .dispatch ok := fun ok heq => hl ⟨ok, heq⟩
    obtain ⟨hdispatch, -⟩ := step_other_moves h hother
    have hworkers := hsteady hother
    refine hs.of_same (fun w hw => ?_) hworkers hdispatch.2
    rw [waitingFor_congr hdispatch] at hw
    obtain ⟨hav, hleast⟩ := hs.candidate w hw
    refine ⟨(hworkers w).1.mpr hav, fun v hv => ?_⟩
    rw [(hworkers w).2, (hworkers v).2]
    exact hleast v ((hworkers v).1.mp hv)

end Dealt

theorem dealt_self (hcandidate : s.CandidateLeast)
    (heven : Set.EquitableOn {w | s.pool.registry.Available w} s.pool.registry.loadOf) :
    Dealt s.pool.registry.availableWorkers.toFinset s.pool.registry.totalLoad s.calls.length s := by
  have hworkers : ∀ w, s.pool.registry.Available w ↔
      w ∈ s.pool.registry.availableWorkers.toFinset := fun w =>
    WorkerRegistry.mem_availableWorkers.symm.trans List.mem_toFinset.symm
  exact ⟨hworkers, hcandidate,
    fun a b ha hb => heven ((hworkers a).mpr ha) ((hworkers b).mpr hb), rfl, le_rfl⟩

/-- The workers that a scheduler starts with have nothing to do. -/
theorem even_start (n : ℕ) (q : StartQueue) (now : Time) :
    Set.EquitableOn {w | (start n q now).pool.registry.Available w}
      (start n q now).pool.registry.loadOf := by
  have hquiet := WorkerPool.quiet_spawnWorkers n (.new n q.nextUuid) now
  rintro a b ⟨info, hinfo, hav⟩ -
  have halive := (WorkerRegistry.available_iff.mp hav).1
  have hload := (hquiet.new a info hinfo (OrderedDict.notMem_empty a)).load halive
  rw [WorkerRegistry.loadOf_of_get? hinfo, hload]
  exact Nat.zero_le _

/-- **The jobs are dealt out evenly.**  Take any stretch in which the other coroutines leave the
workers and their loads alone, from a state in which no two workers differ by more than one job
and the one that `dispatch_loop` waits with, if any, has the least.  In all of its states the
workers are the same, and each has an equal share of the jobs that were there and of those that
have been assigned since, rounded down, or one more. -/
theorem even_shares (s t : SchedulerState) (ls : List SchedulerLabel)
    (hcandidate : s.CandidateLeast)
    (heven : Set.EquitableOn {w | s.pool.registry.Available w} s.pool.registry.loadOf)
    (hsteady : Machine.Meets step Steady s ls) (h : Machine.exec step s ls = some t) (w : Uuid) :
    (t.pool.registry.Available w ↔ s.pool.registry.Available w) ∧
      (s.pool.registry.Available w →
        t.pool.registry.loadOf w =
            (s.pool.registry.totalLoad + (t.calls.length - s.calls.length)) /
              s.pool.registry.availableWorkers.toFinset.card ∨
          t.pool.registry.loadOf w =
            (s.pool.registry.totalLoad + (t.calls.length - s.calls.length)) /
              s.pool.registry.availableWorkers.toFinset.card + 1) := by
  have hs := dealt_self hcandidate heven
  have hvisits : Machine.Visits step (Dealt s.pool.registry.availableWorkers.toFinset
      s.pool.registry.totalLoad s.calls.length) s ls :=
    Machine.visits_of_meets (fun _ _ _ hs hsteady h => hs.step hsteady h) hs hsteady
  have ht := hvisits ls (List.prefix_refl _) t h
  have hsum : ∑ v ∈ s.pool.registry.availableWorkers.toFinset, t.pool.registry.loadOf v =
      s.pool.registry.totalLoad + (t.calls.length - s.calls.length) := by
    have htotal := ht.sum
    have hgrown := ht.grown
    omega
  refine ⟨(ht.workers w).trans (hs.workers w).symm, fun hw => ?_⟩
  rw [← hsum]
  exact Finset.equitableOn_iff.mp ht.even w ((hs.workers w).mp hw)

/-- Three jobs for two workers, which send heartbeats. -/
def threeJobs : List SchedulerLabel :=
  [.enqueue "c1" "sha256:1" "nginx", .dispatch true, .dispatch true, .heartbeat 0,
    .enqueue "c2" "sha256:2" "redis", .dispatch true, .dispatch true, .heartbeat 1,
    .enqueue "c3" "sha256:3" "nginx", .dispatch true]

/-- The steps of `dispatch_loop`, of the clock, of the heartbeats and of the requests. -/
def dealsOnly : SchedulerLabel → Bool
  | .clock _ | .heartbeat _ | .enqueue _ _ _ | .dispatch _ => true
  | _ => false

theorem steady_of_dealsOnly (hl : dealsOnly l = true) (h : s.step l = some s') :
    s.Steady l s' := by
  intro hother w
  cases l with
  | clock now | enqueue containerId imageId imageName =>
    cases h
    exact ⟨Iff.rfl, rfl⟩
  | heartbeat v =>
    cases h
    exact ⟨WorkerRegistry.available_adjust fun _ => rfl, WorkerRegistry.loadOf_adjust fun _ => rfl⟩
  | dispatch ok => exact absurd rfl (hother ok)
  | run | completeExec | monitor | delete | recover | scale => cases hl

/-- Worker 1 has its share of three jobs for two, or one more. -/
theorem even_shares_three : ∃ t, Machine.exec step (start 2 .inMemory 0) threeJobs = some t ∧
    (t.pool.registry.loadOf 1 = 1 ∨ t.pool.registry.loadOf 1 = 2) := by
  have hexec : Machine.exec step (start 2 .inMemory 0) threeJobs = some _ := rfl
  have hlabels : ∀ l ∈ threeJobs, dealsOnly l = true := by decide
  have hsteady : Machine.Meets step Steady (start 2 .inMemory 0) threeJobs :=
    fun pre l hpre s s' _ hstep =>
      steady_of_dealsOnly (hlabels l (hpre.subset (List.mem_append_right _ List.mem_cons_self)))
        hstep
  have hshares := even_shares _ _ threeJobs (candidateLeast_of_none rfl) (even_start 2 .inMemory 0)
    hsteady hexec 1
  exact ⟨_, hexec, hshares.2 ⟨_, rfl, rfl⟩⟩

end SchedulerState
end Rcsce
