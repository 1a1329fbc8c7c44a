import Rcsce.Scheduler.RegistryGrowth

/-!
# The heartbeat monitor as a failure detector

A pass of `monitor` reads the clock once, when it begins, and goes through the workers that
are there then.  Whenever it finds one that has been silent for too long it marks it dead and
handles its failure before it looks at the next, and meanwhile heartbeats come in, workers are
deleted and spawned, and jobs end.

* `HeardAt` says that a worker is alive and when it was last heard of, and `Tends` what every
  step but a heartbeat, a DELETE and the monitor itself leaves of that (`step_tends`).
* `pass_exact`: at the end of a pass, a worker that has not been heard of meanwhile is dead if
  and only if its last heartbeat was too old when the pass began.
* `timely_worker_survives`: a worker whose heartbeats are never too old is never declared dead.
  The clock of a pass lags behind, which can only spare a worker.
-/

namespace Rcsce
namespace WorkerRegistry

/-- The worker is alive and was last heard of at `t`. -/
def HeardAt (r : WorkerRegistry) (w : Uuid) (t : Time) : Prop :=
  ∃ info, r.workers.get? w = some info ∧ info.status = .alive ∧ info.lastHeartbeat = t

theorem HeardAt.alive {r : WorkerRegistry} {w : Uuid} {t : Time} (h : r.HeardAt w t) :
    r.Alive w := by
  obtain ⟨info, hinfo, halive, -⟩ := h
  exact ⟨info, hinfo, halive⟩

/-- From `r` to `r'`, what is known of the worker stays, and if it is new, it has registered
at `now`. -/
structure Tends (w : Uuid) (now : Time) (r r' : WorkerRegistry) : Prop where
  kept : ∀ t, r.HeardAt w t → r'.HeardAt w t
  new : w ∉ r.workers → w ∈ r'.workers → r'.HeardAt w now

variable {r r' r'' : WorkerRegistry} {w : Uuid} {now : Time}

theorem Tends.refl (w : Uuid) (now : Time) (r : WorkerRegistry) : Tends w now r r :=
  ⟨fun _ h => h, fun hnot hmem => absurd hmem hnot⟩

theorem Tends.trans (h : Tends w now r r') (h' : Tends w now r' r'') : Tends w now r r'' := by
  refine ⟨fun t ht => h'.kept t (h.kept t ht), fun hnot hmem => ?_⟩
  by_cases hmid : w ∈ r'.workers
  · exact h'.kept now (h.new hnot hmid)
  · exact h'.new hmid hmem

theorem tends_adjust (r : WorkerRegistry) (now : Time) {v : Uuid} {f : WorkerInfo → WorkerInfo}
    (hf : w ≠ v ∨ ∀ info, (f info).status = info.status ∧
      (f info).lastHeartbeat = info.lastHeartbeat) : Tends w now r (r.adjust v f) := by
  refine ⟨?_, fun hnot hmem => absurd (mem_adjust.mp hmem) hnot⟩
  rintro t ⟨info, hinfo, halive, rfl⟩
  rw [HeardAt, get?_adjust, hinfo]
  split_ifs with heq
  · obtain ⟨hstatus, hheard⟩ := hf.resolve_left (not_not_intro heq) info
    exact ⟨f info, rfl, hstatus.trans halive, hheard⟩
  · exact ⟨info, rfl, halive, rfl⟩

theorem tends_register {v : Uuid} (h : v ∉ r.workers) (node : Option WorkerNode) :
    Tends w now r (r.register v node now) := by
  rw [register_of_notMem h]
  constructor
  · rintro t ⟨info, hinfo, halive, rfl⟩
    have hne : w ≠ v := fun heq => h (heq ▸ OrderedDict.mem_of_get? hinfo)
    exact ⟨info, (OrderedDict.get?_set_of_ne _ _ hne).trans hinfo, halive, rfl⟩
  · intro hnot hmem
    rcases OrderedDict.mem_set.mp hmem with rfl | hold
    · exact ⟨_, OrderedDict.get?_set_self _ _ _, rfl, rfl⟩
    · exact absurd hold hnot

end WorkerRegistry

namespace WorkerPool

open WorkerRegistry

variable (w : Uuid)

theorem tends_spawnWorkers (n : ℕ) (p : WorkerPool) (now : Time) :
    Tends w now p.registry (spawnWorkers n p now).registry := by
  induction n generalizing p with
  | zero => exact .refl w now _
  | succ n ih =>
    refine Tends.trans ?_ (ih (p.spawnOneWorker now))
    rw [spawnOneWorker]
    split_ifs
    · exact .refl w now _
    · exact tends_register p.nextUuid_notMem _

theorem tends_replaceWorkerIfNeeded (p : WorkerPool) (dead : Uuid) (now : Time) :
    Tends w now p.registry (p.replaceWorkerIfNeeded dead now).registry := by
  rw [replaceWorkerIfNeeded]
  split_ifs
  · exact .refl w now _
  · exact .refl w now _
  · exact tends_spawnWorkers w _ { p with
      replacedDeadWorkers := p.replacedDeadWorkers ++ [dead]
      spawnedFor := p.spawnedFor ++ [dead] } now

theorem tends_scaleWorkers (p : WorkerPool) (count : ℕ) (now : Time) :
    Tends w now p.registry (p.scaleWorkers count now).registry := by
  rw [scaleWorkers]
  split_ifs
  · exact .refl w now _
  · exact tends_spawnWorkers w _ p now

end WorkerPool

namespace SchedulerState

open WorkerRegistry

variable {w : Uuid}

/-! ## Steps that know nothing of the worker -/

theorem recover_tends {s s' : SchedulerState} {r : Recovery} {next : Option RecoveryStage}
    (h : s.RecoverMove r s' next) : Tends w s.clock s.pool.registry s'.pool.registry := by
  cases h with
  | reclaims | ends => exact s.pool.tends_replaceWorkerIfNeeded w _ _
  | _ => exact .refl w _ _

theorem step_tends {s s' : SchedulerState} {l : SchedulerLabel} (h : s.step l = some s')
    (hmonitor : ∀ ok, l ≠ .monitor ok) (hheartbeat : l ≠ .heartbeat w) (hdelete : l ≠ .delete w) :
    Tends w s.clock s.pool.registry s'.pool.registry := by
  cases l with
  | clock | enqueue =>
    cases h
    exact .refl w _ _
  | heartbeat v =>
    cases h
    exact tends_adjust _ _ (Or.inl fun heq => hheartbeat (by rw [heq]))
  | dispatch ok =>
    cases dispatchStep_cases h with
    | assigns => exact tends_adjust _ _ (Or.inr fun _ => ⟨rfl, rfl⟩)
    | _ => exact .refl w _ _
  | run i e =>
    obtain ⟨run, t, next, -, hmove, rfl⟩ := step_run h
    show Tends w s.clock s.pool.registry t.pool.registry
    cases hmove with
    | fails | completes | completesInMemory =>
      exact tends_adjust _ _ (Or.inr fun _ => ⟨rfl, rfl⟩)
    | _ => exact .refl w _ _
  | completeExec i ok =>
    obtain ⟨_, _, _, _, _, rfl⟩ := step_completeExec h
    exact .refl w _ _
  | monitor ok => exact absurd rfl (hmonitor ok)
  | delete v =>
    cases h
    rw [deleteStep]
    split
    · exact .refl w _ _
    · split
      · exact s.pool.tends_replaceWorkerIfNeeded w v s.clock
      · exact tends_adjust _ _ (Or.inl fun heq => hdelete (by rw [heq]))
  | recover i ok =>
    obtain ⟨r, t, next, -, hmove, rfl⟩ := step_recover h
    have htends := recover_tends (w := w) hmove
    exact htends
  | scale count =>
    rw [step] at h
    split_ifs at h
    · cases h
      exact s.pool.tends_scaleWorkers w count s.clock
    · cases h
      exact .refl w _ _

/-- The dead stay dead. -/
theorem step_dead {s s' : SchedulerState} {l : SchedulerLabel} (h : s.step l = some s')
    (hw : s.pool.registry.Dead w) : s'.pool.registry.Dead w := by
  obtain ⟨info, hinfo, hdead⟩ := hw
  obtain ⟨info', hinfo', hgrown⟩ := grows_step h w info hinfo
  exact ⟨info', hinfo', hgrown.dead hdead⟩

/-! ## One pass -/

/-- Where the loop of a pass at `now` leaves a worker that was last heard of at `t`: dead, if
this is too long ago, or still to be looked at, or spared. -/
theorem watch_heardAt {s : SchedulerState} (now : Time) {t : Time} (l : List Uuid)
    (hw : s.pool.registry.HeardAt w t) :
    (heartbeatTimeout < now - t ∧ (s.watch now l).pool.registry.Dead w) ∨
      ((s.watch now l).pool.registry.HeardAt w t ∧
        (((s.watch now l).monitor = .sleeping ∧ (w ∈ l → ¬ heartbeatTimeout < now - t)) ∨
          ∃ r rest, (s.watch now l).monitor = .recovering r rest now ∧
            (w ∈ l → w ∈ rest ∨ ¬ heartbeatTimeout < now - t))) := by
  induction l with
  | nil => exact Or.inr ⟨hw, Or.inl ⟨rfl, fun h => absurd h List.not_mem_nil⟩⟩
  | cons v l ih =>
    -- the loop goes on behind `v`, which is not `w` or is spared
    have hrest : (v = w → ¬ heartbeatTimeout < now - t) → s.watch now (v :: l) = s.watch now l →
        (heartbeatTimeout < now - t ∧ (s.watch now (v :: l)).pool.registry.Dead w) ∨
          ((s.watch now (v :: l)).pool.registry.HeardAt w t ∧
            (((s.watch now (v :: l)).monitor = .sleeping ∧
                (w ∈ v :: l → ¬ heartbeatTimeout < now - t)) ∨
              ∃ r rest, (s.watch now (v :: l)).monitor = .recovering r rest now ∧
                (w ∈ v :: l → w ∈ rest ∨ ¬ heartbeatTimeout < now - t))) := by
      intro hv heq
      rw [heq]
      rcases ih with hdead | ⟨hheard, ⟨hsleep, hspared⟩ | ⟨r, rest, hmon, hspared⟩⟩
      · exact Or.inl hdead
      · refine Or.inr ⟨hheard, Or.inl ⟨hsleep, fun hmem => ?_⟩⟩
        rcases List.mem_cons.mp hmem with rfl | htail
        · exact hv rfl
        · exact hspared htail
      · refine Or.inr ⟨hheard, Or.inr ⟨r, rest, hmon, fun hmem => ?_⟩⟩
        rcases List.mem_cons.mp hmem with rfl | htail
        · exact Or.inr (hv rfl)
        · exact hspared htail
    obtain ⟨info, hinfo, halive, hheard⟩ := id hw
    cases hget : s.pool.registry.workers.get? v with
    | none =>
      refine hrest ?_ (by rw [watch]; simp only [hget])
      rintro rfl
      cases hget.symm.trans hinfo
    | some other =>
      by_cases hdead : other.status = .dead
      · refine hrest ?_ (by rw [watch]; simp only [hget, hdead, if_true])
        rintro rfl
        obtain rfl := Option.some.inj (hget.symm.trans hinfo)
        cases halive.symm.trans hdead
      · by_cases hlate : heartbeatTimeout < now - other.lastHeartbeat
        · have hwatch : s.watch now (v :: l) = { s with
              pool := s.pool.markDead v, monitor := .recovering ⟨v, .notifying⟩ l now } := by
            rw [watch]
            simp only [hget, hdead, hlate, if_true, if_false]
          rw [hwatch]
          by_cases hv : w = v
          · subst hv
            obtain rfl := Option.some.inj (hget.symm.trans hinfo)
            rw [← hheard]
            exact Or.inl ⟨hlate, WorkerRegistry.dead_markDead (OrderedDict.mem_of_get? hinfo)⟩
          · refine Or.inr ⟨(tends_adjust _ now (Or.inl hv)).kept t hw, Or.inr ⟨_, l, rfl, ?_⟩⟩
            exact fun hmem => Or.inl ((List.mem_cons.mp hmem).resolve_left hv)
        · refine hrest ?_ (by rw [watch]; simp only [hget, hdead, hlate, if_false])
          rintro rfl
          obtain rfl := Option.some.inj (hget.symm.trans hinfo)
          rw [← hheard]
          exact hlate

/-- Where the steps of a pass that began at `now` can have left a worker that was last heard
of at `t` before. -/
def Watched (w : Uuid) (now t : Time) (s : SchedulerState) : Prop :=
  (heartbeatTimeout < now - t ∧ s.pool.registry.Dead w) ∨
    (s.pool.registry.HeardAt w t ∧
      ((s.monitor = .sleeping ∧ ¬ heartbeatTimeout < now - t) ∨
        ∃ r rest, s.monitor = .recovering r rest now ∧
          (w ∈ rest ∨ ¬ heartbeatTimeout < now - t)))

/-- A step inside a pass, which is not a sign of life of the worker and not its DELETE. -/
def InPass (w : Uuid) (s : SchedulerState) (l : SchedulerLabel) (_ : SchedulerState) : Prop :=
  s.monitor ≠ .sleeping ∧ l ≠ .heartbeat w ∧ l ≠ .delete w

/-- The loop of the pass goes on. -/
theorem watch_watched {s : SchedulerState} {now t : Time} {l : List Uuid}
    (hw : s.pool.registry.HeardAt w t) (hl : w ∈ l ∨ ¬ heartbeatTimeout < now - t) :
    Watched w now t (s.watch now l) := by
  rcases watch_heardAt now l hw with
    hdead | ⟨hheard, ⟨hsleep, hspared⟩ | ⟨r, rest, hmon, hspared⟩⟩
  · exact Or.inl hdead
  · exact Or.inr ⟨hheard, Or.inl ⟨hsleep, hl.elim hspared id⟩⟩
  · exact Or.inr ⟨hheard, Or.inr ⟨r, rest, hmon, hl.elim hspared Or.inr⟩⟩

theorem step_watched {s s' : SchedulerState} {now t : Time} {l : SchedulerLabel}
    (hs : Watched w now t s) (hl : InPass w s l s') (h : s.step l = some s') :
    Watched w now t s' := by
  rcases hs with ⟨hlate, hdead⟩ | ⟨hheard, hpass⟩
  · exact Or.inl ⟨hlate, step_dead h hdead⟩
  obtain ⟨hawake, hheartbeat, hdelete⟩ := hl
  obtain ⟨r, rest, hmon, hrest⟩ := hpass.resolve_left fun hsleep => hawake hsleep.1
  by_cases hmonitor : ∀ ok, l ≠ .monitor ok
  · refine Or.inr ⟨(step_tends h hmonitor hheartbeat hdelete).kept t hheard, Or.inr ?_⟩
    exact ⟨r, rest, (monitor_of_other h hmonitor).trans hmon, hrest⟩
  · push Not at hmonitor
    obtain ⟨ok, rfl⟩ := hmonitor
    rcases monitorStep_cases h with ⟨hsleep, -⟩ | ⟨r', rest', now', u, next, hmon', hmove, hnext⟩
    · exact absurd hsleep hawake
    · obtain ⟨rfl, rfl, rfl⟩ := MonitorPc.recovering.inj (hmon.symm.trans hmon')
      have hkept := (recover_tends (w := w) hmove).kept t hheard
      rcases hnext with ⟨stage, -, rfl⟩ | ⟨-, rfl⟩
      · exact Or.inr ⟨hkept, Or.inr ⟨_, rest, rfl, hrest⟩⟩
      · exact watch_watched hkept hrest

/-- **What a pass of the monitor decides.**  A pass begins in `s` and ends in `t`, and other
coroutines and requests run while it waits for Redis: a worker that is alive and was last heard
of at `t₀` when it begins, and neither sends a heartbeat nor is deleted meanwhile, is dead at
its end if and only if `t₀` was more than the timeout before its beginning. -/
theorem pass_exact (w : Uuid) (s s₁ t : SchedulerState) (t₀ : Time) (ok : Bool)
    (ls : List SchedulerLabel) (hbegin : s.monitor = .sleeping)
    (hw : s.pool.registry.HeardAt w t₀) (hfirst : s.step (.monitor ok) = some s₁)
    (hpass : Machine.Meets step (InPass w) s₁ ls) (hrun : Machine.exec step s₁ ls = some t)
    (hend : t.monitor = .sleeping) :
    t.pool.registry.Dead w ↔ heartbeatTimeout < s.clock - t₀ := by
  have hstart : Watched w s.clock t₀ s₁ := by
    rcases monitorStep_cases hfirst with ⟨-, rfl⟩ | ⟨_, _, _, _, _, hawake, -⟩
    · obtain ⟨info, hinfo, -⟩ := id hw
      exact watch_watched hw (Or.inl (OrderedDict.mem_def.mp (OrderedDict.mem_of_get? hinfo)))
    · cases hbegin.symm.trans hawake
  have hvisits : Machine.Visits step (Watched w s.clock t₀) s₁ ls := by
    refine Machine.visits_of_meets ?_ hstart hpass
    intro u l u' hu hl h
    exact step_watched hu hl h
  have hlast := hvisits ls List.prefix_rfl t hrun
  constructor
  · intro hdead
    rcases hlast with ⟨hlate, -⟩ | ⟨hheard, -⟩
    · exact hlate
    · exact absurd hdead (WorkerRegistry.not_dead_of_alive hheard.alive)
  · intro hlate
    rcases hlast with ⟨-, hdead⟩ | ⟨-, ⟨-, hspared⟩ | ⟨r, rest, hmon, -⟩⟩
    · exact hdead
    · exact absurd hlate hspared
    · cases hend.symm.trans hmon

/-- The first worker is silent and the second is not: the pass finds the first, and waits for
Redis while the second is heard of again. -/
theorem pass_exact_silent :
    ∃ s s₁ t, Machine.exec step (start 2 .redis 0) [.clock 11, .heartbeat 1] = some s ∧
      s.step (.monitor true) = some s₁ ∧
      Machine.exec step s₁ [.monitor true, .heartbeat 1, .monitor true, .monitor true] = some t ∧
      t.monitor = .sleeping ∧
      (t.pool.registry.Dead 0 ↔ heartbeatTimeout < s.clock - 0) := by
  refine ⟨_, _, _, by with_unfolding_all rfl, by with_unfolding_all rfl,
    by with_unfolding_all rfl, by with_unfolding_all rfl, ?_⟩
  refine pass_exact 0 _ _ _ 0 true [.monitor true, .heartbeat 1, .monitor true, .monitor true]
    rfl ⟨_, by rfl, by rfl, by rfl⟩ (by with_unfolding_all rfl) ?_ (by with_unfolding_all rfl)
    (by with_unfolding_all rfl)
  have hpass : ∀ {s s' : SchedulerState} {l : SchedulerLabel} {r : Recovery} {rest : List Uuid}
      {now : Time}, s.monitor = .recovering r rest now → l ≠ .heartbeat 0 → l ≠ .delete 0 →
      InPass 0 s l s' :=
    fun hmon hheartbeat hdelete =>
      ⟨fun hsleep => absurd (hmon.symm.trans hsleep) nofun, hheartbeat, hdelete⟩
  have hother : SchedulerLabel.heartbeat 1 ≠ .heartbeat 0 :=
    fun heq => absurd (SchedulerLabel.heartbeat.inj heq) (by decide)
  refine .cons_of_step (by with_unfolding_all rfl)
    (hpass (by with_unfolding_all rfl) nofun nofun) ?_
  refine .cons_of_step (by with_unfolding_all rfl)
    (hpass (by with_unfolding_all rfl) hother nofun) ?_
  refine .cons_of_step (by with_unfolding_all rfl)
    (hpass (by with_unfolding_all rfl) nofun nofun) ?_
  refine .cons_of_step (by with_unfolding_all rfl)
    (hpass (by with_unfolding_all rfl) nofun nofun) ?_
  exact Machine.meets_nil

/-! ## A worker whose heartbeats come in time -/

/-- The worker is not deleted, the clock does not go back, and whenever it moves, the last
heartbeat of the worker is not too old. -/
def Timely (w : Uuid) (s : SchedulerState) (l : SchedulerLabel) (_ : SchedulerState) : Prop :=
  l ≠ .delete w ∧ ∀ now, l = .clock now → s.clock ≤ now ∧
    ∀ info, s.pool.registry.workers.get? w = some info →
      ¬ heartbeatTimeout < now - info.lastHeartbeat

/-- The worker, once it is registered, is alive and was heard of lately, and a pass that is under
way began in the past. -/
structure Heard (w : Uuid) (s : SchedulerState) : Prop where
  heard : w ∈ s.pool.registry.workers →
    ∃ t, s.pool.registry.HeardAt w t ∧ ¬ heartbeatTimeout < s.clock - t
  began : ∀ r rest now, s.monitor = .recovering r rest now → now ≤ s.clock

theorem clock_watch (s : SchedulerState) (now : Time) (l : List Uuid) :
    (s.watch now l).clock = s.clock := by
  rcases s.watch_cases now l with heq | ⟨_, _, -, heq⟩ <;> rw [heq]

theorem clock_of_recover {s s' : SchedulerState} {r : Recovery} {next : Option RecoveryStage}
    (h : s.RecoverMove r s' next) : s'.clock = s.clock := by
  cases h <;> rfl

/-- Only the clock moves the clock. -/
theorem clock_of_other {s s' : SchedulerState} {l : SchedulerLabel} (h : s.step l = some s')
    (hl : ∀ now, l ≠ .clock now) : s'.clock = s.clock := by
  cases l with
  | clock now => exact absurd rfl (hl now)
  | heartbeat | enqueue =>
    cases h
    rfl
  | dispatch ok => cases dispatchStep_cases h <;> rfl
  | run i e =>
    obtain ⟨run, t, next, -, hmove, rfl⟩ := step_run h
    cases hmove <;> rfl
  | completeExec i ok =>
    obtain ⟨_, _, _, _, _, rfl⟩ := step_completeExec h
    rfl
  | monitor ok =>
    rcases monitorStep_cases h with ⟨-, rfl⟩ | ⟨r, rest, now, t, next, -, hmove, hnext⟩
    · exact s.clock_watch _ _
    · rcases hnext with ⟨stage, -, rfl⟩ | ⟨-, rfl⟩
      · have hclock := clock_of_recover hmove
        exact hclock
      · exact (t.clock_watch now rest).trans (clock_of_recover hmove)
  | delete w =>
    cases h
    rw [deleteStep]
    split
    · rfl
    · split <;> rfl
  | recover i ok =>
    obtain ⟨r, t, next, -, hmove, rfl⟩ := step_recover h
    have hclock := clock_of_recover hmove
    exact hclock
  | scale count =>
    rw [step] at h
    split_ifs at h <;> (cases h; rfl)

theorem not_late_self (t : Time) : ¬ heartbeatTimeout < t - t := by
  rw [sub_self]
  exact not_lt.mpr (by decide)

/-- What was known of the worker lately, or that it is new, is enough after a step that only
tends it. -/
theorem Heard.heard_of_tends {s : SchedulerState} {r : WorkerRegistry} (hs : Heard w s)
    (h : Tends w s.clock s.pool.registry r) (hmem : w ∈ r.workers) :
    ∃ t, r.HeardAt w t ∧ ¬ heartbeatTimeout < s.clock - t := by
  by_cases hold : w ∈ s.pool.registry.workers
  · obtain ⟨t, ht, hlate⟩ := hs.heard hold
    exact ⟨t, h.kept t ht, hlate⟩
  · exact ⟨s.clock, h.new hold hmem, not_late_self s.clock⟩

/-- The loop of a pass spares the worker, because the pass began in the past. -/
theorem heard_watch {s : SchedulerState} {now : Time} {l : List Uuid} (hnow : now ≤ s.clock)
    (hs : w ∈ s.pool.registry.workers →
      ∃ t, s.pool.registry.HeardAt w t ∧ ¬ heartbeatTimeout < s.clock - t) :
    Heard w (s.watch now l) := by
  constructor
  · intro hmem
    rw [clock_watch]
    have hold : w ∈ s.pool.registry.workers := by
      rcases s.watch_cases now l with heq | ⟨v, rest, -, heq⟩
      · rwa [heq] at hmem
      · rw [heq] at hmem
        exact WorkerRegistry.mem_adjust.mp hmem
    obtain ⟨t, ht, hlate⟩ := hs hold
    rcases watch_heardAt now l ht with ⟨hsilent, -⟩ | ⟨hheard, -⟩
    · exact absurd (hsilent.trans_le (sub_le_sub_right hnow t)) hlate
    · exact ⟨t, hheard, hlate⟩
  · intro r rest u hmon
    rw [clock_watch]
    rcases s.watch_cases now l with heq | ⟨v, rest', -, heq⟩
    · rw [heq] at hmon
      cases hmon
    · rw [heq] at hmon
      obtain ⟨-, -, rfl⟩ := MonitorPc.recovering.inj hmon
      exact hnow

theorem step_heard {s s' : SchedulerState} {l : SchedulerLabel} (hs : Heard w s)
    (hl : Timely w s l s') (h : s.step l = some s') : Heard w s' := by
  by_cases hclock : ∀ now, l ≠ .clock now
  · have heq := clock_of_other h hclock
    by_cases hmonitor : ∀ ok, l ≠ .monitor ok
    · have hbegan : ∀ r rest now, s'.monitor = .recovering r rest now → now ≤ s'.clock := by
        intro r rest now hmon
        rw [heq]
        exact hs.began r rest now ((monitor_of_other h hmonitor).symm.trans hmon)
      by_cases hheartbeat : l = .heartbeat w
      · subst hheartbeat
        cases h
        refine ⟨fun hmem => ⟨s.clock, ?_, not_late_self s.clock⟩, hbegan⟩
        obtain ⟨t, ⟨info, hinfo, halive, -⟩, -⟩ := hs.heard (WorkerRegistry.mem_adjust.mp hmem)
        refine ⟨{ info with lastHeartbeat := s.clock }, ?_, halive, rfl⟩
        exact (WorkerRegistry.get?_adjust _ w _ w).trans (by rw [if_pos rfl, hinfo]; rfl)
      · refine ⟨fun hmem => ?_, hbegan⟩
        rw [heq]
        exact hs.heard_of_tends (step_tends h hmonitor hheartbeat hl.1) hmem
    · push Not at hmonitor
      obtain ⟨ok, rfl⟩ := hmonitor
      rcases monitorStep_cases h with ⟨-, rfl⟩ | ⟨r, rest, now, t, next, hmon, hmove, hnext⟩
      · exact heard_watch le_rfl hs.heard
      · have hheard := hs.heard_of_tends (recover_tends hmove)
        have hnow := hs.began r rest now hmon
        rw [← clock_of_recover hmove] at hheard hnow
        rcases hnext with ⟨stage, -, rfl⟩ | ⟨-, rfl⟩
        · refine ⟨hheard, fun r' rest' now' hmon' => ?_⟩
          obtain ⟨-, -, rfl⟩ := MonitorPc.recovering.inj hmon'
          exact hnow
        · exact heard_watch hnow hheard
  · push Not at hclock
    obtain ⟨now, rfl⟩ := hclock
    cases h
    obtain ⟨hforward, hfresh⟩ := hl.2 now rfl
    refine ⟨fun hmem => ?_, fun r rest u hmon => (hs.began r rest u hmon).trans hforward⟩
    obtain ⟨t, ⟨info, hinfo, halive, rfl⟩, -⟩ := hs.heard hmem
    exact ⟨info.lastHeartbeat, ⟨info, hinfo, halive, rfl⟩, hfresh info hinfo⟩

theorem start_heard (n : ℕ) (q : StartQueue) (now : Time) : Heard w (start n q now) := by
  refine ⟨fun hmem => ⟨now, ?_, not_late_self now⟩, nofun⟩
  exact (WorkerPool.tends_spawnWorkers w n (.new n q.nextUuid) now).new List.not_mem_nil hmem

/-- **No false alarm.**  A worker that is not deleted and whose last heartbeat is never more than
the timeout ago, on a clock that does not go back, is alive in every state after it has
registered, whatever else dies, fails and is spawned around it, and however long the passes of
the monitor wait. -/
theorem timely_worker_survives (w : Uuid) (n : ℕ) (q : StartQueue) (now : Time)
    (ls : List SchedulerLabel) (h : Machine.Meets step (Timely w) (start n q now) ls) :
    Machine.Visits step (fun s => w ∈ s.pool.registry.workers → s.pool.registry.Alive w)
      (start n q now) ls := by
  have hvisits : Machine.Visits step (Heard w) (start n q now) ls := by
    refine Machine.visits_of_meets ?_ (start_heard n q now) h
    intro s l s' hs hl hstep
    exact step_heard hs hl hstep
  refine hvisits.mono fun s hs hmem => ?_
  obtain ⟨t, ht, -⟩ := hs.heard hmem
  exact ht.alive

/-- The pass finds the first worker; the second sends its heartbeat while the pass waits, and it
has to be at most the timeout old when the clock moves, not when the pass looks at it. -/
theorem timely_worker_survives_pass :
    Machine.Visits step (fun s => 1 ∈ s.pool.registry.workers → s.pool.registry.Alive 1)
      (start 2 .redis 0)
      [.clock 9, .heartbeat 1, .clock 11, .monitor true, .monitor true, .clock 19,
        .monitor true, .monitor true] := by
  refine timely_worker_survives 1 2 .redis 0 _ ?_
  have hquiet : ∀ {s s' : SchedulerState} {l : SchedulerLabel}, l ≠ .delete 1 →
      (∀ now, l ≠ .clock now) → Timely 1 s l s' :=
    fun hdelete hclock => ⟨hdelete, fun now heq => absurd heq (hclock now)⟩
  have hclock : ∀ (s s' : SchedulerState) (now t : Time), s.clock ≤ now →
      s.pool.registry.HeardAt 1 t → ¬ heartbeatTimeout < now - t → Timely 1 s (.clock now) s' := by
    rintro s s' now t hforward ⟨info, hinfo, -, rfl⟩ hfresh
    refine ⟨nofun, ?_⟩
    rintro _ ⟨⟩
    refine ⟨hforward, fun other hother => ?_⟩
    rwa [Option.some.inj (hother.symm.trans hinfo)]
  refine .cons_of_step rfl (hclock _ _ 9 0 (by decide) ⟨_, rfl, rfl, rfl⟩ (by decide +kernel)) ?_
  refine .cons_of_step rfl (hquiet nofun nofun) ?_
  refine .cons_of_step rfl (hclock _ _ 11 9 (by decide) ⟨_, rfl, rfl, rfl⟩ (by decide +kernel)) ?_
  refine .cons_of_step (by with_unfolding_all rfl) (hquiet nofun nofun) ?_
  refine .cons_of_step (by with_unfolding_all rfl) (hquiet nofun nofun) ?_
  refine .cons_of_step rfl (hclock _ _ 19 9 (by decide +kernel) ⟨_, by with_unfolding_all rfl,
    by with_unfolding_all rfl, by with_unfolding_all rfl⟩ (by decide +kernel)) ?_
  refine .cons_of_step (by with_unfolding_all rfl) (hquiet nofun nofun) ?_
  refine .cons_of_step (by with_unfolding_all rfl) (hquiet nofun nofun) ?_
  exact Machine.meets_nil

end SchedulerState
end Rcsce
