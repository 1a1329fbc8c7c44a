import Rcsce.ControlPlane.LayerKeys
import Rcsce.Scheduler.Drain

/-!
# A scan that is asked for can be carried to the cache

A start event that misses the cache becomes a job of the scheduler, the job a POST of `_run_job`
to the cache node, and the POST an entry under the key that later start events look up.  The
scheduler's part of this is `SchedulerState.Serving.drains`.  Here it is taken through the whole
pipeline: `LayerRun.scans_delivered` says that from every state of a run in which nothing is
lost, the processes can go on by themselves until the result of every job that was made for a
start event has been handled by the cache node, under the key of the event.

* `LayerLabel.reliable` are the labels that lose nothing: no Redis command of the queue raises,
  no POST is lost, and the scheduler is not restarted.
* `Delivering` is the invariant: a job that is completed, or about to be, has been written, and
  what has been written is on its way or stored.
* `Own` are the steps that the processes take by themselves, when the scans come to what
  `trivy` says.  A drain of the scheduler lifts to such steps (`reaches_quiescent`), and then
  the POSTs are handled one by one (`reaches_stored`).
-/

namespace Rcsce

/-- A scan that returns has a result. -/
theorem SchedulerLabel.exists_of_returns {l : SchedulerLabel} (h : l.returns = true) :
    ∃ i result, l = .run i (.returns result) := by
  cases l with
  | run i e =>
    cases e with
    | returns result => exact ⟨i, result, rfl⟩
    | _ => cases h
  | _ => cases h

namespace SchedulerState

/-- A result comes to a task only when its scan returns. -/
theorem step_caching {P : Job → Json → Prop} {s s' : SchedulerState} {l : SchedulerLabel}
    (hs : ∀ run ∈ s.runs, ∀ result, run.stage = .caching result → P run.job result)
    (hreturns : ∀ i result run, l = .run i (.returns result) → s.runs[i]? = some run →
      P run.job result) (h : s.step l = some s') :
    ∀ run ∈ s'.runs, ∀ result, run.stage = .caching result → P run.job result := by
  cases l with
  | enqueue =>
    cases h
    exact hs
  | dispatch ok =>
    cases dispatchStep_cases h with
    | launches w job hpc =>
      intro run hrun result hstage
      rcases List.mem_append.mp hrun with hold | hnew
      · exact hs run hold result hstage
      · rw [List.mem_singleton.mp hnew] at hstage
        cases hstage
    | _ => exact hs
  | run i e =>
    obtain ⟨run, t, next, hget, hmove, rfl⟩ := step_run h
    have hnext : (∀ result, next = some (.caching result) → P run.job result) →
        ∀ r ∈ advance s.runs i (next.map fun stage => { run with stage }), ∀ result,
          r.stage = .caching result → P r.job result := by
      intro hcaching r hr result hstage
      rcases mem_of_mem_advance hget hr with hnew | hold
      · obtain ⟨stage, hsome, rfl⟩ := Option.map_eq_some_iff.mp hnew
        exact hcaching result (hsome.trans (congrArg some hstage))
      · exact hs r hold result hstage
    cases hmove with
    | returns result hpc =>
      refine hnext fun result' heq => ?_
      cases heq
      exact hreturns i result run rfl hget
    | _ => exact hnext nofun
  | completeExec i ok =>
    obtain ⟨_, _, _, _, _, rfl⟩ := step_completeExec h
    exact hs
  | _ => exact (worker_sameTasks h rfl).1 ▸ hs

/-- Only a job that has a result is completed. -/
theorem step_completions {s s' : SchedulerState} {l : SchedulerLabel} (h : s.step l = some s') :
    s'.completions = s.completions ∨ ∃ i ok run result, l = .run i (.goesOn ok) ∧
      s.runs[i]? = some run ∧ run.stage = .caching result ∧
        s'.completions = s.completions ++ [run.job.jobId] := by
  cases l with
  | enqueue =>
    cases h
    exact Or.inl rfl
  | dispatch ok => cases dispatchStep_cases h <;> exact Or.inl rfl
  | run i e =>
    obtain ⟨run, t, next, hget, hmove, rfl⟩ := step_run h
    cases hmove with
    | completes result q hq hpc | completesInMemory result q hq hpc =>
      exact Or.inr ⟨i, _, run, result, rfl, hget, hpc, rfl⟩
    | _ => exact Or.inl rfl
  | completeExec i ok =>
    obtain ⟨_, _, _, _, _, rfl⟩ := step_completeExec h
    exact Or.inl rfl
  | _ => exact Or.inl (worker_sameTasks h rfl).2.2.1

/-- What has been completed, or is about to be, has `W`. -/
structure Answered (W : Uuid → Prop) (s : SchedulerState) : Prop where
  finished : ∀ i ∈ s.completions, W i
  caching : ∀ run ∈ s.runs, ∀ result, run.stage = .caching result → W run.job.jobId

theorem Answered.mono {W W' : Uuid → Prop} {s : SchedulerState} (h : s.Answered W)
    (hW : ∀ i, W i → W' i) : s.Answered W' :=
  ⟨fun i hi => hW i (h.finished i hi), fun run hrun result hpc =>
    hW _ (h.caching run hrun result hpc)⟩

/-- A scan that returns is the only way to a new answer. -/
theorem step_answered {W : Uuid → Prop} {s s' : SchedulerState} {l : SchedulerLabel}
    (hs : s.Answered W)
    (hreturns : ∀ i result run, l = .run i (.returns result) → s.runs[i]? = some run →
      W run.job.jobId) (h : s.step l = some s') : s'.Answered W := by
  refine ⟨fun j hj => ?_, step_caching (P := fun job _ => W job.jobId) hs.caching hreturns h⟩
  rcases step_completions h with hsame | ⟨i, ok, run, result, -, hget, hpc, hcompletions⟩
  · exact hs.finished j (hsame ▸ hj)
  · rw [hcompletions] at hj
    rcases List.mem_append.mp hj with hold | hnew
    · exact hs.finished j hold
    · rw [List.mem_singleton.mp hnew]
      exact hs.caching run (List.mem_of_getElem? hget) result hpc

/-- An accepted job stays accepted. -/
theorem mem_enqueued_step {s s' : SchedulerState} {l : SchedulerLabel} (hs : s.Backed)
    (h : s.step l = some s') {i : Uuid} (hi : i ∈ s.enqueued) : i ∈ s'.enqueued := by
  obtain ⟨es, hes⟩ := step_events hs h
  rw [hes.submitted]
  exact List.mem_append_left _ hi

end SchedulerState

/-- Nothing gets lost in the step. -/
def LayerLabel.reliable : LayerLabel → Bool
  | .pipeline (.scheduler l) => l.ok
  | .pipeline (.postLost _) => false
  | .pipeline _ => true
  | .schedulerRestart _ _ _ => false

namespace LayerRun

variable {sha256Text : String → String} {n : ℕ} {s s' : LayerRun}

/-- The result of the job has been posted. -/
def Written (s : LayerRun) (i : Uuid) : Prop := ∃ p, (i, p) ∈ s.written

/-- The invariant of the runs that lose nothing. -/
structure Delivering (sha256Text : String → String) (n : ℕ) (s : LayerRun) : Prop where
  serving : SchedulerState.Serving n s.pipeline.scheduler
  keyed : s.Keyed sha256Text
  accepted : ∀ p ∈ s.pushed, p.1 ∈ s.pipeline.scheduler.enqueued
  answered : s.pipeline.scheduler.Answered s.Written
  kept : ∀ w ∈ s.written, w.2 ∈ s.pipeline.posts ∨ w.2 ∈ s.pipeline.stored

/-- A step that keeps what is there, and that accepts what it pushes and sends what it writes. -/
theorem Delivering.next (hs : s.Delivering sha256Text n) (hkeyed : s'.Keyed sha256Text)
    {pushed : List (Uuid × DockerEvent)} {written : List (Uuid × Post)}
    (hpushed : s'.pushed = s.pushed ++ pushed) (hwritten : s'.written = s.written ++ written)
    (hserving : SchedulerState.Serving n s'.pipeline.scheduler)
    (henqueued : ∀ i ∈ s.pipeline.scheduler.enqueued, i ∈ s'.pipeline.scheduler.enqueued)
    (hanswered : s.pipeline.scheduler.Answered s'.Written →
      s'.pipeline.scheduler.Answered s'.Written)
    (hkept : ∀ p, p ∈ s.pipeline.posts ∨ p ∈ s.pipeline.stored →
      p ∈ s'.pipeline.posts ∨ p ∈ s'.pipeline.stored)
    (hnew : ∀ p ∈ pushed, p.1 ∈ s'.pipeline.scheduler.enqueued)
    (hsent : ∀ w ∈ written, w.2 ∈ s'.pipeline.posts) : s'.Delivering sha256Text n := by
  refine ⟨hserving, hkeyed, fun p hp => ?_, hanswered (hs.answered.mono ?_), fun w hw => ?_⟩
  · rw [hpushed] at hp
    exact (List.mem_append.mp hp).elim (fun hold => henqueued _ (hs.accepted p hold)) (hnew p)
  · rintro i ⟨p, hp⟩
    exact ⟨p, hwritten ▸ List.mem_append_left _ hp⟩
  · rw [hwritten] at hw
    exact (List.mem_append.mp hw).elim (fun hold => hkept _ (hs.kept w hold))
      fun hlast => Or.inl (hsent w hlast)

/-- A step that leaves the scheduler alone, writes nothing and pushes nothing. -/
theorem Delivering.keeps (hs : s.Delivering sha256Text n) (hkeyed : s'.Keyed sha256Text)
    (hpushed : s'.pushed = s.pushed ++ []) (hwritten : s'.written = s.written ++ [])
    (hscheduler : s'.pipeline.scheduler = s.pipeline.scheduler)
    (hkept : ∀ p, p ∈ s.pipeline.posts ∨ p ∈ s.pipeline.stored →
      p ∈ s'.pipeline.posts ∨ p ∈ s'.pipeline.stored) : s'.Delivering sha256Text n :=
  hs.next hkeyed hpushed hwritten (hscheduler ▸ hs.serving) (fun _ hi => hscheduler ▸ hi)
    (fun h => hscheduler ▸ h) hkept (fun _ hp => absurd hp List.not_mem_nil)
    fun _ hw => absurd hw List.not_mem_nil

/-- **The step of the invariant.** -/
theorem step_delivering (hsha : ∀ text, sha256Text text ≠ "") {l : LayerLabel}
    (hs : s.Delivering sha256Text n) (hl : l.reliable = true)
    (hstep : s.step sha256Text l = some s') : s'.Delivering sha256Text n := by
  have hkeyed := step_keyed hsha hs.keyed hstep
  have henqueued : ∀ {l : SchedulerLabel} {t : SchedulerState},
      s.pipeline.scheduler.step l = some t → ∀ i ∈ s.pipeline.scheduler.enqueued, i ∈ t.enqueued :=
    fun h i hi => SchedulerState.mem_enqueued_step hs.serving.backed h hi
  cases l with
  | schedulerRestart choice m now => cases hl
  | pipeline l =>
    obtain ⟨t, hpipeline, rfl⟩ := Option.map_eq_some_iff.mp hstep
    cases PipelineState.step_cases hpipeline with
    | schedules l t hreturns hl' =>
      refine hs.next hkeyed rfl rfl (SchedulerState.step_serving hs.serving hl hl')
        (henqueued hl') (fun h => SchedulerState.step_answered h ?_ hl') (fun _ hp => hp)
        (fun _ hp => absurd hp List.not_mem_nil) fun _ hw => absurd hw List.not_mem_nil
      rintro i result run rfl -
      cases hreturns
    | scans i run timestamp elapsedMs task t htask hl' =>
      have hwrites : s.pipeline.writes sha256Text (.scan i run timestamp elapsedMs) =
          [(task.job.jobId, ⟨runLayerHash sha256Text task.job,
            timedResult task.workerId task.job run timestamp elapsedMs, run⟩)] := by
        rw [PipelineState.writes, htask]
      refine hs.next hkeyed rfl rfl (SchedulerState.step_serving hs.serving rfl hl')
        (henqueued hl') (fun h => SchedulerState.step_answered h ?_ hl')
        (fun _ hp => hp.imp_left fun hpost => List.mem_append_left _ hpost)
        (fun _ hp => absurd hp List.not_mem_nil) fun w hw => ?_
      · intro j result task' heq htask'
        obtain ⟨rfl, -⟩ := SchedulerLabel.run.inj heq
        obtain rfl := Option.some.inj (htask'.symm.trans htask)
        rw [hwrites]
        exact ⟨_, List.mem_append_right _ (List.mem_singleton.mpr rfl)⟩
      · rw [hwrites] at hw
        rw [List.mem_singleton.mp hw]
        exact List.mem_append_right _ (List.mem_singleton.mpr rfl)
    | pushes k delivered answered e t hk hl' =>
      cases delivered with
      | false =>
        cases hl'
        exact hs.keeps hkeyed rfl rfl rfl fun _ hp => hp
      | true =>
        have hpushes : s.pipeline.pushes (.push k true answered) =
            [(s.pipeline.scheduler.pool.nextUuid, e)] := by rw [PipelineState.pushes, hk]
        have hl'' : s.pipeline.scheduler.step
            (.enqueue e.containerId (e.layerHash sha256Text) e.imageName) = some t := hl'
        refine hs.next hkeyed rfl rfl (SchedulerState.step_serving hs.serving rfl hl'')
          (henqueued hl'') (fun h => SchedulerState.step_answered h (fun _ _ _ heq => ?_) hl'')
          (fun _ hp => hp) (fun p hp => ?_) fun _ hw => absurd hw List.not_mem_nil
        · cases heq
        · rw [hpushes] at hp
          rw [List.mem_singleton.mp hp]
          cases hl''
          exact List.mem_append_right _ (List.mem_singleton.mpr rfl)
    | stores k call p hk =>
      refine hs.keeps hkeyed rfl rfl rfl fun p' hp' => ?_
      rcases hp' with hpost | hstored
      · rcases mem_advance hk hpost none with rfl | hrest
        · exact Or.inr (List.mem_append_right _ (List.mem_singleton.mpr rfl))
        · exact Or.inl hrest
      · exact Or.inr (List.mem_append_left _ hstored)
    | loses k => cases hl
    | responds k ok e stage hit =>
      cases hit <;> exact hs.keeps hkeyed rfl rfl rfl fun _ hp => hp
    | _ => exact hs.keeps hkeyed rfl rfl rfl fun _ hp => hp

theorem start_delivering (sha256Text : String → String) (n : ℕ) (q : StartQueue) (now : Time)
    (capacity : ℕ) (ttlSeconds : ℤ) (redis : Bool) (store : StateStore) :
    (start n q now capacity ttlSeconds redis store).Delivering sha256Text n where
  serving := SchedulerState.start_serving n q now
  keyed := start_keyed sha256Text n q now capacity ttlSeconds redis store
  accepted := fun _ hp => absurd hp List.not_mem_nil
  answered := ⟨fun _ hi => absurd hi List.not_mem_nil, fun _ hrun => absurd hrun List.not_mem_nil⟩
  kept := fun _ hw => absurd hw List.not_mem_nil

theorem exec_delivering (hsha : ∀ text, sha256Text text ≠ "") {ls : List LayerLabel}
    (hs : s.Delivering sha256Text n) (hls : ∀ l ∈ ls, l.reliable = true)
    (h : Machine.exec (step sha256Text) s ls = some s') : s'.Delivering sha256Text n :=
  Machine.exec_invariant_of_labels
    (fun _ _ _ hs hl hstep => step_delivering hsha hs hl hstep) hs hls h

/-! ## The steps of the processes -/

/-- A step that the processes take by themselves, without a failure.  The scan of a task comes to
what `trivy` says. -/
def Own (trivy : RunTask → TrivyRun) (s : LayerRun) : LayerLabel → Prop
  | .pipeline (.scheduler l) => l.own = true
  | .pipeline (.scan i run _ _) =>
      ∃ task, s.pipeline.scheduler.runs[i]? = some task ∧ run = trivy task
  | .pipeline (.post _ _) => True
  | _ => False

/-- Such steps lead from one state to the other. -/
abbrev Delivers (sha256Text : String → String) (trivy : RunTask → TrivyRun) :
    LayerRun → LayerRun → Prop :=
  Machine.Reaches (step sha256Text) (Own trivy)

variable {trivy : RunTask → TrivyRun}

/-- The scheduler's own steps are steps of the whole: a scan that returns is a `scan`. -/
theorem lift_own (hsha : ∀ text, sha256Text text ≠ "") (hs : s.Delivering sha256Text n)
    {l : SchedulerLabel} {t : SchedulerState}
    (hl : s.pipeline.scheduler.Own
      (fun run => timedResult run.workerId run.job (trivy run) "" 0) l)
    (h : s.pipeline.scheduler.step l = some t) :
    ∃ k s', s.Own trivy k ∧ s.step sha256Text k = some s' ∧ s'.Delivering sha256Text n ∧
      s'.pushed = s.pushed ∧ s'.pipeline.scheduler = t := by
  cases hreturns : l.returns with
  | false =>
    have hstep : s.step sha256Text (.pipeline (.scheduler l)) = some
        ⟨{ s.pipeline with scheduler := t }, s.idleRedis, s.pushed ++ [], s.written ++ []⟩ := by
      simp only [step, PipelineState.step, hreturns, h, Option.map_some]
      rfl
    have hreliable : (LayerLabel.pipeline (.scheduler l)).reliable = true :=
      SchedulerState.ok_of_own hl.own
    exact ⟨.pipeline (.scheduler l), _, hl.own, hstep, step_delivering hsha hs hreliable hstep,
      List.append_nil _, rfl⟩
  | true =>
    obtain ⟨i, result, rfl⟩ := SchedulerLabel.exists_of_returns hreturns
    obtain ⟨run, hrun, rfl⟩ := hl.answers i result rfl
    have hstep : s.step sha256Text (.pipeline (.scan i (trivy run) "" 0)) = some
        ⟨{ s.pipeline with
            scheduler := t
            posts := s.pipeline.posts ++ [⟨runLayerHash sha256Text run.job,
              timedResult run.workerId run.job (trivy run) "" 0, trivy run⟩] }, s.idleRedis,
          s.pushed ++ [],
          s.written ++ s.pipeline.writes sha256Text (.scan i (trivy run) "" 0)⟩ := by
      simp only [step, PipelineState.step, hrun, h, Option.map_some]
      rfl
    exact ⟨.pipeline (.scan i (trivy run) "" 0), _, ⟨run, hrun, rfl⟩, hstep,
      step_delivering hsha hs rfl hstep, List.append_nil _, rfl⟩

/-- The scheduler completes all that it has accepted. -/
theorem reaches_quiescent (hsha : ∀ text, sha256Text text ≠ "") (hn : 0 < n)
    (hs : s.Delivering sha256Text n) (trivy : RunTask → TrivyRun) :
    ∃ t, Delivers sha256Text trivy s t ∧ t.Delivering sha256Text n ∧ t.pushed = s.pushed ∧
      t.pipeline.scheduler.Quiescent := by
  obtain ⟨u, hu, -, -, hquiescent⟩ := hs.serving.drains hn
    fun run => timedResult run.workerId run.job (trivy run) "" 0
  have hlift : ∃ t, Delivers sha256Text trivy s t ∧
      (t.Delivering sha256Text n ∧ t.pushed = s.pushed) ∧ t.pipeline.scheduler = u := by
    refine Machine.Reaches.lift
      (J := fun t : LayerRun => t.Delivering sha256Text n ∧ t.pushed = s.pushed)
      (fun t : LayerRun => t.pipeline.scheduler) ?_ hu ⟨hs, rfl⟩
    rintro a l u' ⟨ha, hpushed⟩ hl hstep
    obtain ⟨k, b, hk, hb, hdelivering, hpushed', hpart⟩ := lift_own hsha ha hl hstep
    exact ⟨k, b, hk, hb, ⟨hdelivering, hpushed'.trans hpushed⟩, hpart⟩
  obtain ⟨t, ht, ⟨hdelivering, hpushed⟩, rfl⟩ := hlift
  exact ⟨t, ht, hdelivering, hpushed, hquiescent⟩

/-- The cache node handles the POSTs that are on their way. -/
theorem reaches_stored (hsha : ∀ text, sha256Text text ≠ "") (hs : s.Delivering sha256Text n)
    (trivy : RunTask → TrivyRun) :
    ∃ t, Delivers sha256Text trivy s t ∧ t.Delivering sha256Text n ∧ t.pushed = s.pushed ∧
      t.pipeline.scheduler = s.pipeline.scheduler ∧ t.pipeline.posts = [] := by
  have hstored : ∃ t, Delivers sha256Text trivy s t ∧ (t.Delivering sha256Text n ∧
      t.pushed = s.pushed ∧ t.pipeline.scheduler = s.pipeline.scheduler) ∧
        t.pipeline.posts.length = 0 := by
    refine Machine.reaches_of_measure
      (I := fun t : LayerRun => t.Delivering sha256Text n ∧ t.pushed = s.pushed ∧
        t.pipeline.scheduler = s.pipeline.scheduler)
      (fun t : LayerRun => t.pipeline.posts.length) ?_ ⟨hs, rfl, rfl⟩
    rintro t ⟨ht, hpushed, hscheduler⟩ hpos
    -- the first POST is handled
    obtain ⟨p, rest, hposts⟩ := List.exists_cons_of_length_pos hpos
    have hget : t.pipeline.posts[0]? = some p := by rw [hposts]; rfl
    have hstep : ∃ t', t.step sha256Text (.pipeline (.post 0 { createdAt := 0, now := 0 })) =
        some t' ∧ t'.pushed = t.pushed ++ [] ∧ t'.pipeline.scheduler = t.pipeline.scheduler ∧
          t'.pipeline.posts = rest := by
      simp only [step, PipelineState.step, hget, Option.map_some]
      refine ⟨_, rfl, rfl, rfl, ?_⟩
      show advance t.pipeline.posts 0 none = rest
      rw [hposts]
      rfl
    obtain ⟨t', hstep, hpushed', hscheduler', hrest⟩ := hstep
    rw [List.append_nil] at hpushed'
    have hown : t.Own trivy (.pipeline (.post 0 { createdAt := 0, now := 0 })) := trivial
    refine ⟨_, t', hown, hstep, ⟨step_delivering hsha ht rfl hstep, hpushed'.trans hpushed,
      hscheduler'.trans hscheduler⟩, ?_⟩
    rw [hrest, hposts]
    exact Nat.lt_succ_self _
  obtain ⟨t, ht, ⟨hdelivering, hpushed, hscheduler⟩, hzero⟩ := hstored
  exact ⟨t, ht, hdelivering, hpushed, hscheduler, List.length_eq_zero_iff.mp hzero⟩

/-- **A scan that is asked for can be carried to the cache.**  On either queue backend, with at
least one worker asked for, and as long as nothing is lost (no Redis command of the queue raises,
no POST of `_run_job` is lost and the scheduler is not restarted): from every state that a run
reaches, whatever has happened before and whatever the remaining scans come to, the processes can
go on by themselves until the cache node has handled the result of every job that was made for a
start event, under the key that the event looks up, and the scheduler has nothing left to do. -/
theorem scans_delivered (sha256Text : String → String) (hsha : ∀ text, sha256Text text ≠ "")
    (n : ℕ) (hn : 0 < n) (q : StartQueue) (now : Time) (capacity : ℕ) (ttlSeconds : ℤ)
    (redis : Bool) (store : StateStore) (ls : List LayerLabel)
    (hls : ∀ l ∈ ls, l.reliable = true) (s : LayerRun)
    (h : Machine.exec (step sha256Text) (start n q now capacity ttlSeconds redis store) ls =
      some s) (trivy : RunTask → TrivyRun) :
    ∃ t, Delivers sha256Text trivy s t ∧ t.pushed = s.pushed ∧
      t.pipeline.scheduler.Quiescent ∧
      ∀ i e, (i, e) ∈ t.pushed → ∃ p, (i, p) ∈ t.written ∧ p ∈ t.pipeline.stored ∧
        p.layerHash = e.layerHash sha256Text := by
  have hs : s.Delivering sha256Text n :=
    exec_delivering hsha (start_delivering sha256Text n q now capacity ttlSeconds redis store)
      hls h
  obtain ⟨u, hu, hudelivering, hupushed, hquiescent⟩ := reaches_quiescent hsha hn hs trivy
  obtain ⟨t, ht, htdelivering, htpushed, hscheduler, hposts⟩ :=
    reaches_stored hsha hudelivering trivy
  have hquiescent' : t.pipeline.scheduler.Quiescent := hscheduler ▸ hquiescent
  refine ⟨t, hu.trans ht, htpushed.trans hupushed, hquiescent', fun i e he => ?_⟩
  have haccepted := htdelivering.accepted (i, e) he
  obtain ⟨p, hp⟩ := htdelivering.answered.finished i (hquiescent'.completed i haccepted)
  refine ⟨p, hp, ?_, (htdelivering.keyed.written (i, p) hp).2 e he⟩
  rcases htdelivering.kept (i, p) hp with hpost | hstored
  · rw [hposts] at hpost
    exact absurd hpost List.not_mem_nil
  · exact hstored

/-- A container has started, its lookup has missed, and its job has been accepted. -/
theorem scans_delivered_started :
    ∃ s, Machine.exec (step webDigest) (start 1 .redis 0 10 3600 true .empty)
        [.pipeline (.docker ⟨.start, "c1", some "web-1", some "nginx", none, 0⟩),
          .pipeline (.lookup 0 { now := 0, redisNow := 0 }), .pipeline (.respond 0 true),
          .pipeline (.push 0 true true)] = some s ∧
      s.pushed = [(1, ⟨.start, "c1", some "web-1", some "nginx", none, 0⟩)] ∧
      ∃ t, Delivers webDigest (fun _ => .timesOut) s t ∧ t.pushed = s.pushed ∧
        t.pipeline.scheduler.Quiescent ∧
        ∀ i e, (i, e) ∈ t.pushed → ∃ p, (i, p) ∈ t.written ∧ p ∈ t.pipeline.stored ∧
          p.layerHash = e.layerHash webDigest := by
  have hsha : ∀ text, webDigest text ≠ "" := by
    intro text
    rw [webDigest]
    split_ifs <;> decide
  refine ⟨_, by with_unfolding_all rfl, by with_unfolding_all rfl, ?_⟩
  exact scans_delivered webDigest hsha 1 (by decide) .redis 0 10 3600 true .empty
    [.pipeline (.docker ⟨.start, "c1", some "web-1", some "nginx", none, 0⟩),
      .pipeline (.lookup 0 { now := 0, redisNow := 0 }), .pipeline (.respond 0 true),
      .pipeline (.push 0 true true)] (by decide) _ (by with_unfolding_all rfl) _

end LayerRun
end Rcsce
