import Rcsce.Cache.Copies
import Rcsce.ControlPlane.ScanPipeline
import Rcsce.Scheduler.JobRequest

/-!
# The key of a scan result, from the start event to the cache and back

`_handle_event` builds a layer hash from the image and the digest of a start event, looks it
up, and on a miss sends it along as the `image_id` of a job.  `_run_job` takes the key
under which it stores the result from the job, with a fallback when `image_id` is empty.
In between the job goes through HTTP, a job dictionary, JSON in Redis, any number of
requeues and reclaims, and new scheduler processes.

## The machine

`LayerRun` is the pipeline with a scheduler that may be restarted: the new process finds in
Redis what the old one left there, runs `reclaim_inflight`, and falls back to the in-memory
queue if Redis raises before or during that.  `pushed` lists the start events that a job
was made for, with the id of the job, and `written` the POSTs of `_run_job`, with the job.

## The result

`Right` is what a job keeps of the start event that it was made for.  It is about the
request of the job only, so every step of the scheduler keeps it (`step_allJobs`), and with it
`_run_job` writes under the key that any later start event of the same image and digest
looks up (`keys_agree`).
-/

namespace Rcsce

/-- What `create_queue` returns to a new scheduler process. -/
inductive QueueChoice where
  /-- It reaches Redis and reclaims the jobs in flight. -/
  | redis
  /-- Redis raises, at PING or after so many of the commands of `reclaim_inflight`. -/
  | inMemory (commands : ℕ)

/-- The pipeline, with what Redis holds for the queue while the scheduler runs on the
in-memory queue. -/
structure LayerRun where
  pipeline : PipelineState
  idleRedis : QueueStore
  pushed : List (Uuid × DockerEvent)
  written : List (Uuid × Post)

/-- What can happen next. -/
inductive LayerLabel where
  | pipeline (l : PipelineLabel)
  /-- The scheduler process ends, and a new one starts with `n` workers. -/
  | schedulerRestart (choice : QueueChoice) (n : ℕ) (now : Time)

namespace PipelineState

/-- The job that a step makes for a start event. -/
def pushes (s : PipelineState) : PipelineLabel → List (Uuid × DockerEvent)
  | .push k true _ =>
      match s.starts[k]? with
      | some ⟨e, .pushing⟩ => [(s.scheduler.pool.nextUuid, e)]
      | _ => []
  | _ => []

/-- The POST that a step sends, with its job. -/
def writes (sha256Text : String → String) (s : PipelineState) :
    PipelineLabel → List (Uuid × Post)
  | .scan i run timestamp elapsedMs =>
      match s.scheduler.runs[i]? with
      | some task => [(task.job.jobId, ⟨runLayerHash sha256Text task.job,
          timedResult task.workerId task.job run timestamp elapsedMs, run⟩)]
      | none => []
  | _ => []

/-- The cache node has an unexpired entry for the hash, with these data, which a `get`
finds. -/
def Resident (s : PipelineState) (h : String) (call : GetCall) (d : Json) : Prop :=
  (∃ ct et, s.cache.lru.cache.get? h = some (payload d ct et) ∧ call.now ≤ et) ∨
    s.cache.lru.cache.get? h = none ∧ s.cache.redis = true ∧ call.getRaises = false ∧
      ∃ ct et, s.redis.get? (redisKey h) = some (.dumps (payload d ct et)) ∧ call.redisNow ≤ et

theorem get_of_resident {s : PipelineState} {h : String} {call : GetCall} {d : Json}
    (hres : s.Resident h call d) : (s.cache.get s.redis call h).1 = .ok d := by
  rcases hres with ⟨ct, et, hitem, hfresh⟩ | ⟨hnone, hredis, hget, ct, et, hraw, hfresh⟩
  · rw [LayerScanCache.get_of_fresh hitem s.redis hfresh]
  · rw [LayerScanCache.get_of_absent hnone]
    exact congrArg Prod.fst (LayerScanCache.redisFallback_of_fresh
      (c := { s.cache with lru := (s.cache.lru.get h).2 }) hredis hget hraw hfresh)

end PipelineState

/-- A start event with the same image and the same digest. -/
def DockerEvent.SameLayer (e' e : DockerEvent) : Prop := e'.image = e.image ∧ e'.digest = e.digest

theorem DockerEvent.SameLayer.layerHash {e' e : DockerEvent} (h : e'.SameLayer e)
    (sha256Text : String → String) : e'.layerHash sha256Text = e.layerHash sha256Text := by
  have hname : e'.imageName = e.imageName := by rw [imageName, h.1, imageName]
  have hdigest : e'.layerDigest = e.layerDigest := by
    rw [layerDigest, h.2, hname, layerDigest]
  rw [DockerEvent.layerHash, hname, hdigest, DockerEvent.layerHash]

/-- What a hit sets in the record of the container. -/
theorem StateStore.record_onCacheHit (s : StateStore) (e : DockerEvent) (layerHash : String)
    (scanResult : List (String × Json)) :
    ∃ record, (s.onCacheHit e layerHash scanResult).containers.get? e.containerId = some record ∧
      record.get? "vulnerabilities" = some (cachedVulns scanResult) ∧
      record.get? "scan_status" = some (.str "cache_hit") := by
  have hfields : (Record.ofFields [("vulnerabilities", cachedVulns scanResult),
      ("scan_status", .str "cache_hit")]).entries =
        [("vulnerabilities", cachedVulns scanResult), ("scan_status", .str "cache_hit")] := rfl
  refine ⟨_, OrderedDict.get?_set_self _ _ _, ?_, ?_⟩
  · rw [Record.update, hfields, List.foldl_cons, List.foldl_cons, List.foldl_nil,
      OrderedDict.get?_set_of_ne _ _ (by decide), OrderedDict.get?_set_self]
  · rw [Record.update, hfields, List.foldl_cons, List.foldl_cons, List.foldl_nil,
      OrderedDict.get?_set_self]

namespace LayerRun

/-- The Redis of the queue. -/
def queueStore (s : LayerRun) : QueueStore :=
  match s.pipeline.scheduler.queue with
  | .redis q => q
  | .inMemory _ => s.idleRedis

/-- A new scheduler process. -/
def restart (s : LayerRun) (n : ℕ) (now : Time) : QueueChoice → LayerRun
  | .redis =>
      let q := s.queueStore.reclaimInflight (2 * s.queueStore.hgetall.length)
      { s with
        pipeline := { s.pipeline with
          scheduler := .boot n (.redis q) s.pipeline.scheduler.pool.nextUuid now }
        idleRedis := q }
  | .inMemory commands => { s with
      pipeline := { s.pipeline with
        scheduler := .boot n (.inMemory .empty) s.pipeline.scheduler.pool.nextUuid now }
      idleRedis := s.queueStore.reclaimInflight commands }

/-- One step. -/
def step (sha256Text : String → String) (s : LayerRun) : LayerLabel → Option LayerRun
  | .pipeline l => (s.pipeline.step sha256Text l).map fun t => { s with
      pipeline := t
      pushed := s.pushed ++ s.pipeline.pushes l
      written := s.written ++ s.pipeline.writes sha256Text l }
  | .schedulerRestart choice n now => some (s.restart n now choice)

/-- The processes when they start. -/
def start (n : ℕ) (q : StartQueue) (now : Time) (capacity : ℕ) (ttlSeconds : ℤ) (redis : Bool)
    (store : StateStore) : LayerRun :=
  ⟨.start n q now capacity ttlSeconds redis store, .empty, [], []⟩

variable {sha256Text : String → String}

/-- What a job has kept of the start event that it was made for, if it was made for one.
The ids of all jobs are below the next one. -/
def Right (sha256Text : String → String) (nextUuid : Uuid) (pushed : List (Uuid × DockerEvent))
    (job : Job) : Prop :=
  job.jobId < nextUuid ∧ ∀ e, (job.jobId, e) ∈ pushed →
    job.containerId = e.containerId ∧ job.imageId = e.layerHash sha256Text ∧
      job.imageName = e.imageName

theorem right_aboutRequest (nextUuid : Uuid) (pushed : List (Uuid × DockerEvent)) :
    Job.AboutRequest (Right sha256Text nextUuid pushed) := by
  intro job job' heq hright
  simp only [Job.request, Prod.mk.injEq] at heq
  obtain ⟨hid, hcontainer, himage, hname⟩ := heq
  rw [Right, hid, hcontainer, himage, hname]
  exact hright

/-- A job stays right when newer ids have been drawn. -/
theorem Right.mono {next next' : Uuid} {pushed pushed' : List (Uuid × DockerEvent)} {job : Job}
    (h : Right sha256Text next pushed job) (hnext : next ≤ next')
    (hpushed : ∀ p ∈ pushed', p ∈ pushed ∨ next ≤ p.1) : Right sha256Text next' pushed' job := by
  refine ⟨h.1.trans_le hnext, fun e he => ?_⟩
  rcases hpushed _ he with hold | hnew
  · exact h.2 e hold
  · exact absurd h.1 (Nat.not_lt.mpr hnew)

/-- A job that was right for its event is stored under the key of the event. -/
theorem Right.runLayerHash {next : Uuid} {pushed : List (Uuid × DockerEvent)} {job : Job}
    (h : Right sha256Text next pushed job) (hsha : ∀ text, sha256Text text ≠ "")
    {e : DockerEvent} (he : (job.jobId, e) ∈ pushed) :
    Rcsce.runLayerHash sha256Text job = e.layerHash sha256Text := by
  have himage := (h.2 e he).2.1
  rw [Rcsce.runLayerHash, himage]
  exact if_pos (hsha _)

/-- The invariant about the keys. -/
structure Keyed (sha256Text : String → String) (s : LayerRun) : Prop where
  jobs : s.pipeline.scheduler.AllJobs
    (Right sha256Text s.pipeline.scheduler.pool.nextUuid s.pushed)
  idle : (JobQueue.redis s.idleRedis).AllJobs
    (Right sha256Text s.pipeline.scheduler.pool.nextUuid s.pushed)
  pushed : ∀ p ∈ s.pushed, p.1 < s.pipeline.scheduler.pool.nextUuid
  /-- What has been written for an event is under its key. -/
  written : ∀ w ∈ s.written, w.1 < s.pipeline.scheduler.pool.nextUuid ∧
    ∀ e, (w.1, e) ∈ s.pushed → w.2.layerHash = e.layerHash sha256Text

variable {s s' : LayerRun}

/-- A step of the scheduler process, with the job that it makes for an event, if any, and
the POST that it sends, if any. -/
theorem Keyed.schedules (hs : s.Keyed sha256Text) {t : SchedulerState} {pushed}
    {written : List (Uuid × Post)} {pipeline : PipelineState} (hpipeline : pipeline.scheduler = t)
    (hnext : s.pipeline.scheduler.pool.nextUuid ≤ t.pool.nextUuid)
    (hpushed : ∀ p ∈ pushed, p.1 = s.pipeline.scheduler.pool.nextUuid ∧ p.1 < t.pool.nextUuid)
    (hjobs : s.pipeline.scheduler.AllJobs
        (Right sha256Text t.pool.nextUuid (s.pushed ++ pushed)) →
      t.AllJobs (Right sha256Text t.pool.nextUuid (s.pushed ++ pushed)))
    (hwritten : ∀ w ∈ written, w.1 < s.pipeline.scheduler.pool.nextUuid ∧
      ∀ e, (w.1, e) ∈ s.pushed → w.2.layerHash = e.layerHash sha256Text) :
    Keyed sha256Text ⟨pipeline, s.idleRedis, s.pushed ++ pushed, s.written ++ written⟩ := by
  subst hpipeline
  have hnew : ∀ p ∈ s.pushed ++ pushed,
      p ∈ s.pushed ∨ s.pipeline.scheduler.pool.nextUuid ≤ p.1 := by
    intro p hp
    refine (List.mem_append.mp hp).imp_right fun hp' => ?_
    rw [(hpushed p hp').1]
  refine ⟨hjobs (hs.jobs.mono fun _ hright => hright.mono hnext hnew),
    hs.idle.mono fun _ hright => hright.mono hnext hnew, fun p hp => ?_, fun w hw => ?_⟩
  · rcases List.mem_append.mp hp with hold | hnew'
    · exact (hs.pushed p hold).trans_le hnext
    · exact (hpushed p hnew').2
  · have hkey : w.1 < s.pipeline.scheduler.pool.nextUuid ∧
        ∀ e, (w.1, e) ∈ s.pushed → w.2.layerHash = e.layerHash sha256Text := by
      rcases List.mem_append.mp hw with hold | hnew'
      · exact hs.written w hold
      · exact hwritten w hnew'
    refine ⟨hkey.1.trans_le hnext, fun e he => ?_⟩
    rcases hnew _ he with hold | hnew'
    · exact hkey.2 e hold
    · exact absurd hkey.1 (Nat.not_lt.mpr hnew')

/-- A step that leaves the scheduler alone. -/
theorem Keyed.keeps (hs : s.Keyed sha256Text) {pipeline : PipelineState}
    (hpipeline : pipeline.scheduler = s.pipeline.scheduler) :
    Keyed sha256Text ⟨pipeline, s.idleRedis, s.pushed ++ [], s.written ++ []⟩ :=
  hs.schedules hpipeline le_rfl (fun _ hp => absurd hp List.not_mem_nil)
    (by rw [List.append_nil]; exact id) fun _ hw => absurd hw List.not_mem_nil

/-- A job enqueued by somebody else. -/
theorem right_new {next : Uuid} {pushed : List (Uuid × DockerEvent)} {next' : Uuid}
    (hnext : next < next') (hpushed : ∀ p ∈ pushed, p.1 < next)
    (containerId imageId imageName : String) :
    Right sha256Text next' pushed (.new next containerId imageId imageName) :=
  ⟨hnext, fun _ he => absurd (hpushed _ he) (Nat.lt_irrefl next)⟩

/-- The job that the scheduler makes for a start event. -/
theorem right_pushed {next : Uuid} {pushed : List (Uuid × DockerEvent)} {next' : Uuid}
    (hnext : next < next') (hpushed : ∀ p ∈ pushed, p.1 < next) (e : DockerEvent) :
    Right sha256Text next' (pushed ++ [(next, e)])
      (.new next e.containerId (e.layerHash sha256Text) e.imageName) := by
  refine ⟨hnext, fun e' he' => ?_⟩
  rcases List.mem_append.mp he' with hold | hnew
  · exact absurd (hpushed _ hold) (Nat.lt_irrefl next)
  · cases List.mem_singleton.mp hnew
    exact ⟨rfl, rfl, rfl⟩

/-- What the Redis of the queue holds. -/
theorem Keyed.queueStore (hs : s.Keyed sha256Text) : (JobQueue.redis s.queueStore).AllJobs
    (Right sha256Text s.pipeline.scheduler.pool.nextUuid s.pushed) := by
  rw [LayerRun.queueStore]
  split
  · rename_i q hq
    exact hs.jobs.of_queue hq
  · exact hs.idle

/-- A new scheduler process with a queue of right jobs. -/
theorem Keyed.boot (hs : s.Keyed sha256Text) (n : ℕ) (now : Time) {queue : JobQueue}
    {idle : QueueStore}
    (hqueue : queue.AllJobs (Right sha256Text s.pipeline.scheduler.pool.nextUuid s.pushed))
    (hidle : (JobQueue.redis idle).AllJobs
      (Right sha256Text s.pipeline.scheduler.pool.nextUuid s.pushed)) :
    Keyed sha256Text { s with
      pipeline := { s.pipeline with
        scheduler := .boot n queue s.pipeline.scheduler.pool.nextUuid now }
      idleRedis := idle } := by
  have hnext := SchedulerState.nextUuid_le_boot n queue s.pipeline.scheduler.pool.nextUuid now
  have hmono : ∀ job, Right sha256Text s.pipeline.scheduler.pool.nextUuid s.pushed job →
      Right sha256Text
        (SchedulerState.boot n queue s.pipeline.scheduler.pool.nextUuid now).pool.nextUuid
        s.pushed job := fun _ hright => hright.mono hnext fun _ hp => Or.inl hp
  exact ⟨SchedulerState.boot_allJobs (hqueue.mono hmono) _ _ _, hidle.mono hmono,
    fun p hp => (hs.pushed p hp).trans_le hnext,
    fun w hw => ⟨(hs.written w hw).1.trans_le hnext, (hs.written w hw).2⟩⟩

theorem Keyed.restart (hs : s.Keyed sha256Text) (n : ℕ) (now : Time) (choice : QueueChoice) :
    (s.restart n now choice).Keyed sha256Text := by
  have hreclaimed := hs.queueStore.reclaimInflight (right_aboutRequest _ _)
  cases choice with
  | redis => exact hs.boot n now (hreclaimed _) (hreclaimed _)
  | inMemory commands =>
    refine hs.boot n now ⟨fun _ hmem => absurd hmem List.not_mem_nil, fun _ _ hget => ?_⟩
      (hreclaimed _)
    cases hget

/-- **The step for the keys.** -/
theorem step_keyed (hsha : ∀ text, sha256Text text ≠ "") {l : LayerLabel}
    (hs : s.Keyed sha256Text) (hstep : s.step sha256Text l = some s') : s'.Keyed sha256Text := by
  cases l with
  | schedulerRestart choice n now =>
    cases hstep
    exact hs.restart n now choice
  | pipeline l =>
    obtain ⟨t, hpipeline, rfl⟩ := Option.map_eq_some_iff.mp hstep
    cases PipelineState.step_cases hpipeline with
    | schedules l t hl hl' =>
      refine hs.schedules rfl (SchedulerState.step_nextUuid_le hl')
        (fun _ hp => absurd hp List.not_mem_nil) (fun h => ?_)
        fun _ hw => absurd hw List.not_mem_nil
      refine SchedulerState.step_allJobs (right_aboutRequest _ _) h (fun c im n heq => ?_) hl'
      subst heq
      cases hl'
      exact right_new (Nat.lt_succ_self _)
        (fun p hp => hs.pushed p ((List.mem_append.mp hp).resolve_right List.not_mem_nil)) c im n
    | scans i run timestamp elapsedMs task t htask hl =>
      refine hs.schedules rfl (SchedulerState.step_nextUuid_le hl)
        (fun _ hp => absurd hp List.not_mem_nil) (fun h => ?_) fun w hw => ?_
      · refine SchedulerState.step_allJobs (right_aboutRequest _ _) h (fun _ _ _ heq => ?_) hl
        cases heq
      · rw [PipelineState.writes, htask] at hw
        have hright := hs.jobs.runs task (List.mem_of_getElem? htask)
        rw [List.mem_singleton.mp hw]
        exact ⟨hright.1, fun e he => hright.runLayerHash hsha he⟩
    | pushes k delivered answered e t hk hl =>
      cases delivered with
      | false =>
        cases hl
        exact hs.keeps rfl
      | true =>
        have hpushes : s.pipeline.pushes (.push k true answered) =
            [(s.pipeline.scheduler.pool.nextUuid, e)] := by rw [PipelineState.pushes, hk]
        have hl' : s.pipeline.scheduler.step
            (.enqueue e.containerId (e.layerHash sha256Text) e.imageName) = some t := hl
        have hnext : t.pool.nextUuid = s.pipeline.scheduler.pool.nextUuid + 1 := by
          cases hl
          rfl
        rw [hpushes]
        refine hs.schedules rfl (hnext ▸ Nat.le_succ _) (fun p hp => ?_) (fun h => ?_)
          fun _ hw => absurd hw List.not_mem_nil
        · rw [List.mem_singleton.mp hp, hnext]
          exact ⟨rfl, Nat.lt_succ_self _⟩
        · refine SchedulerState.step_allJobs (right_aboutRequest _ _) h (fun c im n heq => ?_) hl'
          cases heq
          exact right_pushed (hnext ▸ Nat.lt_succ_self _) hs.pushed e
    | responds k ok e stage hit =>
      refine hs.keeps ?_
      cases hit <;> rfl
    | _ => exact hs.keeps rfl

theorem start_keyed (sha256Text : String → String) (n : ℕ) (q : StartQueue) (now : Time)
    (capacity : ℕ) (ttlSeconds : ℤ) (redis : Bool) (store : StateStore) :
    (start n q now capacity ttlSeconds redis store).Keyed sha256Text := by
  have hnext := SchedulerState.nextUuid_le_boot n q.queue q.nextUuid now
  have hids : q.queue.pendingIds = q.queue.pending.map Job.jobId := by
    cases q.queue <;> rfl
  have hqueue : q.queue.AllJobs (Right sha256Text
      (SchedulerState.boot n q.queue q.nextUuid now).pool.nextUuid []) := by
    refine ⟨fun job hjob => ⟨?_, fun _ he => absurd he List.not_mem_nil⟩, fun i job hget => ?_⟩
    · exact (q.drawn _ (hids ▸ List.mem_map_of_mem hjob)).trans_le hnext
    · rw [q.idle] at hget
      cases hget
  refine ⟨?_, ⟨fun _ hmem => absurd hmem List.not_mem_nil, fun _ _ hget => ?_⟩,
    fun _ hp => absurd hp List.not_mem_nil, fun _ hw => absurd hw List.not_mem_nil⟩
  · show (SchedulerState.start n q now).AllJobs
      (Right sha256Text (SchedulerState.start n q now).pool.nextUuid [])
    rw [SchedulerState.start_eq_boot]
    exact SchedulerState.boot_allJobs hqueue n q.nextUuid now
  · cases hget

/-! ## What the cache node holds -/

/-- The data were stored under the hash by a POST of `_run_job`. -/
def HeldFor (stored : List Post) : Judgement :=
  fun h d _ => ∃ p ∈ stored, p.layerHash = h ∧ p.scanResult = d

/-- The invariant about the results: every POST is one that `_run_job` has sent, with a
dictionary, and every copy in the cache was stored under its hash by one of them. -/
structure Stocked (s : LayerRun) : Prop where
  results : ∀ w ∈ s.written, ∃ members, w.2.scanResult = .obj members
  posts : ∀ p ∈ s.pipeline.posts, ∃ i, (i, p) ∈ s.written
  stored : ∀ p ∈ s.pipeline.stored, ∃ i, (i, p) ∈ s.written
  copies : Copies (HeldFor s.pipeline.stored) (HeldFor s.pipeline.stored) s.pipeline.cache.lru
    s.pipeline.redis

/-- A step in which `_run_job` writes nothing, and in which POSTs are stored or lost. -/
theorem Stocked.of_posts (hs : s.Stocked)
    (hposts : ∀ p ∈ s'.pipeline.posts, p ∈ s.pipeline.posts)
    (hstored : ∀ p ∈ s'.pipeline.stored, p ∈ s.pipeline.stored ∨ p ∈ s.pipeline.posts)
    (hwritten : s'.written = s.written ++ [])
    (hcopies : Copies (HeldFor s'.pipeline.stored) (HeldFor s'.pipeline.stored)
      s'.pipeline.cache.lru s'.pipeline.redis) : s'.Stocked := by
  rw [List.append_nil] at hwritten
  refine ⟨fun w hw => ?_, fun p hp => ?_, fun p hp => ?_, hcopies⟩
  · exact hs.results w (hwritten ▸ hw)
  · rw [hwritten]
    exact hs.posts p (hposts p hp)
  · rw [hwritten]
    rcases hstored p hp with hold | hpost
    · exact hs.stored p hold
    · exact hs.posts p hpost

/-- A step without a POST. -/
theorem Stocked.keeps (hs : s.Stocked) (hposts : s'.pipeline.posts = s.pipeline.posts)
    (hstored : s'.pipeline.stored = s.pipeline.stored) (hwritten : s'.written = s.written ++ [])
    (hcopies : Copies (HeldFor s.pipeline.stored) (HeldFor s.pipeline.stored)
      s'.pipeline.cache.lru s'.pipeline.redis) : s'.Stocked :=
  hs.of_posts (fun _ hp => hposts ▸ hp) (fun _ hp => Or.inl (hstored ▸ hp)) hwritten
    (hstored ▸ hcopies)

/-- A new cache node, before its warm-up. -/
theorem Stocked.fresh (hs : s.Stocked) (capacity : ℕ) : Copies (HeldFor s.pipeline.stored)
    (HeldFor s.pipeline.stored) (LRUCache.new capacity) s.pipeline.redis :=
  ⟨(fun _ _ hitem => nomatch hitem), hs.copies.redis⟩

theorem start_stocked (n : ℕ) (q : StartQueue) (now : Time) (capacity : ℕ) (ttlSeconds : ℤ)
    (redis : Bool) (store : StateStore) :
    (start n q now capacity ttlSeconds redis store).Stocked where
  results := fun _ hw => absurd hw List.not_mem_nil
  posts := fun _ hp => absurd hp List.not_mem_nil
  stored := fun _ hp => absurd hp List.not_mem_nil
  copies := .new capacity

/-- **The step for the results.** -/
theorem step_stocked {l : LayerLabel} (hs : s.Stocked)
    (hstep : s.step sha256Text l = some s') : s'.Stocked := by
  cases l with
  | schedulerRestart choice n now =>
    cases hstep
    cases choice <;> exact ⟨hs.results, hs.posts, hs.stored, hs.copies⟩
  | pipeline l =>
    obtain ⟨t, hpipeline, rfl⟩ := Option.map_eq_some_iff.mp hstep
    cases PipelineState.step_cases hpipeline with
    | schedules | stops | begins | pushes => exact hs.keeps rfl rfl rfl hs.copies
    | scans i run timestamp elapsedMs task t htask hl =>
      have hwrites : s.pipeline.writes sha256Text (.scan i run timestamp elapsedMs) =
          [(task.job.jobId, ⟨runLayerHash sha256Text task.job,
            timedResult task.workerId task.job run timestamp elapsedMs, run⟩)] := by
        rw [PipelineState.writes, htask]
      rw [hwrites]
      refine ⟨fun w hw => ?_, fun p hp => ?_, fun p hp => ?_, hs.copies⟩
      · rcases List.mem_append.mp hw with hold | hnew
        · exact hs.results w hold
        · rw [List.mem_singleton.mp hnew]
          exact ⟨_, rfl⟩
      · rcases List.mem_append.mp hp with hold | hnew
        · exact (hs.posts p hold).imp fun _ hw => List.mem_append_left _ hw
        · rw [List.mem_singleton.mp hnew]
          exact ⟨_, List.mem_append_right _ (List.mem_singleton.mpr rfl)⟩
      · exact (hs.stored p hp).imp fun _ hw => List.mem_append_left _ hw
    | stores k call p hk =>
      have hmono : ∀ h d et, HeldFor s.pipeline.stored h d et →
          HeldFor (s.pipeline.stored ++ [p]) h d et := by
        rintro h d et ⟨q, hq, heq⟩
        exact ⟨q, List.mem_append_left _ hq, heq⟩
      have hnew : ∀ et, HeldFor (s.pipeline.stored ++ [p]) p.layerHash p.scanResult et :=
        fun _ => ⟨p, List.mem_append_right _ (List.mem_singleton.mpr rfl), rfl, rfl⟩
      have hcopies := LayerScanCache.copies_put hs.copies call
        (fun k d et _ => hmono k d et) (hnew _) (fun k d et _ => hmono k d et) (fun _ => hnew _)
        fun hw d ct et hraw => hmono _ _ et
          (hs.copies.of_redis (LayerScanCache.get?_of_get?_put hw hraw))
      refine hs.of_posts (fun q hq => List.mem_of_mem_eraseIdx hq) (fun q hq => ?_) rfl hcopies
      rcases List.mem_append.mp hq with hold | hlast
      · exact Or.inl hold
      · rw [List.mem_singleton.mp hlast]
        exact Or.inr (List.mem_of_getElem? hk)
    | loses k =>
      exact hs.of_posts (fun q hq => List.mem_of_mem_eraseIdx hq) (fun q hq => Or.inl hq) rfl
        hs.copies
    | answers k call e hk =>
      exact hs.keeps rfl rfl rfl
        (LayerScanCache.copies_get hs.copies call _ fun _ _ hd _ => hd).1
    | responds k ok e stage hit =>
      cases hit <;> exact hs.keeps rfl rfl rfl hs.copies
    | drops fullKey => exact hs.keeps rfl rfl rfl (hs.copies.drop fullKey)
    | restarts call hredis =>
      exact hs.keeps rfl rfl rfl (LayerScanCache.copies_warmFromRedis
        (c := .new s.pipeline.cache.lru.capacity s.pipeline.cache.ttlSeconds s.pipeline.cache.redis)
        (hs.fresh _) call fun _ _ _ hd _ => hd)
    | restartsEmpty call hredis => exact hs.keeps rfl rfl rfl (hs.fresh _)
    | deletes h =>
      exact hs.keeps rfl rfl rfl
        ((hs.copies.deleteLru h).mono (fun _ _ _ hl => hl.2) fun _ _ _ hr => hr)

/-! ## Writers and readers -/

/-- Writers and readers of the cache agree on the key. -/
structure KeysAgree (sha256Text : String → String) (s : LayerRun) : Prop where
  /-- What `_run_job` has stored for a start event is under the key that every start event
  with the same image and digest looks up. -/
  written : ∀ (i : Uuid) (p : Post) (e e' : DockerEvent), (i, p) ∈ s.written →
    (i, e) ∈ s.pushed → e'.SameLayer e → p.layerHash = e'.layerHash sha256Text
  /-- A lookup that finds an entry is answered with a result that `_run_job` has stored
  under this key. -/
  found : ∀ (k : ℕ) (e : DockerEvent) (call : GetCall) (d : Json),
    s.pipeline.starts[k]? = some ⟨e, .asking⟩ →
    s.pipeline.Resident (e.layerHash sha256Text) call d →
    ∃ i p scanResult, (i, p) ∈ s.written ∧ p ∈ s.pipeline.stored ∧
      p.layerHash = e.layerHash sha256Text ∧ p.scanResult = .obj scanResult ∧
      d = .obj scanResult ∧ ∃ t, s.pipeline.step sha256Text (.lookup k call) = some t ∧
        t.starts = advance s.pipeline.starts k (some ⟨e, .answered (some scanResult)⟩)
  /-- The container is given exactly the vulnerabilities of this result. -/
  given : ∀ (k : ℕ) (e : DockerEvent) (scanResult : List (String × Json)),
    s.pipeline.starts[k]? = some ⟨e, .answered (some scanResult)⟩ →
    ∃ t record, s.pipeline.step sha256Text (.respond k true) = some t ∧
      t.starts = advance s.pipeline.starts k none ∧
      t.store.containers.get? e.containerId = some record ∧
      record.get? "vulnerabilities" = some (StateStore.cachedVulns scanResult) ∧
      record.get? "scan_status" = some (.str "cache_hit")

theorem found_of_stocked (hs : s.Stocked) {k : ℕ} {e : DockerEvent} {call : GetCall} {d : Json}
    (hk : s.pipeline.starts[k]? = some ⟨e, .asking⟩)
    (hres : s.pipeline.Resident (e.layerHash sha256Text) call d) :
    ∃ i p scanResult, (i, p) ∈ s.written ∧ p ∈ s.pipeline.stored ∧
      p.layerHash = e.layerHash sha256Text ∧ p.scanResult = .obj scanResult ∧
      d = .obj scanResult ∧ ∃ t, s.pipeline.step sha256Text (.lookup k call) = some t ∧
        t.starts = advance s.pipeline.starts k (some ⟨e, .answered (some scanResult)⟩) := by
  have hheld : ∃ et, HeldFor s.pipeline.stored (e.layerHash sha256Text) d et := by
    rcases hres with ⟨ct, et, hitem, -⟩ | ⟨-, -, -, ct, et, hraw, -⟩
    · exact ⟨et, hs.copies.of_lru hitem⟩
    · exact ⟨et, hs.copies.of_redis hraw⟩
  obtain ⟨et, p, hp, hkey, rfl⟩ := hheld
  obtain ⟨i, hi⟩ := hs.stored p hp
  obtain ⟨scanResult, hresult⟩ := hs.results _ hi
  refine ⟨i, p, scanResult, hi, hp, hkey, hresult, hresult, ?_⟩
  have hget := PipelineState.get_of_resident hres
  rw [PipelineState.step, hk]
  refine ⟨_, rfl, ?_⟩
  show advance s.pipeline.starts k (some ⟨e, .answered (getCache _)⟩) = _
  rw [hget, hresult]
  rfl

/-- **Writers and readers of the cache agree on the key.**  In every run, on either queue
backend, with any number of requeues, reclaims and new scheduler processes: the result of a
job that was made for a start event is stored under the key that every start event with the
same image and digest looks up; such a lookup, while the cache node has an unexpired entry,
is a hit with a result stored under this key, and the record of the container is given
exactly its vulnerabilities. -/
theorem keys_agree (sha256Text : String → String) (hsha : ∀ text, sha256Text text ≠ "") (n : ℕ)
    (q : StartQueue) (now : Time) (capacity : ℕ) (ttlSeconds : ℤ) (redis : Bool)
    (store : StateStore) (ls : List LayerLabel) (s : LayerRun)
    (hexec : Machine.exec (step sha256Text) (start n q now capacity ttlSeconds redis store) ls =
      some s) : s.KeysAgree sha256Text := by
  have hkeyed : s.Keyed sha256Text := Machine.exec_invariant
    (I := Keyed sha256Text) (fun _ _ _ hs hstep => step_keyed hsha hs hstep)
    (start_keyed sha256Text n q now capacity ttlSeconds redis store) hexec
  have hstocked : s.Stocked := Machine.exec_invariant (I := Stocked)
    (fun _ _ _ hs hstep => step_stocked hs hstep)
    (start_stocked n q now capacity ttlSeconds redis store) hexec
  refine ⟨fun i p e e' hp he hsame => ?_, fun k e call d hk hres => found_of_stocked hstocked hk
    hres, fun k e scanResult hk => ?_⟩
  · rw [hsame.layerHash]
    exact (hkeyed.written _ hp).2 e he
  · obtain ⟨record, hrecord, hvulns, hstatus⟩ :=
      StateStore.record_onCacheHit s.pipeline.store e (e.layerHash sha256Text) scanResult
    refine ⟨_, record, by rw [PipelineState.step, hk], ?_, hrecord, hvulns, hstatus⟩
    rfl

/-- SHA-256, where the run below uses it. -/
def webDigest (text : String) : String :=
  if text = "nginx:nginx" then "653bc09ee38cff31b902e73d12c7e9e30facc30fa81e88ae473cd3a5abf379e0"
  else "another text"

/-- The first scheduler process ends with the job in flight; the second one reclaims it from
Redis, and its result is under the key that a second container of the image looks up. -/
theorem keys_agree_restarted :
    ∃ s p, Machine.exec (step webDigest) (start 1 .redis 0 10 3600 true .empty)
        [.pipeline (.docker ⟨.start, "c1", some "web-1", some "nginx", none, 0⟩),
          .pipeline (.lookup 0 { now := 0, redisNow := 0 }), .pipeline (.respond 0 true),
          .pipeline (.push 0 true true),
          .pipeline (.scheduler (.dispatch true)), .pipeline (.scheduler (.dispatch true)),
          .pipeline (.scheduler (.dispatch true)),
          .schedulerRestart .redis 1 5,
          .pipeline (.scheduler (.dispatch true)), .pipeline (.scheduler (.dispatch true)),
          .pipeline (.scheduler (.dispatch true)), .pipeline (.scheduler (.dispatch true)),
          .pipeline (.scheduler (.dispatch true)),
          .pipeline (.scan 0 (.exits 1 (.text (.malformed ""))) "2025-01-01T00:00:01" 1000),
          .pipeline (.post 0 { createdAt := 6, now := 6 })] = some s ∧
      s.written.map Prod.snd = [p] ∧
      p.layerHash = (⟨.start, "c2", some "web-2", some "nginx", none, 1⟩ :
        DockerEvent).layerHash webDigest := by
  have hsha : ∀ text, webDigest text ≠ "" := by
    intro text
    rw [webDigest]
    split_ifs <;> decide
  have hrun : ∃ s p, Machine.exec (step webDigest) (start 1 .redis 0 10 3600 true .empty)
        [.pipeline (.docker ⟨.start, "c1", some "web-1", some "nginx", none, 0⟩),
          .pipeline (.lookup 0 { now := 0, redisNow := 0 }), .pipeline (.respond 0 true),
          .pipeline (.push 0 true true),
          .pipeline (.scheduler (.dispatch true)), .pipeline (.scheduler (.dispatch true)),
          .pipeline (.scheduler (.dispatch true)),
          .schedulerRestart .redis 1 5,
          .pipeline (.scheduler (.dispatch true)), .pipeline (.scheduler (.dispatch true)),
          .pipeline (.scheduler (.dispatch true)), .pipeline (.scheduler (.dispatch true)),
          .pipeline (.scheduler (.dispatch true)),
          .pipeline (.scan 0 (.exits 1 (.text (.malformed ""))) "2025-01-01T00:00:01" 1000),
          .pipeline (.post 0 { createdAt := 6, now := 6 })] = some s ∧
      s.written = [(1, p)] ∧
      s.pushed = [(1, ⟨.start, "c1", some "web-1", some "nginx", none, 0⟩)] :=
    ⟨_, _, by with_unfolding_all rfl, by with_unfolding_all rfl, by with_unfolding_all rfl⟩
  obtain ⟨s, p, hexec, hwritten, hpushed⟩ := hrun
  have hagree := keys_agree webDigest hsha 1 .redis 0 10 3600 true .empty _ s hexec
  refine ⟨s, p, hexec, by rw [hwritten]; rfl, ?_⟩
  exact hagree.written 1 p ⟨.start, "c1", some "web-1", some "nginx", none, 0⟩ _
    (hwritten ▸ List.mem_singleton.mpr rfl) (hpushed ▸ List.mem_singleton.mpr rfl) ⟨rfl, rfl⟩

end LayerRun
end Rcsce
