import Rcsce.Lib.Machine
import Rcsce.Cache.Provenance
import Rcsce.ControlPlane.DockerListener
import Rcsce.Scheduler.Service
import Rcsce.Scheduler.WorkerNode

/-!
# From a scan to a cache hit

The scheduler, the cache node and the listener of the control plane together.  A result
travels from `process_job` through `_run_job`, which posts it to the cache node whatever
its status, and from there to the containers of the same image that start later.

## The machine

Every request is on its way for some time, and may be lost or be handled after the
client has given up: `post` and `postLost` for the POST of `_run_job`, `lookup` and
`respond` for the GET of the listener.  The cache node may be restarted, lose keys that
Redis drops, or be asked to delete an entry, and any of its Redis commands may raise.
`sha256Text` is the digest that `build_layer_hash` uses.  `Move` lists what a step can
do, and `step_cases` says that it does nothing else.

## The result

`Traced` says that whatever a container is given was once stored by `_run_job`.  So a
run serves completed scans only, at every point, if and only if it stores completed
scans only (`completed_scans_served`).
-/

namespace Rcsce

/-- A POST of `_run_job` on its way to the cache node. -/
structure Post where
  layerHash : String
  scanResult : Json
  /-- What Trivy did in the scan behind it. -/
  run : TrivyRun

/-- Where the start branch of `_handle_event` is. -/
inductive StartStage where
  /-- In the GET to the cache node. -/
  | asking
  /-- The answer is on its way: the members of the result, if it is a hit. -/
  | answered (hit : Option (List (String × Json)))
  /-- In the POST to the scheduler. -/
  | pushing

/-- An unfinished start branch. -/
structure StartTask where
  event : DockerEvent
  stage : StartStage

/-- The scheduler, the cache node, its Redis and the control plane. -/
structure PipelineState where
  scheduler : SchedulerState
  cache : LayerScanCache
  redis : CacheRedis
  store : StateStore
  starts : List StartTask
  posts : List Post
  /-- The POSTs that the cache node has handled. -/
  stored : List Post
  /-- The containers that were given `cache_hit`, and the cached results. -/
  hits : List (String × List (String × Json))

/-- What can happen next. -/
inductive PipelineLabel where
  /-- A step of the scheduler, but for a `process_job` that returns. -/
  | scheduler (l : SchedulerLabel)
  /-- The `process_job` of a running job returns. -/
  | scan (i : ℕ) (run : TrivyRun) (timestamp : String) (elapsedMs : ℚ)
  /-- The cache node handles a POST. -/
  | post (k : ℕ) (call : PutCall)
  | postLost (k : ℕ)
  | docker (e : DockerEvent)
  /-- The cache node handles the GET of a start branch. -/
  | lookup (k : ℕ) (call : GetCall)
  /-- The start branch gets the answer, or an exception if not `ok`. -/
  | respond (k : ℕ) (ok : Bool)
  /-- The scheduler gets the job or not, and the start branch its id or not. -/
  | push (k : ℕ) (delivered answered : Bool)
  | redisDrops (fullKey : String)
  | restart (call : WarmCall)
  | delete (layerHash : String)

/-- The result of `process_job` with its `elapsed_ms`. -/
def timedResult (workerId : Uuid) (job : Job) (run : TrivyRun) (timestamp : String)
    (elapsedMs : ℚ) : Json :=
  match processJob workerId job run timestamp with
  | .obj members => .obj (members ++ [("elapsed_ms", .num elapsedMs)])
  | result => result

/-- `layer_hash` in `_run_job`. -/
def runLayerHash (sha256Text : String → String) (job : Job) : String :=
  if job.imageId ≠ "" then job.imageId else buildLayerHash sha256Text job.imageName job.imageName

/-- What GET /cache makes of the answer of the cache.  The response model takes a
dictionary for a hit, and any other value ends as a server error. -/
def getCache : Except PyError Json → Option (List (String × Json))
  | .ok (.obj members) => some members
  | _ => none

theorem getCache_eq_some {answer : Except PyError Json} {members : List (String × Json)}
    (h : getCache answer = some members) : answer = .ok (.obj members) := by
  unfold getCache at h
  split at h
  · rw [Option.some.inj h]
  · cases h

/-- A `process_job` returns. -/
def SchedulerLabel.returns : SchedulerLabel → Bool
  | .run _ (.returns _) => true
  | _ => false

namespace PipelineState

/-! ## The machine -/

/-- The next step of a start branch that waits for the cache node. -/
def respond (s : PipelineState) (layerHash : String) (k : ℕ) (e : DockerEvent) :
    Option (List (String × Json)) → PipelineState
  | some scanResult => { s with
      store := s.store.onCacheHit e layerHash scanResult
      hits := s.hits ++ [(e.containerId, scanResult)]
      starts := advance s.starts k none }
  | none => { s with
      store := s.store.onCacheMiss
      starts := advance s.starts k (some ⟨e, .pushing⟩) }

/-- One step. -/
def step (sha256Text : String → String) (s : PipelineState) :
    PipelineLabel → Option PipelineState
  | .scheduler l =>
      if l.returns then none
      else (s.scheduler.step l).map fun t => { s with scheduler := t }
  | .scan i run timestamp elapsedMs =>
      match s.scheduler.runs[i]? with
      | none => none
      | some task =>
          let result := timedResult task.workerId task.job run timestamp elapsedMs
          (s.scheduler.step (.run i (.returns result))).map fun t => { s with
            scheduler := t
            posts := s.posts ++ [⟨runLayerHash sha256Text task.job, result, run⟩] }
  | .post k call =>
      s.posts[k]?.map fun p => { s with
        cache := (s.cache.put s.redis call p.layerHash p.scanResult).1
        redis := (s.cache.put s.redis call p.layerHash p.scanResult).2
        posts := advance s.posts k none
        stored := s.stored ++ [p] }
  | .postLost k => some { s with posts := advance s.posts k none }
  | .docker e =>
      match e.action with
      | .start => some { s with store := s.store.onStart e, starts := s.starts ++ [⟨e, .asking⟩] }
      | _ => some { s with store := s.store.onStopped e }
  | .lookup k call =>
      match s.starts[k]? with
      | some ⟨e, .asking⟩ =>
          let r := s.cache.get s.redis call (e.layerHash sha256Text)
          some { s with
            cache := r.2.1
            redis := r.2.2
            starts := advance s.starts k (some ⟨e, .answered (getCache r.1)⟩) }
      | _ => none
  | .respond k ok =>
      match s.starts[k]? with
      | some ⟨e, .asking⟩ =>
          -- no answer has been sent, so only an exception can end the GET
          if ok then none
          else some (s.respond (e.layerHash sha256Text) k e none)
      | some ⟨e, .answered hit⟩ =>
          some (s.respond (e.layerHash sha256Text) k e (if ok then hit else none))
      | _ => none
  | .push k delivered answered =>
      match s.starts[k]? with
      | some ⟨e, .pushing⟩ =>
          (if delivered then
            s.scheduler.step (.enqueue e.containerId (e.layerHash sha256Text) e.imageName)
          else some s.scheduler).map fun t => { s with
            scheduler := t
            store := s.store.onEnqueued e (e.layerHash sha256Text)
              (if delivered && answered then toString s.scheduler.pool.nextUuid else "ipc-failed")
            starts := advance s.starts k none }
      | _ => none
  | .redisDrops fullKey => some { s with redis := s.redis.erase fullKey }
  | .restart call =>
      let cache : LayerScanCache := .new s.cache.lru.capacity s.cache.ttlSeconds s.cache.redis
      some (if s.cache.redis then { s with
          cache := (cache.warmFromRedis s.redis call).1
          redis := (cache.warmFromRedis s.redis call).2 }
        else { s with cache })
  | .delete layerHash => some { s with
      cache := { s.cache with lru := s.cache.lru.delete layerHash } }

/-- A scheduler that has just started, a new cache node and a control plane with any
store. -/
def start (n : ℕ) (q : StartQueue) (now : Time) (capacity : ℕ) (ttlSeconds : ℤ) (redis : Bool)
    (store : StateStore) : PipelineState where
  scheduler := .start n q now
  cache := .new capacity ttlSeconds redis
  redis := .empty
  store := store
  starts := []
  posts := []
  stored := []
  hits := []

/-! ## What a step does -/

/-- The moves of the three processes. -/
inductive Move (sha256Text : String → String) (s : PipelineState) :
    PipelineLabel → PipelineState → Prop
  | schedules (l : SchedulerLabel) (t : SchedulerState) (hl : l.returns = false)
      (hstep : s.scheduler.step l = some t) :
      Move sha256Text s (.scheduler l) { s with scheduler := t }
  | scans (i : ℕ) (run : TrivyRun) (timestamp : String) (elapsedMs : ℚ) (task : RunTask)
      (t : SchedulerState) (htask : s.scheduler.runs[i]? = some task)
      (hstep : s.scheduler.step
        (.run i (.returns (timedResult task.workerId task.job run timestamp elapsedMs))) = some t) :
      Move sha256Text s (.scan i run timestamp elapsedMs) { s with
        scheduler := t
        posts := s.posts ++ [⟨runLayerHash sha256Text task.job,
          timedResult task.workerId task.job run timestamp elapsedMs, run⟩] }
  | stores (k : ℕ) (call : PutCall) (p : Post) (hk : s.posts[k]? = some p) :
      Move sha256Text s (.post k call) { s with
        cache := (s.cache.put s.redis call p.layerHash p.scanResult).1
        redis := (s.cache.put s.redis call p.layerHash p.scanResult).2
        posts := advance s.posts k none
        stored := s.stored ++ [p] }
  | loses (k : ℕ) : Move sha256Text s (.postLost k) { s with posts := advance s.posts k none }
  | begins (e : DockerEvent) (he : e.action = .start) :
      Move sha256Text s (.docker e) { s with
        store := s.store.onStart e, starts := s.starts ++ [⟨e, .asking⟩] }
  | stops (e : DockerEvent) (he : e.action ≠ .start) :
      Move sha256Text s (.docker e) { s with store := s.store.onStopped e }
  | answers (k : ℕ) (call : GetCall) (e : DockerEvent) (hk : s.starts[k]? = some ⟨e, .asking⟩) :
      Move sha256Text s (.lookup k call) { s with
        cache := (s.cache.get s.redis call (e.layerHash sha256Text)).2.1
        redis := (s.cache.get s.redis call (e.layerHash sha256Text)).2.2
        starts := advance s.starts k (some
          ⟨e, .answered (getCache (s.cache.get s.redis call (e.layerHash sha256Text)).1)⟩) }
  /-- The start branch goes on with the answer, or without one after an exception. -/
  | responds (k : ℕ) (ok : Bool) (e : DockerEvent) (stage : StartStage)
      (hit : Option (List (String × Json))) (hk : s.starts[k]? = some ⟨e, stage⟩)
      (hhit : hit = none ∨ stage = .answered hit) :
      Move sha256Text s (.respond k ok) (s.respond (e.layerHash sha256Text) k e hit)
  | pushes (k : ℕ) (delivered answered : Bool) (e : DockerEvent) (t : SchedulerState)
      (hk : s.starts[k]? = some ⟨e, .pushing⟩)
      (hstep : (if delivered then
          s.scheduler.step (.enqueue e.containerId (e.layerHash sha256Text) e.imageName)
        else some s.scheduler) = some t) :
      Move sha256Text s (.push k delivered answered) { s with
        scheduler := t
        store := s.store.onEnqueued e (e.layerHash sha256Text)
          (if delivered && answered then toString s.scheduler.pool.nextUuid else "ipc-failed")
        starts := advance s.starts k none }
  | drops (fullKey : String) :
      Move sha256Text s (.redisDrops fullKey) { s with redis := s.redis.erase fullKey }
  | restarts (call : WarmCall) (hredis : s.cache.redis = true) :
      Move sha256Text s (.restart call) { s with
        cache := ((LayerScanCache.new s.cache.lru.capacity s.cache.ttlSeconds
          s.cache.redis).warmFromRedis s.redis call).1
        redis := ((LayerScanCache.new s.cache.lru.capacity s.cache.ttlSeconds
          s.cache.redis).warmFromRedis s.redis call).2 }
  | restartsEmpty (call : WarmCall) (hredis : s.cache.redis = false) :
      Move sha256Text s (.restart call) { s with
        cache := .new s.cache.lru.capacity s.cache.ttlSeconds s.cache.redis }
  | deletes (layerHash : String) :
      Move sha256Text s (.delete layerHash) { s with
        cache := { s.cache with lru := s.cache.lru.delete layerHash } }

variable {sha256Text : String → String}

/-- Every step is one of the moves. -/
theorem step_cases {s s' : PipelineState} {l : PipelineLabel}
    (h : s.step sha256Text l = some s') : s.Move sha256Text l s' := by
  cases l with
  | scheduler l =>
    rw [step] at h
    split_ifs at h with hl
    obtain ⟨t, hstep, rfl⟩ := Option.map_eq_some_iff.mp h
    exact .schedules l t (Bool.not_eq_true _ ▸ hl) hstep
  | scan i run timestamp elapsedMs =>
    rw [step] at h
    split at h
    · cases h
    · rename_i task htask
      obtain ⟨t, hstep, rfl⟩ := Option.map_eq_some_iff.mp h
      exact .scans i run timestamp elapsedMs task t htask hstep
  | post k call =>
    obtain ⟨p, hk, rfl⟩ := Option.map_eq_some_iff.mp h
    exact .stores k call p hk
  | postLost k =>
    cases h
    exact .loses k
  | docker e =>
    rw [step] at h
    split at h
    · rename_i he
      cases h
      exact .begins e he
    · rename_i he
      cases h
      exact .stops e he
  | lookup k call =>
    rw [step] at h
    split at h
    · rename_i e hk
      cases h
      exact .answers k call e hk
    · cases h
  | respond k ok =>
    rw [step] at h
    split at h
    · rename_i e hk
      split_ifs at h
      cases h
      exact .responds k ok e .asking none hk (Or.inl rfl)
    · rename_i e hit hk
      cases h
      refine .responds k ok e (.answered hit) _ hk ?_
      split_ifs
      · exact Or.inr rfl
      · exact Or.inl rfl
    · cases h
  | push k delivered answered =>
    rw [step] at h
    split at h
    · rename_i e hk
      obtain ⟨t, hstep, rfl⟩ := Option.map_eq_some_iff.mp h
      exact .pushes k delivered answered e t hk hstep
    · cases h
  | redisDrops fullKey =>
    cases h
    exact .drops fullKey
  | restart call =>
    cases h
    split_ifs with hredis
    · exact .restarts call hredis
    · exact .restartsEmpty call (Bool.not_eq_true _ ▸ hredis)
  | delete layerHash =>
    cases h
    exact .deletes layerHash

/-! ## The property -/

/-- The status of a result. -/
def statusText (scanResult : Json) : Option String :=
  match scanResult.getD "status" .null with
  | .ok (.str status) => some status
  | _ => none

/-- The status of a result says that its scan did not complete. -/
def Incomplete (scanResult : Json) : Prop :=
  statusText scanResult = some "scan_failed" ∨ statusText scanResult = some "scan_timeout"

instance : DecidablePred Incomplete := fun _ => inferInstanceAs (Decidable (_ ∨ _))

/-- No result of a scan that did not complete was stored, and the counts of every cache
hit come from a stored result of a scan that did complete. -/
structure OnlyCompleted (s : PipelineState) : Prop where
  stored : ∀ p ∈ s.stored, ¬ Incomplete p.scanResult
  served : ∀ hit ∈ s.hits, ∃ p ∈ s.stored, p.scanResult = .obj hit.2 ∧ p.run.Completes

/-- A POST that the cache node handles carries the result of a scan that completed. -/
def StoresCompleted (s : PipelineState) (l : PipelineLabel) (_ : PipelineState) : Prop :=
  ∀ k call p, l = .post k call → s.posts[k]? = some p → p.run.Completes

theorem incomplete_timedResult (workerId : Uuid) (job : Job) (run : TrivyRun)
    (timestamp : String) (elapsedMs : ℚ) :
    Incomplete (timedResult workerId job run timestamp elapsedMs) ↔ ¬ run.Completes := by
  have hstatus : statusText (timedResult workerId job run timestamp elapsedMs) =
      some run.scan.1.text := rfl
  rw [completed_scan, not_not, Incomplete, hstatus, ScanStatus.Incomplete]
  cases run.scan.1 <;> simp [ScanStatus.text]

/-! ## The invariant -/

/-- The data were stored by `_run_job`. -/
def Stored (s : PipelineState) (d : Json) : Prop := ∃ p ∈ s.stored, p.scanResult = d

/-- The status of every result is right, and what the cache node holds, what an answer
carries and what a container was given was stored by `_run_job`. -/
structure Traced (s : PipelineState) : Prop where
  posted : ∀ p ∈ s.posts, Incomplete p.scanResult ↔ ¬ p.run.Completes
  right : ∀ p ∈ s.stored, Incomplete p.scanResult ↔ ¬ p.run.Completes
  held : LayerScanCache.HoldsOnly s.Stored s.cache s.redis
  answered : ∀ t ∈ s.starts, ∀ scanResult, t.stage = .answered (some scanResult) →
    s.Stored (.obj scanResult)
  given : ∀ hit ∈ s.hits, s.Stored (.obj hit.2)

/-- Under the invariant, the property is about what is stored. -/
theorem onlyCompleted_iff {s : PipelineState} (hs : s.Traced) :
    s.OnlyCompleted ↔ ∀ p ∈ s.stored, p.run.Completes := by
  constructor
  · intro h p hp
    by_contra hnot
    exact h.stored p hp ((hs.right p hp).mpr hnot)
  · intro h
    refine ⟨fun p hp hinc => (hs.right p hp).mp hinc (h p hp), fun hit hhit => ?_⟩
    obtain ⟨p, hp, hresult⟩ := hs.given hit hhit
    exact ⟨p, hp, hresult, h p hp⟩

theorem not_onlyCompleted {s : PipelineState} (h : ∃ p ∈ s.stored, Incomplete p.scanResult) :
    ¬ s.OnlyCompleted := fun hs => by
  obtain ⟨p, hp, hincomplete⟩ := h
  exact hs.stored p hp hincomplete

namespace Traced

variable {s : PipelineState}

/-- A start branch goes on, with an answer that was stored if it has one. -/
theorem advance (hs : s.Traced) {k : ℕ} {t : StartTask} (hk : s.starts[k]? = some t)
    (next : Option StartTask)
    (hnext : ∀ t', next = some t' → ∀ scanResult, t'.stage = .answered (some scanResult) →
      s.Stored (.obj scanResult)) :
    ∀ t' ∈ Rcsce.advance s.starts k next, ∀ scanResult, t'.stage = .answered (some scanResult) →
      s.Stored (.obj scanResult) := by
  intro t' ht'
  rcases mem_of_mem_advance hk ht' with hnew | hold
  · exact hnext t' hnew
  · exact hs.answered t' hold

theorem respond (hs : s.Traced) {layerHash : String} {k : ℕ} {t : StartTask}
    (hk : s.starts[k]? = some t) (e : DockerEvent) {hit : Option (List (String × Json))}
    (hhit : ∀ scanResult, hit = some scanResult → s.Stored (.obj scanResult)) :
    (s.respond layerHash k e hit).Traced := by
  cases hit with
  | none =>
    have hstarts := hs.advance hk (some ⟨e, .pushing⟩) fun t' ht' scanResult hstage => by
      cases ht'
      cases hstage
    exact ⟨hs.posted, hs.right, hs.held, hstarts, hs.given⟩
  | some scanResult =>
    have hstarts := hs.advance hk none nofun
    refine ⟨hs.posted, hs.right, hs.held, hstarts, fun hit hmem => ?_⟩
    rcases List.mem_append.mp hmem with hold | hnew
    · exact hs.given hit hold
    · rw [List.mem_singleton.mp hnew]
      exact hhit scanResult rfl

/-- The cache node handles a POST. -/
theorem post (hs : s.Traced) {k : ℕ} {p : Post} (hk : s.posts[k]? = some p) (call : PutCall) :
    Traced { s with
      cache := (s.cache.put s.redis call p.layerHash p.scanResult).1
      redis := (s.cache.put s.redis call p.layerHash p.scanResult).2
      posts := Rcsce.advance s.posts k none
      stored := s.stored ++ [p] } := by
  have hmono : ∀ d, s.Stored d → ∃ p' ∈ s.stored ++ [p], p'.scanResult = d := by
    rintro d ⟨p', hp', hd⟩
    exact ⟨p', List.mem_append_left _ hp', hd⟩
  have hmem : p ∈ s.posts := List.mem_of_getElem? hk
  refine ⟨fun p' hp' => ?_, fun p' hp' => ?_, ?_, fun t ht r hr => hmono _ (hs.answered t ht r hr),
    fun hit hhit => hmono _ (hs.given hit hhit)⟩
  · exact hs.posted p' (List.mem_of_mem_eraseIdx hp')
  · rcases List.mem_append.mp hp' with hold | hnew
    · exact hs.right p' hold
    · rw [List.mem_singleton.mp hnew]
      exact hs.posted p hmem
  · exact (hs.held.mono hmono).put call p.layerHash
      ⟨p, List.mem_append_right _ (List.mem_singleton.mpr rfl), rfl⟩

/-- The cache node is restarted. -/
theorem restart (hs : s.Traced) : LayerScanCache.HoldsOnly s.Stored
    (.new s.cache.lru.capacity s.cache.ttlSeconds s.cache.redis) s.redis :=
  hs.held.of_subset (fun _ _ hitem => nomatch hitem) fun _ _ hraw => hraw

end Traced

/-- **The step of the invariant.** -/
theorem step_traced {s s' : PipelineState} {l : PipelineLabel} (hs : s.Traced)
    (h : s.step sha256Text l = some s') : s'.Traced := by
  cases step_cases h with
  | schedules | stops => exact ⟨hs.posted, hs.right, hs.held, hs.answered, hs.given⟩
  | scans =>
    refine ⟨fun p hp => ?_, hs.right, hs.held, hs.answered, hs.given⟩
    rcases List.mem_append.mp hp with hold | hnew
    · exact hs.posted p hold
    · rw [List.mem_singleton.mp hnew]
      exact incomplete_timedResult _ _ _ _ _
  | stores k call p hk => exact hs.post hk call
  | loses k =>
    exact ⟨fun p hp => hs.posted p (List.mem_of_mem_eraseIdx hp), hs.right, hs.held, hs.answered,
      hs.given⟩
  | begins e =>
    refine ⟨hs.posted, hs.right, hs.held, fun t ht => ?_, hs.given⟩
    rcases List.mem_append.mp ht with hold | hnew
    · exact hs.answered t hold
    · rw [List.mem_singleton.mp hnew]
      exact nofun
  | answers k call e hk =>
    obtain ⟨hheld, hanswer⟩ := hs.held.get call (e.layerHash sha256Text)
    refine ⟨hs.posted, hs.right, hheld, hs.advance hk (some _) ?_, hs.given⟩
    intro t ht scanResult hstage
    cases ht
    have hhit := getCache_eq_some (StartStage.answered.inj hstage)
    exact (hanswer _ hhit).resolve_left nofun
  | responds k ok e stage hit hk hhit =>
    refine hs.respond hk e fun scanResult hsome => ?_
    have hstage : stage = .answered (some scanResult) :=
      hsome ▸ hhit.resolve_left fun hnone => nomatch hsome.symm.trans hnone
    exact hs.answered _ (List.mem_of_getElem? hk) scanResult hstage
  | pushes k delivered answered e t hk =>
    exact ⟨hs.posted, hs.right, hs.held, hs.advance hk none nofun, hs.given⟩
  | drops fullKey => exact ⟨hs.posted, hs.right, hs.held.drop fullKey, hs.answered, hs.given⟩
  | restarts call =>
    exact ⟨hs.posted, hs.right, hs.restart.warmFromRedis call, hs.answered, hs.given⟩
  | restartsEmpty => exact ⟨hs.posted, hs.right, hs.restart, hs.answered, hs.given⟩
  | deletes layerHash =>
    exact ⟨hs.posted, hs.right, hs.held.deleteLru layerHash, hs.answered, hs.given⟩

/-- Only a POST adds to what is stored. -/
theorem step_stored {s s' : PipelineState} {l : PipelineLabel}
    (h : s.step sha256Text l = some s') :
    (∃ k call p, l = .post k call ∧ s.posts[k]? = some p ∧ s'.stored = s.stored ++ [p]) ∨
      ((∀ k call, l ≠ .post k call) ∧ s'.stored = s.stored) := by
  cases step_cases h with
  | stores k call p hk => exact Or.inl ⟨k, call, p, rfl, hk, rfl⟩
  | responds k ok e stage hit =>
    refine Or.inr ⟨nofun, ?_⟩
    cases hit <;> rfl
  | _ => exact Or.inr ⟨nofun, rfl⟩

/-! ## Whole runs -/

theorem start_traced (n : ℕ) (q : StartQueue) (now : Time) (capacity : ℕ) (ttlSeconds : ℤ)
    (redis : Bool) (store : StateStore) :
    (start n q now capacity ttlSeconds redis store).Traced where
  posted := fun _ h => absurd h List.not_mem_nil
  right := fun _ h => absurd h List.not_mem_nil
  held := .new capacity ttlSeconds redis
  answered := fun _ h => absurd h List.not_mem_nil
  given := fun _ h => absurd h List.not_mem_nil

/-- While only completed scans have been stored, a step keeps it so exactly when it does
not store another one. -/
theorem step_onlyCompleted_iff {s s' : PipelineState} {l : PipelineLabel} (hs : s.Traced)
    (hcompleted : s.OnlyCompleted) (h : s.step sha256Text l = some s') :
    s'.OnlyCompleted ↔ s.StoresCompleted l s' := by
  have hold := (onlyCompleted_iff hs).mp hcompleted
  rw [onlyCompleted_iff (step_traced hs h)]
  rcases step_stored h with ⟨k, call, p, rfl, hk, hstored⟩ | ⟨hl, hstored⟩
  · rw [hstored]
    constructor
    · intro hall k' call' p' hl hk'
      cases hl
      obtain rfl : p = p' := Option.some.inj (hk.symm.trans hk')
      exact hall p (List.mem_append_right _ (List.mem_singleton.mpr rfl))
    · intro hnew p' hp'
      rcases List.mem_append.mp hp' with hmem | hlast
      · exact hold p' hmem
      · rw [List.mem_singleton.mp hlast]
        exact hnew k call p rfl hk
  · rw [hstored]
    exact iff_of_true hold fun k call _ heq => absurd heq (hl k call)

/-- **When only completed scans are served.**  A run stores and serves results of
completed scans only, at every point, if and only if every POST of `_run_job` that the
cache node handles carries the result of a scan that completed. -/
theorem completed_scans_served (sha256Text : String → String) (n : ℕ) (q : StartQueue)
    (now : Time) (capacity : ℕ) (ttlSeconds : ℤ) (redis : Bool) (store : StateStore)
    (ls : List PipelineLabel) :
    Machine.Visits (step sha256Text) OnlyCompleted
        (start n q now capacity ttlSeconds redis store) ls ↔
      Machine.Meets (step sha256Text) StoresCompleted
        (start n q now capacity ttlSeconds redis store) ls := by
  refine Machine.visits_iff_meets (I := Traced) ?_ ?_ ?_ ?_ ls
  · intro s l s' hs h
    exact step_traced hs h
  · intro s l s' hs hcompleted h
    exact step_onlyCompleted_iff hs hcompleted h
  · exact start_traced n q now capacity ttlSeconds redis store
  · exact ⟨fun _ h => absurd h List.not_mem_nil, fun _ h => absurd h List.not_mem_nil⟩

/-- SHA-256, where the run below uses it. -/
def nginxDigest (text : String) : String :=
  if text = "nginx:nginx" then "653bc09ee38cff31b902e73d12c7e9e30facc30fa81e88ae473cd3a5abf379e0"
  else text

/-- The scan for container `c1` fails: Trivy exits with 1.  Its result is stored, and
container `c2` of the same image is given `cache_hit` with no vulnerability. -/
theorem failed_scan_served :
    ∃ s, Machine.exec (step nginxDigest)
        (start 1 .inMemory 0 10 3600 false .empty)
        [.docker ⟨.start, "c1", some "web-1", some "nginx", none, 0⟩,
          .lookup 0 { now := 0, redisNow := 0 }, .respond 0 true, .push 0 true true,
          .scheduler (.dispatch true), .scheduler (.dispatch true),
          .scan 0 (.exits 1 (.text (.malformed ""))) "2025-01-01T00:00:01" 1000,
          .post 0 { createdAt := 1, now := 1 },
          .docker ⟨.start, "c2", some "web-2", some "nginx", none, 1⟩,
          .lookup 0 { now := 2, redisNow := 2 }, .respond 0 true] = some s ∧
      (s.hits.map fun hit => (hit.1, statusText (.obj hit.2))) =
        [("c2", some "scan_failed")] ∧
      (s.hits.map fun hit => StateStore.cachedVulns hit.2) = [VulnCounts.zero.toJson] ∧
      ((s.store.containers.get? "c2").bind fun record =>
        (record.get? "scan_status").bind Json.str?) = some "cache_hit" ∧
      ¬ s.OnlyCompleted := by
  refine ⟨_, rfl, by decide +kernel, by with_unfolding_all rfl, by decide +kernel, ?_⟩
  exact not_onlyCompleted (by decide +kernel)

end PipelineState
end Rcsce
