import Rcsce.Lib.Simulation
import Rcsce.Scheduler.JobRequest

/-!
# The two queue backends are interchangeable

A client of a job queue enqueues, takes the next job, gives back a job that it was handed at
any time before, completes a job by its id, and reads `stats` after each of these.  The
client does not know which backend it has: on Redis, where every command is reliable and the
scheduled completion runs before the next call, and in memory it sees the same
(`backends_interchangeable`).

What it sees is a reference queue, `TrackedQueue`: a FIFO queue of requests, in which a job
that is given back goes to the tail, and a set of ids that are in flight.  `Tracks` relates
either backend to it: the pending requests in order, the keys of the in-flight jobs, and the
requests handed out.  Everything else that a job dictionary carries, its status and its
worker, is written at different moments by the two backends, and is not a part of it.

A client may give back a job twice, or one that is completed, so that one id is pending
several times; and it may complete a job that is not in flight.  Both backends file the
in-flight jobs by id, so a second one overwrites the first.
-/

namespace Rcsce

/-- What a job asks for: its id, `container_id`, `image_id` and `image_name`. -/
abbrev Request := Uuid × String × String × String

/-- The methods of a job queue on the states `σ`, handing out jobs of type `J`. -/
structure QueueMethods (σ J : Type) where
  request : J → Request
  enqueue : σ → Uuid → String → String → String → σ
  /-- `none` when there is no pending job to be handed out. -/
  dequeue : σ → Option (J × σ)
  requeue : σ → J → σ
  complete : σ → Uuid → Json → Time → σ
  /-- `pending` and `inflight` of `stats`. -/
  pending : σ → ℕ
  inflight : σ → ℕ

/-- What a client can ask for. -/
inductive QueueRequest where
  | enqueue (jobId : Uuid) (containerId imageId imageName : String)
  | dequeue
  /-- `requeue` the job that was handed out at this place. -/
  | requeue (k : ℕ)
  | complete (jobId : Uuid) (result : Json) (now : Time)

/-- What a client sees after a call: the job that it was handed, and `stats`. -/
structure QueueReport where
  handedOut : Option Request
  pending : ℕ
  inflight : ℕ
  total : ℕ
  deriving DecidableEq

/-- A queue with its client, who keeps the jobs that it was handed. -/
structure QueueClient (σ J : Type) where
  queue : σ
  handed : List J

namespace QueueMethods

variable {σ J : Type} (m : QueueMethods σ J)

/-- The report after a call. -/
def report (q : σ) (handedOut : Option J) : QueueReport :=
  ⟨handedOut.map m.request, m.pending q, m.inflight q, m.pending q + m.inflight q⟩

/-- One call. -/
def step (s : QueueClient σ J) : QueueRequest → Option (QueueClient σ J × QueueReport)
  | .enqueue jobId containerId imageId imageName =>
      let q := m.enqueue s.queue jobId containerId imageId imageName
      some ({ s with queue := q }, m.report q none)
  | .dequeue => (m.dequeue s.queue).map fun r =>
      (⟨r.2, s.handed ++ [r.1]⟩, m.report r.2 (some r.1))
  | .requeue k => s.handed[k]?.map fun job =>
      let q := m.requeue s.queue job
      ({ s with queue := q }, m.report q none)
  | .complete jobId result now =>
      let q := m.complete s.queue jobId result now
      some ({ s with queue := q }, m.report q none)

end QueueMethods

/-! ## The backends and the reference -/

/-- `RedisJobQueue`, each method with all its commands. -/
def redisJobQueue : QueueMethods QueueStore Job where
  request := Job.request
  enqueue q jobId containerId imageId imageName :=
    q.rpush (.new jobId containerId imageId imageName)
  dequeue q := q.blpop.map fun r =>
    ({ r.1 with status := .inflight }, r.2.hset { r.1 with status := .inflight })
  requeue q job := (q.hdel job.jobId).rpush job.reset
  complete q jobId result now := q.complete jobId result now
  pending q := q.pending.length
  inflight q := q.inflight.size

/-- `InMemoryJobQueue`. -/
def inMemoryJobQueue : QueueMethods InMemoryQueue Job where
  request := Job.request
  enqueue q jobId containerId imageId imageName :=
    q.enqueue (.new jobId containerId imageId imageName)
  dequeue := InMemoryQueue.dequeue
  requeue := InMemoryQueue.requeue
  complete q jobId _ _ := q.complete jobId
  pending q := q.queue.length
  inflight q := q.inFlight.size

/-- A FIFO queue of requests and the ids that are in flight. -/
structure TrackedQueue where
  pending : List Request
  inflight : Finset Uuid

namespace TrackedQueue

/-- Nothing pending and nothing in flight. -/
def empty : TrackedQueue := ⟨[], ∅⟩

/-- At the tail. -/
def enqueue (q : TrackedQueue) (r : Request) : TrackedQueue :=
  { q with pending := q.pending ++ [r] }

/-- From the head, and in flight from now on. -/
def dequeue (q : TrackedQueue) : Option (Request × TrackedQueue) :=
  match q.pending with
  | [] => none
  | r :: rest => some (r, ⟨rest, insert r.1 q.inflight⟩)

/-- To the tail, and not in flight any more. -/
def requeue (q : TrackedQueue) (r : Request) : TrackedQueue :=
  ⟨q.pending ++ [r], q.inflight.erase r.1⟩

/-- Not in flight any more. -/
def complete (q : TrackedQueue) (jobId : Uuid) : TrackedQueue :=
  { q with inflight := q.inflight.erase jobId }

end TrackedQueue

/-- The reference queue, as a job queue. -/
def referenceQueue : QueueMethods TrackedQueue Request where
  request := id
  enqueue q jobId containerId imageId imageName :=
    q.enqueue (jobId, containerId, imageId, imageName)
  dequeue := TrackedQueue.dequeue
  requeue := TrackedQueue.requeue
  complete q jobId _ _ := q.complete jobId
  pending q := q.pending.length
  inflight q := q.inflight.card

/-! ## The simulation -/

/-- The pending jobs and the jobs in flight, in terms of the reference queue. -/
structure Tracks (pending : List Job) (inflight : OrderedDict Uuid Job) (q : TrackedQueue) :
    Prop where
  pending : pending.map Job.request = q.pending
  inflight : inflight.keys.toFinset = q.inflight

namespace Tracks

variable {pending : List Job} {inflight inflight' : OrderedDict Uuid Job} {q : TrackedQueue}

/-- The in-flight jobs are counted by their keys. -/
theorem size_eq (h : Tracks pending inflight q) : inflight.size = q.inflight.card := by
  rw [← h.inflight, List.toFinset_card_of_nodup inflight.nodup_keys, OrderedDict.length_keys]

theorem length_eq (h : Tracks pending inflight q) : pending.length = q.pending.length := by
  rw [← h.pending, List.length_map]

theorem enqueue (h : Tracks pending inflight q) {job : Job} {r : Request}
    (hr : job.request = r) : Tracks (pending ++ [job]) inflight (q.enqueue r) := by
  refine ⟨?_, h.inflight⟩
  rw [List.map_append, h.pending, List.map_singleton, hr]
  rfl

/-- A job is taken from the head and filed under its id. -/
theorem dequeue {job : Job} {rest : List Job} (h : Tracks (job :: rest) inflight q) (job' : Job)
    {i : Uuid} (hi : i = job.jobId) :
    ∃ q', q.dequeue = some (job.request, q') ∧ Tracks rest (inflight.set i job') q' := by
  have hpending : q.pending = job.request :: rest.map Job.request := h.pending.symm
  refine ⟨⟨rest.map Job.request, insert job.jobId q.inflight⟩, ?_, rfl, ?_⟩
  · rw [TrackedQueue.dequeue, hpending]
    rfl
  · rw [← h.inflight, hi]
    ext j
    simp only [List.mem_toFinset, Finset.mem_insert, ← OrderedDict.mem_def, OrderedDict.mem_set]

theorem dequeue_nil (h : Tracks [] inflight q) : q.dequeue = none := by
  have hpending : q.pending = [] := h.pending.symm
  rw [TrackedQueue.dequeue, hpending]

/-- An id is taken out of the in-flight jobs. -/
theorem complete (h : Tracks pending inflight q) {i : Uuid}
    (hinflight : ∀ j, j ∈ inflight' ↔ j ≠ i ∧ j ∈ inflight) :
    Tracks pending inflight' (q.complete i) := by
  refine ⟨h.pending, ?_⟩
  rw [TrackedQueue.complete, ← h.inflight]
  ext j
  simp only [List.mem_toFinset, Finset.mem_erase, ← OrderedDict.mem_def, hinflight]

/-- Only the requests of the pending jobs count. -/
theorem congr_pending {pending' : List Job} (h : Tracks pending inflight q)
    (hpending : pending'.map Job.request = pending.map Job.request) :
    Tracks pending' inflight q :=
  ⟨hpending.trans h.pending, h.inflight⟩

end Tracks

/-- A backend does what the reference queue does: `rel` relates their states. -/
structure QueueMethods.Refines {σ : Type} (m : QueueMethods σ Job)
    (rel : σ → TrackedQueue → Prop) : Prop where
  request : m.request = Job.request
  pending : ∀ q t, rel q t → m.pending q = t.pending.length
  inflight : ∀ q t, rel q t → m.inflight q = t.inflight.card
  enqueue : ∀ q t i c im n, rel q t → rel (m.enqueue q i c im n) (t.enqueue (i, c, im, n))
  dequeue : ∀ q t, rel q t → m.dequeue q = none ∧ t.dequeue = none ∨
    ∃ job q' t', m.dequeue q = some (job, q') ∧ t.dequeue = some (job.request, t') ∧ rel q' t'
  requeue : ∀ q t job, rel q t → rel (m.requeue q job) (t.requeue job.request)
  complete : ∀ q t i result now, rel q t → rel (m.complete q i result now) (t.complete i)

/-- The clients of a backend and of the reference queue were handed the same. -/
structure SameClient {σ : Type} (rel : σ → TrackedQueue → Prop) (s : QueueClient σ Job)
    (t : QueueClient TrackedQueue Request) : Prop where
  queue : rel s.queue t.queue
  handed : s.handed.map Job.request = t.handed

namespace QueueMethods.Refines

variable {σ : Type} {m : QueueMethods σ Job} {rel : σ → TrackedQueue → Prop}

/-- Related queues give the same report. -/
theorem report_eq (h : m.Refines rel) {q : σ} {t : TrackedQueue} (hqt : rel q t)
    (job : Option Job) : m.report q job = referenceQueue.report t (job.map Job.request) := by
  rw [report, report, h.request, h.pending q t hqt, h.inflight q t hqt]
  cases job <;> rfl

/-- **A backend that refines the reference queue is a simulation of it.** -/
theorem simulates (h : m.Refines rel) :
    Reporting.Simulates m.step referenceQueue.step (SameClient rel) := by
  intro s t call hst
  cases call with
  | enqueue i c im n =>
    have hnext := h.enqueue s.queue t.queue i c im n hst.queue
    rw [step, step, h.report_eq hnext]
    exact .taken _ ⟨hnext, hst.handed⟩
  | dequeue =>
    rw [step, step]
    rcases h.dequeue s.queue t.queue hst.queue with ⟨hnone, hnone'⟩ |
      ⟨job, q', t', hsome, hsome', hnext⟩
    · rw [hnone, show referenceQueue.dequeue t.queue = none from hnone']
      exact .refused
    · rw [hsome, show referenceQueue.dequeue t.queue = some (job.request, t') from hsome',
        Option.map_some, Option.map_some, h.report_eq hnext]
      refine .taken _ ⟨hnext, ?_⟩
      rw [List.map_append, hst.handed]
      rfl
  | requeue k =>
    rw [step, step, ← hst.handed, List.getElem?_map]
    cases s.handed[k]? with
    | none => exact .refused
    | some job =>
      have hnext := h.requeue s.queue t.queue job hst.queue
      rw [Option.map_some, Option.map_some, Option.map_some]
      dsimp only
      rw [h.report_eq hnext]
      exact .taken _ ⟨hnext, rfl⟩
  | complete i result now =>
    have hnext := h.complete s.queue t.queue i result now hst.queue
    rw [step, step, h.report_eq hnext]
    exact .taken _ ⟨hnext, hst.handed⟩

end QueueMethods.Refines

/-! ## Both backends refine the reference queue -/

theorem redis_refines :
    redisJobQueue.Refines fun q t => Tracks q.pending q.inflight t where
  request := rfl
  pending _ _ h := h.length_eq
  inflight _ _ h := h.size_eq
  enqueue _ _ _ _ _ _ h := h.enqueue rfl
  dequeue q t h := by
    cases hpending : q.pending with
    | nil =>
      rw [hpending] at h
      refine Or.inl ⟨?_, h.dequeue_nil⟩
      show q.blpop.map _ = none
      rw [QueueStore.blpop, hpending]
      rfl
    | cons job rest =>
      rw [hpending] at h
      obtain ⟨t', ht', hnext⟩ := h.dequeue { job with status := .inflight } rfl
      refine Or.inr ⟨{ job with status := .inflight },
        QueueStore.hset { q with pending := rest } { job with status := .inflight }, t', ?_, ht',
        hnext⟩
      show q.blpop.map _ = _
      rw [QueueStore.blpop, hpending]
      rfl
  requeue q t job h := by
    have hdel : Tracks q.pending (q.hdel job.jobId).inflight (t.complete job.jobId) :=
      h.complete fun j => QueueStore.mem_inflight_hdel
    exact hdel.enqueue rfl
  complete q t i result now h := h.complete fun j => QueueStore.mem_inflight_complete

theorem InMemoryQueue.dequeue_eq_none {q : InMemoryQueue} (h : q.dequeue = none) :
    q.queue = [] := by
  rw [InMemoryQueue.dequeue] at h
  split at h
  · assumption
  · cases h

/-- A write to a dictionary does not touch what it asks for. -/
theorem InMemoryQueue.tracks_writeJob {q : InMemoryQueue} {t : TrackedQueue}
    (h : Tracks q.queue q.inFlight t) (i : Uuid) (f : Job → Job)
    (hid : ∀ job, (f job).jobId = job.jobId) (hf : ∀ job, (f job).request = job.request) :
    Tracks (q.writeJob i f hid).queue q.inFlight t := by
  refine h.congr_pending ?_
  rw [InMemoryQueue.writeJob, List.map_map]
  refine List.map_congr_left fun job _ => ?_
  rw [Function.comp_apply]
  split_ifs
  · exact hf job
  · rfl

theorem inMemory_refines :
    inMemoryJobQueue.Refines fun q t => Tracks q.queue q.inFlight t where
  request := rfl
  pending _ _ h := h.length_eq
  inflight _ _ h := h.size_eq
  enqueue _ _ _ _ _ _ h := h.enqueue rfl
  dequeue q t h := by
    cases htake : q.dequeue with
    | none =>
      rw [InMemoryQueue.dequeue_eq_none htake] at h
      exact Or.inl ⟨htake, h.dequeue_nil⟩
    | some taken =>
      obtain ⟨job, q'⟩ := taken
      obtain ⟨hqueue, hinflight⟩ := InMemoryQueue.dequeue_eq_some htake
      rw [hqueue] at h
      obtain ⟨t', ht', hnext⟩ := h.dequeue job rfl
      exact Or.inr ⟨job, q', t', htake, ht', hinflight ▸ hnext⟩
  requeue q t job h := by
    have hreset := InMemoryQueue.tracks_writeJob h job.jobId Job.reset (fun _ => rfl) fun _ => rfl
    have herase : Tracks _ (q.requeue job).inFlight (t.complete job.jobId) :=
      hreset.complete fun j => by
        rw [OrderedDict.mem_iff_get?, OrderedDict.mem_iff_get?,
          InMemoryQueue.get?_inFlight_requeue]
        split_ifs with hj <;> simp [hj]
    exact herase.enqueue rfl
  complete q t i result now h := by
    show Tracks (q.complete i).queue (q.complete i).inFlight (t.complete i)
    have hpending : (q.complete i).queue.map Job.request = q.queue.map Job.request := by
      rw [InMemoryQueue.complete]
      split_ifs
      · exact (InMemoryQueue.tracks_writeJob h i Job.complete (fun _ => rfl)
          fun _ => rfl).pending.trans h.pending.symm
      · rfl
    refine Tracks.congr_pending (h.complete fun j => ?_) hpending
    rw [OrderedDict.mem_iff_get?, OrderedDict.mem_iff_get?, InMemoryQueue.get?_inFlight_complete]
    split_ifs with hj <;> simp [hj]

/-- **The two queue backends are interchangeable.**  For every sequence of calls, a client of
either backend sees what a client of the reference queue sees. -/
theorem backends_interchangeable (calls : List QueueRequest) :
    Reporting.reports inMemoryJobQueue.step ⟨.empty, []⟩ calls =
        Reporting.reports referenceQueue.step ⟨.empty, []⟩ calls ∧
      Reporting.reports redisJobQueue.step ⟨.empty, []⟩ calls =
        Reporting.reports referenceQueue.step ⟨.empty, []⟩ calls :=
  ⟨inMemory_refines.simulates.reports_eq ⟨⟨rfl, rfl⟩, rfl⟩ calls,
    redis_refines.simulates.reports_eq ⟨⟨rfl, rfl⟩, rfl⟩ calls⟩

end Rcsce
