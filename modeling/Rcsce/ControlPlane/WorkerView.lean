import Rcsce.ControlPlane.Masters
import Rcsce.Scheduler.RegistryGrowth

/-!
# What the control plane shows of a worker

The scheduler tells the control plane of a worker in two ways.  A heartbeat POST carries the
worker's record as it is when the request is sent; the heartbeat loop and the dispatcher send
them on connections of their own.  A DELETE is sent when the worker is marked dead.  The
control plane merges a heartbeat into its record of the worker, and a DELETE writes `dead`.
Neither looks at what is there.

## The machine

The scheduler takes its steps, and a step that marks a worker dead sends the DELETE.  A
report may be sent at any time: whatever sends it, it carries the record of that moment.
The messages on their way are delivered in any order, or lost.  Each has the number of
messages before it as its serial number, a ghost.

## Regression

`NeverRegresses` is about one step: a worker that was shown dead still is, and no
counter that was shown is lower.  `never_regresses_iff` is exact: all steps of a run are so if
and only if no heartbeat is delivered after a message of the same worker that was sent later
and says more.  `heartbeat_after_delete` is the run in which a heartbeat that was sent before
the worker's death is delivered after the DELETE.
-/

namespace Rcsce

/-- `status` in a heartbeat. -/
def WorkerStatus.text : WorkerStatus → String
  | .alive => "alive"
  | .dead => "dead"

/-- The body of a heartbeat. -/
def WorkerInfo.body (info : WorkerInfo) (w : Uuid) : Record :=
  .ofFields [("worker_id", .str (toString w)), ("status", .str info.status.text),
    ("load", .num info.load), ("jobs_completed", .num info.jobsCompleted),
    ("jobs_assigned", .num info.jobsAssigned), ("events_assigned", .num info.eventsAssigned),
    ("events_completed", .num info.eventsCompleted)]

/-- A message about a worker: a heartbeat with the worker's record, or a DELETE. -/
structure WorkerMessage where
  serial : ℕ
  worker : Uuid
  report : Option WorkerInfo

namespace WorkerMessage

/-- The id of the worker in the request. -/
def key (m : WorkerMessage) : String := toString m.worker

/-- What the endpoint does. -/
def event (m : WorkerMessage) : PrimaryEvent :=
  match m.report with
  | some info => .workerHeartbeat m.key (info.body m.worker)
  | none => .workerDead m.key

/-- The worker is dead, according to the message. -/
def SaysDead (m : WorkerMessage) : Prop := ∀ info, m.report = some info → info.status = .dead

end WorkerMessage

/-- The event comes from the scheduler and is about a worker. -/
def PrimaryEvent.aboutWorker : PrimaryEvent → Bool
  | .workerHeartbeat _ _ | .workerDead _ => true
  | _ => false

/-- The workers that are dead now and were not before. -/
def WorkerRegistry.newlyDead (r r' : WorkerRegistry) : List Uuid :=
  r'.workers.keys.filter fun w =>
    (r'.workers.get? w).map WorkerInfo.status = some .dead ∧
      (r.workers.get? w).map WorkerInfo.status ≠ some .dead

/-- The scheduler, the control plane and what is between them. -/
structure WorkerView where
  scheduler : SchedulerState
  node : MasterNode
  /-- The number of messages sent, or of steps that could send some. -/
  sent : ℕ
  inFlight : List WorkerMessage
  delivered : List WorkerMessage

/-- What can happen next. -/
inductive WorkerViewLabel where
  | scheduler (l : SchedulerLabel)
  /-- `_report_to_control_plane` of a worker sends its record. -/
  | report (w : Uuid)
  | deliver (k : ℕ)
  | lose (k : ℕ)
  /-- Something else happens in the control plane. -/
  | other (e : PrimaryEvent)

namespace WorkerView

/-- One step. -/
def step (sha256Text : String → String) (s : WorkerView) : WorkerViewLabel → Option WorkerView
  | .scheduler l => (s.scheduler.step l).map fun t => { s with
      scheduler := t
      sent := s.sent + 1
      inFlight := s.inFlight ++
        (s.scheduler.pool.registry.newlyDead t.pool.registry).map fun w => ⟨s.sent, w, none⟩ }
  | .report w => (s.scheduler.pool.registry.workers.get? w).map fun info => { s with
      sent := s.sent + 1
      inFlight := s.inFlight ++ [⟨s.sent, w, some info⟩] }
  | .deliver k => s.inFlight[k]?.bind fun m =>
      (s.node.handlePrimary sha256Text m.event).map fun node => { s with
        node
        inFlight := s.inFlight.eraseIdx k
        delivered := s.delivered ++ [m] }
  | .lose k => s.inFlight[k]?.map fun _ => { s with inFlight := s.inFlight.eraseIdx k }
  | .other e =>
      if e.aboutWorker then none
      else (s.node.handlePrimary sha256Text e).map fun node => { s with node }

/-- The two processes have just started; the control plane has cleared its workers. -/
def start (n : ℕ) (q : StartQueue) (now : Time) (store : StateStore)
    (listenerClient engineClient : Bool) : WorkerView where
  scheduler := .start n q now
  node := (MasterNode.new store.clearAllWorkers listenerClient engineClient).listen
  sent := 0
  inFlight := []
  delivered := []

end WorkerView

/-! ## The fields that are shown -/

/-- The counters that a heartbeat reports, of those that only grow. -/
def jobCounters : List (String × (WorkerInfo → ℕ)) :=
  [("jobs_assigned", WorkerInfo.jobsAssigned), ("jobs_completed", WorkerInfo.jobsCompleted)]

/-- A record reports its counters. -/
theorem WorkerInfo.get?_body_counter (info : WorkerInfo) (w : Uuid)
    {c : String × (WorkerInfo → ℕ)} (hc : c ∈ jobCounters) :
    (info.body w).get? c.1 = some (.num (c.2 info)) := by
  refine Record.get?_ofFields_of_mem (by simp) ?_
  rcases List.mem_pair.mp hc with rfl | rfl <;> simp

theorem WorkerInfo.get?_body_status (info : WorkerInfo) (w : Uuid) :
    (info.body w).get? "status" = some (.str info.status.text) :=
  Record.get?_ofFields_of_mem (by simp) (by simp)

theorem WorkerStatus.text_eq_dead_iff {status : WorkerStatus} :
    status.text = "dead" ↔ status = .dead := by
  cases status <;> simp [WorkerStatus.text]

/-- No counter is one of the fields that a DELETE or an upsert writes itself. -/
theorem counter_notMem {c : String × (WorkerInfo → ℕ)} (hc : c ∈ jobCounters) :
    c.1 ∉ ["worker_id", "status", "load"] := by
  rcases List.mem_pair.mp hc with rfl | rfl <;> simp

theorem WorkerInfo.Grown.counter {info info' : WorkerInfo} (h : info.Grown info')
    {c : String × (WorkerInfo → ℕ)} (hc : c ∈ jobCounters) : c.2 info ≤ c.2 info' := by
  rcases List.mem_pair.mp hc with rfl | rfl
  · exact h.assigned
  · exact h.completed

namespace StateStore

/-- A field of a worker, as `get_all_workers` shows it. -/
def workerField (s : StateStore) (key field : String) : Option Json :=
  (s.workers.get? key).bind fun record => record.get? field

theorem get?_getD_empty (s : StateStore) (key field : String) :
    ((s.workers.get? key).getD .empty).get? field = s.workerField key field := by
  rw [workerField]
  cases s.workers.get? key with
  | none => rfl
  | some record => rfl

theorem workerField_upsertWorker_of_ne (s : StateStore) {w key : String} (h : key ≠ w)
    (data : Record) (field : String) :
    (s.upsertWorker w data).workerField key field = s.workerField key field := by
  rw [workerField, upsertWorker, OrderedDict.get?_set_of_ne _ _ h, workerField]

theorem workerField_upsertWorker (s : StateStore) (w : String) {data : Record} {field : String}
    {v : Json} (hfield : field ≠ "worker_id") (hv : data.get? field = some v) :
    (s.upsertWorker w data).workerField w field = some v := by
  rw [workerField, upsertWorker, OrderedDict.get?_set_self, Option.bind_some,
    OrderedDict.get?_set_of_ne _ _ hfield, Record.get?_update, hv, Option.some_or]

theorem workerField_markWorkerDead_of_ne (s : StateStore) {w key : String} (h : key ≠ w)
    (field : String) : (s.markWorkerDead w).workerField key field = s.workerField key field := by
  rw [workerField, markWorkerDead, OrderedDict.get?_set_of_ne _ _ h, workerField]

theorem workerField_markWorkerDead_status (s : StateStore) (w : String) :
    (s.markWorkerDead w).workerField w "status" = some (.str "dead") := by
  rw [workerField, markWorkerDead, OrderedDict.get?_set_self, Option.bind_some,
    Record.get?_update,
    Record.get?_ofFields_of_mem (v := .str "dead") (by simp) (by simp), Option.some_or]

theorem workerField_markWorkerDead_of_notMem (s : StateStore) (w : String) {field : String}
    (h : field ∉ ["worker_id", "status", "load"]) :
    (s.markWorkerDead w).workerField w field = s.workerField w field := by
  rw [workerField, markWorkerDead, OrderedDict.get?_set_self, Option.bind_some,
    Record.get?_update, Record.get?_ofFields_of_notMem h, Option.none_or, get?_getD_empty]

@[simp] theorem workers_upsertContainer (s : StateStore) (c : String) (data : Record) :
    (s.upsertContainer c data).workers = s.workers := rfl

@[simp] theorem workers_markCritical (s : StateStore) (c : String) :
    (s.markCritical c).workers = s.workers := rfl

@[simp] theorem workers_recordCacheEvent (s : StateStore) (hit : Bool) :
    (s.recordCacheEvent hit).workers = s.workers := by
  cases hit <;> rfl

@[simp] theorem workers_appendAudit (s : StateStore) (event : Record) :
    (s.appendAudit event).workers = s.workers := by
  rw [appendAudit]

end StateStore

namespace MasterNode

variable {sha256Text : String → String} {m m' : MasterNode}

theorem workers_handleEvent (m : MasterNode) (e : DockerEvent) :
    (m.handleEvent e).store.workers = m.store.workers := by
  rw [handleEvent]
  cases e.action <;> simp [StateStore.onStart, StateStore.onStopped]

/-- Whatever else happens in the control plane, it does not touch the workers. -/
theorem workers_handlePrimary {e : PrimaryEvent} (h : m.handlePrimary sha256Text e = some m')
    (he : e.aboutWorker = false) : m'.store.workers = m.store.workers := by
  cases e with
  | own e =>
    cases e with
    | docker e =>
      rw [handlePrimary, handle] at h
      split_ifs at h
      rw [← Option.some.inj h, workers_handleEvent]
    | cacheAnswered k hit =>
      obtain ⟨e, -, rfl⟩ := Option.map_eq_some_iff.mp h
      cases hit <;> simp [StateStore.onCacheHit, StateStore.onCacheMiss]
    | pushed k jobId =>
      obtain ⟨e, -, rfl⟩ := Option.map_eq_some_iff.mp h
      simp [StateStore.onEnqueued]
    | failedOver k replica recovered =>
      obtain ⟨f, -, rfl⟩ := Option.map_eq_some_iff.mp h
      simp [StateStore.onFailover]
    | failoverRaised k error =>
      obtain ⟨f, -, rfl⟩ := Option.map_eq_some_iff.mp h
      simp [StateStore.onFailoverError]
    | markCritical c =>
      rw [← Option.some.inj h, StateStore.workers_markCritical]
    | anomaly entry =>
      rw [← Option.some.inj h, StateStore.workers_appendAudit]
  | workerHeartbeat w data => cases he
  | workerDead w => cases he
  | scanComplete containerId vulns status =>
    rw [← Option.some.inj h]
    dsimp only
    split_ifs <;> rfl
  | queueDepth depth =>
    rw [← Option.some.inj h]
    rfl

end MasterNode

/-! ## Messages in the order in which they were sent -/

/-- The record says at least what the message says. -/
structure WorkerInfo.Covers (info : WorkerInfo) (m : WorkerMessage) : Prop where
  dead : m.SaysDead → info.status = .dead
  counters : ∀ c ∈ jobCounters, ∀ info', m.report = some info' → c.2 info' ≤ c.2 info

theorem WorkerInfo.Covers.grown {info info' : WorkerInfo} {m : WorkerMessage}
    (h : info.Covers m) (hgrown : info.Grown info') : info'.Covers m :=
  ⟨fun hdead => hgrown.dead (h.dead hdead), fun c hc reported hreport =>
    (h.counters c hc reported hreport).trans (hgrown.counter hc)⟩

/-- A record covers a message that reports it. -/
theorem WorkerInfo.covers_of_report {info : WorkerInfo} {m : WorkerMessage}
    (h : m.report = some info) : info.Covers m :=
  ⟨fun hdead => hdead info h, fun _ _ info' h' => by rw [Option.some.inj (h'.symm.trans h)]⟩

/-- A record that says `dead` covers a DELETE. -/
theorem WorkerInfo.covers_of_dead {info : WorkerInfo} {m : WorkerMessage} (h : m.report = none)
    (hdead : info.status = .dead) : info.Covers m :=
  ⟨fun _ => hdead, fun _ _ _ h' => nomatch h.symm.trans h'⟩

namespace WorkerView

variable {sha256Text : String → String} {s s' : WorkerView} {l : WorkerViewLabel}

/-- The messages that have not been lost. -/
def messages (s : WorkerView) : List WorkerMessage := s.inFlight ++ s.delivered

/-- The registry says at least what any message says, and a report says at least what the
messages before it say. -/
structure Sent (s : WorkerView) : Prop where
  backed : ∀ m ∈ s.messages, ∃ info,
    s.scheduler.pool.registry.workers.get? m.worker = some info ∧ info.Covers m
  before : ∀ m ∈ s.messages, m.serial < s.sent
  ordered : ∀ m ∈ s.messages, ∀ m' ∈ s.messages, m'.worker = m.worker → m'.serial ≤ m.serial →
    ∀ info, m.report = some info → info.Covers m'

/-- Fewer messages. -/
theorem Sent.subset (h : s.Sent) (hscheduler : s'.scheduler = s.scheduler)
    (hsent : s'.sent = s.sent) (hmessages : ∀ m ∈ s'.messages, m ∈ s.messages) : s'.Sent := by
  refine ⟨fun m hm => ?_, fun m hm => ?_, fun m hm m' hm' => ?_⟩
  · rw [hscheduler]
    exact h.backed m (hmessages m hm)
  · rw [hsent]
    exact h.before m (hmessages m hm)
  · exact h.ordered m (hmessages m hm) m' (hmessages m' hm')

/-- New messages, sent by a scheduler whose records have only grown.  All have the next serial
number; they are DELETEs, or there is one of them. -/
theorem Sent.send (h : s.Sent) (new : List WorkerMessage)
    (hgrows : s.scheduler.pool.registry.Grows s'.scheduler.pool.registry)
    (hsent : s'.sent = s.sent + 1) (hinFlight : s'.inFlight = s.inFlight ++ new)
    (hdelivered : s'.delivered = s.delivered) (hserial : ∀ m ∈ new, m.serial = s.sent)
    (hbacked : ∀ m ∈ new, ∃ info,
      s'.scheduler.pool.registry.workers.get? m.worker = some info ∧ info.Covers m)
    (hreport : ∀ m ∈ new, ∀ info, m.report = some info →
      s'.scheduler.pool.registry.workers.get? m.worker = some info ∧ new = [m]) : s'.Sent := by
  have hmem : ∀ m ∈ s'.messages, m ∈ s.messages ∨ m ∈ new := by
    intro m hm
    rw [messages, hinFlight, hdelivered, List.mem_append, List.mem_append] at hm
    rw [messages, List.mem_append]
    tauto
  have hkept : ∀ m ∈ s.messages, ∃ info,
      s'.scheduler.pool.registry.workers.get? m.worker = some info ∧ info.Covers m := by
    intro m hm
    obtain ⟨info, hinfo, hcovers⟩ := h.backed m hm
    obtain ⟨info', hinfo', hgrown⟩ := hgrows m.worker info hinfo
    exact ⟨info', hinfo', hcovers.grown hgrown⟩
  refine ⟨fun m hm => ?_, fun m hm => ?_, fun m hm m' hm' hworker hle info hinfo => ?_⟩
  · exact (hmem m hm).elim (hkept m) (hbacked m)
  · rw [hsent]
    rcases hmem m hm with hold | hnew
    · exact Nat.lt_succ_of_lt (h.before m hold)
    · exact (hserial m hnew).symm ▸ Nat.lt_succ_self _
  · rcases hmem m hm with hold | hnew
    · rcases hmem m' hm' with hold' | hnew'
      · exact h.ordered m hold m' hold' hworker hle info hinfo
      · -- the new message was not sent before an old one
        have hlt := h.before m hold
        have hserial' := hserial m' hnew'
        omega
    · obtain ⟨hrecord, hone⟩ := hreport m hnew info hinfo
      rcases hmem m' hm' with hold' | hnew'
      · obtain ⟨info', hinfo', hcovers⟩ := hkept m' hold'
        rw [hworker, hrecord] at hinfo'
        exact Option.some.inj hinfo' ▸ hcovers
      · rw [hone, List.mem_singleton] at hnew'
        exact hnew' ▸ WorkerInfo.covers_of_report hinfo

theorem dead_of_mem_newlyDead {r r' : WorkerRegistry} {w : Uuid} (h : w ∈ r.newlyDead r') :
    r'.Dead w := by
  obtain ⟨-, hdead⟩ := List.mem_filter.mp h
  obtain ⟨hstatus, -⟩ := of_decide_eq_true hdead
  exact Option.map_eq_some_iff.mp hstatus

theorem mem_of_mem_eraseIdx_messages {k : ℕ} {m m' : WorkerMessage} (hk : s.inFlight[k]? = some m)
    (h : m' ∈ s.inFlight.eraseIdx k ++ (s.delivered ++ [m])) : m' ∈ s.messages := by
  rw [messages, List.mem_append]
  rcases List.mem_append.mp h with hflight | hrest
  · exact Or.inl (List.mem_of_mem_eraseIdx hflight)
  · rcases List.mem_append.mp hrest with hdelivered | hm
    · exact Or.inr hdelivered
    · exact Or.inl (List.mem_singleton.mp hm ▸ List.mem_of_getElem? hk)

/-- **Messages are sent in order.** -/
theorem sent_step (hs : s.Sent) (h : s.step sha256Text l = some s') : s'.Sent := by
  cases l with
  | scheduler l =>
    obtain ⟨t, ht, rfl⟩ := Option.map_eq_some_iff.mp h
    refine hs.send _ (SchedulerState.grows_step ht) rfl rfl rfl ?_ ?_ ?_
    · intro m hm
      obtain ⟨w, -, rfl⟩ := List.mem_map.mp hm
      rfl
    · intro m hm
      obtain ⟨w, hw, rfl⟩ := List.mem_map.mp hm
      obtain ⟨info, hinfo, hdead⟩ := dead_of_mem_newlyDead hw
      exact ⟨info, hinfo, WorkerInfo.covers_of_dead rfl hdead⟩
    · intro m hm info hinfo
      obtain ⟨w, -, rfl⟩ := List.mem_map.mp hm
      cases hinfo
  | report w =>
    obtain ⟨info, hinfo, rfl⟩ := Option.map_eq_some_iff.mp h
    refine hs.send [⟨s.sent, w, some info⟩] (.refl _) rfl rfl rfl ?_ ?_ ?_
    · intro m hm
      rw [List.mem_singleton.mp hm]
    · intro m hm
      rw [List.mem_singleton.mp hm]
      exact ⟨info, hinfo, WorkerInfo.covers_of_report rfl⟩
    · intro m hm info' hinfo'
      rw [List.mem_singleton.mp hm] at hinfo' ⊢
      exact ⟨Option.some.inj hinfo' ▸ hinfo, rfl⟩
  | deliver k =>
    obtain ⟨m, hk, hdeliver⟩ := Option.bind_eq_some_iff.mp h
    obtain ⟨node, -, rfl⟩ := Option.map_eq_some_iff.mp hdeliver
    exact hs.subset rfl rfl fun m' hm' => mem_of_mem_eraseIdx_messages hk hm'
  | lose k =>
    obtain ⟨m, hk, rfl⟩ := Option.map_eq_some_iff.mp h
    refine hs.subset rfl rfl fun m' hm' => ?_
    rcases List.mem_append.mp hm' with hflight | hdelivered
    · exact List.mem_append_left _ (List.mem_of_mem_eraseIdx hflight)
    · exact List.mem_append_right _ hdelivered
  | other e =>
    rw [step] at h
    split_ifs at h
    obtain ⟨node, -, rfl⟩ := Option.map_eq_some_iff.mp h
    exact hs.subset rfl rfl fun _ hm => hm

/-! ## What is shown, and a delivery -/

/-- A field of a worker in the store of the control plane. -/
def shown (s : WorkerView) (key field : String) : Option Json := s.node.store.workerField key field

/-- As long as nothing has regressed, the store shows the most that was delivered of each
worker. -/
structure ShowsMost (s : WorkerView) : Prop where
  dead : ∀ w, s.shown (toString w) "status" = some (.str "dead") ↔
    ∃ m ∈ s.delivered, m.worker = w ∧ m.SaysDead
  upper : ∀ c ∈ jobCounters, ∀ m ∈ s.delivered, ∀ info, m.report = some info →
    ∃ q, s.shown m.key c.1 = some (.num q) ∧ (c.2 info : ℚ) ≤ q
  attained : ∀ c ∈ jobCounters, ∀ w q, s.shown (toString w) c.1 = some (.num q) →
    ∃ m ∈ s.delivered, m.worker = w ∧ ∃ info, m.report = some info ∧ q = c.2 info

/-- A worker that was shown dead still is, and no counter is lower. -/
structure NeverRegresses (s : WorkerView) (_ : WorkerViewLabel) (s' : WorkerView) : Prop where
  dead : ∀ key, s.shown key "status" = some (.str "dead") →
    s'.shown key "status" = some (.str "dead")
  counters : ∀ c ∈ jobCounters, ∀ key q, s.shown key c.1 = some (.num q) →
    ∃ q', s'.shown key c.1 = some (.num q') ∧ q ≤ q'

/-- If the step delivers a report, then after no message of the same worker that was sent later
and says more. -/
def InOrder (s : WorkerView) (l : WorkerViewLabel) (_ : WorkerView) : Prop :=
  ∀ k m info, l = .deliver k → s.inFlight[k]? = some m → m.report = some info →
    ∀ m' ∈ s.delivered, m'.worker = m.worker → m.serial < m'.serial → info.Covers m'

theorem deliver_cases {k : ℕ} (h : s.step sha256Text (.deliver k) = some s') :
    ∃ m, s.inFlight[k]? = some m ∧ s'.delivered = s.delivered ++ [m] ∧
      ((∃ info, m.report = some info ∧
          s'.node.store = s.node.store.upsertWorker m.key (info.body m.worker)) ∨
        m.report = none ∧ s'.node.store = s.node.store.markWorkerDead m.key) := by
  obtain ⟨m, hk, hdeliver⟩ := Option.bind_eq_some_iff.mp h
  obtain ⟨node, hnode, rfl⟩ := Option.map_eq_some_iff.mp hdeliver
  refine ⟨m, hk, rfl, ?_⟩
  rw [WorkerMessage.event] at hnode
  cases hreport : m.report with
  | some info =>
    rw [hreport] at hnode
    exact Or.inl ⟨info, rfl, congrArg MasterNode.store (Option.some.inj hnode).symm⟩
  | none =>
    rw [hreport] at hnode
    exact Or.inr ⟨rfl, congrArg MasterNode.store (Option.some.inj hnode).symm⟩

/-- Only a delivery changes what is shown. -/
theorem shown_of_other (h : s.step sha256Text l = some s') (hl : ∀ k, l ≠ .deliver k) :
    s'.delivered = s.delivered ∧ ∀ key field, s'.shown key field = s.shown key field := by
  cases l with
  | scheduler l =>
    obtain ⟨t, -, rfl⟩ := Option.map_eq_some_iff.mp h
    exact ⟨rfl, fun _ _ => rfl⟩
  | report w =>
    obtain ⟨info, -, rfl⟩ := Option.map_eq_some_iff.mp h
    exact ⟨rfl, fun _ _ => rfl⟩
  | deliver k => exact absurd rfl (hl k)
  | lose k =>
    obtain ⟨m, -, rfl⟩ := Option.map_eq_some_iff.mp h
    exact ⟨rfl, fun _ _ => rfl⟩
  | other e =>
    rw [step] at h
    split_ifs at h with he
    obtain ⟨node, hnode, rfl⟩ := Option.map_eq_some_iff.mp h
    have hworkers := MasterNode.workers_handlePrimary hnode (Bool.eq_false_iff.mpr he)
    refine ⟨rfl, fun key field => ?_⟩
    rw [shown, shown, StateStore.workerField, hworkers, StateStore.workerField]

/-- What was delivered of a worker, after one more message. -/
theorem mem_delivered {m m' : WorkerMessage} (hdelivered : s'.delivered = s.delivered ++ [m]) :
    m' ∈ s'.delivered ↔ m' ∈ s.delivered ∨ m' = m := by
  rw [hdelivered, List.mem_append, List.mem_singleton]

/-- A message of another worker changes nothing there. -/
theorem delivered_of_other {m : WorkerMessage} (hdelivered : s'.delivered = s.delivered ++ [m])
    {w : Uuid} (hw : w ≠ m.worker) (P : WorkerMessage → Prop) :
    (∃ m' ∈ s'.delivered, m'.worker = w ∧ P m') ↔
      ∃ m' ∈ s.delivered, m'.worker = w ∧ P m' := by
  refine exists_congr fun m' => ?_
  rw [mem_delivered hdelivered]
  constructor
  · rintro ⟨hold | rfl, hworker, hP⟩
    · exact ⟨hold, hworker, hP⟩
    · exact absurd hworker.symm hw
  · exact fun ⟨hold, hrest⟩ => ⟨Or.inl hold, hrest⟩

theorem toString_ne_key {m : WorkerMessage} {w : Uuid} (hw : w ≠ m.worker) :
    toString w ≠ m.key :=
  fun heq => hw (Nat.repr_injective heq)

section Report

variable {m : WorkerMessage} {info : WorkerInfo}

theorem shown_of_report_of_ne
    (hstore : s'.node.store = s.node.store.upsertWorker m.key (info.body m.worker)) {key : String}
    (h : key ≠ m.key) (field : String) : s'.shown key field = s.shown key field := by
  rw [shown, hstore, StateStore.workerField_upsertWorker_of_ne _ h, shown]

theorem shown_status_of_report
    (hstore : s'.node.store = s.node.store.upsertWorker m.key (info.body m.worker)) :
    s'.shown m.key "status" = some (.str info.status.text) := by
  rw [shown, hstore]
  exact StateStore.workerField_upsertWorker _ _ (by decide) (info.get?_body_status m.worker)

theorem shown_counter_of_report
    (hstore : s'.node.store = s.node.store.upsertWorker m.key (info.body m.worker))
    {c : String × (WorkerInfo → ℕ)} (hc : c ∈ jobCounters) :
    s'.shown m.key c.1 = some (.num (c.2 info)) := by
  rw [shown, hstore]
  refine StateStore.workerField_upsertWorker _ _ ?_ (info.get?_body_counter m.worker hc)
  exact fun heq => counter_notMem hc (heq ▸ List.mem_cons_self)

theorem shown_dead_of_report_iff
    (hstore : s'.node.store = s.node.store.upsertWorker m.key (info.body m.worker)) :
    s'.shown m.key "status" = some (.str "dead") ↔ info.status = .dead := by
  rw [shown_status_of_report hstore, Option.some.injEq, Json.str.injEq,
    WorkerStatus.text_eq_dead_iff]

/-- **The step.**  A report makes nothing regress exactly when it comes in order. -/
theorem report_neverRegresses_iff (hs : s.Sent) (hmost : s.ShowsMost) {k : ℕ}
    (hk : s.inFlight[k]? = some m) (hreport : m.report = some info)
    (hstore : s'.node.store = s.node.store.upsertWorker m.key (info.body m.worker)) :
    s.NeverRegresses (.deliver k) s' ↔ s.InOrder (.deliver k) s' := by
  have hmem : m ∈ s.messages := List.mem_append_left _ (List.mem_of_getElem? hk)
  constructor
  · intro hnever k' m' info' heq hk' hreport' old hold hworker _
    cases heq
    obtain rfl := Option.some.inj (hk.symm.trans hk')
    obtain rfl := Option.some.inj (hreport.symm.trans hreport')
    have hkey : old.key = m.key := congrArg toString hworker
    refine ⟨fun hdead => ?_, fun c hc info₂ hinfo₂ => ?_⟩
    · have hshown := (hmost.dead m.worker).mpr ⟨old, hold, hworker, hdead⟩
      exact (shown_dead_of_report_iff hstore).mp (hnever.dead _ hshown)
    · obtain ⟨q, hq, hle⟩ := hmost.upper c hc old hold info₂ hinfo₂
      obtain ⟨q', hq', hle'⟩ := hnever.counters c hc _ q hq
      rw [hkey, shown_counter_of_report hstore hc] at hq'
      rw [← Json.num.inj (Option.some.inj hq')] at hle'
      exact_mod_cast hle.trans hle'
  · intro horder
    -- whatever was delivered of the worker before, the report says as much
    have hcovers : ∀ old ∈ s.delivered, old.worker = m.worker → info.Covers old := by
      intro old hold hworker
      by_cases hle : old.serial ≤ m.serial
      · exact hs.ordered m hmem old (List.mem_append_right _ hold) hworker hle info hreport
      · exact horder k m info rfl hk hreport old hold hworker (not_le.mp hle)
    constructor
    · intro key hdead
      by_cases hkey : key = m.key
      · subst hkey
        obtain ⟨old, hold, hworker, hsays⟩ := (hmost.dead m.worker).mp hdead
        exact (shown_dead_of_report_iff hstore).mpr ((hcovers old hold hworker).dead hsays)
      · rw [shown_of_report_of_ne hstore hkey]
        exact hdead
    · intro c hc key q hq
      by_cases hkey : key = m.key
      · subst hkey
        obtain ⟨old, hold, hworker, info', hinfo', rfl⟩ := hmost.attained c hc m.worker q hq
        refine ⟨_, shown_counter_of_report hstore hc, ?_⟩
        exact_mod_cast (hcovers old hold hworker).counters c hc info' hinfo'
      · exact ⟨q, (shown_of_report_of_ne hstore hkey _).trans hq, le_rfl⟩

/-- A report that makes nothing regress is the most that was delivered. -/
theorem showsMost_of_report (hmost : s.ShowsMost) (hreport : m.report = some info)
    (hdelivered : s'.delivered = s.delivered ++ [m])
    (hstore : s'.node.store = s.node.store.upsertWorker m.key (info.body m.worker))
    (hnever : s.NeverRegresses l s') : s'.ShowsMost := by
  have hmem : ∀ m', m' ∈ s'.delivered ↔ m' ∈ s.delivered ∨ m' = m := fun _ =>
    mem_delivered hdelivered
  refine ⟨fun w => ?_, fun c hc m' hm' info' hinfo' => ?_, fun c hc w q hq => ?_⟩
  · by_cases hw : w = m.worker
    · subst hw
      rw [show toString m.worker = m.key from rfl, shown_dead_of_report_iff hstore]
      constructor
      · intro hdead
        refine ⟨m, (hmem m).mpr (Or.inr rfl), rfl, fun info' hinfo' => ?_⟩
        exact Option.some.inj (hreport.symm.trans hinfo') ▸ hdead
      · rintro ⟨m', hm', hworker, hsays⟩
        rcases (hmem m').mp hm' with hold | rfl
        · have hshown := (hmost.dead m.worker).mpr ⟨m', hold, hworker, hsays⟩
          exact (shown_dead_of_report_iff hstore).mp (hnever.dead _ hshown)
        · exact hsays info hreport
    · rw [shown_of_report_of_ne hstore (toString_ne_key hw), hmost.dead w,
        delivered_of_other hdelivered hw]
  · rcases (hmem m').mp hm' with hold | rfl
    · obtain ⟨q, hq, hle⟩ := hmost.upper c hc m' hold info' hinfo'
      obtain ⟨q', hq', hle'⟩ := hnever.counters c hc _ q hq
      exact ⟨q', hq', hle.trans hle'⟩
    · obtain rfl := Option.some.inj (hreport.symm.trans hinfo')
      exact ⟨_, shown_counter_of_report hstore hc, le_rfl⟩
  · by_cases hw : w = m.worker
    · subst hw
      rw [show toString m.worker = m.key from rfl, shown_counter_of_report hstore hc] at hq
      exact ⟨m, (hmem m).mpr (Or.inr rfl), rfl, info, hreport,
        (Json.num.inj (Option.some.inj hq)).symm⟩
    · rw [shown_of_report_of_ne hstore (toString_ne_key hw)] at hq
      exact (delivered_of_other hdelivered hw _).mpr (hmost.attained c hc w q hq)

end Report

section Delete

variable {m : WorkerMessage}

theorem shown_counter_of_delete (hstore : s'.node.store = s.node.store.markWorkerDead m.key)
    {c : String × (WorkerInfo → ℕ)} (hc : c ∈ jobCounters) (key : String) :
    s'.shown key c.1 = s.shown key c.1 := by
  rw [shown, shown, hstore]
  by_cases hkey : key = m.key
  · rw [hkey]
    exact StateStore.workerField_markWorkerDead_of_notMem _ _ (counter_notMem hc)
  · exact StateStore.workerField_markWorkerDead_of_ne _ hkey _

/-- A DELETE makes nothing regress. -/
theorem delete_neverRegresses (hstore : s'.node.store = s.node.store.markWorkerDead m.key) :
    s.NeverRegresses l s' := by
  refine ⟨fun key hdead => ?_, fun c hc key q hq => ?_⟩
  · by_cases hkey : key = m.key
    · rw [shown, hstore, hkey]
      exact StateStore.workerField_markWorkerDead_status _ _
    · rw [shown, hstore, StateStore.workerField_markWorkerDead_of_ne _ hkey]
      exact hdead
  · exact ⟨q, (shown_counter_of_delete hstore hc key).trans hq, le_rfl⟩

theorem showsMost_of_delete (hmost : s.ShowsMost) (hreport : m.report = none)
    (hdelivered : s'.delivered = s.delivered ++ [m])
    (hstore : s'.node.store = s.node.store.markWorkerDead m.key) : s'.ShowsMost := by
  have hmem : ∀ m', m' ∈ s'.delivered ↔ m' ∈ s.delivered ∨ m' = m := fun _ =>
    mem_delivered hdelivered
  refine ⟨fun w => ?_, fun c hc m' hm' info' hinfo' => ?_, fun c hc w q hq => ?_⟩
  · by_cases hw : w = m.worker
    · subst hw
      refine iff_of_true ?_ ⟨m, (hmem m).mpr (Or.inr rfl), rfl, fun info hinfo => ?_⟩
      · rw [shown, hstore]
        exact StateStore.workerField_markWorkerDead_status _ _
      · cases hreport.symm.trans hinfo
    · rw [shown, hstore, StateStore.workerField_markWorkerDead_of_ne _ (toString_ne_key hw),
        ← shown, hmost.dead w, delivered_of_other hdelivered hw]
  · rcases (hmem m').mp hm' with hold | rfl
    · rw [shown_counter_of_delete hstore hc]
      exact hmost.upper c hc m' hold info' hinfo'
    · cases hreport.symm.trans hinfo'
  · rw [shown_counter_of_delete hstore hc] at hq
    obtain ⟨m', hold, hrest⟩ := hmost.attained c hc w q hq
    exact ⟨m', (hmem m').mpr (Or.inl hold), hrest⟩

end Delete

/-! ## Runs -/

/-- What every state has as long as nothing has regressed. -/
def Inv (s : WorkerView) : Prop := s.Sent ∧ s.ShowsMost

theorem showsMost_of_same (hmost : s.ShowsMost) (hdelivered : s'.delivered = s.delivered)
    (hshown : ∀ key field, s'.shown key field = s.shown key field) : s'.ShowsMost := by
  refine ⟨fun w => ?_, fun c hc => ?_, fun c hc w => ?_⟩
  · rw [hshown, hdelivered]
    exact hmost.dead w
  · simp only [hshown, hdelivered]
    exact hmost.upper c hc
  · rw [hshown, hdelivered]
    exact hmost.attained c hc w

theorem neverRegresses_iff_inOrder (hs : s.Inv) (h : s.step sha256Text l = some s') :
    s.NeverRegresses l s' ↔ s.InOrder l s' := by
  obtain ⟨hsent, hmost⟩ := hs
  by_cases hl : ∃ k, l = .deliver k
  · obtain ⟨k, rfl⟩ := hl
    obtain ⟨m, hk, -, ⟨info, hreport, hstore⟩ | ⟨hreport, hstore⟩⟩ := deliver_cases h
    · exact report_neverRegresses_iff hsent hmost hk hreport hstore
    · refine iff_of_true (delete_neverRegresses hstore) fun k' m' info heq hk' hreport' => ?_
      cases heq
      obtain rfl := Option.some.inj (hk.symm.trans hk')
      cases hreport.symm.trans hreport'
  · obtain ⟨-, hshown⟩ := shown_of_other h fun k heq => hl ⟨k, heq⟩
    refine iff_of_true ⟨fun key hdead => ?_, fun c _ key q hq => ?_⟩ fun k _ _ heq =>
      absurd ⟨k, heq⟩ hl
    · rw [hshown, hdead]
    · exact ⟨q, (hshown key c.1).trans hq, le_rfl⟩

theorem inv_step (hs : s.Inv) (hC : s.InOrder l s') (h : s.step sha256Text l = some s') :
    s'.Inv := by
  refine ⟨sent_step hs.1 h, ?_⟩
  have hnever := (neverRegresses_iff_inOrder hs h).mpr hC
  by_cases hl : ∃ k, l = .deliver k
  · obtain ⟨k, rfl⟩ := hl
    obtain ⟨m, -, hdelivered, ⟨info, hreport, hstore⟩ | ⟨hreport, hstore⟩⟩ := deliver_cases h
    · exact showsMost_of_report hs.2 hreport hdelivered hstore hnever
    · exact showsMost_of_delete hs.2 hreport hdelivered hstore
  · obtain ⟨hdelivered, hshown⟩ := shown_of_other h fun k heq => hl ⟨k, heq⟩
    exact showsMost_of_same hs.2 hdelivered hshown

theorem inv_start (n : ℕ) (q : StartQueue) (now : Time) (store : StateStore)
    (listenerClient engineClient : Bool) :
    (start n q now store listenerClient engineClient).Inv := by
  have hempty : ∀ key field, (start n q now store listenerClient engineClient).shown key field =
      none := fun _ _ => rfl
  constructor
  · exact ⟨fun _ h => absurd h List.not_mem_nil, fun _ h => absurd h List.not_mem_nil,
      fun _ h => absurd h List.not_mem_nil⟩
  · refine ⟨fun w => ?_, fun _ _ _ h => absurd h List.not_mem_nil, fun c _ w q' hq => ?_⟩
    · rw [hempty]
      exact iff_of_false nofun fun ⟨_, h, _⟩ => absurd h List.not_mem_nil
    · rw [hempty] at hq
      cases hq

/-- **When the view of a worker never regresses.**  In a run of the scheduler and the control
plane, whatever is lost or delivered in whatever order, no step makes a worker that was shown
dead be shown otherwise or lowers a counter, if and only if no heartbeat is delivered after a
message of the same worker that was sent later and says more. -/
theorem never_regresses_iff (sha256Text : String → String) (n : ℕ) (q : StartQueue) (now : Time)
    (store : StateStore) (listenerClient engineClient : Bool) (ls : List WorkerViewLabel) :
    Machine.Meets (step sha256Text) NeverRegresses
        (start n q now store listenerClient engineClient) ls ↔
      Machine.Meets (step sha256Text) InOrder
        (start n q now store listenerClient engineClient) ls :=
  Machine.meets_iff_meets (I := Inv) (C := InOrder) (D := NeverRegresses)
    (fun _ _ _ hs hC h => inv_step hs hC h) (fun _ _ _ hs h => neverRegresses_iff_inOrder hs h)
    (inv_start n q now store listenerClient engineClient) ls

/-- The worker sends its heartbeat, and is then killed through the API; the DELETE is
delivered first. -/
def deleteOvertakes : List WorkerViewLabel := [.report 0, .scheduler (.delete 0), .deliver 1]

/-- The dead worker is shown alive again. -/
theorem heartbeat_after_delete :
    ∃ s s', Machine.exec (step id) (start 1 .inMemory 0 .empty true true) deleteOvertakes =
        some s ∧
      s.step id (.deliver 0) = some s' ∧ s.shown "0" "status" = some (.str "dead") ∧
      s'.shown "0" "status" = some (.str "alive") ∧ ¬ s.NeverRegresses (.deliver 0) s' := by
  obtain ⟨s, s', hs, hs', hdead, halive⟩ :
      ∃ s s', Machine.exec (step id) (start 1 .inMemory 0 .empty true true) deleteOvertakes =
          some s ∧
        s.step id (.deliver 0) = some s' ∧ s.shown "0" "status" = some (.str "dead") ∧
        s'.shown "0" "status" = some (.str "alive") :=
    ⟨_, _, rfl, rfl, rfl, rfl⟩
  refine ⟨s, s', hs, hs', hdead, halive, fun hnever => ?_⟩
  have hstill := hnever.dead "0" hdead
  rw [halive] at hstill
  exact absurd (Json.str.inj (Option.some.inj hstill)) (by decide)

end WorkerView
end Rcsce
