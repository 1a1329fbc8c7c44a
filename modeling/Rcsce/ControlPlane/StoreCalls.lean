import Rcsce.Lib.Origin
import Rcsce.ControlPlane.AuditMirror
import Rcsce.ControlPlane.MirrorConvergence
import Rcsce.ControlPlane.StartBranch
import Rcsce.ControlPlane.WorkerView

/-!
# The calls that the control plane makes on its store

Whatever happens in a control-plane process, it reaches the store as a list of calls of its
methods, one after the other.  `MasterNode.calls` lists them for every event, `StatusAnswer.calls`
for a pass of the mirror over the answer of `/status`, and `perform` runs them.  What holds for
every call holds for every handler then.

A store holds facts: a field of a container or of a worker, that a container is critical, an
entry of the audit log, the queue depth.  A call brings no fact but those that it says
(`holds_call`).
-/

namespace Rcsce

/-- A call of a method of the store. -/
inductive StoreCall where
  | upsertContainer (containerId : String) (data : Record)
  | markCritical (containerId : String)
  | upsertWorker (workerId : String) (data : Record)
  | markWorkerDead (workerId : String)
  | setQueueDepth (depth : Json)
  | recordCacheEvent (hit : Bool)
  | appendAudit (event : Record)

/-- A fact that a store can hold. -/
inductive StoreFact where
  | container (containerId key : String) (v : Json)
  | worker (workerId key : String) (v : Json)
  | critical (containerId : String)
  | logged (entry : Record)
  | queueDepth (depth : Json)

namespace StateStore

/-- The call runs. -/
def call (s : StateStore) : StoreCall → StateStore
  | .upsertContainer containerId data => s.upsertContainer containerId data
  | .markCritical containerId => s.markCritical containerId
  | .upsertWorker workerId data => s.upsertWorker workerId data
  | .markWorkerDead workerId => s.markWorkerDead workerId
  | .setQueueDepth depth => s.setQueueDepth depth
  | .recordCacheEvent hit => s.recordCacheEvent hit
  | .appendAudit event => s.appendAudit event

/-- The calls run one after the other. -/
def perform (s : StateStore) (calls : List StoreCall) : StateStore := calls.foldl call s

/-- The store holds the fact. -/
def Holds (s : StateStore) : StoreFact → Prop
  | .container containerId key v => s.containerField containerId key = some v
  | .worker workerId key v => s.workerField workerId key = some v
  | .critical containerId => containerId ∈ s.critical
  | .logged entry => entry ∈ s.auditLog
  | .queueDepth depth => s.queueDepth = depth

end StateStore

/-- What a call says. -/
def StoreCall.Says : StoreCall → StoreFact → Prop
  | .upsertContainer containerId data, .container c key v =>
      c = containerId ∧ data.get? key = some v
  | .markCritical containerId, .container c key v =>
      c = containerId ∧ key = "is_critical" ∧ v = .bool true
  | .markCritical containerId, .critical c => c = containerId
  | .upsertWorker workerId data, .worker w key v =>
      w = workerId ∧ (data.set "worker_id" (.str workerId)).get? key = some v
  | .markWorkerDead workerId, .worker w key v =>
      w = workerId ∧ (Record.ofFields [("worker_id", .str workerId), ("status", .str "dead"),
        ("load", .num 0)]).get? key = some v
  | .setQueueDepth depth, .queueDepth d => d = depth
  | .appendAudit event, .logged entry => entry = event
  | _, _ => False

/-! ## A call brings what it says -/

namespace StateStore

variable {s : StateStore} {f : StoreFact}

theorem containerField_markCritical_cases {c d key : String} {v : Json}
    (h : (s.markCritical c).containerField d key = some v) :
    s.containerField d key = some v ∨ d = c ∧ key = "is_critical" ∧ v = .bool true := by
  by_cases hkey : key = "is_critical"
  · rw [containerField, markCritical, OrderedDict.get?_modify] at h
    split_ifs at h with hd
    · obtain ⟨record, hrecord, hv⟩ := Option.bind_eq_some_iff.mp h
      obtain ⟨old, -, rfl⟩ := Option.map_eq_some_iff.mp hrecord
      rw [hkey, OrderedDict.get?_set_self] at hv
      exact Or.inr ⟨hd, hkey, (Option.some.inj hv).symm⟩
    · exact Or.inl h
  · rw [containerField_markCritical _ _ _ _ hkey] at h
    exact Or.inl h

/-- A worker whose record is written with these fields over the old ones. -/
theorem workerField_set_cases {w v key : String} {record data : Record} {x : Json}
    (hrecord : ∀ key, record.get? key = (data.get? key).or (s.workerField w key))
    (h : StateStore.workerField { s with workers := s.workers.set w record } v key = some x) :
    s.workerField v key = some x ∨ v = w ∧ data.get? key = some x := by
  rw [workerField, OrderedDict.get?_set] at h
  split_ifs at h with hv
  · rw [Option.bind_some, hrecord] at h
    rcases Option.or_eq_some_iff.mp h with hnew | ⟨-, hold⟩
    · exact Or.inr ⟨hv, hnew⟩
    · exact Or.inl (hv ▸ hold)
  · exact Or.inl h

/-- **A call brings no fact but those that it says.** -/
theorem holds_call (s : StateStore) (c : StoreCall) (f : StoreFact) (hf : (s.call c).Holds f) :
    s.Holds f ∨ c.Says f := by
  cases c with
  | upsertContainer containerId data =>
    cases f with
    | container d key v =>
      have h : (s.upsertContainer containerId data).containerField d key = some v := hf
      rw [containerField_upsertContainer] at h
      split_ifs at h with hd
      · rcases Option.or_eq_some_iff.mp h with hnew | ⟨-, hold⟩
        · exact Or.inr ⟨hd, hnew⟩
        · exact Or.inl (show s.containerField d key = some v from hd ▸ hold)
      · exact Or.inl h
    | _ => exact Or.inl hf
  | markCritical containerId =>
    cases f with
    | container d key v => exact containerField_markCritical_cases hf
    | critical d => exact (Finset.mem_insert.mp hf).symm
    | _ => exact Or.inl hf
  | upsertWorker workerId data =>
    cases f with
    | worker w key v =>
      refine workerField_set_cases (fun key => ?_) hf
      rw [OrderedDict.get?_set, OrderedDict.get?_set]
      split_ifs
      · rw [Option.some_or]
      · rw [Record.get?_update, get?_getD_empty]
    | _ => exact Or.inl hf
  | markWorkerDead workerId =>
    cases f with
    | worker w key v =>
      refine workerField_set_cases (fun key => ?_) hf
      rw [Record.get?_update, get?_getD_empty]
    | _ => exact Or.inl hf
  | setQueueDepth depth =>
    cases f with
    | queueDepth d => exact Or.inr (show d = depth from Eq.symm hf)
    | _ => exact Or.inl hf
  | recordCacheEvent hit =>
    refine Or.inl ?_
    cases hit <;> cases f <;> exact hf
  | appendAudit event =>
    cases f with
    | logged entry =>
      have h : entry ∈ (s.appendAudit event).auditLog := hf
      rw [auditLog_appendAudit] at h
      rcases List.mem_append.mp ((Window.rtake_suffix 200 _).subset h) with hold | hnew
      · exact Or.inl hold
      · exact Or.inr (List.mem_singleton.mp hnew)
    | _ =>
      refine Or.inl ?_
      simpa only [call, Holds, containerField, workerField, appendAudit] using hf

/-- Calls bring no fact but those that one of them says. -/
theorem holds_perform (s : StateStore) (calls : List StoreCall) (f : StoreFact)
    (hf : (s.perform calls).Holds f) : s.Holds f ∨ ∃ c ∈ calls, c.Says f :=
  Machine.held_or_said_foldl holds_call calls s hf

theorem holds_clearAllWorkers (hf : s.clearAllWorkers.Holds f) : s.Holds f := by
  cases f with
  | worker w key v => cases hf
  | _ => exact hf

end StateStore

/-! ## The calls of the handlers -/

namespace DockerEvent

/-- The start branch, up to the lookup. -/
def startCalls (e : DockerEvent) : List StoreCall :=
  [.upsertContainer e.containerId (.ofFields [("container_id", .str e.containerId),
    ("name", .str e.containerName), ("image", .str e.imageName), ("status", .str "running")])]

/-- The die, stop and kill branch. -/
def stoppedCalls (e : DockerEvent) : List StoreCall :=
  [.upsertContainer e.containerId
      (.ofFields [("status", .str (StateStore.stoppedStatus e.action))]),
    .appendAudit (e.payload.update (.ofFields [("action", .str "container_stopped")]))]

/-- The start branch after a hit. -/
def hitCalls (e : DockerEvent) (layerHash : String) (scanResult : List (String × Json)) :
    List StoreCall :=
  [.recordCacheEvent true,
    .upsertContainer e.containerId (.ofFields
      [("vulnerabilities", StateStore.cachedVulns scanResult), ("scan_status", .str "cache_hit")]),
    .appendAudit (e.hitEntry layerHash scanResult)]

end DockerEvent

/-- `_failover` after the health check. -/
def Failover.calls (f : Failover) (replica : String) (recovered : Bool) : List StoreCall :=
  [.appendAudit (.ofFields [("event_type", .str "auto_failover"),
      ("original_container", .str f.originalId), ("replica_name", .str f.replicaName),
      ("image", .str f.image),
      ("status", .str (if recovered then "recovered" else "recovery_timeout"))]),
    .upsertContainer (leading 12 replica) (.ofFields
      [("container_id", .str (leading 12 replica)), ("name", .str f.replicaName),
        ("image", .str f.image), ("status", .str (if recovered then "running" else "unknown")),
        ("is_replica", .bool true), ("original_id", .str f.originalId)]),
    .markCritical (leading 12 replica)]

/-- `_failover` when Docker raises. -/
def Failover.errorCalls (f : Failover) (error : String) : List StoreCall :=
  [.appendAudit (.ofFields [("event_type", .str "auto_failover_error"),
    ("original_container", .str f.originalId), ("error", .str error)])]

/-- The calls that an event makes a process do. -/
def MasterNode.calls (sha256Text : String → String) (m : MasterNode) :
    PrimaryEvent → List StoreCall
  | .own (.docker e) =>
      match e.action with
      | .start => e.startCalls
      | _ => e.stoppedCalls
  | .own (.cacheAnswered k hit) => (m.lookups[k]?.map fun e =>
      match hit with
      | some scanResult => e.hitCalls (e.layerHash sha256Text) scanResult
      | none => [.recordCacheEvent false]).getD []
  | .own (.pushed k jobId) => (m.pushes[k]?.map fun e =>
      [.appendAudit (e.enqueuedEntry (e.layerHash sha256Text) (.str jobId))]).getD []
  | .own (.failedOver k replica recovered) =>
      (m.failovers[k]?.map fun f => f.calls replica recovered).getD []
  | .own (.failoverRaised k error) => (m.failovers[k]?.map fun f => f.errorCalls error).getD []
  | .own (.markCritical containerId) => [.markCritical containerId]
  | .own (.anomaly entry) => [.appendAudit entry]
  | .workerHeartbeat workerId data => [.upsertWorker workerId data]
  | .workerDead workerId => [.markWorkerDead workerId]
  | .scanComplete containerId vulns status =>
      if containerId = "" then []
      else [.upsertContainer containerId
        (.ofFields [("vulnerabilities", vulns), ("scan_status", status)])]
  | .queueDepth depth => [.setQueueDepth depth]

/-- **An event reaches the store as its calls.** -/
theorem MasterNode.store_handlePrimary {sha256Text : String → String} {m m' : MasterNode}
    {e : PrimaryEvent} (h : m.handlePrimary sha256Text e = some m') :
    m'.store = m.store.perform (m.calls sha256Text e) := by
  cases e with
  | own e =>
    cases e with
    | docker e =>
      rw [handlePrimary, handle] at h
      split_ifs at h
      rw [← Option.some.inj h, handleEvent, calls]
      cases e.action <;> rfl
    | cacheAnswered k hit =>
      obtain ⟨e, he, rfl⟩ := Option.map_eq_some_iff.mp h
      rw [calls, he]
      cases hit <;> rfl
    | pushed k jobId =>
      obtain ⟨e, he, rfl⟩ := Option.map_eq_some_iff.mp h
      rw [calls, he]
      exact StateStore.onEnqueued_eq _ _ _ _
    | failedOver k replica recovered =>
      obtain ⟨f, hf, rfl⟩ := Option.map_eq_some_iff.mp h
      rw [calls, hf]
      rfl
    | failoverRaised k error =>
      obtain ⟨f, hf, rfl⟩ := Option.map_eq_some_iff.mp h
      rw [calls, hf]
      rfl
    | markCritical containerId | anomaly entry =>
      rw [← Option.some.inj h]
      rfl
  | workerHeartbeat workerId data | workerDead workerId | queueDepth depth =>
    rw [← Option.some.inj h]
    rfl
  | scanComplete containerId vulns status =>
    rw [← Option.some.inj h, calls]
    dsimp only
    split_ifs <;> rfl

/-! ## The calls of a pass of the mirror -/

namespace StateStore

/-- The call of one round of the loop over the containers. -/
def containerCall? (container : Record) : Option StoreCall :=
  match (container.get? "container_id").bind Json.str? with
  | some cid => if cid = "" then none else some (.upsertContainer cid container)
  | none => none

theorem mirrorContainer_eq_perform (s : StateStore) (container : Record) :
    s.mirrorContainer container = s.perform (containerCall? container).toList := by
  rw [mirrorContainer, containerCall?]
  cases (container.get? "container_id").bind Json.str? with
  | none => rfl
  | some cid =>
    dsimp only
    split_ifs <;> rfl

end StateStore

/-- The calls of a pass over the answer of `/status`. -/
def StatusAnswer.calls (answer : StatusAnswer) : List StoreCall :=
  answer.containers.filterMap StateStore.containerCall? ++
    (answer.workers.map fun worker => .upsertWorker (StateStore.workerKey worker) worker) ++
    [.setQueueDepth answer.queueDepth]

namespace StateStore

theorem perform_append (s : StateStore) (calls calls' : List StoreCall) :
    s.perform (calls ++ calls') = (s.perform calls).perform calls' := List.foldl_append

theorem foldl_mirrorContainer_eq_perform (s : StateStore) (containers : List Record) :
    containers.foldl mirrorContainer s = s.perform (containers.filterMap containerCall?) := by
  induction containers generalizing s with
  | nil => rfl
  | cons container containers ih =>
    rw [List.foldl_cons, ih, mirrorContainer_eq_perform, ← perform_append]
    cases h : containerCall? container with
    | none => rw [List.filterMap_cons_none h, Option.toList_none, List.nil_append]
    | some c => rw [List.filterMap_cons_some h, Option.toList_some, List.singleton_append]

theorem mirrorStatus_eq_perform (s : StateStore) (answer : StatusAnswer) :
    s.mirrorStatus answer = s.perform answer.calls := by
  rw [StatusAnswer.calls, perform_append, perform_append, ← foldl_mirrorContainer_eq_perform,
    perform, perform, List.foldl_map]
  rfl

/-- The calls of a pass over the answer of `/audit-log`. -/
theorem mirrorAudit_eq_perform (s : StateStore) (entries : List Record) :
    s.mirrorAudit entries = s.perform ((s.newEntries entries).map .appendAudit) := by
  have hloop : ∀ t : StateStore, entries.foldl (mirrorEntry s.existingIds) t =
      t.perform ((entries.filter (unknownTo s.existingIds)).map .appendAudit) := by
    induction entries with
    | nil => exact fun _ => rfl
    | cons entry entries ih =>
      intro t
      rw [List.foldl_cons, ih, mirrorEntry_eq]
      cases h : unknownTo s.existingIds entry with
      | false => rw [if_neg Bool.false_ne_true, List.filter_cons_of_neg (by simp [h])]
      | true =>
        rw [if_pos rfl, List.filter_cons_of_pos h, List.map_cons, perform, perform,
          List.foldl_cons, call]
  exact hloop s

end StateStore
end Rcsce
