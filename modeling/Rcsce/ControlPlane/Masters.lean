import Rcsce.Lib.Machine
import Rcsce.ControlPlane.DockerListener

/-!
# The primary and the standby

`control_plane/api/main.py` and `control_plane/api/standby.py`: two control-plane
processes that see the same Docker and, started from one directory, save to the same
file.

## The dictionary

* `MasterNode` is what both processes have: the store, the listener and the tasks it has
  started.  `MasterEvent` is what can happen in it, and `handle` what it does to it.
* `Primary` is down, up or hung.  Only a process that is up acts, serves `/health` and
  answers `/status`.
* `Standby` adds `health_check_loop` and `state_mirror_loop`, each of them at one of its
  awaits.  A request can be lost, and so can its answer, or the answer can come after the
  primary has gone.

Every method of the store saves it, so after each step that calls one the file holds that
store, and a primary that starts reads it from there.  A step that calls none leaves the
file alone, also when the other process has written it since.

A step is what a process does between two of its awaits: a handler, or a pass over an answer,
makes all its calls in one, and a start of the primary is the load of the file together with
the `clear_all_workers` of `lifespan`.  `/status` is answered with the queue depth that the store
has then, where the code returns the one that it has read before it asks the scheduler.
`MasterStores` has the single calls, each with its save and its stamps, the two steps of a
start, and that await.

`Move` lists what a step can do, and `step_cases` says that it does nothing else.
-/

namespace Rcsce

/-- A control-plane process. -/
structure MasterNode where
  store : StateStore
  /-- The listener has a Docker client. -/
  listenerClient : Bool
  /-- The resilience engine has a Docker client. -/
  engineClient : Bool
  /-- The task of `listen` is running. -/
  listening : Bool
  /-- The start branches that wait for the cache node. -/
  lookups : List DockerEvent
  /-- The start branches that wait for the scheduler. -/
  pushes : List DockerEvent
  /-- The failovers that Docker works on. -/
  failovers : List Failover

/-- What can happen in a control-plane process. -/
inductive MasterEvent where
  /-- The listener gets an event. -/
  | docker (e : DockerEvent)
  /-- A start branch gets the answer of the cache node. -/
  | cacheAnswered (k : ℕ) (hit : Option (List (String × Json)))
  | pushed (k : ℕ) (jobId : String)
  | failedOver (k : ℕ) (replica : String) (recovered : Bool)
  | failoverRaised (k : ℕ) (error : String)
  /-- POST `/containers/{id}/critical`. -/
  | markCritical (containerId : String)
  /-- The log monitor reports an anomaly. -/
  | anomaly (entry : Record)

/-- What can happen in the primary: it has endpoints of its own. -/
inductive PrimaryEvent where
  | own (e : MasterEvent)
  | workerHeartbeat (workerId : String) (data : Record)
  | workerDead (workerId : String)
  | scanComplete (containerId : String) (vulns status : Json)
  | queueDepth (depth : Json)

/-- The event makes the primary save its store. -/
def PrimaryEvent.saves : PrimaryEvent → Bool
  | .scanComplete containerId _ _ => containerId ≠ ""
  | _ => true

namespace MasterNode

/-- A process whose store is loaded. -/
def new (store : StateStore) (listenerClient engineClient : Bool) : MasterNode :=
  ⟨store, listenerClient, engineClient, false, [], [], []⟩

/-- The task of `listen` is created; it ends at once without a client. -/
def listen (m : MasterNode) : MasterNode := { m with listening := m.listenerClient }

/-- `_handle_event`, up to its first await. -/
def handleEvent (m : MasterNode) (e : DockerEvent) : MasterNode :=
  match e.action with
  | .start => { m with store := m.store.onStart e, lookups := m.lookups ++ [e] }
  | _ => { m with
      store := m.store.onStopped e
      failovers :=
        if (m.store.onStopped e).failsOver e && m.engineClient then m.failovers ++ [e.failover]
        else m.failovers }

/-- One thing that happens in a process. -/
def handle (sha256Text : String → String) (m : MasterNode) : MasterEvent → Option MasterNode
  | .docker e => if m.listening then some (m.handleEvent e) else none
  | .cacheAnswered k hit => m.lookups[k]?.map fun e =>
      match hit with
      | some scanResult => { m with
          store := m.store.onCacheHit e (e.layerHash sha256Text) scanResult
          lookups := m.lookups.eraseIdx k }
      | none => { m with
          store := m.store.onCacheMiss
          lookups := m.lookups.eraseIdx k
          pushes := m.pushes ++ [e] }
  | .pushed k jobId => m.pushes[k]?.map fun e => { m with
      store := m.store.onEnqueued e (e.layerHash sha256Text) jobId
      pushes := m.pushes.eraseIdx k }
  | .failedOver k replica recovered => m.failovers[k]?.map fun f => { m with
      store := m.store.onFailover f replica recovered
      failovers := m.failovers.eraseIdx k }
  | .failoverRaised k error => m.failovers[k]?.map fun f => { m with
      store := m.store.onFailoverError f error
      failovers := m.failovers.eraseIdx k }
  | .markCritical containerId => some { m with store := m.store.markCritical containerId }
  | .anomaly entry => some { m with store := m.store.appendAudit entry }

/-- One thing that happens in the primary. -/
def handlePrimary (sha256Text : String → String) (m : MasterNode) :
    PrimaryEvent → Option MasterNode
  | .own e => m.handle sha256Text e
  | .workerHeartbeat workerId data => some { m with store := m.store.upsertWorker workerId data }
  | .workerDead workerId => some { m with store := m.store.markWorkerDead workerId }
  | .scanComplete containerId vulns status => some { m with
      store := if containerId = "" then m.store else m.store.upsertContainer containerId
        (.ofFields [("vulnerabilities", vulns), ("scan_status", status)]) }
  | .queueDepth depth => some { m with store := m.store.setQueueDepth depth }

end MasterNode

/-! ## Mirroring -/

/-- The answer of GET `/status`. -/
structure StatusAnswer where
  containers : List Record
  workers : List Record
  queueDepth : Json

namespace StateStore

/-- `get_all_containers`, `get_all_workers` and `queue_depth`. -/
def status (s : StateStore) : StatusAnswer :=
  ⟨s.containers.values, s.workers.values, s.queueDepth⟩

/-- One round of the loop over the containers. -/
def mirrorContainer (s : StateStore) (container : Record) : StateStore :=
  match (container.get? "container_id").bind Json.str? with
  | some cid => if cid = "" then s else s.upsertContainer cid container
  | none => s

/-- `worker.get("worker_id", "unknown")`. -/
def workerKey (worker : Record) : String :=
  ((worker.get? "worker_id").bind Json.str?).getD "unknown"

/-- One round of the loop over the workers. -/
def mirrorWorker (s : StateStore) (worker : Record) : StateStore :=
  s.upsertWorker (workerKey worker) worker

/-- A pass of `state_mirror_loop`, from the answer of `/status` to the next request. -/
def mirrorStatus (s : StateStore) (answer : StatusAnswer) : StateStore :=
  (answer.workers.foldl mirrorWorker (answer.containers.foldl mirrorContainer s)).setQueueDepth
    answer.queueDepth

/-- `entry.get("event_id")`. -/
def eventId? (entry : Record) : Option String := (entry.get? "event_id").bind Json.str?

/-- `existing_ids`. -/
def existingIds (s : StateStore) : List String :=
  (s.auditLog.filterMap eventId?).filter fun i => i ≠ ""

/-- The entries of the primary that the pass appends. -/
def newEntries (s : StateStore) (entries : List Record) : List Record :=
  entries.filter fun entry =>
    match eventId? entry with
    | some i => i ∉ s.existingIds
    | none => true

/-- One round of the loop over the audit log. -/
def mirrorEntry (existing : List String) (s : StateStore) (entry : Record) : StateStore :=
  match eventId? entry with
  | some i => if i ∈ existing then s else s.appendAudit entry
  | none => s.appendAudit entry

/-- The rest of the pass; `existing_ids` are those of the log before it. -/
def mirrorAudit (s : StateStore) (entries : List Record) : StateStore :=
  entries.foldl (mirrorEntry s.existingIds) s

/-- The containers that the store holds and considers critical. -/
def criticalHeld (s : StateStore) : List String := s.containers.keys.filter s.isCritical

end StateStore

/-! ## The two processes -/

/-- The primary. -/
inductive Primary where
  | down
  | up (node : MasterNode)
  | hung (node : MasterNode)

/-- The store of a primary that is not down. -/
def Primary.store? : Primary → Option StateStore
  | .down => none
  | .up node => some node.store
  | .hung node => some node.store

/-- The primary acts on container events. -/
def Primary.acting : Primary → Bool
  | .up node => node.listening
  | _ => false

/-- Where `health_check_loop` is. -/
inductive PingStage where
  | sleeping
  /-- In the GET to `/health`. -/
  | sent
  /-- The primary has answered. -/
  | answered

/-- Where `state_mirror_loop` is. -/
inductive MirrorStage where
  | sleeping
  /-- In the GET to `/status`. -/
  | statusSent
  /-- The primary has answered, with these critical containers. -/
  | statusAnswered (answer : StatusAnswer) (critical : List String)
  /-- In the GET to `/audit-log`. -/
  | auditSent
  /-- The primary has answered. -/
  | auditAnswered (entries : List Record)

/-- The standby. -/
structure Standby where
  node : MasterNode
  isPrimary : Bool
  failureCount : ℕ
  ping : PingStage
  mirror : MirrorStage

/-- `FAILURE_THRESHOLD`. -/
def failureThreshold : ℕ := 3

namespace Standby

/-- The standby acts on container events. -/
def acting (s : Standby) : Bool := s.isPrimary && s.node.listening

/-- `promote_to_primary`. -/
def promote (s : Standby) : Standby :=
  if s.isPrimary then s else { s with isPrimary := true, node := s.node.listen }

/-- The `except` branch of `health_check_loop`. -/
def pingFails (s : Standby) : Standby :=
  let s' := { s with failureCount := s.failureCount + 1, ping := .sleeping }
  if failureThreshold ≤ s'.failureCount then s'.promote else s'

end Standby

/-- Both processes and the file. -/
structure MastersState where
  primary : Primary
  standby : Standby
  /-- What `rcsce_state.json` holds. -/
  disk : StateStore
  /-- The containers that the primary held as critical at a pass that the standby read. -/
  mirrored : List String

/-- What can happen next. -/
inductive MastersLabel where
  | primary (e : PrimaryEvent)
  | primaryStarts (listenerClient engineClient : Bool)
  /-- A crash or a shutdown. -/
  | primaryStops
  | primaryHangs
  | primaryResumes
  | standby (e : MasterEvent)
  /-- The health check sends a ping. -/
  | ping
  /-- The primary serves it. -/
  | health
  /-- The standby gets the answer. -/
  | pingAnswered
  /-- The standby gets an exception or another status. -/
  | pingFails
  /-- The mirror loop asks for `/status`. -/
  | mirror
  /-- The primary serves it, with the queue depth if the scheduler answers. -/
  | status (depth : Option Json)
  | statusAnswered
  /-- The primary serves `/audit-log`. -/
  | auditLog
  | auditAnswered
  /-- The pass ends with an exception. -/
  | mirrorFails

/-- A step in which only the loops of the standby go on. -/
def MastersLabel.isWait : MastersLabel → Bool
  | .ping | .health | .pingAnswered | .mirror | .auditLog | .mirrorFails => true
  | _ => false

namespace MastersState

/-- The primary goes on as `node`, and may save its store. -/
def primaryUp (s : MastersState) (node : MasterNode) (saves : Bool) : MastersState :=
  { s with primary := .up node, disk := if saves then node.store else s.disk }

/-- The standby after it has changed its store. -/
def standbyNode (s : MastersState) (node : MasterNode) : MastersState :=
  { s with standby := { s.standby with node }, disk := node.store }

/-- The mirror loop of the standby goes on with this store, and may save it. -/
def mirrorStep (s : MastersState) (store : StateStore) (mirror : MirrorStage) (saves : Bool) :
    MastersState :=
  { s with
    standby := { s.standby with node := { s.standby.node with store }, mirror }
    disk := if saves then store else s.disk }

/-- One step. -/
def step (sha256Text : String → String) (s : MastersState) : MastersLabel → Option MastersState
  | .primary e =>
      match s.primary with
      | .up node => (node.handlePrimary sha256Text e).map (s.primaryUp · e.saves)
      | _ => none
  | .primaryStarts listenerClient engineClient =>
      match s.primary with
      | .down =>
          let node := MasterNode.new s.disk.clearAllWorkers listenerClient engineClient
          some (s.primaryUp node.listen true)
      | _ => none
  | .primaryStops => some { s with primary := .down }
  | .primaryHangs =>
      match s.primary with
      | .up node => some { s with primary := .hung node }
      | _ => none
  | .primaryResumes =>
      match s.primary with
      | .hung node => some { s with primary := .up node }
      | _ => none
  | .standby e => (s.standby.node.handle sha256Text e).map s.standbyNode
  | .ping =>
      match s.standby.ping with
      | .sleeping =>
          if s.standby.isPrimary then some s
          else some { s with standby := { s.standby with ping := .sent } }
      | _ => none
  | .health =>
      match s.primary, s.standby.ping with
      | .up _, .sent => some { s with standby := { s.standby with ping := .answered } }
      | _, _ => none
  | .pingAnswered =>
      match s.standby.ping with
      | .answered =>
          some { s with standby := { s.standby with failureCount := 0, ping := .sleeping } }
      | _ => none
  | .pingFails =>
      match s.standby.ping with
      | .sleeping => none
      | _ => some { s with standby := s.standby.pingFails }
  | .mirror =>
      match s.standby.mirror with
      | .sleeping =>
          if s.standby.isPrimary then some s
          else some { s with standby := { s.standby with mirror := .statusSent } }
      | _ => none
  | .status depth =>
      match s.primary, s.standby.mirror with
      | .up node, .statusSent =>
          let store := match depth with
            | some d => node.store.setQueueDepth d
            | none => node.store
          some { s.primaryUp { node with store } depth.isSome with
            standby := { s.standby with
              mirror := .statusAnswered store.status store.criticalHeld } }
      | _, _ => none
  | .statusAnswered =>
      match s.standby.mirror with
      | .statusAnswered answer critical =>
          some { s.mirrorStep (s.standby.node.store.mirrorStatus answer) .auditSent true with
            mirrored := s.mirrored ++ critical }
      | _ => none
  | .auditLog =>
      match s.primary, s.standby.mirror with
      | .up node, .auditSent =>
          some { s with
            standby := { s.standby with mirror := .auditAnswered node.store.auditLog } }
      | _, _ => none
  | .auditAnswered =>
      match s.standby.mirror with
      | .auditAnswered entries =>
          some (s.mirrorStep (s.standby.node.store.mirrorAudit entries) .sleeping
            !(s.standby.node.store.newEntries entries).isEmpty)
      | _ => none
  | .mirrorFails =>
      match s.standby.mirror with
      | .sleeping => none
      | _ => some { s with standby := { s.standby with mirror := .sleeping } }

/-- The standby has just started, beside any primary; it has loaded the file. -/
def start (primary : Primary) (disk : StateStore) (listenerClient engineClient : Bool) :
    MastersState where
  primary := primary
  standby := ⟨.new disk listenerClient engineClient, false, 0, .sleeping, .sleeping⟩
  disk := disk
  mirrored := []

/-! ## What a step does -/

/-- The moves of the two processes. -/
inductive Move (sha256Text : String → String) (s : MastersState) :
    MastersLabel → MastersState → Prop
  | primary (e : PrimaryEvent) (node node' : MasterNode) (hup : s.primary = .up node)
      (hnode : node.handlePrimary sha256Text e = some node') :
      Move sha256Text s (.primary e) (s.primaryUp node' e.saves)
  | starts (listenerClient engineClient : Bool) (hdown : s.primary = .down) :
      Move sha256Text s (.primaryStarts listenerClient engineClient)
        (s.primaryUp
          (MasterNode.new s.disk.clearAllWorkers listenerClient engineClient).listen true)
  | stops : Move sha256Text s .primaryStops { s with primary := .down }
  | hangs (node : MasterNode) (hup : s.primary = .up node) :
      Move sha256Text s .primaryHangs { s with primary := .hung node }
  | resumes (node : MasterNode) (hhung : s.primary = .hung node) :
      Move sha256Text s .primaryResumes { s with primary := .up node }
  | standby (e : MasterEvent) (node : MasterNode)
      (hnode : s.standby.node.handle sha256Text e = some node) :
      Move sha256Text s (.standby e) (s.standbyNode node)
  | pingFails : Move sha256Text s .pingFails { s with standby := s.standby.pingFails }
  /-- A loop of the standby goes on and nothing else changes. -/
  | waits (l : MastersLabel) (hl : l.isWait = true) (failureCount : ℕ) (ping : PingStage)
      (mirror : MirrorStage) :
      Move sha256Text s l { s with standby := { s.standby with failureCount, ping, mirror } }
  /-- The primary serves `/status`, which may set the queue depth of its store. -/
  | serves (depth : Option Json) (node : MasterNode) (store : StateStore)
      (hup : s.primary = .up node) (hstore : depth = none → store = node.store) :
      Move sha256Text s (.status depth) { s.primaryUp { node with store } depth.isSome with
        standby := { s.standby with
          mirror := .statusAnswered store.status store.criticalHeld } }
  | mirrors (answer : StatusAnswer) (critical : List String)
      (hstage : s.standby.mirror = .statusAnswered answer critical) :
      Move sha256Text s .statusAnswered
        { s.mirrorStep (s.standby.node.store.mirrorStatus answer) .auditSent true with
          mirrored := s.mirrored ++ critical }
  | copies (entries : List Record) (hstage : s.standby.mirror = .auditAnswered entries) :
      Move sha256Text s .auditAnswered
        (s.mirrorStep (s.standby.node.store.mirrorAudit entries) .sleeping
          !(s.standby.node.store.newEntries entries).isEmpty)

/-- Every step is one of the moves. -/
theorem step_cases {sha256Text : String → String} {s s' : MastersState} {l : MastersLabel}
    (h : s.step sha256Text l = some s') : s.Move sha256Text l s' := by
  cases l with
  | primary e =>
    rw [step] at h
    split at h
    · rename_i node hup
      obtain ⟨node', hnode, rfl⟩ := Option.map_eq_some_iff.mp h
      exact .primary e node node' hup hnode
    · cases h
  | primaryStarts listenerClient engineClient =>
    rw [step] at h
    split at h
    · rename_i hdown
      cases h
      exact .starts listenerClient engineClient hdown
    · cases h
  | primaryStops =>
    cases h
    exact .stops
  | primaryHangs =>
    rw [step] at h
    split at h
    · rename_i node hup
      cases h
      exact .hangs node hup
    · cases h
  | primaryResumes =>
    rw [step] at h
    split at h
    · rename_i node hhung
      cases h
      exact .resumes node hhung
    · cases h
  | standby e =>
    obtain ⟨node, hnode, rfl⟩ := Option.map_eq_some_iff.mp h
    exact .standby e node hnode
  | pingFails =>
    rw [step] at h
    split at h
    · cases h
    · cases h
      exact .pingFails
  | ping | mirror =>
    rw [step] at h
    split at h
    · split_ifs at h <;> (cases h; exact .waits _ rfl _ _ _)
    · cases h
  | health | pingAnswered | auditLog | mirrorFails =>
    rw [step] at h
    split at h <;> first
      | (cases h; done)
      | (cases h; exact .waits _ rfl _ _ _)
  | status depth =>
    rw [step] at h
    split at h
    · rename_i node hup _
      cases h
      exact .serves depth node _ hup fun hnone => by rw [hnone]
    · cases h
  | statusAnswered =>
    rw [step] at h
    split at h
    · rename_i answer critical hstage
      cases h
      exact .mirrors answer critical hstage
    · cases h
  | auditAnswered =>
    rw [step] at h
    split at h
    · rename_i entries hstage
      cases h
      exact .copies entries hstage
    · cases h

end MastersState
end Rcsce
