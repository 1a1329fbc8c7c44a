import Rcsce.ControlPlane.StateStore

/-!
# What Docker events do to the state store

`_handle_event` of `control_plane/core/docker_listener.py` and `ResilienceEngine` of
`control_plane/core/resilience.py`, cut at their awaits: each definition is what the
handler does to the store between two of them.

* `onStart` is the start branch up to the lookup in the cache, `onCacheHit` and
  `onCacheMiss` what follows its answer, `onEnqueued` what follows the push of a job.
* `onStopped` is the die, stop and kill branch, and `failsOver` the decision of
  `handle_container_die`.
* `onFailover` and `onFailoverError` are the two ends of `_failover`.
-/

namespace Rcsce

/-- `WATCHED_EVENTS`. -/
inductive DockerAction where
  | start
  | die
  | stop
  | kill
  deriving DecidableEq

/-- The text of an action. -/
def DockerAction.text : DockerAction → String
  | .start => "start"
  | .die => "die"
  | .stop => "stop"
  | .kill => "kill"

/-- A container event of Docker, with the `uuid4` that the handler draws for it. -/
structure DockerEvent where
  action : DockerAction
  /-- `Actor.ID`. -/
  id : String
  /-- The attributes `name`, `image` and `digest`. -/
  name : Option String
  image : Option String
  digest : Option String
  eventId : ℕ

/-- `text[:n]`. -/
def leading (n : ℕ) (text : String) : String := String.ofList (text.toList.take n)

namespace DockerEvent

/-- `container_id`. -/
def containerId (e : DockerEvent) : String := leading 12 e.id

/-- `container_name`. -/
def containerName (e : DockerEvent) : String := e.name.getD "unknown"

/-- `image_name`. -/
def imageName (e : DockerEvent) : String := e.image.getD "unknown"

/-- `layer_digest`. -/
def layerDigest (e : DockerEvent) : String := e.digest.getD e.imageName

/-- `event_payload`. -/
def payload (e : DockerEvent) : Record :=
  .ofFields [("event_id", .str (toString e.eventId)),
    ("event_type", .str ("container_" ++ e.action.text)), ("container_id", .str e.containerId),
    ("container_name", .str e.containerName), ("image_name", .str e.imageName)]

end DockerEvent

/-- `build_layer_hash`, over `sha256_text`. -/
def buildLayerHash (sha256Text : String → String) (imageName layerDigest : String) : String :=
  sha256Text (imageName ++ ":" ++ layerDigest)

/-- `layer_hash` of a start event. -/
def DockerEvent.layerHash (e : DockerEvent) (sha256Text : String → String) : String :=
  buildLayerHash sha256Text e.imageName e.layerDigest

namespace StateStore

/-! ## The listener -/

/-- The start branch, up to the lookup. -/
def onStart (s : StateStore) (e : DockerEvent) : StateStore :=
  s.upsertContainer e.containerId (.ofFields [("container_id", .str e.containerId),
    ("name", .str e.containerName), ("image", .str e.imageName), ("status", .str "running")])

/-- `scan_result.get("vulnerabilities", {})`. -/
def cachedVulns (scanResult : List (String × Json)) : Json :=
  (scanResult.lookup "vulnerabilities").getD (.obj [])

/-- A cache hit, with the members of the cached result. -/
def onCacheHit (s : StateStore) (e : DockerEvent) (layerHash : String)
    (scanResult : List (String × Json)) : StateStore :=
  ((s.recordCacheEvent true).upsertContainer e.containerId
    (.ofFields [("vulnerabilities", cachedVulns scanResult),
      ("scan_status", .str "cache_hit")])).appendAudit
    (e.payload.update (.ofFields [("action", .str "cache_hit"), ("layer_hash", .str layerHash),
      ("cached_result", .obj scanResult)]))

/-- A cache miss, up to the push of a job. -/
def onCacheMiss (s : StateStore) : StateStore := s.recordCacheEvent false

/-- After the push. -/
def onEnqueued (s : StateStore) (e : DockerEvent) (layerHash jobId : String) : StateStore :=
  s.appendAudit (e.payload.update (.ofFields [("action", .str "scan_enqueued"),
    ("job_id", .str jobId), ("layer_hash", .str layerHash)]))

/-- `new_status`. -/
def stoppedStatus : DockerAction → String
  | .die => "dead"
  | _ => "stopped"

/-- The die, stop and kill branch, up to the resilience engine. -/
def onStopped (s : StateStore) (e : DockerEvent) : StateStore :=
  (s.upsertContainer e.containerId
    (.ofFields [("status", .str (stoppedStatus e.action))])).appendAudit
    (e.payload.update (.ofFields [("action", .str "container_stopped")]))

/-- `handle_container_die` goes on to `_failover`. -/
def failsOver (s : StateStore) (e : DockerEvent) : Bool :=
  e.action = .die ∧ s.isCritical e.containerId

end StateStore

/-! ## The resilience engine -/

/-- A `_failover` that Docker works on. -/
structure Failover where
  originalId : String
  name : String
  image : String

/-- `replica_name`. -/
def Failover.replicaName (f : Failover) : String :=
  f.name ++ "-replica-" ++ leading 6 f.originalId

/-- The failover that a die event asks for. -/
def DockerEvent.failover (e : DockerEvent) : Failover :=
  ⟨e.containerId, e.containerName, e.imageName⟩

namespace StateStore

/-- `_failover` after the health check; `replica` is the id that Docker gave. -/
def onFailover (s : StateStore) (f : Failover) (replica : String) (recovered : Bool) :
    StateStore :=
  ((s.appendAudit (.ofFields [("event_type", .str "auto_failover"),
      ("original_container", .str f.originalId), ("replica_name", .str f.replicaName),
      ("image", .str f.image),
      ("status", .str (if recovered then "recovered" else "recovery_timeout"))])).upsertContainer
    (leading 12 replica) (.ofFields [("container_id", .str (leading 12 replica)),
      ("name", .str f.replicaName), ("image", .str f.image),
      ("status", .str (if recovered then "running" else "unknown")), ("is_replica", .bool true),
      ("original_id", .str f.originalId)])).markCritical (leading 12 replica)

/-- `_failover` when Docker raises. -/
def onFailoverError (s : StateStore) (f : Failover) (error : String) : StateStore :=
  s.appendAudit (.ofFields [("event_type", .str "auto_failover_error"),
    ("original_container", .str f.originalId), ("error", .str error)])

/-! ## Who is critical -/

@[simp] theorem critical_onStart (s : StateStore) (e : DockerEvent) :
    (s.onStart e).critical = s.critical := rfl

@[simp] theorem critical_onCacheHit (s : StateStore) (e : DockerEvent) (layerHash : String)
    (scanResult : List (String × Json)) :
    (s.onCacheHit e layerHash scanResult).critical = s.critical := by
  rw [onCacheHit, critical_appendAudit, critical_upsertContainer, critical_recordCacheEvent]

@[simp] theorem critical_onCacheMiss (s : StateStore) : s.onCacheMiss.critical = s.critical :=
  critical_recordCacheEvent s false

@[simp] theorem critical_onEnqueued (s : StateStore) (e : DockerEvent) (layerHash jobId : String) :
    (s.onEnqueued e layerHash jobId).critical = s.critical :=
  critical_appendAudit s _

@[simp] theorem critical_onStopped (s : StateStore) (e : DockerEvent) :
    (s.onStopped e).critical = s.critical := by
  rw [onStopped, critical_appendAudit, critical_upsertContainer]

@[simp] theorem critical_onFailover (s : StateStore) (f : Failover) (replica : String)
    (recovered : Bool) :
    (s.onFailover f replica recovered).critical = insert (leading 12 replica) s.critical := by
  rw [onFailover, critical_markCritical, critical_upsertContainer, critical_appendAudit]

@[simp] theorem critical_onFailoverError (s : StateStore) (f : Failover) (error : String) :
    (s.onFailoverError f error).critical = s.critical :=
  critical_appendAudit s _

end StateStore
end Rcsce
