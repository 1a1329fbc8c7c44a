import Rcsce.ControlPlane.Masters

/-!
# The status that a container's record holds

Four writers merge into the record of a container on the primary: the handlers of Docker
events, their tails after the lookup in the cache, the failovers, and the endpoint for
finished scans.  Each merges the fields that it knows, so a status never erases the
vulnerabilities, and the tails and the endpoint never touch the status.  `statusWrite` and
`vulnsWrite` say which event writes which of the two, and `field_handlePrimary` that
nothing else does.

A failover writes a status too, when its health checks are over, and does not look at
what has happened to the replica meanwhile.  So the status is that of the latest event
exactly when each failover that ends finds its replica without events, or started last and
up (`recorded_iff`).
-/

namespace Rcsce

namespace StateStore

/-- A field of the record of a container. -/
def containerField (s : StateStore) (containerId key : String) : Option Json :=
  (s.containers.get? containerId).bind fun record => record.get? key

variable (s : StateStore) (c d key : String)

/-- An upsert writes the fields that it brings, and leaves the others. -/
theorem containerField_upsertContainer (data : Record) :
    (s.upsertContainer c data).containerField d key =
      if d = c then (data.get? key).or (s.containerField c key) else s.containerField d key := by
  rw [containerField, upsertContainer, OrderedDict.get?_set]
  split_ifs with hd
  · rw [Option.bind_some, Record.get?_update, containerField]
    cases s.containers.get? c with
    | some record => rfl
    | none => simp [OrderedDict.get?_eq_none_iff.mpr (OrderedDict.notMem_empty key)]
  · rfl

theorem containerField_markCritical (hkey : key ≠ "is_critical") :
    (s.markCritical c).containerField d key = s.containerField d key := by
  rw [containerField, markCritical, OrderedDict.get?_modify, containerField]
  split_ifs with hd
  · subst hd
    cases s.containers.get? d with
    | some record => exact OrderedDict.get?_set_of_ne _ _ hkey
    | none => rfl
  · rfl

@[simp] theorem containerField_appendAudit (event : Record) :
    (s.appendAudit event).containerField d key = s.containerField d key := by
  rw [containerField, appendAudit, containerField]

@[simp] theorem containerField_recordCacheEvent (hit : Bool) :
    (s.recordCacheEvent hit).containerField d key = s.containerField d key := by
  cases hit <;> rfl

/-- A field that the upsert brings. -/
theorem containerField_upsertContainer_of_mem {fields : List (String × Json)} {v : Json}
    (hnodup : (fields.map Prod.fst).Nodup) (h : (key, v) ∈ fields) :
    (s.upsertContainer c (.ofFields fields)).containerField d key =
      if d = c then some v else s.containerField d key := by
  rw [containerField_upsertContainer, Record.get?_ofFields_of_mem hnodup h, Option.some_or]

/-- A field that it does not bring. -/
theorem containerField_upsertContainer_of_notMem {fields : List (String × Json)}
    (h : key ∉ fields.map Prod.fst) :
    (s.upsertContainer c (.ofFields fields)).containerField d key = s.containerField d key := by
  rw [containerField_upsertContainer, Record.get?_ofFields_of_notMem h, Option.none_or]
  split_ifs with hd
  · rw [hd]
  · rfl

/-- The start branch writes a status. -/
theorem containerField_onStart (e : DockerEvent) :
    (s.onStart e).containerField d "status" =
        (if d = e.containerId then some (.str "running") else s.containerField d "status") ∧
      (s.onStart e).containerField d "vulnerabilities" = s.containerField d "vulnerabilities" := by
  constructor
  · rw [onStart, containerField_upsertContainer_of_mem _ _ _ _ (by simp) (by simp; rfl)]
  · rw [onStart, containerField_upsertContainer_of_notMem _ _ _ _ (by simp)]

/-- So does the branch of the other events. -/
theorem containerField_onStopped (e : DockerEvent) :
    (s.onStopped e).containerField d "status" =
        (if d = e.containerId then some (.str (stoppedStatus e.action))
          else s.containerField d "status") ∧
      (s.onStopped e).containerField d "vulnerabilities" =
        s.containerField d "vulnerabilities" := by
  constructor
  · rw [onStopped, containerField_appendAudit,
      containerField_upsertContainer_of_mem _ _ _ _ (by simp) (by simp; rfl)]
  · rw [onStopped, containerField_appendAudit,
      containerField_upsertContainer_of_notMem _ _ _ _ (by simp)]

/-- A finished scan writes vulnerabilities, and no status. -/
theorem containerField_scanned (vulns status : Json) :
    (s.upsertContainer c (.ofFields [("vulnerabilities", vulns),
        ("scan_status", status)])).containerField d "vulnerabilities" =
        (if d = c then some vulns else s.containerField d "vulnerabilities") ∧
      (s.upsertContainer c (.ofFields [("vulnerabilities", vulns),
        ("scan_status", status)])).containerField d "status" = s.containerField d "status" :=
  ⟨containerField_upsertContainer_of_mem _ _ _ _ (by simp) (by simp),
    containerField_upsertContainer_of_notMem _ _ _ _ (by simp)⟩

/-- The health checks of a replica write a status and no vulnerabilities. -/
theorem containerField_onFailover (f : Failover) (replica : String) (recovered : Bool) :
    (s.onFailover f replica recovered).containerField d "status" =
        (if d = leading 12 replica then some (.str (if recovered then "running" else "unknown"))
          else s.containerField d "status") ∧
      (s.onFailover f replica recovered).containerField d "vulnerabilities" =
        s.containerField d "vulnerabilities" := by
  constructor
  · rw [onFailover, containerField_markCritical _ _ _ _ (by decide),
      containerField_upsertContainer_of_mem _ _ _ _ (by simp) (by simp; rfl),
      containerField_appendAudit]
  · rw [onFailover, containerField_markCritical _ _ _ _ (by decide),
      containerField_upsertContainer_of_notMem _ _ _ _ (by simp), containerField_appendAudit]

end StateStore

/-- The status that an event dictates. -/
def DockerAction.recordedStatus : DockerAction → String
  | .start => "running"
  | action => StateStore.stoppedStatus action

/-- A field of a record after a write of it, if there is one. -/
def written (write : Option (String × Json)) (containerId : String) (old : Option Json) :
    Option Json :=
  match write with
  | some (c, v) => if containerId = c then some v else old
  | none => old

namespace MasterNode

/-- The status that an event writes. -/
def statusWrite (m : MasterNode) : PrimaryEvent → Option (String × Json)
  | .own (.docker e) => some (e.containerId, .str e.action.recordedStatus)
  | .own (.failedOver k replica recovered) => m.failovers[k]?.map fun _ =>
      (leading 12 replica, .str (if recovered then "running" else "unknown"))
  | _ => none

/-- The vulnerabilities that a cache hit or a finished scan writes. -/
def vulnsWrite (m : MasterNode) : PrimaryEvent → Option (String × Json)
  | .own (.cacheAnswered k (some scanResult)) => m.lookups[k]?.map fun e =>
      (e.containerId, StateStore.cachedVulns scanResult)
  | .scanComplete containerId vulns _ =>
      if containerId = "" then none else some (containerId, vulns)
  | _ => none

variable {sha256Text : String → String} {m m' : MasterNode} {e : PrimaryEvent}

/-- A Docker event writes the status that it dictates. -/
theorem field_handleEvent (m : MasterNode) (e : DockerEvent) (c : String) :
    (m.handleEvent e).store.containerField c "status" =
        (if c = e.containerId then some (.str e.action.recordedStatus)
          else m.store.containerField c "status") ∧
      (m.handleEvent e).store.containerField c "vulnerabilities" =
        m.store.containerField c "vulnerabilities" := by
  have hstopped := m.store.containerField_onStopped c e
  cases haction : e.action with
  | start =>
    rw [handleEvent, haction]
    exact m.store.containerField_onStart c e
  | die | stop | kill =>
    rw [haction] at hstopped
    rw [handleEvent, haction]
    exact hstopped

/-- Nothing but these events writes a status or vulnerabilities. -/
theorem field_handlePrimary (h : m.handlePrimary sha256Text e = some m') (c : String) :
    m'.store.containerField c "status" =
        written (m.statusWrite e) c (m.store.containerField c "status") ∧
      m'.store.containerField c "vulnerabilities" =
        written (m.vulnsWrite e) c (m.store.containerField c "vulnerabilities") := by
  cases e with
  | own e =>
    cases e with
    | docker e =>
      rw [handlePrimary, handle] at h
      split_ifs at h
      obtain rfl := Option.some.inj h
      exact field_handleEvent m e c
    | cacheAnswered k hit =>
      obtain ⟨e, he, rfl⟩ := Option.map_eq_some_iff.mp h
      cases hit with
      | none =>
        exact ⟨m.store.containerField_recordCacheEvent _ _ _,
          m.store.containerField_recordCacheEvent _ _ _⟩
      | some scanResult =>
        obtain ⟨hvulns, hstatus⟩ := (m.store.recordCacheEvent true).containerField_scanned
          e.containerId c (StateStore.cachedVulns scanResult) (.str "cache_hit")
        simp [StateStore.onCacheHit, statusWrite, vulnsWrite, written, he, hvulns, hstatus]
    | pushed k jobId =>
      obtain ⟨e, -, rfl⟩ := Option.map_eq_some_iff.mp h
      exact ⟨m.store.containerField_appendAudit _ _ _, m.store.containerField_appendAudit _ _ _⟩
    | failedOver k replica recovered =>
      obtain ⟨f, hf, rfl⟩ := Option.map_eq_some_iff.mp h
      obtain ⟨hstatus, hvulns⟩ := m.store.containerField_onFailover c f replica recovered
      simp [statusWrite, vulnsWrite, hf, written, hstatus, hvulns]
    | failoverRaised k error =>
      obtain ⟨f, -, rfl⟩ := Option.map_eq_some_iff.mp h
      exact ⟨m.store.containerField_appendAudit _ _ _, m.store.containerField_appendAudit _ _ _⟩
    | markCritical containerId =>
      obtain rfl := Option.some.inj h
      exact ⟨m.store.containerField_markCritical _ _ _ (by decide),
        m.store.containerField_markCritical _ _ _ (by decide)⟩
    | anomaly entry =>
      obtain rfl := Option.some.inj h
      exact ⟨m.store.containerField_appendAudit _ _ _, m.store.containerField_appendAudit _ _ _⟩
  | workerHeartbeat workerId data =>
    obtain rfl := Option.some.inj h
    exact ⟨rfl, rfl⟩
  | workerDead workerId =>
    obtain rfl := Option.some.inj h
    exact ⟨rfl, rfl⟩
  | scanComplete containerId vulns status =>
    obtain rfl := Option.some.inj h
    obtain ⟨hvulns, hstatus⟩ := m.store.containerField_scanned containerId c vulns status
    by_cases hid : containerId = ""
    · simp [hid, statusWrite, vulnsWrite, written]
    · simp [hid, statusWrite, vulnsWrite, written, hvulns, hstatus]
  | queueDepth depth =>
    obtain rfl := Option.some.inj h
    exact ⟨rfl, rfl⟩

end MasterNode

/-! ## Runs -/

/-- The primary, with what its records are to say. -/
structure Watched where
  node : MasterNode
  /-- The latest event of a container whose handler has begun. -/
  last : String → Option DockerAction
  /-- The vulnerabilities of the latest cache hit or finished scan. -/
  vulns : String → Option Json

namespace Watched

/-- From here on. -/
def start (node : MasterNode) : Watched :=
  ⟨node, fun _ => none, fun c => node.store.containerField c "vulnerabilities"⟩

/-- The latest events after one more. -/
def lastAfter (last : String → Option DockerAction) : PrimaryEvent → String → Option DockerAction
  | .own (.docker e) => Function.update last e.containerId (some e.action)
  | _ => last

/-- One step. -/
def step (sha256Text : String → String) (s : Watched) (e : PrimaryEvent) : Option Watched :=
  (s.node.handlePrimary sha256Text e).map fun node => { s with
    node
    last := lastAfter s.last e
    vulns := fun c => written (s.node.vulnsWrite e) c (s.vulns c) }

/-- Every record says what the latest event dictates and what the latest scan found. -/
structure Recorded (s : Watched) : Prop where
  status : ∀ c action, s.last c = some action →
    s.node.store.containerField c "status" = some (.str action.recordedStatus)
  vulns : ∀ c, s.node.store.containerField c "vulnerabilities" = s.vulns c

/-- A failover that ends finds no events of its replica, or its start the latest of them
and the replica up. -/
def ConfirmsStart (s : Watched) (e : PrimaryEvent) (_ : Watched) : Prop :=
  ∀ k replica recovered f action, e = .own (.failedOver k replica recovered) →
    s.node.failovers[k]? = some f → s.last (leading 12 replica) = some action →
      recovered = true ∧ action = .start

variable {sha256Text : String → String} {s s' : Watched} {e : PrimaryEvent}

theorem recorded_start (node : MasterNode) : (start node).Recorded where
  status _ _ h := nomatch h
  vulns _ := rfl

/-- What a failover writes is what the latest event dictates only for a start. -/
theorem recordedStatus_eq_iff {action : DockerAction} {recovered : Bool} :
    action.recordedStatus = (if recovered then "running" else "unknown") ↔
      recovered = true ∧ action = .start := by
  cases action <;> cases recovered <;> decide

/-- A Docker event leaves the status that it dictates. -/
theorem written_docker (hs : s.Recorded) (e : DockerEvent) {c : String} {action : DockerAction}
    (hlast : lastAfter s.last (.own (.docker e)) c = some action) :
    written (some (e.containerId, .str e.action.recordedStatus)) c
      (s.node.store.containerField c "status") = some (.str action.recordedStatus) := by
  by_cases hc : c = e.containerId
  · subst hc
    rw [lastAfter, Function.update_self] at hlast
    rw [written, if_pos rfl, Option.some.inj hlast]
  · rw [lastAfter, Function.update_of_ne hc] at hlast
    rw [written, if_neg hc, hs.status c action hlast]

/-- A step from records that are right leads to such records exactly when it meets the
condition. -/
theorem recorded_step_iff (hs : s.Recorded) (h : s.step sha256Text e = some s') :
    s'.Recorded ↔ s.ConfirmsStart e s' := by
  obtain ⟨node, hnode, rfl⟩ := Option.map_eq_some_iff.mp h
  have hfield := MasterNode.field_handlePrimary hnode
  constructor
  · rintro hs' k replica recovered f action rfl hf hlast
    have hstatus := hs'.status (leading 12 replica) action hlast
    rw [(hfield _).1] at hstatus
    simp only [MasterNode.statusWrite, hf, Option.map_some, written, if_true, Option.some.injEq,
      Json.str.injEq] at hstatus
    exact recordedStatus_eq_iff.mp hstatus.symm
  · intro hconfirms
    refine ⟨fun c action hlast => ?_, fun c => ?_⟩
    · rw [(hfield c).1]
      cases e with
      | own e =>
        cases e with
        | docker e => exact written_docker hs e hlast
        | failedOver k replica recovered =>
          rw [MasterNode.statusWrite]
          cases hf : s.node.failovers[k]? with
          | none => exact hs.status c action hlast
          | some f =>
            by_cases hc : c = leading 12 replica
            · subst hc
              rw [Option.map_some, written, if_pos rfl, recordedStatus_eq_iff.mpr
                (hconfirms k replica recovered f action rfl hf hlast)]
            · rw [Option.map_some, written, if_neg hc]
              exact hs.status c action hlast
        | cacheAnswered | pushed | failoverRaised | markCritical | anomaly =>
          exact hs.status c action hlast
      | workerHeartbeat | workerDead | scanComplete | queueDepth =>
        exact hs.status c action hlast
    · rw [(hfield c).2, hs.vulns c]

/-- **The records stay those of the latest events and scans exactly as long as each failover
that ends finds its replica without events, or started last and up.** -/
theorem recorded_iff (node : MasterNode) (es : List PrimaryEvent) :
    Machine.Visits (step sha256Text) Recorded (start node) es ↔
      Machine.Meets (step sha256Text) ConfirmsStart (start node) es := by
  refine Machine.visits_iff_meets (I := fun _ => True) (fun _ _ _ _ _ => trivial)
    (fun s e s' _ hs h => ?_) trivial (recorded_start node) es
  exact recorded_step_iff hs h

/-! ## A replica that dies while its failover polls -/

/-- A primary that listens, with a critical container. -/
def webNode : MasterNode :=
  { MasterNode.new (StateStore.empty.markCritical "c0ffee00beef") true true with listening := true }

/-- An event of the container. -/
def webEvent (action : DockerAction) (eventId : ℕ) : DockerEvent :=
  ⟨action, "c0ffee00beef", some "web", some "nginx", none, eventId⟩

/-- An event of its replica. -/
def replicaEvent (action : DockerAction) (eventId : ℕ) : DockerEvent :=
  ⟨action, "badcab1edeed", some "web-replica-c0ffee", some "nginx", none, eventId⟩

/-- The container dies, its replica starts and dies, and the health checks time out. -/
def replicaDies : List PrimaryEvent :=
  [.own (.docker (webEvent .die 0)), .own (.docker (replicaEvent .start 1)),
    .own (.docker (replicaEvent .die 2)), .own (.failedOver 0 "badcab1edeed" false)]

/-- The replica is dead, and its record says that its status is unknown. -/
theorem dead_replica_unknown :
    ¬ Machine.Visits (step fun text => text) Recorded (start webNode) replicaDies := by
  intro h
  have hrun : ((Machine.exec (step fun text => text) (start webNode) replicaDies).map fun s =>
      (s.last "badcab1edeed", (s.node.store.containerField "badcab1edeed" "status").bind
        Json.str?)) = some (some .die, some "unknown") := by
    decide +kernel
  obtain ⟨s, hs, heq⟩ := Option.map_eq_some_iff.mp hrun
  obtain ⟨hlast, hstatus⟩ := Prod.mk.inj heq
  have hdead := (h replicaDies (List.prefix_refl _) s hs).status _ _ hlast
  rw [hdead] at hstatus
  exact absurd hstatus (by decide)

end Watched
end Rcsce
