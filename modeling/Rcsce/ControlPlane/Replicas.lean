import Rcsce.Lib.TaskList
import Rcsce.ControlPlane.Masters

/-!
# Containers, their deaths and their replicas

A control-plane process together with the Docker daemon that it watches.  `MasterNode` takes
what Docker says as it comes; here Docker has a state of its own: the containers, created,
running or exited, and the events that it has emitted and that the listener has not handled
yet, in order.  The failovers go on in the steps of `_failover` and `_confirm_healthy`: the
create, the start, the health checks, and the end that marks the replica as critical.

## The dictionary

* Docker alone takes the steps `exits`, `restarts` and `signals`.
* `handle` is the handler of the oldest event, up to its first await.
* `creates`, `starts` and `confirms` are the steps of a failover; `raises` is a
  `DockerException` in it, and `aborts` any other exception, which nobody handles.
* `other` is anything else that happens in the process.

Docker gives a container an id that it has never given, and refuses a name that a container
has, running or not.  Nobody but `_failover` creates containers.

`handle_step` says that a step is, for the process, one of the steps of `MasterNode` or none.
-/

namespace Rcsce

/-- What Docker reports as the state of a container. -/
inductive ContainerState where
  | created
  | running
  | exited
  deriving DecidableEq

/-- What never changes of a container. -/
structure ContainerIdentity where
  name : String
  image : String
  /-- The id of the container whose death it is the answer to. -/
  parent : Option String
  deriving DecidableEq

/-- A container. -/
structure DockerContainer where
  identity : ContainerIdentity
  state : ContainerState
  deriving DecidableEq

/-- Where a `_failover` is. -/
inductive FailoverStage where
  /-- In `containers.create`. -/
  | creating
  /-- In `container.start`. -/
  | starting (replica : String)
  /-- In `_confirm_healthy`. -/
  | confirming (replica : String)
  /-- It has ended with an exception that it does not catch. -/
  | aborted (replica : Option String)
  deriving DecidableEq

/-- The container that the failover has created. -/
def FailoverStage.replica? : FailoverStage → Option String
  | .creating => none
  | .starting replica => some replica
  | .confirming replica => some replica
  | .aborted replica => replica

/-- A `_failover`. -/
structure FailoverTask where
  /-- The full id of the container that died. -/
  parent : String
  failover : Failover
  stage : FailoverStage

/-- A control-plane process and its Docker daemon. -/
structure ReplicaWorld where
  store : StateStore
  /-- The resilience engine has a Docker client. -/
  engineClient : Bool
  lookups : List DockerEvent
  pushes : List DockerEvent
  /-- The failovers that have not come to an end of theirs. -/
  failovers : List FailoverTask
  /-- The containers that exist, by their full ids. -/
  containers : OrderedDict String DockerContainer
  /-- The events that no handler has begun with, oldest first. -/
  events : List (DockerAction × String)
  /-- The ids that were critical at the start, and those that a POST has marked. -/
  marked : List String

/-- What can happen next. -/
inductive ReplicaLabel where
  /-- A container dies. -/
  | exits (id : String)
  /-- A container is started again. -/
  | restarts (id : String)
  /-- Docker reports a stop or a kill. -/
  | signals (action : DockerAction) (id : String)
  /-- The handler of the oldest event begins. -/
  | handle (eventId : ℕ)
  /-- Docker takes a create: the id if it accepts it, the error if it does not. -/
  | creates (k : ℕ) (id error : String)
  /-- Docker starts the replica. -/
  | starts (k : ℕ)
  | raises (k : ℕ) (error : String)
  /-- The health checks are over. -/
  | confirms (k : ℕ) (recovered : Bool)
  | aborts (k : ℕ)
  | other (e : MasterEvent)

/-- The events that have no label of their own. -/
def MasterEvent.isOther : MasterEvent → Bool
  | .docker _ | .failedOver .. | .failoverRaised .. => false
  | _ => true

/-- The containers that a POST to `/containers/{id}/critical` names. -/
def MasterEvent.posted : MasterEvent → List String
  | .markCritical containerId => [containerId]
  | _ => []

namespace ReplicaWorld

/-- The process. -/
def node (s : ReplicaWorld) : MasterNode :=
  ⟨s.store, true, s.engineClient, true, s.lookups, s.pushes,
    s.failovers.map FailoverTask.failover⟩

/-- What a container is, whatever its state. -/
def identity? (s : ReplicaWorld) (id : String) : Option ContainerIdentity :=
  (s.containers.get? id).map DockerContainer.identity

/-- A container has the name. -/
def nameTaken (s : ReplicaWorld) (name : String) : Bool :=
  s.containers.values.any fun x => x.identity.name = name

/-- The container goes on in another state, and Docker says so. -/
def changeState (s : ReplicaWorld) (id : String) (old new : ContainerState)
    (action : DockerAction) : Option ReplicaWorld :=
  (s.containers.get? id).bind fun x =>
    if x.state = old then some { s with
      containers := s.containers.set id { x with state := new }
      events := s.events ++ [(action, id)] }
    else none

/-- The event that Docker emits. -/
def dockerEvent (id : String) (x : ContainerIdentity) (action : DockerAction) (eventId : ℕ) :
    DockerEvent :=
  ⟨action, id, some x.name, some x.image, none, eventId⟩

/-- `_handle_event`, up to its first await. -/
def handleEvent (s : ReplicaWorld) (e : DockerEvent) : ReplicaWorld :=
  let node := s.node.handleEvent e
  { s with
    store := node.store
    lookups := node.lookups
    failovers :=
      if node.store.failsOver e && s.engineClient then
        s.failovers ++ [⟨e.id, e.failover, .creating⟩]
      else s.failovers }

/-- Docker answers `containers.create`. -/
def create (s : ReplicaWorld) (k : ℕ) (t : FailoverTask) (id error : String) :
    Option ReplicaWorld :=
  if s.nameTaken t.failover.replicaName then some { s with
    store := s.store.onFailoverError t.failover error
    failovers := advance s.failovers k none }
  else if id ∉ s.containers ∧ 12 ≤ id.toList.length then some { s with
    containers := s.containers.set id
      ⟨⟨t.failover.replicaName, t.failover.image, some t.parent⟩, .created⟩
    failovers := advance s.failovers k (some { t with stage := .starting id }) }
  else none

/-- One step. -/
def step (sha256Text : String → String) (s : ReplicaWorld) : ReplicaLabel → Option ReplicaWorld
  | .exits id => s.changeState id .running .exited .die
  | .restarts id => s.changeState id .exited .running .start
  | .signals action id =>
      if (action = .stop ∨ action = .kill) ∧ id ∈ s.containers then
        some { s with events := s.events ++ [(action, id)] }
      else none
  | .handle eventId =>
      match s.events with
      | (action, id) :: events => (s.identity? id).map fun x =>
          { s.handleEvent (dockerEvent id x action eventId) with events }
      | [] => none
  | .creates k id error => s.failovers[k]?.bind fun t =>
      if t.stage = .creating then s.create k t id error else none
  | .starts k => s.failovers[k]?.bind fun t =>
      match t.stage with
      | .starting replica => (s.changeState replica .created .running .start).map fun s' =>
          { s' with
            failovers := advance s.failovers k (some { t with stage := .confirming replica }) }
      | _ => none
  | .raises k error => s.failovers[k]?.bind fun t =>
      match t.stage with
      | .creating | .starting _ => some { s with
          store := s.store.onFailoverError t.failover error
          failovers := advance s.failovers k none }
      | _ => none
  | .confirms k recovered => s.failovers[k]?.bind fun t =>
      match t.stage with
      | .confirming replica => some { s with
          store := s.store.onFailover t.failover replica recovered
          failovers := advance s.failovers k none }
      | _ => none
  | .aborts k => s.failovers[k]?.map fun t => { s with
      failovers := advance s.failovers k (some { t with stage := .aborted t.stage.replica? }) }
  | .other e =>
      if e.isOther then (s.node.handle sha256Text e).map fun node => { s with
        store := node.store
        lookups := node.lookups
        pushes := node.pushes
        marked := s.marked ++ e.posted }
      else none

/-- A process that has just started, and containers that no failover of its has created. -/
structure Initial (s : ReplicaWorld) : Prop where
  failovers : s.failovers = []
  parent : ∀ i x, s.identity? i = some x → x.parent = none
  /-- Docker has given each name once. -/
  name_inj : ∀ i j x y, s.identity? i = some x → s.identity? j = some y → x.name = y.name → i = j
  length_id : ∀ i ∈ s.containers, 12 ≤ i.toList.length
  marked : ∀ c, c ∈ s.store.critical ↔ c ∈ s.marked

/-! ## What a step does -/

variable {sha256Text : String → String} {s s' : ReplicaWorld} {l : ReplicaLabel}

theorem identity?_eq_some_iff {i : String} {x : ContainerIdentity} :
    s.identity? i = some x ↔ ∃ state, s.containers.get? i = some ⟨x, state⟩ := by
  rw [identity?, Option.map_eq_some_iff]
  constructor
  · rintro ⟨⟨y, state⟩, hget, rfl⟩
    exact ⟨state, hget⟩
  · rintro ⟨state, hget⟩
    exact ⟨_, hget, rfl⟩

theorem nameTaken_iff {name : String} :
    s.nameTaken name = true ↔ ∃ i x, s.identity? i = some x ∧ x.name = name := by
  rw [nameTaken, List.any_eq_true]
  constructor
  · rintro ⟨x, hx, hname⟩
    obtain ⟨i, hi⟩ := OrderedDict.mem_values_iff.mp hx
    exact ⟨i, x.identity, identity?_eq_some_iff.mpr ⟨x.state, hi⟩, of_decide_eq_true hname⟩
  · rintro ⟨i, x, hx, hname⟩
    obtain ⟨state, hi⟩ := identity?_eq_some_iff.mp hx
    exact ⟨_, OrderedDict.mem_values_iff.mpr ⟨i, hi⟩, decide_eq_true hname⟩

/-- The moves. -/
inductive Move (sha256Text : String → String) (s : ReplicaWorld) :
    ReplicaLabel → ReplicaWorld → Prop
  | changes (l : ReplicaLabel) (id : String) (x : DockerContainer) (new : ContainerState)
      (events : List (DockerAction × String)) (hl : l = .exits id ∨ l = .restarts id)
      (hx : s.containers.get? id = some x) (hold : x.state ≠ .created) (hnew : new ≠ .created) :
      Move sha256Text s l { s with
        containers := s.containers.set id { x with state := new }
        events }
  | signals (action : DockerAction) (id : String) :
      Move sha256Text s (.signals action id) { s with events := s.events ++ [(action, id)] }
  | begins (action : DockerAction) (id : String) (events : List (DockerAction × String))
      (x : ContainerIdentity) (eventId : ℕ) (hevents : s.events = (action, id) :: events)
      (hx : s.identity? id = some x) : Move sha256Text s (.handle eventId)
        { s.handleEvent (dockerEvent id x action eventId) with events }
  | rejected (k : ℕ) (t : FailoverTask) (id error : String) (hk : s.failovers[k]? = some t)
      (hstage : t.stage = .creating) (htaken : s.nameTaken t.failover.replicaName = true) :
      Move sha256Text s (.creates k id error) { s with
        store := s.store.onFailoverError t.failover error
        failovers := advance s.failovers k none }
  | accepted (k : ℕ) (t : FailoverTask) (id error : String) (hk : s.failovers[k]? = some t)
      (hstage : t.stage = .creating) (hfree : s.nameTaken t.failover.replicaName = false)
      (hid : id ∉ s.containers) (hlength : 12 ≤ id.toList.length) :
      Move sha256Text s (.creates k id error) { s with
        containers := s.containers.set id
          ⟨⟨t.failover.replicaName, t.failover.image, some t.parent⟩, .created⟩
        failovers := advance s.failovers k (some { t with stage := .starting id }) }
  | started (k : ℕ) (t : FailoverTask) (id : String) (x : DockerContainer)
      (hk : s.failovers[k]? = some t) (hstage : t.stage = .starting id)
      (hx : s.containers.get? id = some x) (hold : x.state = .created) :
      Move sha256Text s (.starts k) { s with
        containers := s.containers.set id { x with state := .running }
        events := s.events ++ [(.start, id)]
        failovers := advance s.failovers k (some { t with stage := .confirming id }) }
  | raised (k : ℕ) (t : FailoverTask) (error : String) (hk : s.failovers[k]? = some t)
      (hstage : t.stage = .creating ∨ ∃ id, t.stage = .starting id) :
      Move sha256Text s (.raises k error) { s with
        store := s.store.onFailoverError t.failover error
        failovers := advance s.failovers k none }
  | confirmed (k : ℕ) (t : FailoverTask) (id : String) (recovered : Bool)
      (hk : s.failovers[k]? = some t) (hstage : t.stage = .confirming id) :
      Move sha256Text s (.confirms k recovered) { s with
        store := s.store.onFailover t.failover id recovered
        failovers := advance s.failovers k none }
  | aborted (k : ℕ) (t : FailoverTask) (hk : s.failovers[k]? = some t) :
      Move sha256Text s (.aborts k) { s with
        failovers :=
          advance s.failovers k (some { t with stage := .aborted t.stage.replica? }) }
  | other (e : MasterEvent) (node : MasterNode) (he : e.isOther = true)
      (hnode : s.node.handle sha256Text e = some node) : Move sha256Text s (.other e) { s with
        store := node.store
        lookups := node.lookups
        pushes := node.pushes
        marked := s.marked ++ e.posted }

/-- A container that changes its state exists, and was in the old one. -/
theorem changeState_eq_some {id : String} {old new : ContainerState} {action : DockerAction}
    (h : s.changeState id old new action = some s') :
    ∃ x, s.containers.get? id = some x ∧ x.state = old ∧ s' = { s with
      containers := s.containers.set id { x with state := new }
      events := s.events ++ [(action, id)] } := by
  obtain ⟨x, hx, hif⟩ := Option.bind_eq_some_iff.mp h
  split_ifs at hif with hold
  exact ⟨x, hx, hold, (Option.some.inj hif).symm⟩

/-- Every step is one of the moves. -/
theorem step_cases (h : s.step sha256Text l = some s') : Move sha256Text s l s' := by
  cases l with
  | exits id =>
    obtain ⟨x, hx, hold, rfl⟩ := changeState_eq_some h
    exact .changes _ id x _ _ (Or.inl rfl) hx (by simp [hold]) (by simp)
  | restarts id =>
    obtain ⟨x, hx, hold, rfl⟩ := changeState_eq_some h
    exact .changes _ id x _ _ (Or.inr rfl) hx (by simp [hold]) (by simp)
  | signals action id =>
    simp only [step] at h
    split_ifs at h
    exact Option.some.inj h ▸ .signals action id
  | handle eventId =>
    simp only [step] at h
    rcases hevents : s.events with _ | ⟨⟨action, id⟩, events⟩
    · simp [hevents] at h
    · simp only [hevents] at h
      obtain ⟨x, hx, rfl⟩ := Option.map_eq_some_iff.mp h
      exact .begins action id events x eventId hevents hx
  | creates k id error =>
    obtain ⟨t, hk, h⟩ := Option.bind_eq_some_iff.mp h
    rw [create] at h
    split_ifs at h with hstage htaken hnew
    · exact Option.some.inj h ▸ .rejected k t id error hk hstage htaken
    · exact Option.some.inj h ▸
        .accepted k t id error hk hstage (Bool.eq_false_iff.mpr htaken) hnew.1 hnew.2
  | starts k =>
    obtain ⟨t, hk, h⟩ := Option.bind_eq_some_iff.mp h
    cases hstage : t.stage with
    | starting id =>
      simp only [hstage] at h
      obtain ⟨s₁, hs₁, rfl⟩ := Option.map_eq_some_iff.mp h
      obtain ⟨x, hx, hold, rfl⟩ := changeState_eq_some hs₁
      exact .started k t id x hk hstage hx hold
    | creating => simp [hstage] at h
    | confirming id => simp [hstage] at h
    | aborted id => simp [hstage] at h
  | raises k error =>
    obtain ⟨t, hk, h⟩ := Option.bind_eq_some_iff.mp h
    cases hstage : t.stage with
    | creating =>
      simp only [hstage] at h
      exact Option.some.inj h ▸ .raised k t error hk (Or.inl hstage)
    | starting id =>
      simp only [hstage] at h
      exact Option.some.inj h ▸ .raised k t error hk (Or.inr ⟨id, hstage⟩)
    | confirming id => simp [hstage] at h
    | aborted id => simp [hstage] at h
  | confirms k recovered =>
    obtain ⟨t, hk, h⟩ := Option.bind_eq_some_iff.mp h
    cases hstage : t.stage with
    | confirming id =>
      simp only [hstage] at h
      exact Option.some.inj h ▸ .confirmed k t id recovered hk hstage
    | creating => simp [hstage] at h
    | starting id => simp [hstage] at h
    | aborted id => simp [hstage] at h
  | aborts k =>
    obtain ⟨t, hk, rfl⟩ := Option.map_eq_some_iff.mp h
    exact .aborted k t hk
  | other e =>
    simp only [step] at h
    split_ifs at h with he
    obtain ⟨node, hnode, rfl⟩ := Option.map_eq_some_iff.mp h
    exact .other e node he hnode

/-- A container that changes its state stays what it is. -/
theorem identity?_set {id : String} {x : DockerContainer}
    (hx : s.containers.get? id = some x) (new : ContainerState) (i : String) :
    ((s.containers.set id { x with state := new }).get? i).map DockerContainer.identity =
      s.identity? i := by
  rw [identity?, OrderedDict.get?_set]
  split_ifs with hi
  · rw [hi, hx, Option.map_some, Option.map_some]
  · rfl

/-- What the failovers are about stays when one of them goes on. -/
theorem map_failover_advance {k : ℕ} {t : FailoverTask} (hk : s.failovers[k]? = some t)
    (stage : FailoverStage) :
    (advance s.failovers k (some { t with stage })).map FailoverTask.failover =
      s.failovers.map FailoverTask.failover := by
  obtain ⟨hlt, rfl⟩ := List.getElem?_eq_some_iff.mp hk
  rw [advance, List.map_set]
  refine List.ext_getElem (by simp) fun i hi hi' => ?_
  rw [List.getElem_set]
  split_ifs with heq
  · subst heq
    simp
  · rfl

/-- The handler adds at most the failover that the event asks for. -/
theorem mem_failovers_handleEvent {e : DockerEvent} {t : FailoverTask}
    (h : t ∈ (s.handleEvent e).failovers) :
    t ∈ s.failovers ∨ t = ⟨e.id, e.failover, .creating⟩ := by
  simp only [handleEvent] at h
  split_ifs at h
  · exact (List.mem_append.mp h).imp_right List.mem_singleton.mp
  · exact Or.inl h

/-- The other events leave the failovers alone. -/
theorem handle_isOther {m node : MasterNode} {e : MasterEvent} (he : e.isOther = true)
    (h : m.handle sha256Text e = some node) :
    node = { m with store := node.store, lookups := node.lookups, pushes := node.pushes } := by
  cases e with
  | docker | failedOver | failoverRaised => simp [MasterEvent.isOther] at he
  | cacheAnswered k hit =>
    obtain ⟨e, -, rfl⟩ := Option.map_eq_some_iff.mp h
    cases hit <;> rfl
  | pushed k jobId =>
    obtain ⟨e, -, rfl⟩ := Option.map_eq_some_iff.mp h
    rfl
  | markCritical containerId => exact Option.some.inj h ▸ rfl
  | anomaly entry => exact Option.some.inj h ▸ rfl

/-- The handler does to the process what `MasterNode.handleEvent` does. -/
theorem node_handleEvent (e : DockerEvent) (events : List (DockerAction × String)) :
    { s.handleEvent e with events }.node = s.node.handleEvent e := by
  rw [node, handleEvent, node]
  cases haction : e.action with
  | die =>
    by_cases hfails : e.containerId ∈ s.store.critical ∧ s.engineClient = true
    · simp [MasterNode.handleEvent, StateStore.failsOver, haction, hfails]
    · simp [MasterNode.handleEvent, StateStore.failsOver, haction, hfails]
  | start | stop | kill => simp [MasterNode.handleEvent, StateStore.failsOver, haction]

/-- For the process, a step is one of its own steps or none. -/
theorem handle_step (h : s.step sha256Text l = some s') :
    s'.node = s.node ∨ ∃ e, s.node.handle sha256Text e = some s'.node := by
  have hk' : ∀ {k : ℕ} {t : FailoverTask}, s.failovers[k]? = some t →
      s.node.failovers[k]? = some t.failover := fun hk => by simp [node, hk]
  have herase : ∀ k : ℕ, (advance s.failovers k none).map FailoverTask.failover =
      s.node.failovers.eraseIdx k := fun k => by simp [node, advance, List.eraseIdx_map]
  cases step_cases h with
  | changes | signals => exact Or.inl rfl
  | begins action id events x eventId =>
    refine Or.inr ⟨.docker (dockerEvent id x action eventId), ?_⟩
    rw [node_handleEvent]
    rfl
  | rejected k t id error hk =>
    refine Or.inr ⟨.failoverRaised k error, ?_⟩
    simp only [MasterNode.handle, hk' hk, Option.map_some, Option.some.injEq]
    simp only [node, herase]
  | accepted k t id error hk => exact Or.inl (by simp only [node, map_failover_advance hk])
  | started k t id x hk => exact Or.inl (by simp only [node, map_failover_advance hk])
  | raised k t error hk =>
    refine Or.inr ⟨.failoverRaised k error, ?_⟩
    simp only [MasterNode.handle, hk' hk, Option.map_some, Option.some.injEq]
    simp only [node, herase]
  | confirmed k t id recovered hk =>
    refine Or.inr ⟨.failedOver k id recovered, ?_⟩
    simp only [MasterNode.handle, hk' hk, Option.map_some, Option.some.injEq]
    simp only [node, herase]
  | aborted k t hk => exact Or.inl (by simp only [node, map_failover_advance hk])
  | other e node he hnode =>
    refine Or.inr ⟨e, hnode.trans ?_⟩
    rw [handle_isOther he hnode]
    rfl

/-! ## A world to start from -/

/-- A running container that the store has as critical. -/
def webWorld : ReplicaWorld where
  store := StateStore.empty.markCritical "c0ffee00beef"
  engineClient := true
  lookups := []
  pushes := []
  failovers := []
  containers := OrderedDict.empty.set "c0ffee00beef" ⟨⟨"web", "nginx", none⟩, .running⟩
  events := []
  marked := ["c0ffee00beef"]

theorem webWorld_identity? {i : String} {x : ContainerIdentity} :
    webWorld.identity? i = some x ↔ i = "c0ffee00beef" ∧ x = ⟨"web", "nginx", none⟩ := by
  rw [identity?, webWorld, OrderedDict.get?_set]
  split_ifs with hi
  · simp [hi, eq_comm]
  · simp [hi, OrderedDict.get?_eq_none_iff.mpr (OrderedDict.notMem_empty i)]

theorem webWorld_initial : webWorld.Initial where
  failovers := rfl
  parent i x hx := by
    obtain ⟨-, rfl⟩ := webWorld_identity?.mp hx
    rfl
  name_inj i j x y hx hy _ :=
    (webWorld_identity?.mp hx).1.trans (webWorld_identity?.mp hy).1.symm
  length_id i hi := by
    obtain ⟨x, hx⟩ := OrderedDict.mem_iff_get?.mp hi
    obtain ⟨rfl, -⟩ := webWorld_identity?.mp (identity?_eq_some_iff.mpr ⟨x.state, hx⟩)
    decide
  marked c := by simp [webWorld, StateStore.empty]

end ReplicaWorld
end Rcsce
