import Rcsce.ControlPlane.MasterStores

/-!
# Answers of the old primary that arrive late

`state_mirror_loop` asks at the top of its loop whether it is still the standby, and then
waits for two answers.  The promotion can happen during either wait, and what the loop does
with the answer does not depend on it: an answer that the old primary gave before it went
down is written over what the new primary has recorded since.

A pass calls the store once for each container, for each worker, for the queue depth, and
for each audit entry that it appends, and each call but the one of the depth stamps what it
writes.  `Knows` says when a call at a given time changes nothing (`callAt_eq_self_iff`): an
upsert brings fields that are there, under a stamp of this very time.

* `MirrorSilent` says that a step of the loop on a promoted standby leaves the store as it is.
* `mirror_silent_iff` is exact: all steps of a run are silent if and only if whatever the loop
  calls after the promotion is known already.
* `late_answer_overwrites` is the run in which the new primary records that a container has
  died, and the late answer has it running again.
-/

namespace Rcsce

/-! ## When a call changes nothing -/

namespace StateStore

/-- There is a record under this key, and it has all these fields. -/
def HasFields (records : OrderedDict String Record) (key : String) (data : Record) : Prop :=
  ∃ record, records.get? key = some record ∧ record.Has data

/-- What the call would write at the time `now` is there already, its stamp included. -/
def Knows (s : StateStore) (now : String) : StoreCall → Prop
  | .upsertContainer containerId data =>
      HasFields s.containers containerId (data.set "updated_at" (.str now))
  | .markCritical containerId => containerId ∈ s.critical ∧
      ∀ record, s.containers.get? containerId = some record →
        record.get? "is_critical" = some (.bool true)
  | .upsertWorker workerId data => HasFields s.workers workerId
      ((data.set "worker_id" (.str workerId)).set "last_seen" (.str now))
  | .markWorkerDead workerId => HasFields s.workers workerId
      ((Record.ofFields [("worker_id", .str workerId), ("status", .str "dead"),
        ("load", .num 0)]).set "last_seen" (.str now))
  | .setQueueDepth depth => s.queueDepth = depth
  | .recordCacheEvent _ => False
  | .appendAudit event => s.auditLog = List.replicate 200 (event.set "logged_at" (.str now))

variable {s : StateStore} {now : String}

/-- A record that is written in place of the one under this key. -/
theorem set_getD_eq_self_iff {records : OrderedDict String Record} {key : String} {data : Record}
    {f : Record → Record} (hf : ∀ record, f record = record ↔ record.Has data) :
    records.set key (f ((records.get? key).getD .empty)) = records ↔
      HasFields records key data := by
  rw [OrderedDict.set_eq_self_iff, HasFields]
  cases records.get? key with
  | none => exact iff_of_false (by rintro ⟨⟩) (by rintro ⟨_, ⟨⟩, _⟩)
  | some record =>
    rw [Option.getD_some, Option.some.injEq, eq_comm, hf]
    constructor
    · exact fun h => ⟨record, rfl, h⟩
    · rintro ⟨record', heq, h⟩
      exact Option.some.inj heq ▸ h

theorem eq_self_iff_of_containers {containers : OrderedDict String Record} :
    { s with containers } = s ↔ containers = s.containers := by
  constructor
  · exact fun h => congrArg StateStore.containers h
  · rintro rfl
    rfl

theorem eq_self_iff_of_workers {workers : OrderedDict String Record} :
    { s with workers } = s ↔ workers = s.workers := by
  constructor
  · exact fun h => congrArg StateStore.workers h
  · rintro rfl
    rfl

theorem upsertContainer_stamp_eq_self_iff {containerId : String} {data : Record} :
    (s.upsertContainer containerId data).stampContainer containerId now = s ↔
      HasFields s.containers containerId (data.set "updated_at" (.str now)) := by
  rw [upsertContainer, stampContainer]
  dsimp only
  rw [OrderedDict.modify_set_self]
  exact eq_self_iff_of_containers.trans (set_getD_eq_self_iff
    (f := fun r => (r.update data).set "updated_at" (.str now))
    fun _ => Record.set_update_eq_self_iff)

theorem upsertWorker_stamp_eq_self_iff {workerId : String} {data : Record} :
    (s.upsertWorker workerId data).stampWorker workerId now = s ↔ HasFields s.workers workerId
      ((data.set "worker_id" (.str workerId)).set "last_seen" (.str now)) := by
  rw [upsertWorker, stampWorker]
  dsimp only
  rw [OrderedDict.modify_set_self]
  exact eq_self_iff_of_workers.trans (set_getD_eq_self_iff
    (f := fun r => ((r.update data).set "worker_id" (.str workerId)).set "last_seen" (.str now))
    fun _ => Record.set_set_update_eq_self_iff)

theorem markWorkerDead_stamp_eq_self_iff {workerId : String} :
    (s.markWorkerDead workerId).stampWorker workerId now = s ↔
      s.Knows now (.markWorkerDead workerId) := by
  rw [markWorkerDead, stampWorker]
  dsimp only
  rw [OrderedDict.modify_set_self]
  exact eq_self_iff_of_workers.trans (set_getD_eq_self_iff
    (f := fun r => (r.update _).set "last_seen" (.str now)) fun _ => Record.set_update_eq_self_iff)

theorem markCritical_eq_self_iff {containerId : String} :
    s.markCritical containerId = s ↔ s.Knows now (.markCritical containerId) := by
  constructor
  · intro h
    constructor
    · rw [← h, critical_markCritical]
      exact Finset.mem_insert_self _ _
    · intro record hrecord
      rw [← h, markCritical, OrderedDict.get?_modify, if_pos rfl] at hrecord
      obtain ⟨old, -, rfl⟩ := Option.map_eq_some_iff.mp hrecord
      exact OrderedDict.get?_set_self _ _ _
  · rintro ⟨hcritical, hrecord⟩
    have hcontainers : (s.containers.modify containerId fun record =>
        record.set "is_critical" (.bool true)) = s.containers := by
      cases h : s.containers.get? containerId with
      | none => exact OrderedDict.modify_of_notMem (OrderedDict.get?_eq_none_iff.mp h) _
      | some record =>
        exact OrderedDict.modify_eq_self h (OrderedDict.set_of_get? (hrecord record h))
    rw [markCritical, hcontainers, Finset.insert_eq_of_mem hcritical]

theorem setQueueDepth_eq_self_iff {depth : Json} :
    s.setQueueDepth depth = s ↔ s.queueDepth = depth := by
  constructor
  · exact fun h => (congrArg queueDepth h).symm
  · rintro rfl
    rfl

theorem recordCacheEvent_ne_self (hit : Bool) : s.recordCacheEvent hit ≠ s := by
  intro h
  cases hit with
  | true => exact Nat.succ_ne_self _ (congrArg cacheHits h)
  | false => exact Nat.succ_ne_self _ (congrArg cacheMisses h)

theorem appendAudit_eq_self_iff {entry : Record} :
    s.appendAudit entry = s ↔ s.auditLog = List.replicate 200 entry := by
  refine Iff.trans ?_ (Window.rtake_concat_eq_self_iff (Nat.succ_pos 199))
  rw [← auditLog_appendAudit]
  constructor
  · exact fun h => congrArg auditLog h
  · intro h
    rw [appendAudit] at h ⊢
    dsimp only at h
    rw [h]

/-- **A call changes nothing exactly when the store knows it.** -/
theorem callAt_eq_self_iff (s : StateStore) (now : String) (c : StoreCall) :
    s.callAt now c = s ↔ s.Knows now c := by
  cases c with
  | upsertContainer containerId data => exact upsertContainer_stamp_eq_self_iff
  | markCritical containerId => exact markCritical_eq_self_iff
  | upsertWorker workerId data => exact upsertWorker_stamp_eq_self_iff
  | markWorkerDead workerId => exact markWorkerDead_stamp_eq_self_iff
  | setQueueDepth depth => exact setQueueDepth_eq_self_iff
  | recordCacheEvent hit => exact iff_of_false (recordCacheEvent_ne_self hit) id
  | appendAudit event => exact appendAudit_eq_self_iff

end StateStore

/-! ## The loop on a promoted standby -/

/-- A step of `state_mirror_loop`. -/
def StoresLabel.ofMirror : StoresLabel → Bool
  | .mirror | .statusAnswered | .auditAnswered | .mirrorCalls _ | .mirrorFails => true
  | _ => false

namespace MasterStores

/-- A step of the loop on a promoted standby leaves the store as it is. -/
def MirrorSilent (s : MasterStores) (l : StoresLabel) (s' : MasterStores) : Prop :=
  s.standby.isPrimary = true → l.ofMirror = true → s'.standby.store = s.standby.store

/-- A call of the loop on a promoted standby is known to the store. -/
def NothingNew (s : MasterStores) (l : StoresLabel) (_ : MasterStores) : Prop :=
  s.standby.isPrimary = true → ∀ now, l = .mirrorCalls now →
    ∀ c ∈ s.standby.mirroring.head?, s.standby.store.Knows now c

/-- Among the steps of the loop the calls are those that touch the store. -/
theorem mirrorSilent_iff_nothingNew {s s' : MasterStores} {l : StoresLabel}
    (h : s.step l = some s') : s.MirrorSilent l s' ↔ s.NothingNew l s' := by
  refine imp_congr_right fun _ => ?_
  cases step_cases h with
  | mirrors now c calls hcalls =>
    rw [hcalls]
    constructor
    · intro hsilent now' hnow c' hc'
      cases hnow
      cases hc'
      exact (StateStore.callAt_eq_self_iff _ _ _).mp (hsilent rfl)
    · intro hknown _
      exact (StateStore.callAt_eq_self_iff _ _ _).mpr (hknown now rfl c rfl)
  | waits l hl primary hprimary standby hstandby =>
    refine iff_of_true (fun _ => hstandby) fun now hnow => ?_
    subst hnow
    cases hl
  | _ => exact iff_of_true (by rintro ⟨⟩) (by rintro _ ⟨⟩)

/-- **When a promoted standby is not overwritten.**  In a run of the two processes, no step of
`state_mirror_loop` changes the store of the promoted standby, if and only if every call that
the loop makes after the promotion is one that the store knows. -/
theorem mirror_silent_iff (file : StateStore) (ls : List StoresLabel) :
    Machine.Meets step MirrorSilent (start file) ls ↔
      Machine.Meets step NothingNew (start file) ls := by
  refine Machine.meets_iff_meets (I := fun _ => True) (fun _ _ _ _ _ _ => trivial) ?_ trivial ls
  intro s l s' _ h
  exact mirrorSilent_iff_nothingNew h

/-- The container starts at the primary, and the standby mirrors it. -/
def mirroredOnce : List StoresLabel :=
  [.primaryLoads, .primaryClears,
    .primary (.upsertContainer "c1" (.ofFields [("container_id", .str "c1"), ("name", .str "web"),
      ("image", .str "nginx"), ("status", .str "running")])) "10:00:00",
    .mirror, .statusReads, .status none, .statusAnswered, .mirrorCalls "10:00:05",
    .mirrorCalls "10:00:05", .auditLog, .auditAnswered]

/-- The standby asks again; the primary answers and goes down; three pings fail, and the new
primary records that the container has died.  Then the answer arrives. -/
def diesBeforeAnswer : List StoresLabel :=
  [.mirror, .statusReads, .status none, .primaryStops,
    .ping, .pingFails, .ping, .pingFails, .ping, .pingFails,
    .standby (.upsertContainer "c1" (.ofFields [("status", .str "dead")])) "10:00:12",
    .standby (.appendAudit (.ofFields [("event_id", .str "e1"),
      ("event_type", .str "container_die"), ("container_id", .str "c1"),
      ("action", .str "container_stopped")])) "10:00:12",
    .statusAnswered]

/-- `status` of the container in the store of the standby. -/
def containerStatus (s : MasterStores) (cid : String) : Option String :=
  ((s.standby.store.containers.get? cid).bind fun record => record.get? "status").bind Json.str?

/-- The late answer has the dead container running again. -/
theorem late_answer_overwrites :
    ∃ s s', Machine.exec step (start .empty) (mirroredOnce ++ diesBeforeAnswer) = some s ∧
      s.step (.mirrorCalls "10:00:13") = some s' ∧ s.standby.isPrimary = true ∧
      s.containerStatus "c1" = some "dead" ∧ s'.containerStatus "c1" = some "running" ∧
      ¬ s.MirrorSilent (.mirrorCalls "10:00:13") s' := by
  have hruns : ((Machine.exec step (start .empty) (mirroredOnce ++ diesBeforeAnswer)).bind fun s =>
      (s.step (.mirrorCalls "10:00:13")).map fun s' =>
        (s.standby.isPrimary, s.containerStatus "c1", s'.containerStatus "c1")) =
      some (true, some "dead", some "running") := by
    decide +kernel
  obtain ⟨s, hs, hstep⟩ := Option.bind_eq_some_iff.mp hruns
  obtain ⟨s', hs', heq⟩ := Option.map_eq_some_iff.mp hstep
  obtain ⟨hprimary, hstatus⟩ := Prod.mk.inj heq
  obtain ⟨hdead, hrunning⟩ := Prod.mk.inj hstatus
  refine ⟨s, s', hs, hs', hprimary, hdead, hrunning, fun hsilent => ?_⟩
  have hsame := hsilent hprimary rfl
  rw [containerStatus, hsame, ← containerStatus, hdead] at hrunning
  exact absurd hrunning (by decide)

end MasterStores
end Rcsce
