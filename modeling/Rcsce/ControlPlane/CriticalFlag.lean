import Rcsce.ControlPlane.DockerListener
import Rcsce.ControlPlane.Persistence

/-!
# The two records of criticality

Whether a container is critical is kept in the set, which decides whether it is failed over,
and in its record, which the dashboard shows.  `mark_critical` writes both, but the field only
when there is a record.  An `upsert_container` writes neither: a record that it creates for a
container that is in the set already has no field.

`Agree` says that the two are the same for every container that has a record.
`agree_iff_createsUnmarked` is exact: they agree throughout a run, restarts included, if and
only if no upsert creates the record of a container that is in the set.
-/

namespace Rcsce

variable (num : NumberText)

/-- The calls of `upsert_container`, with what they pass. -/
inductive ContainerUpdate where
  | start (e : DockerEvent)
  | cacheHit (e : DockerEvent) (vulns : JsonValue num)
  | stopped (e : DockerEvent)
  | replica (f : Failover) (id : String) (recovered : Bool)
  | scanComplete (containerId : String) (vulns status : JsonValue num)

/-- The mutators of the containers, as the program calls them. -/
inductive ContainerOp where
  | upsert (u : ContainerUpdate num)
  | remove (containerId : String)
  | markCritical (containerId : String)

/-- What can happen next: a mutator is called, or a new process starts. -/
inductive ContainerMove where
  | saved (op : ContainerOp num) (now savedAt : String) (order : List String)
  | restart

variable {num}

namespace ContainerUpdate

def containerId : ContainerUpdate num → String
  | .start e => e.containerId
  | .cacheHit e _ => e.containerId
  | .stopped e => e.containerId
  | .replica _ id _ => leading 12 id
  | .scanComplete containerId _ _ => containerId

def fields : ContainerUpdate num → List (String × Json)
  | .start e => [("container_id", .str e.containerId), ("name", .str e.containerName),
      ("image", .str e.imageName), ("status", .str "running")]
  | .cacheHit _ vulns => [("vulnerabilities", vulns.value), ("scan_status", .str "cache_hit")]
  | .stopped e => [("status", .str (StateStore.stoppedStatus e.action))]
  | .replica f id recovered => [("container_id", .str (leading 12 id)),
      ("name", .str f.replicaName), ("image", .str f.image),
      ("status", .str (if recovered then "running" else "unknown")), ("is_replica", .bool true),
      ("original_id", .str f.originalId)]
  | .scanComplete _ vulns status =>
      [("vulnerabilities", vulns.value), ("scan_status", status.value)]

/-- No caller passes the field. -/
theorem isCritical_notMem_fields (u : ContainerUpdate num) :
    "is_critical" ∉ u.fields.map Prod.fst := by
  cases u <;> simp [fields]

theorem isJson_fields (u : ContainerUpdate num) : ∀ f ∈ u.fields, Json.IsJson num f.2 := by
  cases u with
  | cacheHit e vulns => simp [fields, vulns.isJson, Json.IsJson.str]
  | scanComplete c vulns status => simp [fields, vulns.isJson, status.isJson]
  | _ => simp [fields, Json.IsJson.str, Json.IsJson.bool]

theorem isJson_ofFields {fields : List (String × Json)} (h : ∀ f ∈ fields, Json.IsJson num f.2) :
    Record.IsJson num (.ofFields fields) := by
  induction fields using List.reverseRecOn with
  | nil => exact Record.isJson_empty
  | append_singleton fields f ih =>
    rw [Record.ofFields, List.foldl_concat]
    exact (ih fun f' hf' => h f' (List.mem_append_left _ hf')).set
      (h f (List.mem_append_right _ List.mem_cons_self))

def data (u : ContainerUpdate num) : JsonRecord num :=
  ⟨.ofFields u.fields, isJson_ofFields u.isJson_fields⟩

end ContainerUpdate

namespace StateStore

/-! ## The two records -/

/-- The field of the record of a container. -/
def criticalField (s : StateStore) (c : String) : Option Json :=
  (s.containers.get? c).bind fun record => record.get? "is_critical"

/-- Every container that has a record has the field if and only if it is in the set. -/
def Agree (s : StateStore) : Prop :=
  ∀ c ∈ s.containers, s.criticalField c = some (.bool true) ↔ c ∈ s.critical

theorem agree_empty : empty.Agree := fun c hc => absurd hc (OrderedDict.notMem_empty c)

/-- An upsert without the field changes it for nobody. -/
theorem criticalField_upsertContainer (s : StateStore) (c now : String) {data : Record}
    (hdata : data.get? "is_critical" = none) (k : String) :
    ((s.upsertContainer c data).stampContainer c now).criticalField k = s.criticalField k := by
  rw [criticalField, stampContainer, OrderedDict.get?_modify, upsertContainer,
    OrderedDict.get?_set, criticalField]
  split_ifs with hk
  · subst hk
    rw [Option.map_some, Option.bind_some, OrderedDict.get?_set_of_ne _ _ (by decide),
      Record.get?_update, hdata, Option.none_or]
    cases s.containers.get? k <;> rfl
  · rfl

/-- **One upsert.**  It breaks the agreement exactly when it creates the record of a container
that is in the set. -/
theorem agree_upsertContainer_iff {s : StateStore} (hs : s.Agree) (c now : String) {data : Record}
    (hdata : data.get? "is_critical" = none) :
    ((s.upsertContainer c data).stampContainer c now).Agree ↔
      c ∈ s.containers ∨ c ∉ s.critical := by
  have hfield := s.criticalField_upsertContainer c now hdata
  have hmem : ∀ k, k ∈ ((s.upsertContainer c data).stampContainer c now).containers ↔
      k = c ∨ k ∈ s.containers := fun k => OrderedDict.mem_modify.trans OrderedDict.mem_set
  rw [Agree]
  simp only [hmem, hfield]
  show (∀ k, k = c ∨ k ∈ s.containers → (s.criticalField k = some (.bool true) ↔
    k ∈ s.critical)) ↔ _
  constructor
  · intro h
    refine or_iff_not_imp_left.mpr fun hnot hcritical => ?_
    have hnone : s.criticalField c = none := by
      rw [criticalField, OrderedDict.get?_eq_none_iff.mpr hnot, Option.bind_none]
    have hsome := (h c (Or.inl rfl)).mpr hcritical
    rw [hnone] at hsome
    cases hsome
  · rintro h k (rfl | hk)
    · rcases h with hk | hnot
      · exact hs k hk
      · by_cases hk : k ∈ s.containers
        · exact hs k hk
        · rw [criticalField, OrderedDict.get?_eq_none_iff.mpr hk, Option.bind_none]
          exact iff_of_false (fun h => nomatch h) hnot
    · exact hs k hk

theorem agree_markCritical {s : StateStore} (hs : s.Agree) (c : String) :
    (s.markCritical c).Agree := by
  intro k hk
  have hk' : k ∈ s.containers := OrderedDict.mem_modify.mp hk
  rw [critical_markCritical, Finset.mem_insert, criticalField, markCritical,
    OrderedDict.get?_modify]
  split_ifs with heq
  · obtain ⟨record, hrecord⟩ := OrderedDict.mem_iff_get?.mp hk'
    rw [hrecord, Option.map_some, Option.bind_some, OrderedDict.get?_set_self]
    exact iff_of_true rfl (Or.inl heq)
  · rw [or_iff_right heq]
    exact hs k hk'

theorem agree_removeContainer {s : StateStore} (hs : s.Agree) (c : String) :
    (s.removeContainer c).Agree := by
  intro k hk
  obtain ⟨hne, hmem⟩ := OrderedDict.mem_erase.mp hk
  rw [criticalField, removeContainer, OrderedDict.get?_erase_of_ne _ hne]
  exact hs k hmem

end StateStore

/-! ## Runs with restarts -/

namespace ContainerOp

/-- The mutator of the store. -/
def op : ContainerOp num → StoreOp num
  | .upsert u => .upsertContainer u.containerId u.data
  | .remove c => .removeContainer c
  | .markCritical c => .markCritical c

/-- If it creates a record, the container is not in the set. -/
def Unmarked (s : StateStore) : ContainerOp num → Prop
  | .upsert u => u.containerId ∈ s.containers ∨ u.containerId ∉ s.critical
  | _ => True

theorem agree_apply_iff {s : StateStore} (hs : s.Agree) (op : ContainerOp num) (now : String) :
    (op.op.apply now s).Agree ↔ op.Unmarked s := by
  cases op with
  | upsert u =>
    exact StateStore.agree_upsertContainer_iff hs _ now
      (Record.get?_ofFields_of_notMem u.isCritical_notMem_fields)
  | remove c => exact iff_of_true (StateStore.agree_removeContainer hs c) trivial
  | markCritical c => exact iff_of_true (StateStore.agree_markCritical hs c) trivial

end ContainerOp

namespace ContainerMove

variable (num)

/-- One step of the process and its file. -/
def step (s : PersistedStore) : ContainerMove num → Option PersistedStore
  | .saved op now savedAt order => s.step num (.saved ⟨op.op, now, savedAt, order⟩)
  | .restart => s.step num .restart

/-- The two records agree. -/
def StoreAgrees (s : PersistedStore) : Prop := s.store.Agree

/-- A mutator that creates a record does so for a container that is not in the set. -/
def CreatesUnmarked (s : PersistedStore) (m : ContainerMove num) (_ : PersistedStore) : Prop :=
  match m with
  | .saved op _ _ _ => op.Unmarked s.store
  | .restart => True

variable {num}

theorem restored_step {s s' : PersistedStore} {m : ContainerMove num}
    (h : s.Restored num ∧ s.store.Savable num) (hstep : step num s m = some s') :
    s'.Restored num ∧ s'.store.Savable num := by
  cases m with
  | saved op now savedAt order =>
    exact PersistedStore.restored_step (m := .saved ⟨op.op, now, savedAt, order⟩) h hstep
  | restart => exact PersistedStore.restored_step (m := .restart) h hstep

theorem agree_step_iff {s s' : PersistedStore} {m : ContainerMove num} (hfile : s.Restored num)
    (hs : s.store.Agree) (hstep : step num s m = some s') :
    s'.store.Agree ↔ CreatesUnmarked num s m s' := by
  cases m with
  | saved op now savedAt order =>
    rw [step, PersistedStore.step] at hstep
    split_ifs at hstep
    cases hstep
    exact ContainerOp.agree_apply_iff hs op now
  | restart =>
    rw [step, PersistedStore.step, hfile.1] at hstep
    cases hstep
    exact iff_of_true hs trivial

variable (num)

/-- **When the two records of criticality agree.**  They agree in every state of a run, with
any number of restarts in it, if and only if no `upsert_container` of the run creates the
record of a container that is in the critical set. -/
theorem agree_iff_createsUnmarked (ms : List (ContainerMove num)) :
    Machine.Visits (step num) StoreAgrees PersistedStore.init ms ↔
      Machine.Meets (step num) (CreatesUnmarked num) PersistedStore.init ms :=
  Machine.visits_iff_meets (I := fun s => s.Restored num ∧ s.store.Savable num)
    (fun _ _ _ hs hstep => restored_step hs hstep)
    (fun _ _ _ hs hagree hstep => agree_step_iff hs.1 hagree hstep)
    ⟨⟨rfl, rfl⟩, StateStore.savable_empty num⟩ StateStore.agree_empty ms

/-- A container is marked before its start event arrives: it will be failed over, and its record
does not say so. -/
theorem marked_before_start :
    ¬ ∀ ms : List (ContainerMove .integers),
      Machine.Visits (step .integers) StoreAgrees PersistedStore.init ms := by
  intro h
  let start : ContainerUpdate .integers :=
    .start ⟨.start, "0123456789abcdef", some "web", some "nginx", none, 1⟩
  have hagree := h [.saved (.markCritical "0123456789ab") "t1" "t1" ["0123456789ab"],
    .saved (.upsert start) "t2" "t2" ["0123456789ab"]] _ (List.prefix_refl _) _ rfl
  have hmarked : (StateStore.empty.markCritical "0123456789ab").Agree :=
    StateStore.agree_markCritical StateStore.agree_empty _
  rcases (ContainerOp.agree_apply_iff hmarked (.upsert start) "t2").mp hagree with hmem | hnot
  · exact absurd hmem (by decide)
  · exact hnot (by decide)

end ContainerMove
end Rcsce
