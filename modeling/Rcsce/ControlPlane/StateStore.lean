import Rcsce.Lib.OrderedDict
import Rcsce.Lib.Window
import Rcsce.Lib.Json

/-!
# The state of a control-plane process

`StateStore` of `control_plane/core/state_store.py`.  The lock makes every method one
step.  A record is a dictionary that later upserts are merged into.

Whether a container is critical is kept twice: in the set that `is_critical` reads, and
as a field of its record, which `mark_critical` writes when there is a record.  An upsert
never touches the set.

The stamps `updated_at`, `last_seen` and `logged_at`, which the methods write into what they
touch and never read, are not written here: `Persistence` puts them behind each mutator, and
`MasterStores` behind each call of the two processes.  What a result over the methods of this
module says is said without the stamps; whatever depends on them, as the file and whether a
call changes anything do, is proved there.
-/

namespace Rcsce

/-- A container, a worker or an audit entry. -/
abbrev Record := OrderedDict String Json

namespace Record

/-- `{**record, **data}`. -/
def update (record data : Record) : Record :=
  data.entries.foldl (fun r field => r.set field.1 field.2) record

/-- A dictionary display. -/
def ofFields (fields : List (String × Json)) : Record :=
  fields.foldl (fun r field => r.set field.1 field.2) .empty

/-- A field of the data replaces the one of the record. -/
theorem get?_update (record data : Record) (key : String) :
    (record.update data).get? key = (data.get? key).or (record.get? key) := by
  rw [update]
  cases h : data.get? key with
  | some v =>
    exact OrderedDict.get?_foldl_merge_of_mem (fun _ w => w) data.nodup record
      (OrderedDict.get?_eq_some_iff.mp h)
  | none =>
    exact OrderedDict.get?_foldl_merge_of_notMem (fun _ w => w) data.entries record
      (OrderedDict.get?_eq_none_iff.mp h)

/-- What a dictionary display holds, when its keys are distinct. -/
theorem get?_ofFields_of_mem {fields : List (String × Json)} {key : String} {v : Json}
    (hnodup : (fields.map Prod.fst).Nodup) (h : (key, v) ∈ fields) :
    (ofFields fields).get? key = some v :=
  OrderedDict.get?_foldl_merge_of_mem (fun _ w => w) hnodup .empty h

theorem get?_ofFields_of_notMem {fields : List (String × Json)} {key : String}
    (h : key ∉ fields.map Prod.fst) : (ofFields fields).get? key = none :=
  OrderedDict.get?_foldl_merge_of_notMem (fun _ w => w) fields .empty h

/-- The record has every field of the data, with the same value. -/
def Has (record data : Record) : Prop :=
  ∀ key v, data.get? key = some v → record.get? key = some v

/-- An update of fields that the record has keeps them in order. -/
theorem keys_update {record data : Record} (h : ∀ key ∈ data, key ∈ record) :
    (record.update data).keys = record.keys := by
  rw [update]
  have hfields : ∀ field ∈ data.entries, field.1 ∈ record := fun field hmem =>
    h field.1 (List.mem_map_of_mem hmem)
  generalize data.entries = fields at hfields
  induction fields generalizing record with
  | nil => rfl
  | cons field fields ih =>
    have hkeys := OrderedDict.keys_set_of_mem (hfields field List.mem_cons_self) field.2
    rw [List.foldl_cons, ih, hkeys]
    · intro key hkey
      rw [OrderedDict.mem_def, hkeys]
      exact h key hkey
    · intro field' hmem
      rw [OrderedDict.mem_def, hkeys]
      exact hfields field' (List.mem_cons_of_mem _ hmem)

/-- A record that is written with these fields over its own is the same exactly when they bring
nothing new. -/
theorem eq_self_iff_has {record written data : Record}
    (hget : ∀ key, written.get? key = (data.get? key).or (record.get? key))
    (hkeys : (∀ key ∈ data, key ∈ record) → written.keys = record.keys) :
    written = record ↔ record.Has data := by
  constructor
  · intro h key v hv
    rw [← h, hget, hv, Option.some_or]
  · intro h
    have hdata : ∀ key ∈ data, key ∈ record := by
      intro key hmem
      obtain ⟨v, hv⟩ := OrderedDict.mem_iff_get?.mp hmem
      exact OrderedDict.mem_of_get? (h key v hv)
    refine OrderedDict.ext_get? (hkeys hdata) fun key => ?_
    rw [hget]
    cases hv : data.get? key with
    | none => rw [Option.none_or]
    | some v => rw [Option.some_or, h key v hv]

/-- An update, and one more field set afterwards. -/
theorem set_update_eq_self_iff {record data : Record} {key : String} {v : Json} :
    (record.update data).set key v = record ↔ record.Has (data.set key v) := by
  refine eq_self_iff_has (fun key' => ?_) fun hmem => ?_
  · rw [OrderedDict.get?_set, OrderedDict.get?_set, get?_update]
    split_ifs
    · rw [Option.some_or]
    · rfl
  · have hkeys := keys_update fun key' hdata => hmem key' (OrderedDict.mem_set.mpr (Or.inr hdata))
    rw [OrderedDict.keys_set_of_mem, hkeys]
    rw [OrderedDict.mem_def, hkeys]
    exact hmem key (OrderedDict.mem_set.mpr (Or.inl rfl))

/-- An update, and two more fields set afterwards. -/
theorem set_set_update_eq_self_iff {record data : Record} {key key' : String} {v v' : Json} :
    ((record.update data).set key v).set key' v' = record ↔
      record.Has ((data.set key v).set key' v') := by
  refine eq_self_iff_has (fun k => ?_) fun hmem => ?_
  · rw [OrderedDict.get?_set, OrderedDict.get?_set, OrderedDict.get?_set, OrderedDict.get?_set,
      get?_update]
    split_ifs
    · rw [Option.some_or]
    · rw [Option.some_or]
    · rfl
  · have hset : ∀ k ∈ data.set key v, k ∈ record := fun k hk =>
      hmem k (OrderedDict.mem_set.mpr (Or.inr hk))
    have hkeys := keys_update fun k hdata => hset k (OrderedDict.mem_set.mpr (Or.inr hdata))
    have hkey : key ∈ record.update data := by
      rw [OrderedDict.mem_def, hkeys]
      exact hset key (OrderedDict.mem_set.mpr (Or.inl rfl))
    have hkey' : key' ∈ (record.update data).set key v := by
      rw [OrderedDict.mem_def, OrderedDict.keys_set_of_mem hkey, hkeys]
      exact hmem key' (OrderedDict.mem_set.mpr (Or.inl rfl))
    rw [OrderedDict.keys_set_of_mem hkey', OrderedDict.keys_set_of_mem hkey, hkeys]

end Record

/-- `StateStore`. -/
structure StateStore where
  containers : OrderedDict String Record
  workers : OrderedDict String Record
  /-- `_critical_containers`. -/
  critical : Finset String
  auditLog : List Record
  queueDepth : Json
  cacheHits : ℕ
  cacheMisses : ℕ

namespace StateStore

/-- A store without a snapshot. -/
def empty : StateStore := ⟨.empty, .empty, ∅, [], .num 0, 0, 0⟩

/-- `upsert_container`. -/
def upsertContainer (s : StateStore) (containerId : String) (data : Record) : StateStore :=
  { s with
    containers := s.containers.set containerId
      (((s.containers.get? containerId).getD .empty).update data) }

/-- `remove_container`. -/
def removeContainer (s : StateStore) (containerId : String) : StateStore :=
  { s with containers := s.containers.erase containerId }

/-- `mark_critical`. -/
def markCritical (s : StateStore) (containerId : String) : StateStore :=
  { s with
    critical := insert containerId s.critical
    containers := s.containers.modify containerId fun record =>
      record.set "is_critical" (.bool true) }

/-- `is_critical`. -/
def isCritical (s : StateStore) (containerId : String) : Bool := containerId ∈ s.critical

/-- `upsert_worker`. -/
def upsertWorker (s : StateStore) (workerId : String) (data : Record) : StateStore :=
  { s with
    workers := s.workers.set workerId
      ((((s.workers.get? workerId).getD .empty).update data).set "worker_id" (.str workerId)) }

/-- `mark_worker_dead`. -/
def markWorkerDead (s : StateStore) (workerId : String) : StateStore :=
  { s with
    workers := s.workers.set workerId (((s.workers.get? workerId).getD .empty).update
      (.ofFields [("worker_id", .str workerId), ("status", .str "dead"), ("load", .num 0)])) }

/-- `remove_worker`. -/
def removeWorker (s : StateStore) (workerId : String) : StateStore :=
  { s with workers := s.workers.erase workerId }

/-- `clear_all_workers`. -/
def clearAllWorkers (s : StateStore) : StateStore := { s with workers := .empty }

/-- `set_queue_depth`. -/
def setQueueDepth (s : StateStore) (depth : Json) : StateStore := { s with queueDepth := depth }

/-- `record_cache_event`. -/
def recordCacheEvent (s : StateStore) (hit : Bool) : StateStore :=
  if hit then { s with cacheHits := s.cacheHits + 1 }
  else { s with cacheMisses := s.cacheMisses + 1 }

/-- `log[-200:]`. -/
def lastEntries (log : List Record) : List Record := log.drop (log.length - 200)

/-- `append_audit`. -/
def appendAudit (s : StateStore) (event : Record) : StateStore :=
  { s with auditLog := lastEntries (s.auditLog ++ [event]) }

/-- The audit log is the window of 200 entries over what was appended. -/
theorem auditLog_appendAudit (s : StateStore) (event : Record) :
    (s.appendAudit event).auditLog = (s.auditLog ++ [event]).rtake 200 := by
  rw [appendAudit, lastEntries, List.rtake]

@[simp] theorem auditLog_upsertContainer (s : StateStore) (c : String) (data : Record) :
    (s.upsertContainer c data).auditLog = s.auditLog := rfl

@[simp] theorem auditLog_markCritical (s : StateStore) (c : String) :
    (s.markCritical c).auditLog = s.auditLog := rfl

/-! ## Who is critical -/

@[simp] theorem isCritical_iff {s : StateStore} {c : String} :
    s.isCritical c = true ↔ c ∈ s.critical := by
  rw [isCritical, decide_eq_true_iff]

@[simp] theorem critical_upsertContainer (s : StateStore) (c : String) (data : Record) :
    (s.upsertContainer c data).critical = s.critical := rfl

@[simp] theorem critical_markCritical (s : StateStore) (c : String) :
    (s.markCritical c).critical = insert c s.critical := rfl

@[simp] theorem critical_upsertWorker (s : StateStore) (w : String) (data : Record) :
    (s.upsertWorker w data).critical = s.critical := rfl

@[simp] theorem critical_setQueueDepth (s : StateStore) (depth : Json) :
    (s.setQueueDepth depth).critical = s.critical := rfl

@[simp] theorem critical_recordCacheEvent (s : StateStore) (hit : Bool) :
    (s.recordCacheEvent hit).critical = s.critical := by
  cases hit <;> rfl

@[simp] theorem critical_appendAudit (s : StateStore) (event : Record) :
    (s.appendAudit event).critical = s.critical := by
  rw [appendAudit]

end StateStore
end Rcsce
