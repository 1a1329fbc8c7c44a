import Rcsce.Lib.Machine
import Rcsce.Lib.JsonSyntax
import Rcsce.ControlPlane.StateStore

/-!
# The snapshot on the disk

Every mutator of `StateStore` ends with `save_to_disk`, and `StateStore()` begins with
`load_from_disk`.  This module follows one process through its mutators and its restarts, the
file included.

Here the timestamps are part of the records: an operation has the clock reading `now` that it
stamps its record with, and `list(self._critical_containers)` is an order of the set that the
label of the move brings.

The invariant is that the file loads to the store (`PersistedStore.restored`).  It needs
that the store holds JSON values and no more than 200 audit entries (`StateStore.Savable`),
since `save_to_disk` writes the last 200 only.

Nesting has no limit here, and no integer is too long to be read back.
-/

namespace Rcsce

variable (num : NumberText)

/-- The values of a record are JSON values. -/
def Record.IsJson (r : Record) : Prop := ∀ key v, r.get? key = some v → Json.IsJson num v

/-- So are those of all records of a dictionary. -/
def RecordsAreJson (d : OrderedDict String Record) : Prop :=
  ∀ k r, d.get? k = some r → r.IsJson num

namespace StateStore

/-! ## The snapshot -/

/-- A record in the snapshot. -/
def recordJson (r : Record) : Json := .obj r.entries

/-- A dictionary of records in the snapshot. -/
def recordsJson (d : OrderedDict String Record) : Json :=
  .obj (d.entries.map fun e => (e.1, recordJson e.2))

/-- The snapshot that `save_to_disk` takes, with the critical containers in some order. -/
def snapshot (s : StateStore) (order : List String) (savedAt : String) : List (String × Json) :=
  [("containers", recordsJson s.containers),
    ("workers", recordsJson s.workers),
    ("critical_containers", .arr (order.map .str)),
    ("audit_log", .arr ((lastEntries s.auditLog).map recordJson)),
    ("queue_depth", s.queueDepth),
    ("cache_hits", .num s.cacheHits),
    ("cache_misses", .num s.cacheMisses),
    ("saved_at", .str savedAt)]

/-- The text that `save_to_disk` writes. -/
def saveToDisk (s : StateStore) (order : List String) (savedAt : String) : List Char :=
  Json.dump num (.obj (s.snapshot order savedAt))

/-! ## Reading it back -/

def asRecord? : Json → Option Record
  | .obj members => some (.ofPairs members)
  | _ => none

def asRecords? : Json → Option (OrderedDict String Record)
  | .obj members =>
      (members.mapM fun m => (asRecord? m.2).map fun r => (m.1, r)).map OrderedDict.ofPairs
  | _ => none

def asLog? : Json → Option (List Record)
  | .arr elems => elems.mapM asRecord?
  | _ => none

def asString? : Json → Option String
  | .str s => some s
  | _ => none

def asStrings? : Json → Option (List String)
  | .arr elems => elems.mapM asString?
  | _ => none

def asCount? : Json → Option ℕ
  | .num q => if (q.num.toNat : ℚ) = q then some q.num.toNat else none
  | _ => none

/-- `snapshot.get(key, default)`. -/
def snapshotGet (members : List (String × Json)) (key : String) (default : Json) : Json :=
  (members.lookup key).getD default

/-- The store of a snapshot.  `none` stands for a member of a shape that no save writes; the
source would keep it as it is. -/
def ofSnapshot? (members : List (String × Json)) : Option StateStore := do
  let containers ← asRecords? (snapshotGet members "containers" (.obj []))
  let workers ← asRecords? (snapshotGet members "workers" (.obj []))
  let critical ← asStrings? (snapshotGet members "critical_containers" (.arr []))
  let auditLog ← asLog? (snapshotGet members "audit_log" (.arr []))
  let cacheHits ← asCount? (snapshotGet members "cache_hits" (.num 0))
  let cacheMisses ← asCount? (snapshotGet members "cache_misses" (.num 0))
  return {
    containers := containers
    workers := workers
    critical := critical.toFinset
    auditLog := auditLog
    queueDepth := snapshotGet members "queue_depth" (.num 0)
    cacheHits := cacheHits
    cacheMisses := cacheMisses }

/-- The store after `load_from_disk`.  Without a file, or with one that does not load to an
object, it stays as it was created. -/
def loadFromDisk (file : Option (List Char)) : Option StateStore :=
  match file.bind (Json.loads num) with
  | some (.obj members) => ofSnapshot? members
  | _ => some empty

theorem mapM_map_eq_some {α β : Type} {f : α → β} {g : β → Option α} {l : List α}
    (h : ∀ x ∈ l, g (f x) = some x) : (l.map f).mapM g = some l := by
  induction l with
  | nil => rfl
  | cons x l ih =>
    have hl := ih fun y hy => h y (List.mem_cons_of_mem _ hy)
    rw [List.map_cons, List.mapM_cons, h x List.mem_cons_self, hl]
    rfl

theorem asRecord?_recordJson (r : Record) : asRecord? (recordJson r) = some r := by
  rw [recordJson, asRecord?, OrderedDict.ofPairs_entries]

theorem asRecords?_recordsJson (d : OrderedDict String Record) :
    asRecords? (recordsJson d) = some d := by
  rw [recordsJson, asRecords?, mapM_map_eq_some, Option.map_some, OrderedDict.ofPairs_entries]
  intro e _
  rw [asRecord?_recordJson, Option.map_some]

theorem asCount?_natCast (n : ℕ) : asCount? (.num n) = some n := by
  rw [asCount?, Rat.num_natCast, Int.toNat_natCast, if_pos rfl]

theorem ofSnapshot?_snapshot {s : StateStore} (hlog : s.auditLog.length ≤ 200)
    {order : List String} (horder : order.toFinset = s.critical) (savedAt : String) :
    ofSnapshot? (s.snapshot order savedAt) = some s := by
  have hentries : lastEntries s.auditLog = s.auditLog := Window.rtake_of_length_le hlog
  have hcritical : asStrings? (.arr (order.map .str)) = some order :=
    mapM_map_eq_some fun _ _ => rfl
  have haudit : asLog? (.arr ((lastEntries s.auditLog).map recordJson)) = some s.auditLog := by
    rw [hentries]
    exact mapM_map_eq_some fun r _ => asRecord?_recordJson r
  simp only [ofSnapshot?, snapshotGet, snapshot, List.lookup_cons, beq_self_eq_true,
    Option.getD_some]
  simp only [String.reduceBEq, Option.getD_some]
  rw [asRecords?_recordsJson, asRecords?_recordsJson, hcritical, haudit, asCount?_natCast,
    asCount?_natCast]
  show some { s with critical := order.toFinset } = some s
  rw [horder]

/-! ## What can be saved -/

/-- The store holds JSON values, and no more of the log than a save writes. -/
structure Savable (s : StateStore) : Prop where
  containers : RecordsAreJson num s.containers
  workers : RecordsAreJson num s.workers
  auditLog : ∀ r ∈ s.auditLog, r.IsJson num
  length_auditLog : s.auditLog.length ≤ 200
  queueDepth : Json.IsJson num s.queueDepth

theorem savable_empty : Savable num empty where
  containers _ _ h := nomatch h
  workers _ _ h := nomatch h
  auditLog _ h := nomatch h
  length_auditLog := Nat.zero_le _
  queueDepth := .num (num.isNumber_natCast 0)

variable {num}

theorem isJson_recordJson {r : Record} (h : r.IsJson num) : Json.IsJson num (recordJson r) :=
  .obj r.nodup fun m hm => h m.1 m.2 (OrderedDict.get?_eq_some_iff.mpr hm)

theorem isJson_recordsJson {d : OrderedDict String Record} (h : RecordsAreJson num d) :
    Json.IsJson num (recordsJson d) := by
  refine .obj ?_ ?_
  · rw [List.map_map]
    exact d.nodup
  · intro m hm
    obtain ⟨e, he, rfl⟩ := List.mem_map.mp hm
    exact isJson_recordJson (h e.1 e.2 (OrderedDict.get?_eq_some_iff.mpr he))

theorem Savable.isJson_snapshot {s : StateStore} (h : s.Savable num) (order : List String)
    (savedAt : String) : Json.IsJson num (.obj (s.snapshot order savedAt)) := by
  have hcritical : Json.IsJson num (.arr (order.map .str)) := by
    refine .arr fun v hv => ?_
    obtain ⟨c, -, rfl⟩ := List.mem_map.mp hv
    exact .str c
  have haudit : Json.IsJson num (.arr ((lastEntries s.auditLog).map recordJson)) := by
    refine .arr fun v hv => ?_
    obtain ⟨r, hr, rfl⟩ := List.mem_map.mp hv
    exact isJson_recordJson (h.auditLog r (List.mem_of_mem_drop hr))
  refine .obj (by simp [snapshot]) fun m hm => ?_
  simp only [snapshot, List.mem_cons, List.not_mem_nil, or_false] at hm
  rcases hm with rfl | rfl | rfl | rfl | rfl | rfl | rfl | rfl
  · exact isJson_recordsJson h.containers
  · exact isJson_recordsJson h.workers
  · exact hcritical
  · exact haudit
  · exact h.queueDepth
  · exact .num (num.isNumber_natCast _)
  · exact .num (num.isNumber_natCast _)
  · exact .str savedAt

/-- **A store that was saved is loaded.** -/
theorem Savable.loadFromDisk_saveToDisk {s : StateStore} (h : s.Savable num)
    {order : List String} (horder : order.toFinset = s.critical) (savedAt : String) :
    loadFromDisk num (some (s.saveToDisk num order savedAt)) = some s := by
  rw [loadFromDisk, Option.bind_some, saveToDisk, Json.loads_dump num (h.isJson_snapshot _ _)]
  exact ofSnapshot?_snapshot h.length_auditLog horder savedAt

end StateStore

/-! ## The operations -/

section Operations

/-- A record of JSON values. -/
structure JsonRecord where
  record : Record
  isJson : record.IsJson num

/-- A JSON value. -/
structure JsonValue where
  value : Json
  isJson : Json.IsJson num value

/-- The mutators of the store with their arguments. -/
inductive StoreOp where
  | upsertContainer (containerId : String) (data : JsonRecord num)
  | removeContainer (containerId : String)
  | markCritical (containerId : String)
  | upsertWorker (workerId : String) (data : JsonRecord num)
  | markWorkerDead (workerId : String)
  | removeWorker (workerId : String)
  | clearAllWorkers
  | setQueueDepth (depth : JsonValue num)
  | recordCacheEvent (hit : Bool)
  | appendAudit (event : JsonRecord num)

namespace StateStore

/-- The time of the update, which `upsert_container` puts behind the data. -/
def stampContainer (s : StateStore) (containerId now : String) : StateStore :=
  { s with
    containers := s.containers.modify containerId fun record =>
      record.set "updated_at" (.str now) }

/-- The same for a worker. -/
def stampWorker (s : StateStore) (workerId now : String) : StateStore :=
  { s with
    workers := s.workers.modify workerId fun record => record.set "last_seen" (.str now) }

end StateStore

variable {num}

/-- The entry that `append_audit` appends. -/
def JsonRecord.logged (event : JsonRecord num) (now : String) : Record :=
  event.record.set "logged_at" (.str now)

namespace StoreOp

/-- The store after a mutator has run at the time `now`. -/
def apply (now : String) (s : StateStore) : StoreOp num → StateStore
  | .upsertContainer c data => (s.upsertContainer c data.record).stampContainer c now
  | .removeContainer c => s.removeContainer c
  | .markCritical c => s.markCritical c
  | .upsertWorker w data => (s.upsertWorker w data.record).stampWorker w now
  | .markWorkerDead w => (s.markWorkerDead w).stampWorker w now
  | .removeWorker w => s.removeWorker w
  | .clearAllWorkers => s.clearAllWorkers
  | .setQueueDepth depth => s.setQueueDepth depth.value
  | .recordCacheEvent hit => s.recordCacheEvent hit
  | .appendAudit event => s.appendAudit (event.logged now)

/-- What the mutator appends to the log. -/
def appended (now : String) : StoreOp num → List Record
  | .appendAudit event => [event.logged now]
  | _ => []

end StoreOp

namespace Record

theorem IsJson.set {r : Record} (h : r.IsJson num) {key : String} {v : Json}
    (hv : Json.IsJson num v) : Record.IsJson num (r.set key v) := by
  intro key' w hw
  rw [OrderedDict.get?_set] at hw
  split_ifs at hw
  · exact Option.some.inj hw ▸ hv
  · exact h key' w hw

theorem IsJson.update {r data : Record} (h : r.IsJson num) (hdata : data.IsJson num) :
    (r.update data).IsJson num := by
  intro key v hv
  rw [get?_update] at hv
  rcases Option.or_eq_some_iff.mp hv with hnew | ⟨-, hold⟩
  · exact hdata key v hnew
  · exact h key v hold

theorem isJson_empty : Record.IsJson num .empty := fun _ _ h => nomatch h

theorem isJson_dead (w : String) : Record.IsJson num
    (.ofFields [("worker_id", .str w), ("status", .str "dead"), ("load", .num 0)]) := by
  rw [ofFields]
  simp only [List.foldl_cons, List.foldl_nil]
  exact ((isJson_empty.set (.str w)).set (.str "dead")).set (.num (num.isNumber_natCast 0))

end Record

namespace RecordsAreJson

variable {d : OrderedDict String Record}

theorem set (h : RecordsAreJson num d) {k : String} {r : Record} (hr : r.IsJson num) :
    RecordsAreJson num (d.set k r) := by
  intro k' r' hr'
  rw [OrderedDict.get?_set] at hr'
  split_ifs at hr'
  · exact Option.some.inj hr' ▸ hr
  · exact h k' r' hr'

theorem erase (h : RecordsAreJson num d) (k : String) : RecordsAreJson num (d.erase k) :=
  fun k' r hr => h k' r (OrderedDict.get?_of_get?_erase hr)

theorem modify (h : RecordsAreJson num d) (k : String) {f : Record → Record}
    (hf : ∀ r : Record, r.IsJson num → (f r).IsJson num) : RecordsAreJson num (d.modify k f) := by
  intro k' r hr
  rw [OrderedDict.get?_modify] at hr
  split_ifs at hr
  · obtain ⟨r', hr', rfl⟩ := Option.map_eq_some_iff.mp hr
    exact hf r' (h k' r' hr')
  · exact h k' r hr

theorem getD (h : RecordsAreJson num d) (k : String) :
    Record.IsJson num ((d.get? k).getD .empty) := by
  cases hk : d.get? k with
  | none => exact Record.isJson_empty
  | some r => exact h k r hk

end RecordsAreJson

namespace StateStore.Savable

variable {s : StateStore}

theorem stampContainer (h : s.Savable num) (c now : String) :
    (s.stampContainer c now).Savable num :=
  { h with containers := h.containers.modify c fun _ hr => hr.set (.str now) }

theorem stampWorker (h : s.Savable num) (w now : String) : (s.stampWorker w now).Savable num :=
  { h with workers := h.workers.modify w fun _ hr => hr.set (.str now) }

theorem withLog (h : s.Savable num) {log : List Record} (hlog : ∀ r ∈ log, r.IsJson num)
    (hlength : log.length ≤ 200) : { s with auditLog := log }.Savable num :=
  { h with auditLog := hlog, length_auditLog := hlength }

theorem appendAudit (h : s.Savable num) {event : Record} (hevent : event.IsJson num) :
    (s.appendAudit event).Savable num := by
  rw [StateStore.appendAudit]
  refine h.withLog (fun r hr => ?_) (Window.length_rtake_le 200 _)
  rcases List.mem_append.mp ((Window.rtake_suffix 200 _).subset hr) with hold | hnew
  · exact h.auditLog r hold
  · exact List.mem_singleton.mp hnew ▸ hevent

/-- Every mutator keeps the store savable. -/
theorem apply (h : s.Savable num) (now : String) (op : StoreOp num) :
    (op.apply now s).Savable num := by
  cases op with
  | upsertContainer c data =>
    have hupsert : (s.upsertContainer c data.record).Savable num :=
      { h with containers := h.containers.set ((h.containers.getD c).update data.isJson) }
    exact hupsert.stampContainer c now
  | removeContainer c => exact { h with containers := h.containers.erase c }
  | markCritical c =>
    exact { h with containers := h.containers.modify c fun _ hr => hr.set (.bool true) }
  | upsertWorker w data =>
    have hupsert : (s.upsertWorker w data.record).Savable num :=
      { h with
        workers := h.workers.set (((h.workers.getD w).update data.isJson).set (.str w)) }
    exact hupsert.stampWorker w now
  | markWorkerDead w =>
    have hdead : (s.markWorkerDead w).Savable num :=
      { h with workers := h.workers.set ((h.workers.getD w).update (Record.isJson_dead w)) }
    exact hdead.stampWorker w now
  | removeWorker w => exact { h with workers := h.workers.erase w }
  | clearAllWorkers => exact { h with workers := fun _ _ hr => nomatch hr }
  | setQueueDepth depth => exact { h with queueDepth := depth.isJson }
  | recordCacheEvent hit => cases hit <;> exact { h with }
  | appendAudit event => exact h.appendAudit (event.isJson.set (.str now))

end StateStore.Savable

/-- The log after a mutator. -/
theorem StoreOp.auditLog_apply {s : StateStore} (hlog : s.auditLog.length ≤ 200) (now : String)
    (op : StoreOp num) :
    (op.apply now s).auditLog = (s.auditLog ++ op.appended now).rtake 200 := by
  have hsame : s.auditLog = (s.auditLog ++ []).rtake 200 := by
    rw [List.append_nil, Window.rtake_of_length_le hlog]
  cases op with
  | appendAudit event => exact StateStore.auditLog_appendAudit s _
  | recordCacheEvent hit => cases hit <;> exact hsame
  | _ => exact hsame

variable (num)

/-- A mutator that is called at a time, and the order in which its save lists the critical
containers. -/
structure Call where
  op : StoreOp num
  now : String
  savedAt : String
  order : List String

variable {num}

/-- The state after the mutator. -/
def Call.result (call : Call num) (s : StateStore) : StateStore := call.op.apply call.now s

/-- The text that it saves. -/
def Call.text (call : Call num) (s : StateStore) : List Char :=
  (call.result s).saveToDisk num call.order call.savedAt

/-- The order is one of the critical containers of the new state. -/
def Call.Ordered (call : Call num) (s : StateStore) : Prop :=
  call.order.Nodup ∧ call.order.toFinset = (call.result s).critical

instance (call : Call num) (s : StateStore) : Decidable (call.Ordered s) :=
  inferInstanceAs (Decidable (_ ∧ _))

theorem load_text {s : StateStore} (h : s.Savable num) {call : Call num}
    (hcall : call.Ordered s) :
    StateStore.loadFromDisk num (some (call.text s)) = some (call.result s) :=
  (h.apply call.now call.op).loadFromDisk_saveToDisk hcall.2 call.savedAt

end Operations

/-! ## A process and its file -/

/-- The store of a process, its file, and the entries that were ever appended. -/
structure PersistedStore where
  store : StateStore
  file : Option (List Char)
  appended : List Record

namespace PersistedStore

/-- Before the first start there is no file. -/
def init : PersistedStore := ⟨.empty, none, []⟩

/-- What happens next. -/
inductive Move where
  /-- A mutator runs to its end. -/
  | saved (call : Call num)
  /-- A new process starts. -/
  | restart

def step (s : PersistedStore) : Move num → Option PersistedStore
  | .saved call =>
      if call.Ordered s.store then
        some ⟨call.result s.store, some (call.text s.store),
          s.appended ++ call.op.appended call.now⟩
      else none
  | .restart => (StateStore.loadFromDisk num s.file).map fun store => { s with store := store }

/-- The file loads to the store, and the log is the window over all entries. -/
def Restored (s : PersistedStore) : Prop :=
  StateStore.loadFromDisk num s.file = some s.store ∧ s.store.auditLog = s.appended.rtake 200

variable {num}

theorem restored_step {s s' : PersistedStore} {m : Move num}
    (h : s.Restored num ∧ s.store.Savable num) (hstep : step num s m = some s') :
    s'.Restored num ∧ s'.store.Savable num := by
  obtain ⟨⟨hfile, hlog⟩, hsavable⟩ := h
  cases m with
  | saved call =>
    rw [step] at hstep
    split_ifs at hstep with hcall
    cases hstep
    refine ⟨⟨load_text hsavable hcall, ?_⟩, hsavable.apply call.now call.op⟩
    rw [Call.result, StoreOp.auditLog_apply hsavable.length_auditLog, hlog,
      Window.rtake_rtake_append]
  | restart =>
    rw [step, hfile] at hstep
    cases hstep
    exact ⟨⟨hfile, hlog⟩, hsavable⟩

variable (num)

/-- **The state survives a restart.**  In every state of every run, with any number of restarts
in it, the file loads to the store that the process has, and its log is the window of the
last 200 entries. -/
theorem restored (ms : List (Move num)) : Machine.Visits (step num) (Restored num) init ms := by
  have hinit : init.Restored num ∧ init.store.Savable num :=
    ⟨⟨rfl, rfl⟩, StateStore.savable_empty num⟩
  intro pre _ t ht
  exact (Machine.exec_invariant (fun _ _ _ hs hstep => restored_step hs hstep) hinit ht).1

end PersistedStore
end Rcsce
