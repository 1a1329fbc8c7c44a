import Rcsce.Lib.PyM
import Rcsce.ControlPlane.Persistence

/-!
# Restoring any snapshot

`load_from_disk` of `control_plane/core/state_store.py` on a file with any content.  What
`json.load` makes of the file is either an exception or a value, and the seven components of
the store take whatever the value has under their names, of whatever type: `RawStore`.

The assignments come one after the other inside a `try`, so an exception leaves those that
were made before it.  Only one of them can raise in the middle, the `set(...)` around the
critical containers.  After it the log line can raise, when one of the three components whose
lengths it prints has none.

* `exec_loadFromDisk`: what is in the store afterwards, and what is logged.
* `restore_all_or_nothing_iff`: exactly when this is all or nothing.
* `exec_loadFromDisk_snapshot`: what `save_to_disk` has written is restored.
-/

namespace Rcsce

namespace Json

/-- `set(value)`, by its elements. -/
def toSet (value : Json) : Except PyError (List Json) :=
  match value.iter with
  | .ok elems => if elems.all hashable then .ok elems else .error .typeError
  | .error e => .error e

/-- `len(value)`. -/
def len : Json → Except PyError ℕ
  | .str s => .ok s.length
  | .arr elems => .ok elems.length
  | .obj members => .ok members.length
  | _ => .error .typeError

/-- `len(value)` does not raise. -/
def Sized (value : Json) : Prop := ∃ n, value.len = .ok n

end Json

/-- The seven components of a `StateStore`, as they are after `load_from_disk`. -/
structure RawStore where
  containers : Json
  workers : Json
  /-- The elements of the set. -/
  critical : List Json
  auditLog : Json
  queueDepth : Json
  cacheHits : Json
  cacheMisses : Json

/-- What `load_from_disk` logs about a file. -/
inductive RestoreLog where
  | restored
  | couldNotRestore
  deriving DecidableEq

namespace RawStore

/-- The stores have the same components; the order in a set does not count. -/
structure Same (s s' : RawStore) : Prop where
  containers : s'.containers = s.containers
  workers : s'.workers = s.workers
  critical : ∀ v, v ∈ s'.critical ↔ v ∈ s.critical
  auditLog : s'.auditLog = s.auditLog
  queueDepth : s'.queueDepth = s.queueDepth
  cacheHits : s'.cacheHits = s.cacheHits
  cacheMisses : s'.cacheMisses = s.cacheMisses

theorem Same.refl (s : RawStore) : s.Same s := ⟨rfl, rfl, fun _ => Iff.rfl, rfl, rfl, rfl, rfl⟩

/-- The assignments. -/
def restore (snapshot : Json) : PyM RawStore PUnit := do
  let containers ← PyM.eval (snapshot.getD "containers" (.obj []))
  modify fun s => { s with containers }
  let workers ← PyM.eval (snapshot.getD "workers" (.obj []))
  modify fun s => { s with workers }
  let critical ← PyM.eval (snapshot.getD "critical_containers" (.arr []))
  let critical ← PyM.eval critical.toSet
  modify fun s => { s with critical }
  let auditLog ← PyM.eval (snapshot.getD "audit_log" (.arr []))
  modify fun s => { s with auditLog }
  let queueDepth ← PyM.eval (snapshot.getD "queue_depth" (.num 0))
  modify fun s => { s with queueDepth }
  let cacheHits ← PyM.eval (snapshot.getD "cache_hits" (.num 0))
  modify fun s => { s with cacheHits }
  let cacheMisses ← PyM.eval (snapshot.getD "cache_misses" (.num 0))
  modify fun s => { s with cacheMisses }

/-- The line that is logged after them. -/
def report (snapshot : Json) : PyM RawStore PUnit := do
  let _ ← PyM.eval (snapshot.getD "saved_at" (.str "unknown"))
  let s ← get
  let _ ← PyM.eval s.containers.len
  let _ ← PyM.eval s.workers.len
  let _ ← PyM.eval s.auditLog.len
  return

/-- `load_from_disk`, with what `json.load` returns or raises. -/
def loadFromDisk (loaded : Except PyError Json) : PyM RawStore RestoreLog :=
  tryCatch
    (do
      let snapshot ← PyM.eval loaded
      restore snapshot
      report snapshot
      return .restored)
    fun _ => return .couldNotRestore

/-! ## What it does -/

/-- The components of a snapshot, with the set that was built. -/
def ofSnapshot (members : List (String × Json)) (critical : List Json) : RawStore where
  containers := StateStore.snapshotGet members "containers" (.obj [])
  workers := StateStore.snapshotGet members "workers" (.obj [])
  critical := critical
  auditLog := StateStore.snapshotGet members "audit_log" (.arr [])
  queueDepth := StateStore.snapshotGet members "queue_depth" (.num 0)
  cacheHits := StateStore.snapshotGet members "cache_hits" (.num 0)
  cacheMisses := StateStore.snapshotGet members "cache_misses" (.num 0)

/-- What becomes of the critical containers of a snapshot. -/
def snapshotCritical (members : List (String × Json)) : Except PyError (List Json) :=
  (StateStore.snapshotGet members "critical_containers" (.arr [])).toSet

theorem getD_obj (members : List (String × Json)) (key : String) (default : Json) :
    (Json.obj members).getD key default = .ok (StateStore.snapshotGet members key default) := rfl

theorem exec_restore_obj (members : List (String × Json)) (s : RawStore) :
    PyM.exec (restore (.obj members)) s =
      match snapshotCritical members with
      | .ok critical => (.ok ⟨⟩, ofSnapshot members critical)
      | .error e => (.error e, { s with
          containers := StateStore.snapshotGet members "containers" (.obj [])
          workers := StateStore.snapshotGet members "workers" (.obj []) }) := by
  rw [restore, snapshotCritical]
  simp only [getD_obj, PyM.exec_bind, PyM.exec_eval, PyM.exec_modify]
  cases (StateStore.snapshotGet members "critical_containers" (.arr [])).toSet <;> rfl

/-- The log line changes nothing. -/
theorem exec_report_snd (snapshot : Json) (s : RawStore) :
    (PyM.exec (report snapshot) s).2 = s := by
  rw [report]
  refine PyM.exec_eval_bind_snd fun _ => ?_
  rw [PyM.exec_bind, PyM.exec_get]
  refine PyM.exec_eval_bind_snd fun _ => ?_
  refine PyM.exec_eval_bind_snd fun _ => ?_
  refine PyM.exec_eval_bind_snd fun _ => ?_
  rfl

/-- The three components have a length. -/
def Reportable (s : RawStore) : Prop :=
  s.containers.Sized ∧ s.workers.Sized ∧ s.auditLog.Sized

theorem completes_report_obj (members : List (String × Json)) (s : RawStore) :
    PyM.Completes (report (.obj members)) s ↔ s.Reportable := by
  rw [report, PyM.completes_eval_bind, Reportable, Json.Sized, Json.Sized, Json.Sized]
  constructor
  · rintro ⟨v, -, h⟩
    rw [PyM.completes_bind] at h
    obtain ⟨s₁, s₂, hget, h⟩ := h
    cases hget
    obtain ⟨n, hn, h⟩ := PyM.completes_eval_bind.mp h
    obtain ⟨m, hm, h⟩ := PyM.completes_eval_bind.mp h
    obtain ⟨k, hk, -⟩ := PyM.completes_eval_bind.mp h
    exact ⟨⟨n, hn⟩, ⟨m, hm⟩, ⟨k, hk⟩⟩
  · rintro ⟨⟨n, hn⟩, ⟨m, hm⟩, ⟨k, hk⟩⟩
    refine ⟨_, rfl, PyM.completes_bind.mpr ⟨s, s, rfl, ?_⟩⟩
    refine PyM.completes_eval_bind.mpr ⟨n, hn, PyM.completes_eval_bind.mpr ⟨m, hm, ?_⟩⟩
    exact PyM.completes_eval_bind.mpr ⟨k, hk, PyM.completes_pure _ _⟩

/-- The ways through `load_from_disk`. -/
inductive Restores (loaded : Except PyError Json) (s : RawStore) : RestoreLog → RawStore → Prop
  /-- There is no value, or it is not an object. -/
  | unread (h : ∀ members, loaded ≠ .ok (.obj members)) : Restores loaded s .couldNotRestore s
  /-- The critical containers make no set. -/
  | noSet (members : List (String × Json)) (h : loaded = .ok (.obj members))
      (hset : ∀ critical, snapshotCritical members ≠ .ok critical) :
      Restores loaded s .couldNotRestore { s with
        containers := StateStore.snapshotGet members "containers" (.obj [])
        workers := StateStore.snapshotGet members "workers" (.obj []) }
  | restored (members : List (String × Json)) (critical : List Json)
      (h : loaded = .ok (.obj members)) (hset : snapshotCritical members = .ok critical)
      (hreport : (ofSnapshot members critical).Reportable) :
      Restores loaded s .restored (ofSnapshot members critical)
  /-- The log line raises. -/
  | unreported (members : List (String × Json)) (critical : List Json)
      (h : loaded = .ok (.obj members)) (hset : snapshotCritical members = .ok critical)
      (hreport : ¬ (ofSnapshot members critical).Reportable) :
      Restores loaded s .couldNotRestore (ofSnapshot members critical)

/-- **`load_from_disk` never raises**, and goes one of these ways. -/
theorem exec_loadFromDisk (loaded : Except PyError Json) (s : RawStore) :
    ∃ log s', PyM.exec (loadFromDisk loaded) s = (.ok log, s') ∧ Restores loaded s log s' := by
  rw [loadFromDisk, PyM.exec_tryCatch]
  simp only [PyM.exec_bind, PyM.exec_eval]
  cases loaded with
  | error e => exact ⟨_, s, rfl, .unread fun _ h => nomatch h⟩
  | ok snapshot =>
    cases snapshot with
    | obj members =>
      simp only [exec_restore_obj]
      cases hset : snapshotCritical members with
      | error e =>
        refine ⟨_, _, rfl, .noSet members rfl fun critical h => ?_⟩
        cases hset.symm.trans h
      | ok critical =>
        dsimp only
        have hsnd := exec_report_snd (.obj members) (ofSnapshot members critical)
        have hcompletes := completes_report_obj members (ofSnapshot members critical)
        rcases hreport : PyM.exec (report (.obj members)) (ofSnapshot members critical) with
          ⟨e | ⟨⟩, s'⟩
        · rw [hreport] at hsnd
          obtain rfl : s' = ofSnapshot members critical := hsnd
          refine ⟨_, _, rfl, .unreported members critical rfl hset fun h => ?_⟩
          obtain ⟨a, ha⟩ := hcompletes.mpr h
          rw [hreport] at ha
          cases ha
        · rw [hreport] at hsnd
          obtain rfl : s' = ofSnapshot members critical := hsnd
          exact ⟨_, _, rfl, .restored members critical rfl hset
            (hcompletes.mp ⟨⟨⟩, by rw [hreport]⟩)⟩
    | _ => exact ⟨_, s, rfl, .unread fun _ h => nomatch h⟩

/-- A `StateStore`, with its critical containers in some order. -/
def ofStore (s : StateStore) (order : List String) : RawStore where
  containers := StateStore.recordsJson s.containers
  workers := StateStore.recordsJson s.workers
  critical := order.map .str
  auditLog := .arr (s.auditLog.map StateStore.recordJson)
  queueDepth := s.queueDepth
  cacheHits := .num s.cacheHits
  cacheMisses := .num s.cacheMisses

theorem snapshotCritical_snapshot (s : StateStore) (order : List String) (savedAt : String) :
    snapshotCritical (s.snapshot order savedAt) = .ok (order.map .str) := by
  have hhashable : (order.map Json.str).all Json.hashable = true := by
    rw [List.all_map, List.all_eq_true]
    exact fun _ _ => rfl
  show (if (order.map Json.str).all Json.hashable then _ else _) = _
  rw [if_pos hhashable]

/-- **What `save_to_disk` has written is restored.** -/
theorem exec_loadFromDisk_snapshot {s : StateStore} (hlog : s.auditLog.length ≤ 200)
    (order : List String) (savedAt : String) (s₀ : RawStore) :
    PyM.exec (loadFromDisk (.ok (.obj (s.snapshot order savedAt)))) s₀ =
      (.ok .restored, ofStore s order) := by
  have hentries : StateStore.lastEntries s.auditLog = s.auditLog :=
    Window.rtake_of_length_le hlog
  have hstore : ofSnapshot (s.snapshot order savedAt) (order.map .str) = ofStore s order := by
    rw [ofStore, ← hentries]
    rfl
  have hset := snapshotCritical_snapshot s order savedAt
  have hreportable : (ofStore s order).Reportable := ⟨⟨_, rfl⟩, ⟨_, rfl⟩, ⟨_, rfl⟩⟩
  obtain ⟨log, s', hexec, hrestores⟩ :=
    exec_loadFromDisk (.ok (.obj (s.snapshot order savedAt))) s₀
  rw [hexec]
  cases hrestores with
  | unread h => exact absurd rfl (h _)
  | noSet members h hno =>
    cases h
    exact absurd hset (hno _)
  | restored members critical h hset' =>
    cases h
    cases hset.symm.trans hset'
    rw [hstore]
  | unreported members critical h hset' hreport =>
    cases h
    cases hset.symm.trans hset'
    exact absurd (hstore ▸ hreportable) hreport

/-! ## All or nothing -/

/-- Every component is taken from the snapshot. -/
def Taken (loaded : Except PyError Json) (s' : RawStore) : Prop :=
  ∃ members critical, loaded = .ok (.obj members) ∧ snapshotCritical members = .ok critical ∧
    s' = ofSnapshot members critical

/-- Every component is taken, or the log says that none is, and none has changed. -/
def AllOrNothing (loaded : Except PyError Json) (s : RawStore) (log : RestoreLog)
    (s' : RawStore) : Prop :=
  Taken loaded s' ∨ (log = .couldNotRestore ∧ s.Same s')

/-- The same, when the log is to say that all are taken. -/
def AsLogged (loaded : Except PyError Json) (s : RawStore) (log : RestoreLog)
    (s' : RawStore) : Prop :=
  (log = .restored ∧ Taken loaded s') ∨ (log = .couldNotRestore ∧ s.Same s')

/-- The store has the containers and workers of the snapshot already. -/
def HasFirst (members : List (String × Json)) (s : RawStore) : Prop :=
  s.containers = StateStore.snapshotGet members "containers" (.obj []) ∧
    s.workers = StateStore.snapshotGet members "workers" (.obj [])

/-- If the file is an object, its critical containers make a set, or the two assignments before
them change nothing. -/
def Restorable (loaded : Except PyError Json) (s : RawStore) : Prop :=
  ∀ members, loaded = .ok (.obj members) →
    (∃ critical, snapshotCritical members = .ok critical) ∨ HasFirst members s

/-- Moreover the log line does not raise, or no assignment changes anything. -/
def Reported (loaded : Except PyError Json) (s : RawStore) : Prop :=
  ∀ members critical, loaded = .ok (.obj members) → snapshotCritical members = .ok critical →
    (ofSnapshot members critical).Reportable ∨ s.Same (ofSnapshot members critical)

theorem taken_ofSnapshot {loaded : Except PyError Json} {members : List (String × Json)}
    {critical : List Json} (h : loaded = .ok (.obj members))
    (hset : snapshotCritical members = .ok critical) :
    Taken loaded (ofSnapshot members critical) := ⟨members, critical, h, hset, rfl⟩

theorem Restores.allOrNothing_iff {loaded : Except PyError Json} {s s' : RawStore}
    {log : RestoreLog} (h : Restores loaded s log s') :
    AllOrNothing loaded s log s' ↔ Restorable loaded s := by
  cases h with
  | unread hno =>
    exact iff_of_true (Or.inr ⟨rfl, .refl s⟩) fun members h => absurd h (hno members)
  | noSet members hloaded hset =>
    constructor
    · rintro (⟨members', critical, hloaded', hset', -⟩ | ⟨-, hsame⟩)
      · cases hloaded.symm.trans hloaded'
        exact absurd hset' (hset critical)
      · intro members' hloaded'
        cases hloaded.symm.trans hloaded'
        exact Or.inr ⟨hsame.containers.symm, hsame.workers.symm⟩
    · intro hrestorable
      obtain ⟨hcontainers, hworkers⟩ :=
        (hrestorable members hloaded).resolve_left fun ⟨critical, h⟩ => hset critical h
      exact Or.inr ⟨rfl, hcontainers.symm, hworkers.symm, fun _ => Iff.rfl, rfl, rfl, rfl, rfl⟩
  | restored members critical hloaded hset | unreported members critical hloaded hset =>
    refine iff_of_true (Or.inl (taken_ofSnapshot hloaded hset)) fun members' hloaded' => ?_
    cases hloaded.symm.trans hloaded'
    exact Or.inl ⟨critical, hset⟩

theorem Restores.asLogged_iff {loaded : Except PyError Json} {s s' : RawStore}
    {log : RestoreLog} (h : Restores loaded s log s') :
    AsLogged loaded s log s' ↔ Restorable loaded s ∧ Reported loaded s := by
  rw [← h.allOrNothing_iff]
  have hor : AsLogged loaded s log s' → AllOrNothing loaded s log s' :=
    fun h => h.imp_left And.right
  cases h with
  | unread hno =>
    have hsame : AsLogged loaded s .couldNotRestore s := Or.inr ⟨rfl, .refl s⟩
    exact iff_of_true hsame ⟨hor hsame, fun members _ h => absurd h (hno members)⟩
  | noSet members hloaded hset =>
    constructor
    · refine fun hlogged => ⟨hor hlogged, fun members' critical hloaded' hset' => ?_⟩
      cases hloaded.symm.trans hloaded'
      exact absurd hset' (hset critical)
    · rintro ⟨⟨members', critical, hloaded', hset', -⟩ | hsame, -⟩
      · cases hloaded.symm.trans hloaded'
        exact absurd hset' (hset critical)
      · exact Or.inr hsame
  | restored members critical hloaded hset hreport =>
    have htaken := taken_ofSnapshot hloaded hset
    refine iff_of_true (Or.inl ⟨rfl, htaken⟩) ⟨Or.inl htaken, fun members' critical' h h' => ?_⟩
    cases hloaded.symm.trans h
    cases hset.symm.trans h'
    exact Or.inl hreport
  | unreported members critical hloaded hset hreport =>
    have htaken := taken_ofSnapshot hloaded hset
    constructor
    · rintro (⟨hlog, -⟩ | ⟨-, hsame⟩)
      · cases hlog
      · refine ⟨Or.inl htaken, fun members' critical' h h' => ?_⟩
        cases hloaded.symm.trans h
        cases hset.symm.trans h'
        exact Or.inr hsame
    · rintro ⟨-, hreported⟩
      exact Or.inr ⟨rfl, (hreported members critical hloaded hset).resolve_left hreport⟩

/-- **When restoring is all or nothing.**  Whatever the file holds, `load_from_disk` does not
raise.  It takes every component, or logs that it could not restore and changes none, if and
only if the file is not a JSON object, or its `critical_containers` make a set, or the store has
its containers and workers already; and the log says which of the two it is if and only if,
moreover, the log line after the assignments does not raise or they change nothing. -/
theorem restore_all_or_nothing_iff (loaded : Except PyError Json) (s : RawStore) :
    ∃ log s', PyM.exec (loadFromDisk loaded) s = (.ok log, s') ∧
      (AllOrNothing loaded s log s' ↔ Restorable loaded s) ∧
      (AsLogged loaded s log s' ↔ Restorable loaded s ∧ Reported loaded s) := by
  obtain ⟨log, s', hexec, hrestores⟩ := exec_loadFromDisk loaded s
  exact ⟨log, s', hexec, hrestores.allOrNothing_iff, hrestores.asLogged_iff⟩

/-- The store of a new process. -/
def fresh : RawStore := ⟨.obj [], .obj [], [], .arr [], .num 0, .num 0, .num 0⟩

/-- The critical containers are a number: the containers are restored, and nothing else. -/
theorem half_restored :
    PyM.exec (loadFromDisk (.ok (.obj [("containers", .obj [("c1", .obj [])]),
        ("critical_containers", .num 5), ("cache_hits", .num 7)]))) fresh =
      (.ok .couldNotRestore, { fresh with containers := .obj [("c1", .obj [])] }) ∧
    ¬ ∀ loaded s, ∃ log s', PyM.exec (loadFromDisk loaded) s = (.ok log, s') ∧
      AllOrNothing loaded s log s' := by
  refine ⟨rfl, fun h => ?_⟩
  obtain ⟨log, s', hexec, hor⟩ := h (.ok (.obj [("containers", .obj [("c1", .obj [])]),
    ("critical_containers", .num 5), ("cache_hits", .num 7)])) fresh
  have hrun : (Except.ok RestoreLog.couldNotRestore,
      { fresh with containers := .obj [("c1", .obj [])] }) = (Except.ok (ε := PyError) log, s') :=
    hexec
  cases hrun
  rcases hor with ⟨members, critical, hloaded, hset, -⟩ | ⟨-, hsame⟩
  · cases hloaded
    cases hset
  · cases hsame.containers

end RawStore
end Rcsce
