import Rcsce.ControlPlane.Masters

/-!
# What a pass of the mirror brings about

A pass copies the primary record by record, and each copy is merged into what the standby
holds under the same id.  So a pass adds and replaces, and never removes: not a container or
a worker that the primary no longer has, not a field that the record no longer has.  And it
skips a container whose record does not carry its id, which is how `scan_complete` and the
stop of an unknown container create one.

`Converged` is what a pass should bring about, while the primary does not change: the same
container ids and worker ids, and records that agree on every field.
`pass_converges_iff` is exact: all passes of a run do so if and only if none of them finds
one of these three.  It rests on an invariant of the code, `Keyed`: the ids inside the
records are the keys under which they are filed.
-/

namespace Rcsce

/-! ## Records that carry their ids -/

/-- A container record that carries an id names its key, and a worker record carries its
key. -/
structure StateStore.Keyed (s : StateStore) : Prop where
  containers : ∀ cid record v, s.containers.get? cid = some record →
    record.get? "container_id" = some v → v = .str cid
  workers : ∀ w record, s.workers.get? w = some record → record.get? "worker_id" = some (.str w)

namespace StateStore.Keyed

variable {s : StateStore}

theorem empty : StateStore.empty.Keyed :=
  ⟨fun _ _ _ h => (nomatch h), fun _ _ h => nomatch h⟩

theorem upsertContainer (hs : s.Keyed) {cid : String} {data : Record}
    (hdata : ∀ v, data.get? "container_id" = some v → v = .str cid) :
    (s.upsertContainer cid data).Keyed := by
  refine ⟨fun c record v hrecord hv => ?_, hs.workers⟩
  have hset : (s.containers.set cid (((s.containers.get? cid).getD .empty).update data)).get? c =
      some record := hrecord
  rw [OrderedDict.get?_set] at hset
  split_ifs at hset with hc
  · rw [← Option.some.inj hset, Record.get?_update] at hv
    subst hc
    cases hid : data.get? "container_id" with
    | some w =>
      rw [hid, Option.some_or] at hv
      exact Option.some.inj hv ▸ hdata w hid
    | none =>
      rw [hid, Option.none_or] at hv
      cases hold : s.containers.get? c with
      | some old =>
        rw [hold, Option.getD_some] at hv
        exact hs.containers c old v hold hv
      | none =>
        rw [hold, Option.getD_none] at hv
        cases hv
  · exact hs.containers c record v hset hv

/-- An update that brings no id. -/
theorem upsertContainer_of_none (hs : s.Keyed) {cid : String} {data : Record}
    (hdata : data.get? "container_id" = none) : (s.upsertContainer cid data).Keyed :=
  hs.upsertContainer fun _ hv => nomatch hdata.symm.trans hv

theorem markCritical (hs : s.Keyed) (cid : String) : (s.markCritical cid).Keyed := by
  refine ⟨fun c record v hrecord hv => ?_, hs.workers⟩
  have hmodify : (s.containers.modify cid fun record =>
      record.set "is_critical" (.bool true)).get? c = some record := hrecord
  rw [OrderedDict.get?_modify] at hmodify
  split_ifs at hmodify
  · obtain ⟨old, hold, rfl⟩ := Option.map_eq_some_iff.mp hmodify
    rw [OrderedDict.get?_set_of_ne _ _ (by decide)] at hv
    exact hs.containers c old v hold hv
  · exact hs.containers c record v hmodify hv

/-- A worker record that is given its key. -/
theorem setWorker (hs : s.Keyed) {w : String} {record : Record}
    (hrecord : record.get? "worker_id" = some (.str w)) :
    Keyed { s with workers := s.workers.set w record } := by
  refine ⟨hs.containers, fun w' record' hget => ?_⟩
  have hset : (s.workers.set w record).get? w' = some record' := hget
  rw [OrderedDict.get?_set] at hset
  split_ifs at hset with hw
  · rw [← Option.some.inj hset, hw]
    exact hrecord
  · exact hs.workers w' record' hset

theorem upsertWorker (hs : s.Keyed) (w : String) (data : Record) : (s.upsertWorker w data).Keyed :=
  hs.setWorker (OrderedDict.get?_set_self _ _ _)

theorem markWorkerDead (hs : s.Keyed) (w : String) : (s.markWorkerDead w).Keyed := by
  refine hs.setWorker ?_
  rw [Record.get?_update]
  rfl

theorem removeContainer (hs : s.Keyed) (cid : String) : (s.removeContainer cid).Keyed :=
  ⟨fun c record v hrecord => hs.containers c record v (OrderedDict.get?_of_get?_erase hrecord),
    hs.workers⟩

theorem removeWorker (hs : s.Keyed) (w : String) : (s.removeWorker w).Keyed :=
  ⟨hs.containers, fun w' record hget => hs.workers w' record (OrderedDict.get?_of_get?_erase hget)⟩

theorem clearAllWorkers (hs : s.Keyed) : s.clearAllWorkers.Keyed :=
  ⟨hs.containers, nofun⟩

/-- The other methods touch neither. -/
theorem congr (hs : s.Keyed) {s' : StateStore} (hcontainers : s'.containers = s.containers)
    (hworkers : s'.workers = s.workers) : s'.Keyed :=
  ⟨hcontainers ▸ hs.containers, hworkers ▸ hs.workers⟩

theorem recordCacheEvent (hs : s.Keyed) (hit : Bool) : (s.recordCacheEvent hit).Keyed :=
  hs.congr (by cases hit <;> rfl) (by cases hit <;> rfl)

theorem appendAudit (hs : s.Keyed) (entry : Record) : (s.appendAudit entry).Keyed :=
  hs.congr (by rw [StateStore.appendAudit]) (by rw [StateStore.appendAudit])

theorem onStart (hs : s.Keyed) (e : DockerEvent) : (s.onStart e).Keyed := by
  refine hs.upsertContainer fun v hv => ?_
  exact (Option.some.inj hv).symm

theorem onCacheHit (hs : s.Keyed) (e : DockerEvent) (layerHash : String)
    (scanResult : List (String × Json)) : (s.onCacheHit e layerHash scanResult).Keyed :=
  ((hs.recordCacheEvent true).upsertContainer_of_none rfl).appendAudit _

theorem onStopped (hs : s.Keyed) (e : DockerEvent) : (s.onStopped e).Keyed :=
  (hs.upsertContainer_of_none rfl).appendAudit _

theorem onFailover (hs : s.Keyed) (f : Failover) (replica : String) (recovered : Bool) :
    (s.onFailover f replica recovered).Keyed := by
  refine ((hs.appendAudit _).upsertContainer fun _ hv => ?_).markCritical _
  rw [Record.get?_ofFields_of_mem (by simp) List.mem_cons_self] at hv
  exact (Option.some.inj hv).symm

end StateStore.Keyed

namespace MasterNode

variable {sha256Text : String → String} {m m' : MasterNode}

theorem keyed_handle {e : MasterEvent} (hm : m.store.Keyed)
    (h : m.handle sha256Text e = some m') : m'.store.Keyed := by
  cases e with
  | docker e =>
    rw [handle] at h
    split_ifs at h
    rw [← Option.some.inj h, handleEvent]
    cases e.action with
    | start => exact hm.onStart e
    | _ => exact hm.onStopped e
  | cacheAnswered k hit =>
    obtain ⟨e, -, rfl⟩ := Option.map_eq_some_iff.mp h
    cases hit with
    | some scanResult => exact hm.onCacheHit e _ scanResult
    | none => exact hm.recordCacheEvent false
  | pushed k jobId =>
    obtain ⟨e, -, rfl⟩ := Option.map_eq_some_iff.mp h
    exact hm.appendAudit _
  | failedOver k replica recovered =>
    obtain ⟨f, -, rfl⟩ := Option.map_eq_some_iff.mp h
    exact hm.onFailover f replica recovered
  | failoverRaised k error =>
    obtain ⟨f, -, rfl⟩ := Option.map_eq_some_iff.mp h
    exact hm.appendAudit _
  | markCritical cid =>
    rw [← Option.some.inj h]
    exact hm.markCritical cid
  | anomaly entry =>
    rw [← Option.some.inj h]
    exact hm.appendAudit entry

/-- Whatever happens in the primary, its records carry their ids. -/
theorem keyed_handlePrimary {e : PrimaryEvent} (hm : m.store.Keyed)
    (h : m.handlePrimary sha256Text e = some m') : m'.store.Keyed := by
  cases e with
  | own e => exact keyed_handle hm h
  | workerHeartbeat w data =>
    rw [← Option.some.inj h]
    exact hm.upsertWorker w data
  | workerDead w =>
    rw [← Option.some.inj h]
    exact hm.markWorkerDead w
  | scanComplete cid vulns status =>
    rw [← Option.some.inj h]
    dsimp only
    split_ifs
    · exact hm
    · exact hm.upsertContainer_of_none rfl
  | queueDepth depth =>
    rw [← Option.some.inj h]
    exact hm.congr rfl rfl

end MasterNode

/-! ## Copying a dictionary of records -/

/-- The copy has the same keys, and its records agree on every field. -/
structure SameRecords (d copy : OrderedDict String Record) : Prop where
  keys : ∀ k, k ∈ copy ↔ k ∈ d
  fields : ∀ k record record', d.get? k = some record → copy.get? k = some record' →
    ∀ field, record'.get? field = record.get? field

/-- The dictionary still has every record of the other one, with at least its fields. -/
def NothingGone (d old : OrderedDict String Record) : Prop :=
  ∀ k record', old.get? k = some record' →
    ∃ record, d.get? k = some record ∧ ∀ field ∈ record', field ∈ record

/-- The copy is what merging `d` into `old` gives. -/
structure Merged (d old copy : OrderedDict String Record) : Prop where
  of_some : ∀ k record, d.get? k = some record → ∃ record', copy.get? k = some record' ∧
    ∀ field, record'.get? field = (record.get? field).or (((old.get? k).getD .empty).get? field)
  of_none : ∀ k, d.get? k = none → copy.get? k = old.get? k

/-- Merging makes a copy exactly when there is nothing to remove. -/
theorem Merged.sameRecords_iff {d old copy : OrderedDict String Record} (h : Merged d old copy) :
    SameRecords d copy ↔ NothingGone d old := by
  constructor
  · intro hsame k record' hold
    cases hd : d.get? k with
    | none =>
      have hcopy : copy.get? k = some record' := (h.of_none k hd).trans hold
      have hmem : k ∈ d := (hsame.keys k).mp (OrderedDict.mem_of_get? hcopy)
      exact absurd hmem (OrderedDict.get?_eq_none_iff.mp hd)
    | some record =>
      refine ⟨record, rfl, fun field hfield => ?_⟩
      obtain ⟨merged, hcopy, hmerged⟩ := h.of_some k record hd
      obtain ⟨v, hv⟩ := OrderedDict.mem_iff_get?.mp hfield
      have hagree := hsame.fields k record merged hd hcopy field
      rw [hmerged, hold, Option.getD_some, hv] at hagree
      cases hrecord : record.get? field with
      | some w => exact OrderedDict.mem_of_get? hrecord
      | none =>
        rw [hrecord] at hagree
        cases hagree
  · intro hgone
    refine ⟨fun k => ?_, fun k record record' hd hcopy field => ?_⟩
    · cases hd : d.get? k with
      | some record =>
        obtain ⟨merged, hcopy, -⟩ := h.of_some k record hd
        exact iff_of_true (OrderedDict.mem_of_get? hcopy) (OrderedDict.mem_of_get? hd)
      | none =>
        have hnot : k ∉ d := OrderedDict.get?_eq_none_iff.mp hd
        refine iff_of_false (fun hmem => ?_) hnot
        obtain ⟨record', hcopy⟩ := OrderedDict.mem_iff_get?.mp hmem
        obtain ⟨record, hsome, -⟩ := hgone k record' ((h.of_none k hd).symm.trans hcopy)
        exact hnot (OrderedDict.mem_of_get? hsome)
    · obtain ⟨merged, hmerged, hfields⟩ := h.of_some k record hd
      rw [Option.some.inj (hcopy.symm.trans hmerged), hfields]
      cases hrecord : record.get? field with
      | some v => rw [Option.some_or]
      | none =>
        rw [Option.none_or]
        cases hold : old.get? k with
        | none => rfl
        | some kept =>
          -- a field that the standby has kept is one that the primary still has
          obtain ⟨record'', hd', hkept⟩ := hgone k kept hold
          rw [Option.getD_some, OrderedDict.get?_eq_none_iff]
          intro hfield
          have hmem := hkept field hfield
          rw [← Option.some.inj (hd.symm.trans hd')] at hmem
          exact OrderedDict.get?_eq_none_iff.mp hrecord hmem

/-! ## A pass -/

/-- The loop copies the container: its id is not empty and its record has one. -/
def CarriesId (cid : String) (record : Record) : Prop := cid ≠ "" ∧ "container_id" ∈ record

instance (cid : String) (record : Record) : Decidable (CarriesId cid record) :=
  inferInstanceAs (Decidable (_ ∧ _))

namespace StateStore

/-- What a pass makes of a record that the standby may have. -/
def mergeRecord (old : Option Record) (record : Record) : Record :=
  (old.getD .empty).update record

/-- The loop over the containers is a loop over the entries that carry their ids. -/
theorem containers_foldl_mirrorContainer (s : StateStore) (entries : List (String × Record))
    (h : ∀ e ∈ entries, ∀ v, e.2.get? "container_id" = some v → v = .str e.1) :
    ((entries.map Prod.snd).foldl mirrorContainer s).containers =
      (entries.filter fun e => CarriesId e.1 e.2).foldl
        (fun d e => d.set e.1 (mergeRecord (d.get? e.1) e.2)) s.containers := by
  induction entries generalizing s with
  | nil => rfl
  | cons e entries ih =>
    rw [List.map_cons, List.foldl_cons, ih _ fun e' he' => h e' (List.mem_cons_of_mem _ he')]
    cases hid : e.2.get? "container_id" with
    | none =>
      have hnot : ¬ CarriesId e.1 e.2 := fun hcarries =>
        OrderedDict.get?_eq_none_iff.mp hid hcarries.2
      rw [List.filter_cons_of_neg (by simpa using hnot), mirrorContainer, hid]
      rfl
    | some v =>
      obtain rfl := h e List.mem_cons_self v hid
      rw [mirrorContainer, hid]
      show (List.foldl _ (if e.1 = "" then s else s.upsertContainer e.1 e.2).containers _) = _
      split_ifs with hempty
      · have hnot : ¬ CarriesId e.1 e.2 := fun hcarries => hcarries.1 hempty
        rw [List.filter_cons_of_neg (by simpa using hnot)]
      · have hcarries : CarriesId e.1 e.2 := ⟨hempty, OrderedDict.mem_of_get? hid⟩
        rw [List.filter_cons_of_pos (by simpa using hcarries), List.foldl_cons]
        rfl

theorem workers_foldl_mirrorContainer (s : StateStore) (records : List Record) :
    (records.foldl mirrorContainer s).workers = s.workers := by
  induction records generalizing s with
  | nil => rfl
  | cons record records ih =>
    rw [List.foldl_cons, ih, mirrorContainer]
    split
    · split_ifs <;> rfl
    · rfl

/-- A worker record brings its id, so the loop over the workers is the same. -/
theorem workers_foldl_mirrorWorker (s : StateStore) (entries : List (String × Record))
    (h : ∀ e ∈ entries, e.2.get? "worker_id" = some (.str e.1)) :
    ((entries.map Prod.snd).foldl mirrorWorker s).workers =
      entries.foldl (fun d e => d.set e.1 (mergeRecord (d.get? e.1) e.2)) s.workers := by
  induction entries generalizing s with
  | nil => rfl
  | cons e entries ih =>
    have hid := h e List.mem_cons_self
    have hkey : workerKey e.2 = e.1 := by
      rw [workerKey, hid]
      rfl
    have hset : (((s.workers.get? e.1).getD .empty).update e.2).set "worker_id" (.str e.1) =
        mergeRecord (s.workers.get? e.1) e.2 := by
      refine OrderedDict.set_of_get? ?_
      rw [Record.get?_update, hid, Option.some_or]
    rw [List.map_cons, List.foldl_cons, ih _ fun e' he' => h e' (List.mem_cons_of_mem _ he'),
      List.foldl_cons, mirrorWorker, hkey, upsertWorker, hset]

theorem containers_foldl_mirrorWorker (s : StateStore) (records : List Record) :
    (records.foldl mirrorWorker s).containers = s.containers := by
  induction records generalizing s with
  | nil => rfl
  | cons record records ih => exact ih _

variable {primary : StateStore}

theorem containers_mirrorStatus (s : StateStore) (hp : primary.Keyed) :
    (s.mirrorStatus primary.status).containers =
      (primary.containers.entries.filter fun e => CarriesId e.1 e.2).foldl
        (fun d e => d.set e.1 (mergeRecord (d.get? e.1) e.2)) s.containers := by
  show ((primary.workers.values.foldl mirrorWorker
    (primary.containers.values.foldl mirrorContainer s))).containers = _
  rw [containers_foldl_mirrorWorker]
  refine containers_foldl_mirrorContainer s _ fun e he v hv => ?_
  exact hp.containers e.1 e.2 v (OrderedDict.get?_eq_some_iff.mpr he) hv

theorem workers_mirrorStatus (s : StateStore) (hp : primary.Keyed) :
    (s.mirrorStatus primary.status).workers = primary.workers.entries.foldl
      (fun d e => d.set e.1 (mergeRecord (d.get? e.1) e.2)) s.workers := by
  show ((primary.workers.values.foldl mirrorWorker
    (primary.containers.values.foldl mirrorContainer s))).workers = _
  rw [← workers_foldl_mirrorContainer s primary.containers.values]
  refine workers_foldl_mirrorWorker _ _ fun e he => ?_
  exact hp.workers e.1 e.2 (OrderedDict.get?_eq_some_iff.mpr he)

/-- A container that carries its id is merged. -/
theorem get?_containers_mirrorStatus_of_carries (s : StateStore) (hp : primary.Keyed) {cid : String}
    {record : Record} (hrecord : primary.containers.get? cid = some record)
    (hcarries : CarriesId cid record) :
    (s.mirrorStatus primary.status).containers.get? cid =
      some (mergeRecord (s.containers.get? cid) record) := by
  rw [containers_mirrorStatus s hp]
  refine OrderedDict.get?_foldl_merge_of_mem mergeRecord ?_ s.containers ?_
  · exact primary.containers.nodup.sublist (List.filter_sublist.map Prod.fst)
  · exact List.mem_filter.mpr ⟨OrderedDict.get?_eq_some_iff.mp hrecord, by simpa using hcarries⟩

/-- Every other container stays as it was. -/
theorem get?_containers_mirrorStatus_of_not (s : StateStore) (hp : primary.Keyed) {cid : String}
    (h : ∀ record, primary.containers.get? cid = some record → ¬ CarriesId cid record) :
    (s.mirrorStatus primary.status).containers.get? cid = s.containers.get? cid := by
  rw [containers_mirrorStatus s hp]
  refine OrderedDict.get?_foldl_merge_of_notMem mergeRecord _ s.containers fun hmem => ?_
  obtain ⟨e, he, rfl⟩ := List.mem_map.mp hmem
  obtain ⟨hentry, hcarries⟩ := List.mem_filter.mp he
  exact h e.2 (OrderedDict.get?_eq_some_iff.mpr hentry) (of_decide_eq_true hcarries)

theorem get?_mergeRecord (old : Option Record) (record : Record) (field : String) :
    (mergeRecord old record).get? field = (record.get? field).or ((old.getD .empty).get? field) :=
  Record.get?_update _ _ field

/-- A pass merges the workers. -/
theorem merged_workers (s : StateStore) (hp : primary.Keyed) :
    Merged primary.workers s.workers (s.mirrorStatus primary.status).workers := by
  rw [workers_mirrorStatus s hp]
  refine ⟨fun w record hrecord => ?_, fun w hnone => ?_⟩
  · refine ⟨_, OrderedDict.get?_foldl_merge_of_mem mergeRecord primary.workers.nodup s.workers
      (OrderedDict.get?_eq_some_iff.mp hrecord), fun field => ?_⟩
    exact get?_mergeRecord _ record field
  · exact OrderedDict.get?_foldl_merge_of_notMem mergeRecord _ s.workers
      (OrderedDict.get?_eq_none_iff.mp hnone)

/-- A pass merges the containers if all of them carry their ids. -/
theorem merged_containers (s : StateStore) (hp : primary.Keyed)
    (hcarries : ∀ cid record, primary.containers.get? cid = some record → CarriesId cid record) :
    Merged primary.containers s.containers (s.mirrorStatus primary.status).containers := by
  refine ⟨fun cid record hrecord => ?_, fun cid hnone => ?_⟩
  · refine ⟨_, get?_containers_mirrorStatus_of_carries s hp hrecord (hcarries cid record hrecord),
      fun field => ?_⟩
    exact get?_mergeRecord _ record field
  · refine get?_containers_mirrorStatus_of_not s hp fun record hsome => ?_
    rw [hnone] at hsome
    cases hsome

/-- The containers of the standby are copies. -/
def Copies (s : StateStore) : Prop :=
  ∀ cid record, s.containers.get? cid = some record → CarriesId cid record

theorem copies_mirrorStatus {s : StateStore} (hp : primary.Keyed) (hs : s.Copies) :
    (s.mirrorStatus primary.status).Copies := by
  intro cid record hrecord
  by_cases h : ∃ original, primary.containers.get? cid = some original ∧ CarriesId cid original
  · obtain ⟨original, horiginal, hcarries⟩ := h
    rw [get?_containers_mirrorStatus_of_carries s hp horiginal hcarries] at hrecord
    obtain ⟨v, hv⟩ := OrderedDict.mem_iff_get?.mp hcarries.2
    refine ⟨hcarries.1, OrderedDict.mem_of_get? (v := v) ?_⟩
    rw [← Option.some.inj hrecord, get?_mergeRecord, hv, Option.some_or]
  · rw [get?_containers_mirrorStatus_of_not s hp fun original hsome hcarries =>
      h ⟨original, hsome, hcarries⟩] at hrecord
    exact hs cid record hrecord

/-- The standby has the containers and the workers of the primary. -/
def Converged (primary s : StateStore) : Prop :=
  SameRecords primary.containers s.containers ∧ SameRecords primary.workers s.workers

/-- Before a pass: all containers of the primary carry their ids, and the primary still has
everything that the standby has copied. -/
def Mirrorable (primary s : StateStore) : Prop :=
  (∀ cid record, primary.containers.get? cid = some record → CarriesId cid record) ∧
    NothingGone primary.containers s.containers ∧ NothingGone primary.workers s.workers

theorem congr_mirrorAudit (s : StateStore) (entries : List Record) :
    (s.mirrorAudit entries).containers = s.containers ∧
      (s.mirrorAudit entries).workers = s.workers := by
  rw [mirrorAudit]
  generalize s.existingIds = existing
  induction entries generalizing s with
  | nil => exact ⟨rfl, rfl⟩
  | cons entry entries ih =>
    have hentry : (s.mirrorEntry existing entry).containers = s.containers ∧
        (s.mirrorEntry existing entry).workers = s.workers := by
      rw [mirrorEntry]
      split
      · split_ifs
        · exact ⟨rfl, rfl⟩
        · exact ⟨by rw [appendAudit], by rw [appendAudit]⟩
      · exact ⟨by rw [appendAudit], by rw [appendAudit]⟩
    rw [List.foldl_cons]
    exact ⟨(ih _).1.trans hentry.1, (ih _).2.trans hentry.2⟩

theorem copies_mirrorAudit {s : StateStore} (entries : List Record) (hs : s.Copies) :
    (s.mirrorAudit entries).Copies := by
  rw [Copies, (congr_mirrorAudit s entries).1]
  exact hs

/-- A successful pass of `state_mirror_loop`, during which the primary does not change. -/
def mirrorPass (s primary : StateStore) : StateStore :=
  (s.mirrorStatus primary.status).mirrorAudit primary.auditLog

theorem converged_mirrorPass_iff {s : StateStore} (hp : primary.Keyed) (hs : s.Copies) :
    primary.Converged (s.mirrorPass primary) ↔ primary.Mirrorable s := by
  rw [Converged, mirrorPass, (congr_mirrorAudit _ _).1, (congr_mirrorAudit _ _).2, Mirrorable,
    (merged_workers s hp).sameRecords_iff, ← and_assoc]
  refine and_congr_left fun _ => ⟨fun hsame => ?_, fun ⟨hcarries, hgone⟩ => ?_⟩
  · have hcarries : ∀ cid record, primary.containers.get? cid = some record →
        CarriesId cid record := by
      intro cid record hrecord
      -- the copy carries its id, and agrees with the record
      have hmem := (hsame.keys cid).mpr (OrderedDict.mem_of_get? hrecord)
      obtain ⟨copy, hcopy⟩ := OrderedDict.mem_iff_get?.mp hmem
      obtain ⟨hne, hid⟩ := copies_mirrorStatus hp hs cid copy hcopy
      obtain ⟨v, hv⟩ := OrderedDict.mem_iff_get?.mp hid
      rw [hsame.fields cid record copy hrecord hcopy] at hv
      exact ⟨hne, OrderedDict.mem_of_get? hv⟩
    exact ⟨hcarries, (merged_containers s hp hcarries).sameRecords_iff.mp hsame⟩
  · exact (merged_containers s hp hcarries).sameRecords_iff.mpr hgone

end StateStore

/-! ## Runs -/

/-- The primary, and a standby that only mirrors. -/
structure MirrorPair where
  primary : MasterNode
  standby : StateStore
  /-- The answer of `/status` that the standby has not handled. -/
  answer : Option StatusAnswer

/-- What can happen next. -/
inductive MirrorPairLabel where
  | primary (e : PrimaryEvent)
  /-- `remove_container` and `remove_worker`. -/
  | removeContainer (cid : String)
  | removeWorker (w : String)
  /-- The primary is started again. -/
  | restarts (listenerClient engineClient : Bool)
  /-- The primary serves `/status`. -/
  | status (depth : Option Json)
  /-- The standby handles the answer, whatever has happened to the primary. -/
  | mirrors
  /-- The standby handles the audit log. -/
  | copies
  /-- A whole pass, during which the primary does not change. -/
  | pass (depth : Option Json)

/-- The primary serves `/status`, with the queue depth if the scheduler answers. -/
def MasterNode.serveStatus (m : MasterNode) : Option Json → MasterNode
  | some depth => { m with store := m.store.setQueueDepth depth }
  | none => m

namespace MirrorPair

/-- One step. -/
def step (sha256Text : String → String) (s : MirrorPair) : MirrorPairLabel → Option MirrorPair
  | .primary e =>
      (s.primary.handlePrimary sha256Text e).map fun node => { s with primary := node }
  | .removeContainer cid => some { s with
      primary := { s.primary with store := s.primary.store.removeContainer cid } }
  | .removeWorker w => some { s with
      primary := { s.primary with store := s.primary.store.removeWorker w } }
  | .restarts listenerClient engineClient => some { s with
      primary :=
        (MasterNode.new s.primary.store.clearAllWorkers listenerClient engineClient).listen }
  | .status depth => some { s with
      primary := s.primary.serveStatus depth
      answer := some (s.primary.serveStatus depth).store.status }
  | .mirrors => s.answer.map fun answer => { s with
      standby := s.standby.mirrorStatus answer
      answer := none }
  | .copies => some { s with standby := s.standby.mirrorAudit s.primary.store.auditLog }
  | .pass depth => some { s with
      primary := s.primary.serveStatus depth
      standby := s.standby.mirrorPass (s.primary.serveStatus depth).store }

/-- Both have just started, without a snapshot. -/
def start (listenerClient engineClient : Bool) : MirrorPair :=
  ⟨(MasterNode.new .empty listenerClient engineClient).listen, .empty, none⟩

/-- The records of the primary and of its last answer name their keys, and the containers of
the standby carry their ids. -/
structure Inv (s : MirrorPair) : Prop where
  keyed : s.primary.store.Keyed
  answer : ∀ answer, s.answer = some answer → ∃ store : StateStore,
    store.Keyed ∧ answer = store.status
  copies : s.standby.Copies

theorem keyed_serveStatus {m : MasterNode} (hm : m.store.Keyed) (depth : Option Json) :
    (m.serveStatus depth).store.Keyed := by
  cases depth with
  | none => exact hm
  | some depth => exact hm.congr rfl rfl

theorem inv_start (listenerClient engineClient : Bool) : (start listenerClient engineClient).Inv :=
  ⟨.empty, fun _ h => (nomatch h), fun _ _ h => nomatch h⟩

theorem inv_step {sha256Text : String → String} {s s' : MirrorPair} {l : MirrorPairLabel}
    (hs : s.Inv) (h : s.step sha256Text l = some s') : s'.Inv := by
  cases l with
  | primary e =>
    obtain ⟨node, hnode, rfl⟩ := Option.map_eq_some_iff.mp h
    exact ⟨MasterNode.keyed_handlePrimary hs.keyed hnode, hs.answer, hs.copies⟩
  | removeContainer cid =>
    rw [← Option.some.inj h]
    exact ⟨hs.keyed.removeContainer cid, hs.answer, hs.copies⟩
  | removeWorker w =>
    rw [← Option.some.inj h]
    exact ⟨hs.keyed.removeWorker w, hs.answer, hs.copies⟩
  | restarts listenerClient engineClient =>
    rw [← Option.some.inj h]
    exact ⟨hs.keyed.clearAllWorkers, hs.answer, hs.copies⟩
  | status depth =>
    rw [← Option.some.inj h]
    have hkeyed := keyed_serveStatus hs.keyed depth
    exact ⟨hkeyed, fun answer heq => ⟨_, hkeyed, (Option.some.inj heq).symm⟩, hs.copies⟩
  | mirrors =>
    obtain ⟨answer, hanswer, rfl⟩ := Option.map_eq_some_iff.mp h
    obtain ⟨store, hstore, rfl⟩ := hs.answer answer hanswer
    exact ⟨hs.keyed, fun _ heq => (nomatch heq), StateStore.copies_mirrorStatus hstore hs.copies⟩
  | copies =>
    rw [← Option.some.inj h]
    exact ⟨hs.keyed, hs.answer, StateStore.copies_mirrorAudit _ hs.copies⟩
  | pass depth =>
    rw [← Option.some.inj h]
    have hkeyed := keyed_serveStatus hs.keyed depth
    have hcopies := StateStore.copies_mirrorStatus hkeyed hs.copies
    exact ⟨hkeyed, hs.answer, StateStore.copies_mirrorAudit _ hcopies⟩

/-- After a pass the standby has what the primary has. -/
def PassConverges (_ : MirrorPair) (l : MirrorPairLabel) (s' : MirrorPair) : Prop :=
  ∀ depth, l = .pass depth → s'.primary.store.Converged s'.standby

/-- Before a pass there is nothing that it cannot bring about. -/
def PassMirrors (s : MirrorPair) (l : MirrorPairLabel) (_ : MirrorPair) : Prop :=
  ∀ depth, l = .pass depth → s.primary.store.Mirrorable s.standby

/-- **When mirroring converges.**  In a run of a primary and a standby, every pass brings the
containers and workers of the standby to those of the primary if and only if before each of
them all containers of the primary carry their ids and the primary still has every
container, worker and field that the standby has copied. -/
theorem pass_converges_iff (sha256Text : String → String) (listenerClient engineClient : Bool)
    (ls : List MirrorPairLabel) :
    Machine.Meets (step sha256Text) PassConverges (start listenerClient engineClient) ls ↔
      Machine.Meets (step sha256Text) PassMirrors (start listenerClient engineClient) ls := by
  refine Machine.meets_iff_meets (I := Inv) (fun s l s' hs _ h => inv_step hs h) ?_
    (inv_start listenerClient engineClient) ls
  intro s l s' hs h
  refine forall_congr' fun depth => ?_
  refine forall_congr' ?_
  rintro rfl
  rw [← Option.some.inj h, StateStore.converged_mirrorPass_iff (keyed_serveStatus hs.keyed depth)
    hs.copies]
  cases depth <;> rfl

/-- The primary has heard of a worker, and is started again after a pass. -/
def restartAfterPass : List MirrorPairLabel :=
  [.primary (.workerHeartbeat "w1" (.ofFields [("status", .str "alive")])), .pass none,
    .restarts true true]

/-- The next pass leaves the worker with the standby. -/
theorem worker_outlives_restart :
    ∃ s s', Machine.exec (step id) (start true true) restartAfterPass = some s ∧
      s.step id (.pass none) = some s' ∧ "w1" ∉ s'.primary.store.workers ∧
      "w1" ∈ s'.standby.workers ∧ ¬ s.PassConverges (.pass none) s' := by
  obtain ⟨s, s', hs, hs', hprimary, hstandby⟩ :
      ∃ s s', Machine.exec (step id) (start true true) restartAfterPass = some s ∧
        s.step id (.pass none) = some s' ∧ "w1" ∉ s'.primary.store.workers ∧
        "w1" ∈ s'.standby.workers :=
    ⟨_, _, rfl, rfl, by decide +kernel, by decide +kernel⟩
  refine ⟨s, s', hs, hs', hprimary, hstandby, fun hconverges => ?_⟩
  exact hprimary (((hconverges none rfl).2.keys "w1").mp hstandby)

end MirrorPair
end Rcsce
