import Rcsce.ControlPlane.MasterStores

/-!
# One snapshot file for two processes

Started from one directory, the primary and the standby save their stores to the same file.
A save writes the whole store, and the last one wins.  So the file is the snapshot of the
primary only as long as the standby has not saved since, or has saved the same; and the
standby saves after every single call of its store, in the middle of a pass as well.

A primary that crashes and starts again reads the file, and clears the workers.  What it
should find of itself is `durable`: containers with their stamps, critical set, audit log,
queue depth and cache counters.  `owned` is a ghost for the store that the primary has, or had
when it went down.

* `RestartsAsItWas` says that a primary that crashes now and is started again loads what is
  owned.
* `restarts_iff` is exact: it holds in every state of a run if and only if every call of the
  standby in the run saves a store that agrees with the one of the primary in these parts.
* `first_upsert_overwrites` is the run in which the first call of the first pass of the mirror
  loses a container and the critical set of the primary.
-/

namespace Rcsce

/-- What a primary finds in the file when it starts, workers apart. -/
structure Durable where
  containers : OrderedDict String Record
  critical : Finset String
  auditLog : List Record
  queueDepth : Json
  cacheHits : ℕ
  cacheMisses : ℕ

/-- What a store has of it. -/
def StateStore.durable (s : StateStore) : Durable :=
  ⟨s.containers, s.critical, s.auditLog, s.queueDepth, s.cacheHits, s.cacheMisses⟩

/-- What the standby writes into the file, if the step is a call of the standby. -/
def MasterStores.standbySave (m : MasterStores) : StoresLabel → Option StateStore
  | .standby c now => some (m.standby.store.callAt now c).saved
  | .mirrorCalls now => m.standby.mirroring.head?.map fun c => (m.standby.store.callAt now c).saved
  | _ => none

/-- Both processes, and the store that the primary has or had when it went down. -/
structure SnapshotState where
  masters : MasterStores
  owned : StateStore

namespace SnapshotState

/-- One step; a primary that is not down owns its store. -/
def step (s : SnapshotState) (l : StoresLabel) : Option SnapshotState :=
  (s.masters.step l).map fun m => ⟨m, m.primary.store?.getD s.owned⟩

/-- Nobody has made a call since the file was written. -/
def start (file : StateStore) : SnapshotState := ⟨.start file, file.saved⟩

/-- If the primary crashes now and starts again, it loads what it had. -/
def RestartsAsItWas (s : SnapshotState) : Prop :=
  ∃ t store, Machine.exec step s [.primaryStops, .primaryLoads] = some t ∧
    t.masters.primary.store? = some store ∧ store.durable = s.owned.durable

/-- If the step is a call of the standby, the store that it saves has what the primary has, or
had when it went down. -/
def SavesTheSame (s : SnapshotState) (l : StoresLabel) (_ : SnapshotState) : Prop :=
  ∀ store, s.masters.standbySave l = some store → store.durable = s.owned.durable

/-- The ghost is the store of a primary that is not down, and the logs are cut to their
window. -/
structure Owned (s : SnapshotState) : Prop where
  owned : ∀ store, s.masters.primary.store? = some store → s.owned = store
  store : ∀ store, s.masters.primary.store? = some store → store.auditLog.length ≤ 200
  disk : s.masters.disk.auditLog.length ≤ 200

/-! ## Reading the file -/

/-- A restart reads the file. -/
theorem restartsAsItWas_iff (s : SnapshotState) :
    s.RestartsAsItWas ↔ s.masters.disk.durable = s.owned.durable := by
  constructor
  · rintro ⟨t, store, ht, hstore, heq⟩
    cases ht
    cases hstore
    exact heq
  · intro h
    exact ⟨_, _, rfl, rfl, h⟩

end SnapshotState

namespace MasterStores

variable {m m' : MasterStores} {l : StoresLabel}

/-! ## One step -/

/-- The file after a step.  A call of the standby leaves the store of the standby there, a call
of the primary leaves the one of the primary, a primary that starts takes over what is there,
and the other steps leave the file alone. -/
theorem disk_step (hlog : ∀ store, m.primary.store? = some store → store.auditLog.length ≤ 200)
    (h : m.step l = some m') :
    (m.standbySave l = some m'.disk ∧ m'.primary = m.primary) ∨
      (m.standbySave l = none ∧
        (m'.primary.store? = some m'.disk ∨
          m'.disk = m.disk ∧
            (m'.primary.store? = none ∨ m'.primary.store? = m.primary.store?))) := by
  cases step_cases h with
  | primary c now store serving hup =>
    have hstore := StateStore.length_auditLog_callAt (hlog store (by rw [hup]; rfl)) now c
    exact Or.inr ⟨rfl, Or.inl (congrArg some (StateStore.saved_of_length_le hstore).symm)⟩
  | loads => exact Or.inr ⟨rfl, Or.inl rfl⟩
  | clears store hloaded =>
    have hstore : store.clearAllWorkers.auditLog.length ≤ 200 := hlog store (by rw [hloaded]; rfl)
    exact Or.inr ⟨rfl, Or.inl (congrArg some (StateStore.saved_of_length_le hstore).symm)⟩
  | stops => exact Or.inr ⟨rfl, Or.inr ⟨rfl, Or.inl rfl⟩⟩
  | standby c now => exact Or.inl ⟨rfl, rfl⟩
  | standbyStarts => exact Or.inr ⟨rfl, Or.inr ⟨rfl, Or.inr rfl⟩⟩
  | polls depth store serving mirror hup =>
    have hstore : (store.setQueueDepth depth).auditLog.length ≤ 200 :=
      hlog store (by rw [hup]; rfl)
    exact Or.inr ⟨rfl, Or.inl (congrArg some (StateStore.saved_of_length_le hstore).symm)⟩
  | mirrors now c calls hcalls =>
    refine Or.inl ⟨?_, rfl⟩
    rw [standbySave, hcalls]
    rfl
  | waits l hl primary hprimary standby hstandby =>
    have hsaves : m.standbySave l = none := by
      cases l <;> first
        | rfl
        | cases hl
    exact Or.inr ⟨hsaves, Or.inr ⟨rfl, Or.inr hprimary⟩⟩

theorem length_disk_step (hdisk : m.disk.auditLog.length ≤ 200) (h : m.step l = some m') :
    m'.disk.auditLog.length ≤ 200 := by
  cases step_cases h with
  | primary | clears | standby | polls | mirrors => exact StateStore.length_auditLog_saved _
  | loads | stops | standbyStarts | waits => exact hdisk

theorem length_store_step
    (hlog : ∀ store, m.primary.store? = some store → store.auditLog.length ≤ 200)
    (hdisk : m.disk.auditLog.length ≤ 200) (h : m.step l = some m') :
    ∀ store, m'.primary.store? = some store → store.auditLog.length ≤ 200 := by
  intro store hstore
  rcases disk_step hlog h with ⟨-, hsame⟩ | ⟨-, hkept | ⟨-, hnone | hsame⟩⟩
  · exact hlog store (hsame ▸ hstore)
  · obtain rfl := Option.some.inj (hkept.symm.trans hstore)
    exact length_disk_step hdisk h
  · cases hnone.symm.trans hstore
  · exact hlog store (hsame ▸ hstore)

end MasterStores

namespace SnapshotState

theorem owned_step {s s' : SnapshotState} {l : StoresLabel} (hs : s.Owned)
    (h : s.step l = some s') : s'.Owned := by
  obtain ⟨m, hm, rfl⟩ := Option.map_eq_some_iff.mp h
  exact
    { owned := fun store hstore => congrArg (Option.getD · s.owned) hstore
      store := MasterStores.length_store_step hs.store hs.disk hm
      disk := MasterStores.length_disk_step hs.disk hm }

/-- **The step.**  While the file has what the primary owns, a step keeps it so exactly when
it is no call of the standby that saves anything else. -/
theorem step_durable_iff {s s' : SnapshotState} {l : StoresLabel} (howned : s.Owned)
    (hs : s.masters.disk.durable = s.owned.durable) (h : s.step l = some s') :
    s'.masters.disk.durable = s'.owned.durable ↔ s.SavesTheSame l s' := by
  obtain ⟨m, hm, rfl⟩ := Option.map_eq_some_iff.mp h
  rw [SavesTheSame]
  dsimp only
  rcases MasterStores.disk_step howned.store hm with ⟨hsaves, hprimary⟩ | ⟨hsaves, hkept⟩
  · have hsame : m.primary.store?.getD s.owned = s.owned := by
      rw [hprimary]
      cases hstore : s.masters.primary.store? with
      | none => rfl
      | some store => exact (howned.owned store hstore).symm
    rw [hsame]
    constructor
    · intro heq store hstore
      rw [← Option.some.inj (hsaves.symm.trans hstore), heq]
    · exact fun hC => hC m.disk hsaves
  · refine iff_of_true ?_ fun store hstore => absurd (hsaves.symm.trans hstore) (by rintro ⟨⟩)
    rcases hkept with hstore | ⟨hdisk, hnone | hstore⟩
    · rw [hstore, Option.getD_some]
    · rw [hdisk, hnone, Option.getD_none, hs]
    · rw [hdisk, hstore, hs]
      cases hprimary : s.masters.primary.store? with
      | none => rfl
      | some store => rw [Option.getD_some, howned.owned store hprimary]

theorem start_owned (file : StateStore) : (start file).Owned where
  owned _ hstore := by cases hstore
  store _ hstore := by cases hstore
  disk := file.length_auditLog_saved

/-! ## Whole runs -/

/-- **When the snapshot is the one of the primary.**  In every state of a run of single calls
of the two processes, with any number of starts and crashes in it, a crash and a start of the
primary restore what it had, if and only if every call of the standby in the run saves the same
containers, critical set, audit log, queue depth and cache counters. -/
theorem restarts_iff (file : StateStore) (ls : List StoresLabel) :
    Machine.Visits step RestartsAsItWas (start file) ls ↔
      Machine.Meets step SavesTheSame (start file) ls := by
  refine Machine.visits_iff_meets (I := Owned) (fun _ _ _ hs h => owned_step hs h)
    (fun s l s' howned hs h => ?_) (start_owned file) ((restartsAsItWas_iff _).mpr rfl) ls
  rw [restartsAsItWas_iff] at hs ⊢
  exact step_durable_iff howned hs h

/-- Two containers start at the primary, and the first is marked critical.  The standby asks for
`/status`, and makes the first of its calls. -/
def firstUpsert : List StoresLabel :=
  [.primaryLoads, .primaryClears,
    .primary (.upsertContainer "c1" (.ofFields [("container_id", .str "c1"), ("name", .str "web"),
      ("image", .str "nginx"), ("status", .str "running")])) "10:00:00",
    .primary (.upsertContainer "c2" (.ofFields [("container_id", .str "c2"), ("name", .str "db"),
      ("image", .str "redis"), ("status", .str "running")])) "10:00:01",
    .primary (.markCritical "c1") "10:00:02",
    .mirror, .statusReads, .status none, .statusAnswered, .mirrorCalls "10:00:05"]

/-- Then the primary crashes and starts again.  The second container is gone, and so is the
critical set. -/
theorem first_upsert_overwrites :
    ∃ s t store, Machine.exec step (start .empty) firstUpsert = some s ∧
      Machine.exec step s [.primaryStops, .primaryLoads] = some t ∧
      t.masters.primary.store? = some store ∧
      s.owned.containers.keys = ["c1", "c2"] ∧ store.containers.keys = ["c1"] ∧
      s.owned.critical = {"c1"} ∧ store.critical = ∅ ∧ ¬ s.RestartsAsItWas := by
  refine ⟨_, _, _, rfl, rfl, rfl, by decide +kernel, by decide +kernel, by decide +kernel,
    by decide +kernel, ?_⟩
  rw [restartsAsItWas_iff]
  intro h
  exact absurd (congrArg Durable.critical h) (by decide +kernel)

end SnapshotState
end Rcsce
