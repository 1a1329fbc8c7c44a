import Rcsce.Lib.Json
import Rcsce.Lib.OrderedDict
import Rcsce.Scheduler.Job

/-!
# The worker registry

`scheduler/workers/worker_registry.py`: one record for each worker that was ever
created.  Records are never removed; a dead worker keeps its record.

A `WorkerNode` is the object that the record points to; `None` is a record without
one.  `max(0, x)` on a counter that starts at zero and is decremented by one is the
truncated subtraction of the naturals.

`Evolves` is what all operations but `mark_assigned` have in common, whatever
their order: no record goes away, no load grows, no dead worker comes back, and a
new worker starts idle.
-/

namespace Rcsce

/-- A `WorkerNode`, by its id. -/
structure WorkerNode where
  workerId : Uuid
  deriving DecidableEq

/-- The values of `info["status"]`. -/
inductive WorkerStatus where
  | alive
  | dead
  deriving DecidableEq

/-- The record of a worker. -/
structure WorkerInfo where
  lastHeartbeat : Time
  status : WorkerStatus
  load : ℕ
  jobsAssigned : ℕ
  jobsCompleted : ℕ
  eventsAssigned : ℕ
  eventsCompleted : ℕ
  node : Option WorkerNode
  deriving DecidableEq

/-- The condition of `available_workers`. -/
def WorkerInfo.available (info : WorkerInfo) : Bool :=
  info.status = .alive ∧ info.node.isSome

/-- The registry. -/
structure WorkerRegistry where
  workers : OrderedDict Uuid WorkerInfo
  deriving DecidableEq

namespace WorkerRegistry

/-- A registry without workers. -/
def empty : WorkerRegistry := ⟨.empty⟩

/-- `register`: a worker that was there keeps its counters. -/
def register (r : WorkerRegistry) (workerId : Uuid) (node : Option WorkerNode) (now : Time) :
    WorkerRegistry :=
  let old := r.workers.get? workerId
  let jobsAssigned := (old.map WorkerInfo.jobsAssigned).getD 0
  let jobsCompleted := (old.map WorkerInfo.jobsCompleted).getD 0
  ⟨r.workers.set workerId
    { lastHeartbeat := now
      status := .alive
      load := (old.map WorkerInfo.load).getD 0
      jobsAssigned
      jobsCompleted
      eventsAssigned := (old.map WorkerInfo.eventsAssigned).getD jobsAssigned
      eventsCompleted := (old.map WorkerInfo.eventsCompleted).getD jobsCompleted
      node }⟩

/-- Change the record of a worker, if there is one. -/
def adjust (r : WorkerRegistry) (workerId : Uuid) (f : WorkerInfo → WorkerInfo) :
    WorkerRegistry :=
  ⟨r.workers.modify workerId f⟩

def heartbeat (r : WorkerRegistry) (workerId : Uuid) (now : Time) : WorkerRegistry :=
  r.adjust workerId fun info => { info with lastHeartbeat := now }

def updateLoad (r : WorkerRegistry) (workerId : Uuid) (load : ℕ) : WorkerRegistry :=
  r.adjust workerId fun info => { info with load := load }

def markAssigned (r : WorkerRegistry) (workerId : Uuid) : WorkerRegistry :=
  r.adjust workerId fun info =>
    { info with
      load := info.load + 1
      jobsAssigned := info.jobsAssigned + 1
      eventsAssigned := info.eventsAssigned + 1 }

def markCompleted (r : WorkerRegistry) (workerId : Uuid) : WorkerRegistry :=
  r.adjust workerId fun info =>
    { info with
      load := info.load - 1
      jobsCompleted := info.jobsCompleted + 1
      eventsCompleted := info.eventsCompleted + 1 }

def markFailedOrRequeued (r : WorkerRegistry) (workerId : Uuid) : WorkerRegistry :=
  r.adjust workerId fun info => { info with load := info.load - 1 }

def markDead (r : WorkerRegistry) (workerId : Uuid) : WorkerRegistry :=
  r.adjust workerId fun info => { info with status := .dead, load := 0 }

/-- `available_workers`: the ids by load; `alive.sort` is stable, so ties keep the
order of registration. -/
def availableWorkers (r : WorkerRegistry) : List Uuid :=
  (((r.workers.entries.filter fun e => e.2.available).map fun e => (e.1, e.2.load)).insertionSort
    fun a b => a.2 ≤ b.2).map Prod.fst

/-- `get_worker`. -/
def getWorker (r : WorkerRegistry) (workerId : Uuid) : Option WorkerNode :=
  (r.workers.get? workerId).bind WorkerInfo.node

/-- `_alive_worker_count`. -/
def aliveCount (r : WorkerRegistry) : ℕ :=
  r.workers.values.countP fun info => info.status = .alive

/-- The worker has a record that says so. -/
def Alive (r : WorkerRegistry) (w : Uuid) : Prop :=
  ∃ info, r.workers.get? w = some info ∧ info.status = .alive

/-- The worker has a record and it says `dead`. -/
def Dead (r : WorkerRegistry) (w : Uuid) : Prop :=
  ∃ info, r.workers.get? w = some info ∧ info.status = .dead

/-- The sum of `jobs_completed` over all workers. -/
def totalCompleted (r : WorkerRegistry) : ℕ :=
  (r.workers.values.map WorkerInfo.jobsCompleted).sum

/-- The worker is alive and has a node. -/
def Available (r : WorkerRegistry) (w : Uuid) : Prop :=
  ∃ info, r.workers.get? w = some info ∧ info.available

/-- The load of a worker. -/
def loadOf (r : WorkerRegistry) (w : Uuid) : ℕ := ((r.workers.get? w).map WorkerInfo.load).getD 0

/-- `w` is alive, has a node, and no other such worker has less load. -/
def LeastLoaded (r : WorkerRegistry) (w : Uuid) : Prop :=
  r.Available w ∧ ∀ v, r.Available v → r.loadOf w ≤ r.loadOf v

/-! ## The records after an operation -/

theorem get?_adjust (r : WorkerRegistry) (w : Uuid) (f : WorkerInfo → WorkerInfo) (v : Uuid) :
    (r.adjust w f).workers.get? v =
      if v = w then (r.workers.get? v).map f else r.workers.get? v :=
  OrderedDict.get?_modify r.workers w f v

@[simp] theorem mem_adjust {r : WorkerRegistry} {w v : Uuid} {f : WorkerInfo → WorkerInfo} :
    v ∈ (r.adjust w f).workers ↔ v ∈ r.workers :=
  OrderedDict.mem_modify

/-- The record of a worker that registers for the first time. -/
def fresh (node : Option WorkerNode) (now : Time) : WorkerInfo :=
  ⟨now, .alive, 0, 0, 0, 0, 0, node⟩

theorem register_of_notMem {r : WorkerRegistry} {w : Uuid} (h : w ∉ r.workers)
    (node : Option WorkerNode) (now : Time) :
    r.register w node now = ⟨r.workers.set w (fresh node now)⟩ := by
  rw [register, OrderedDict.get?_eq_none_iff.mpr h]
  rfl

theorem loadOf_of_get? {r : WorkerRegistry} {w : Uuid} {info : WorkerInfo}
    (h : r.workers.get? w = some info) : r.loadOf w = info.load := by
  rw [loadOf, h]
  rfl

theorem available_iff {info : WorkerInfo} :
    info.available = true ↔ info.status = .alive ∧ info.node.isSome := by
  rw [WorkerInfo.available, decide_eq_true_iff]

theorem Available.alive {r : WorkerRegistry} {w : Uuid} (h : r.Available w) : r.Alive w := by
  obtain ⟨info, hinfo, hav⟩ := h
  exact ⟨info, hinfo, (available_iff.mp hav).1⟩

/-! ## Choosing a worker -/

theorem mem_availableWorkers {r : WorkerRegistry} {w : Uuid} :
    w ∈ r.availableWorkers ↔ r.Available w := by
  rw [availableWorkers, List.mem_map]
  constructor
  · rintro ⟨a, ha, rfl⟩
    rw [(List.perm_insertionSort _ _).mem_iff, List.mem_map] at ha
    obtain ⟨e, he, rfl⟩ := ha
    obtain ⟨hmem, hav⟩ := List.mem_filter.mp he
    exact ⟨e.2, OrderedDict.get?_eq_some_iff.mpr hmem, hav⟩
  · rintro ⟨info, hinfo, hav⟩
    refine ⟨(w, info.load), ?_, rfl⟩
    rw [(List.perm_insertionSort _ _).mem_iff, List.mem_map]
    exact ⟨(w, info), List.mem_filter.mpr ⟨OrderedDict.get?_eq_some_iff.mp hinfo, hav⟩, rfl⟩

/-- **The candidate.**  The first of `available_workers` is a least loaded one. -/
theorem leastLoaded_of_head {r : WorkerRegistry} {w : Uuid} {rest : List Uuid}
    (h : r.availableWorkers = w :: rest) : r.LeastLoaded w := by
  rw [availableWorkers] at h
  set found := (r.workers.entries.filter fun e => e.2.available).map fun e => (e.1, e.2.load)
    with hfound
  obtain ⟨head, tail, hsort, hhead, -⟩ := List.map_eq_cons_iff.mp h
  have hperm := List.perm_insertionSort (fun a b : Uuid × ℕ => a.2 ≤ b.2) found
  have hsorted := List.pairwise_insertionSort (fun a b : Uuid × ℕ => a.2 ≤ b.2) found
  rw [hsort] at hperm hsorted
  have hmem : head ∈ found := hperm.subset List.mem_cons_self
  rw [hfound, List.mem_map] at hmem
  obtain ⟨⟨w', info⟩, he, rfl⟩ := hmem
  rw [List.mem_filter] at he
  obtain rfl : w' = w := hhead
  have hinfo : r.workers.get? w' = some info := OrderedDict.get?_eq_some_iff.mpr he.1
  refine ⟨⟨info, hinfo, he.2⟩, ?_⟩
  rintro v ⟨info', hv, hav⟩
  rw [loadOf_of_get? hinfo, loadOf_of_get? hv]
  have hv' : (v, info'.load) ∈ found := by
    rw [hfound, List.mem_map]
    exact ⟨(v, info'), List.mem_filter.mpr ⟨OrderedDict.get?_eq_some_iff.mp hv, hav⟩, rfl⟩
  rcases List.mem_cons.mp (hperm.symm.subset hv') with heq | htail
  · exact (congrArg Prod.snd heq).ge
  · exact (List.pairwise_cons.mp hsorted).1 _ htail

/-! ## What all operations but `mark_assigned` have in common -/

/-- From `r` to `r'` no record goes away or changes its node, no load grows, no dead
worker comes back, and a worker that is new has a node and no load. -/
structure Evolves (r r' : WorkerRegistry) : Prop where
  kept : ∀ w info, r.workers.get? w = some info → ∃ info', r'.workers.get? w = some info' ∧
    info'.node = info.node ∧ info'.load ≤ info.load ∧ (info.status = .dead → info'.status = .dead)
  new : ∀ w info', r'.workers.get? w = some info' → w ∉ r.workers →
    info'.load = 0 ∧ info'.node.isSome

theorem Evolves.refl (r : WorkerRegistry) : r.Evolves r :=
  ⟨fun _ info h => ⟨info, h, rfl, le_rfl, id⟩,
    fun _ _ h hnot => absurd (OrderedDict.mem_of_get? h) hnot⟩

theorem Evolves.trans {r r' r'' : WorkerRegistry} (h : r.Evolves r') (h' : r'.Evolves r'') :
    r.Evolves r'' := by
  constructor
  · intro w info hw
    obtain ⟨info', hw', hnode, hload, hdead⟩ := h.kept w info hw
    obtain ⟨info'', hw'', hnode', hload', hdead'⟩ := h'.kept w info' hw'
    exact ⟨info'', hw'', hnode'.trans hnode, hload'.trans hload, fun hd => hdead' (hdead hd)⟩
  · intro w info'' hw'' hnot
    by_cases hmem : w ∈ r'.workers
    · obtain ⟨info', hw'⟩ := OrderedDict.mem_iff_get?.mp hmem
      obtain ⟨info₂, hw₂, hnode, hload, -⟩ := h'.kept w info' hw'
      obtain rfl : info₂ = info'' := Option.some.inj (hw₂.symm.trans hw'')
      obtain ⟨hzero, hsome⟩ := h.new w info' hw' hnot
      exact ⟨Nat.le_zero.mp (hload.trans hzero.le), hnode ▸ hsome⟩
    · exact h'.new w info'' hw'' hmem

theorem Evolves.mem {r r' : WorkerRegistry} (h : r.Evolves r') {w : Uuid} (hw : w ∈ r.workers) :
    w ∈ r'.workers := by
  obtain ⟨info, hinfo⟩ := OrderedDict.mem_iff_get?.mp hw
  obtain ⟨info', hinfo', -⟩ := h.kept w info hinfo
  exact OrderedDict.mem_of_get? hinfo'

theorem Evolves.dead {r r' : WorkerRegistry} (h : r.Evolves r') {w : Uuid} (hw : r.Dead w) :
    r'.Dead w := by
  obtain ⟨info, hinfo, hdead⟩ := hw
  obtain ⟨info', hinfo', -, -, hdead'⟩ := h.kept w info hinfo
  exact ⟨info', hinfo', hdead' hdead⟩

theorem dead_markAssigned {r : WorkerRegistry} {w v : Uuid} (hv : r.Dead v) :
    (r.markAssigned w).Dead v := by
  obtain ⟨info, hinfo, hdead⟩ := hv
  rw [Dead, markAssigned, get?_adjust, hinfo]
  split_ifs
  · exact ⟨_, rfl, hdead⟩
  · exact ⟨info, rfl, hdead⟩

theorem not_dead_of_alive {r : WorkerRegistry} {w : Uuid} (h : r.Alive w) : ¬ r.Dead w := by
  rintro ⟨info, hinfo, hdead⟩
  obtain ⟨info', hinfo', halive⟩ := h
  obtain rfl : info' = info := Option.some.inj (hinfo'.symm.trans hinfo)
  rw [halive] at hdead
  cases hdead

theorem dead_markDead {r : WorkerRegistry} {w : Uuid} (h : w ∈ r.workers) :
    (r.markDead w).Dead w := by
  obtain ⟨info, hinfo⟩ := OrderedDict.mem_iff_get?.mp h
  refine ⟨{ info with status := .dead, load := 0 }, ?_, rfl⟩
  rw [markDead, get?_adjust, if_pos rfl, hinfo]
  rfl

theorem Alive.mem {r : WorkerRegistry} {w : Uuid} (h : r.Alive w) : w ∈ r.workers := by
  obtain ⟨info, hinfo, -⟩ := h
  exact OrderedDict.mem_of_get? hinfo

theorem evolves_adjust (r : WorkerRegistry) (w : Uuid) {f : WorkerInfo → WorkerInfo}
    (hf : ∀ info, (f info).node = info.node ∧ (f info).load ≤ info.load ∧
      (info.status = .dead → (f info).status = .dead)) : r.Evolves (r.adjust w f) := by
  constructor
  · intro v info hv
    rw [get?_adjust, hv]
    split_ifs
    · exact ⟨f info, rfl, hf info⟩
    · exact ⟨info, rfl, rfl, le_rfl, id⟩
  · intro v info' hv hnot
    exact absurd (mem_adjust.mp (OrderedDict.mem_of_get? hv)) hnot

theorem evolves_heartbeat (r : WorkerRegistry) (w : Uuid) (now : Time) :
    r.Evolves (r.heartbeat w now) :=
  evolves_adjust r w fun _ => ⟨rfl, le_rfl, id⟩

theorem evolves_markCompleted (r : WorkerRegistry) (w : Uuid) : r.Evolves (r.markCompleted w) :=
  evolves_adjust r w fun _ => ⟨rfl, Nat.sub_le _ _, id⟩

theorem evolves_markFailedOrRequeued (r : WorkerRegistry) (w : Uuid) :
    r.Evolves (r.markFailedOrRequeued w) :=
  evolves_adjust r w fun _ => ⟨rfl, Nat.sub_le _ _, id⟩

theorem evolves_markDead (r : WorkerRegistry) (w : Uuid) : r.Evolves (r.markDead w) :=
  evolves_adjust r w fun _ => ⟨rfl, Nat.zero_le _, fun _ => rfl⟩

theorem evolves_register {r : WorkerRegistry} {w : Uuid} (h : w ∉ r.workers)
    (node : WorkerNode) (now : Time) : r.Evolves (r.register w (some node) now) := by
  rw [register_of_notMem h]
  constructor
  · intro v info hv
    have hne : v ≠ w := fun heq => h (heq ▸ OrderedDict.mem_of_get? hv)
    exact ⟨info, (OrderedDict.get?_set_of_ne _ _ hne).trans hv, rfl, le_rfl, id⟩
  · intro v info' hv hnot
    rw [OrderedDict.get?_set] at hv
    split_ifs at hv with heq
    · rw [← Option.some.inj hv]
      exact ⟨rfl, rfl⟩
    · exact absurd (OrderedDict.mem_of_get? hv) hnot

/-! ## What disturbs the choice of a worker -/

/-- What can make a least loaded worker `w` stop being one, from `r` to `r'`: `w` dies,
a worker is spawned while `w` is busy, or another worker finishes jobs and has less
load than `w` then. -/
structure Undisturbed (r r' : WorkerRegistry) (w : Uuid) : Prop where
  survives : r'.Alive w
  spawns : ∀ v ∉ r.workers, r'.Available v → r'.loadOf w = 0
  finishes : ∀ v, r'.Available v → r'.loadOf v < r.loadOf v → r'.loadOf w ≤ r'.loadOf v

/-- **Exactly these three.**  As the registry evolves, a least loaded worker remains
one if and only if nothing disturbs it. -/
theorem leastLoaded_iff_undisturbed {r r' : WorkerRegistry} {w : Uuid} (hev : r.Evolves r')
    (h : r.LeastLoaded w) : r'.LeastLoaded w ↔ r.Undisturbed r' w := by
  obtain ⟨⟨info, hinfo, hav⟩, hleast⟩ := h
  constructor
  · rintro ⟨hav', hleast'⟩
    refine ⟨hav'.alive, fun v hnew hv => ?_, fun v hv _ => hleast' v hv⟩
    have hle := hleast' v hv
    obtain ⟨infov, hinfov, -⟩ := hv
    rw [loadOf_of_get? hinfov, (hev.new v infov hinfov hnew).1] at hle
    exact Nat.le_zero.mp hle
  · rintro ⟨⟨info', hinfo', halive'⟩, hspawns, hfinishes⟩
    obtain ⟨info₂, hinfo₂, hnode, hload, -⟩ := hev.kept w info hinfo
    obtain rfl : info₂ = info' := Option.some.inj (hinfo₂.symm.trans hinfo')
    refine ⟨⟨info₂, hinfo₂, available_iff.mpr ⟨halive', ?_⟩⟩, fun v hv => ?_⟩
    · rw [hnode]
      exact (available_iff.mp hav).2
    · by_cases hmem : v ∈ r.workers
      · by_cases hlt : r'.loadOf v < r.loadOf v
        · exact hfinishes v hv hlt
        · -- `v` was there before, available, and its load has not dropped
          obtain ⟨infov, hinfov⟩ := OrderedDict.mem_iff_get?.mp hmem
          obtain ⟨infov', hinfov', hnodev, -, hdeadv⟩ := hev.kept v infov hinfov
          obtain ⟨info₃, hinfo₃, hav₃⟩ := hv
          obtain rfl : infov' = info₃ := Option.some.inj (hinfov'.symm.trans hinfo₃)
          obtain ⟨halive₃, hnode₃⟩ := available_iff.mp hav₃
          have havv : infov.available := by
            refine available_iff.mpr ⟨?_, hnodev ▸ hnode₃⟩
            cases hs : infov.status with
            | alive => rfl
            | dead => exact absurd (hdeadv hs) (by rw [halive₃]; exact nofun)
          have hle := hleast v ⟨infov, hinfov, havv⟩
          rw [loadOf_of_get? hinfo] at hle
          rw [loadOf_of_get? hinfo₂]
          omega
      · rw [hspawns v hmem hv]
        exact Nat.zero_le _

/-! ## Counting -/

theorem aliveCount_adjust {r : WorkerRegistry} {w : Uuid} {f : WorkerInfo → WorkerInfo}
    (hf : ∀ info, (f info).status = info.status) : (r.adjust w f).aliveCount = r.aliveCount := by
  rw [aliveCount, aliveCount, adjust]
  cases hw : r.workers.get? w with
  | none => rw [OrderedDict.modify_of_notMem (OrderedDict.get?_eq_none_iff.mp hw)]
  | some info =>
    rw [(OrderedDict.values_modify_perm hw f).countP_eq,
      (OrderedDict.values_perm_of_get? hw).countP_eq, List.countP_cons, List.countP_cons, hf]

theorem aliveCount_markDead {r : WorkerRegistry} {w : Uuid} (hw : r.Alive w) :
    r.aliveCount = (r.markDead w).aliveCount + 1 := by
  obtain ⟨info, hinfo, halive⟩ := hw
  rw [aliveCount, aliveCount, markDead, adjust,
    (OrderedDict.values_modify_perm hinfo _).countP_eq,
    (OrderedDict.values_perm_of_get? hinfo).countP_eq, List.countP_cons, List.countP_cons]
  simp [halive]

theorem aliveCount_register {r : WorkerRegistry} {w : Uuid} (h : w ∉ r.workers)
    (node : Option WorkerNode) (now : Time) :
    (r.register w node now).aliveCount = r.aliveCount + 1 := by
  rw [register_of_notMem h, aliveCount, aliveCount,
    (OrderedDict.values_set_perm_of_notMem h _).countP_eq, List.countP_cons]
  simp [fresh]

theorem totalCompleted_adjust {r : WorkerRegistry} {w : Uuid} {f : WorkerInfo → WorkerInfo}
    (hf : ∀ info, (f info).jobsCompleted = info.jobsCompleted) :
    (r.adjust w f).totalCompleted = r.totalCompleted := by
  rw [totalCompleted, totalCompleted, adjust]
  cases hw : r.workers.get? w with
  | none => rw [OrderedDict.modify_of_notMem (OrderedDict.get?_eq_none_iff.mp hw)]
  | some info =>
    rw [((OrderedDict.values_modify_perm hw f).map _).sum_eq,
      ((OrderedDict.values_perm_of_get? hw).map _).sum_eq, List.map_cons, List.map_cons,
      List.sum_cons, List.sum_cons, hf]

theorem totalCompleted_markCompleted {r : WorkerRegistry} {w : Uuid} (hw : w ∈ r.workers) :
    (r.markCompleted w).totalCompleted = r.totalCompleted + 1 := by
  obtain ⟨info, hinfo⟩ := OrderedDict.mem_iff_get?.mp hw
  rw [totalCompleted, totalCompleted, markCompleted, adjust,
    ((OrderedDict.values_modify_perm hinfo _).map _).sum_eq,
    ((OrderedDict.values_perm_of_get? hinfo).map _).sum_eq, List.map_cons, List.map_cons,
    List.sum_cons, List.sum_cons]
  exact Nat.add_right_comm info.jobsCompleted 1 _

theorem totalCompleted_register {r : WorkerRegistry} {w : Uuid} (h : w ∉ r.workers)
    (node : Option WorkerNode) (now : Time) :
    (r.register w node now).totalCompleted = r.totalCompleted := by
  rw [register_of_notMem h, totalCompleted, totalCompleted,
    ((OrderedDict.values_set_perm_of_notMem h _).map _).sum_eq, List.map_cons, List.sum_cons]
  exact Nat.zero_add _

end WorkerRegistry
end Rcsce
