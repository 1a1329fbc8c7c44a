import Rcsce.ControlPlane.Masters

/-!
# Critical containers after a failover of the master

The mirror copies records, and the decision to fail a container over reads the set.
`exec_critical` follows the set of the standby along a run: it holds what the standby
loaded at its start and what was marked on the standby itself, and no pass of the mirror
adds to it.  So `mirrored_critical_iff` is the exact condition under which the promoted
standby still protects what the primary held as critical.
-/

namespace Rcsce

/-- The container that an event marks critical. -/
def MasterEvent.marks : MasterEvent → Option String
  | .failedOver _ replica _ => some (leading 12 replica)
  | .markCritical containerId => some containerId
  | _ => none

/-- The container that a step marks critical on the standby itself. -/
def MastersLabel.marksOnStandby : MastersLabel → Option String
  | .standby e => e.marks
  | _ => none

/-! ## Mirroring marks nothing -/

namespace StateStore

theorem critical_mirrorContainer (s : StateStore) (container : Record) :
    (s.mirrorContainer container).critical = s.critical := by
  unfold mirrorContainer
  split
  · split_ifs
    · rfl
    · exact critical_upsertContainer _ _ _
  · rfl

theorem critical_mirrorWorker (s : StateStore) (worker : Record) :
    (s.mirrorWorker worker).critical = s.critical :=
  critical_upsertWorker _ _ _

theorem critical_mirrorEntry (existing : List String) (s : StateStore) (entry : Record) :
    (s.mirrorEntry existing entry).critical = s.critical := by
  unfold mirrorEntry
  split
  · split_ifs
    · rfl
    · exact critical_appendAudit _ _
  · exact critical_appendAudit _ _

/-- A loop none of whose rounds changes the set. -/
theorem critical_foldl {f : StateStore → Record → StateStore}
    (hf : ∀ s record, (f s record).critical = s.critical) (records : List Record)
    (s : StateStore) : (records.foldl f s).critical = s.critical := by
  induction records generalizing s with
  | nil => rfl
  | cons record records ih => rw [List.foldl_cons, ih, hf]

theorem critical_mirrorStatus (s : StateStore) (answer : StatusAnswer) :
    (s.mirrorStatus answer).critical = s.critical := by
  rw [mirrorStatus, critical_setQueueDepth, critical_foldl critical_mirrorWorker,
    critical_foldl critical_mirrorContainer]

theorem critical_mirrorAudit (s : StateStore) (entries : List Record) :
    (s.mirrorAudit entries).critical = s.critical :=
  critical_foldl (critical_mirrorEntry _) entries s

end StateStore

/-! ## What a process marks -/

namespace MasterNode

variable {sha256Text : String → String} {m m' : MasterNode}

/-- A Docker event marks nothing. -/
theorem critical_handleEvent (m : MasterNode) (e : DockerEvent) :
    (m.handleEvent e).store.critical = m.store.critical := by
  unfold handleEvent
  split
  · exact StateStore.critical_onStart _ _
  · exact StateStore.critical_onStopped _ _

/-- The listener fails over the container of a die event when it was in the set before. -/
theorem failsOver_handleEvent (m : MasterNode) {e : DockerEvent} (he : e.action = .die) :
    (m.handleEvent e).store.failsOver e = m.store.isCritical e.containerId := by
  rw [StateStore.failsOver, StateStore.isCritical, StateStore.isCritical, critical_handleEvent]
  simp only [he, true_and, decide_eq_true_eq]

/-- A die event starts a failover exactly when the container is in the set and Docker is
there. -/
theorem die_fails_over_iff (m : MasterNode) {e : DockerEvent} (he : e.action = .die) :
    (m.handleEvent e).failovers = m.failovers ++ [e.failover] ↔
      m.store.isCritical e.containerId = true ∧ m.engineClient = true := by
  have hstore : (m.handleEvent e).store = m.store.onStopped e := by rw [handleEvent, he]
  have hfails := m.failsOver_handleEvent he
  rw [hstore] at hfails
  have hfailovers : (m.handleEvent e).failovers =
      if m.store.isCritical e.containerId && m.engineClient then m.failovers ++ [e.failover]
      else m.failovers := by
    rw [handleEvent, he, hfails]
  rw [hfailovers, ← Bool.and_eq_true]
  split_ifs with h
  · exact iff_of_true rfl h
  · exact iff_of_false (fun heq => by simpa using congrArg List.length heq) h

/-- The set grows by what the event marks. -/
theorem critical_handle {e : MasterEvent} (h : m.handle sha256Text e = some m') (c : String) :
    c ∈ m'.store.critical ↔ c ∈ m.store.critical ∨ e.marks = some c := by
  have hkept : e.marks = none → m'.store.critical = m.store.critical →
      (c ∈ m'.store.critical ↔ c ∈ m.store.critical ∨ e.marks = some c) := by
    intro he heq
    rw [he, heq, or_iff_left nofun]
  cases e with
  | docker e =>
    rw [handle] at h
    split_ifs at h
    cases h
    exact hkept rfl (critical_handleEvent m e)
  | cacheAnswered k hit =>
    obtain ⟨e, -, rfl⟩ := Option.map_eq_some_iff.mp h
    refine hkept rfl ?_
    cases hit with
    | none => exact StateStore.critical_onCacheMiss _
    | some scanResult => exact StateStore.critical_onCacheHit _ _ _ _
  | pushed k jobId =>
    obtain ⟨e, -, rfl⟩ := Option.map_eq_some_iff.mp h
    exact hkept rfl (StateStore.critical_onEnqueued _ _ _ _)
  | failedOver k replica recovered =>
    obtain ⟨f, -, rfl⟩ := Option.map_eq_some_iff.mp h
    rw [StateStore.critical_onFailover, Finset.mem_insert, MasterEvent.marks, Option.some.injEq,
      or_comm, eq_comm]
  | failoverRaised k error =>
    obtain ⟨f, -, rfl⟩ := Option.map_eq_some_iff.mp h
    exact hkept rfl (StateStore.critical_onFailoverError _ _ _)
  | markCritical containerId =>
    cases h
    rw [StateStore.critical_markCritical, Finset.mem_insert, MasterEvent.marks, Option.some.injEq,
      or_comm, eq_comm]
  | anomaly entry =>
    cases h
    exact hkept rfl (StateStore.critical_appendAudit _ _)

end MasterNode

/-! ## Whole runs -/

namespace MastersState

variable {sha256Text : String → String}

/-- The set of the standby. -/
def standbyCritical (s : MastersState) : Finset String := s.standby.node.store.critical

theorem critical_pingFails (s : Standby) :
    s.pingFails.node.store.critical = s.node.store.critical := by
  rw [Standby.pingFails]
  dsimp only
  split_ifs
  · rw [Standby.promote]
    split_ifs <;> rfl
  · rfl

/-- **The step.**  The set of the standby grows by what is marked on the standby. -/
theorem step_critical {s s' : MastersState} {l : MastersLabel}
    (h : s.step sha256Text l = some s') (c : String) :
    c ∈ s'.standbyCritical ↔ c ∈ s.standbyCritical ∨ l.marksOnStandby = some c := by
  have hkept : l.marksOnStandby = none → s'.standbyCritical = s.standbyCritical →
      (c ∈ s'.standbyCritical ↔ c ∈ s.standbyCritical ∨ l.marksOnStandby = some c) := by
    intro hl heq
    rw [hl, heq, or_iff_left nofun]
  cases step_cases h with
  | standby e node hnode => exact MasterNode.critical_handle hnode c
  | primary | starts | stops | hangs | resumes | serves => exact hkept rfl rfl
  | pingFails => exact hkept rfl (critical_pingFails _)
  | waits l hl =>
    have hmarks : l.marksOnStandby = none := by
      cases l <;> first
        | rfl
        | cases hl
    exact hkept hmarks rfl
  | mirrors answer => exact hkept rfl (StateStore.critical_mirrorStatus _ answer)
  | copies entries => exact hkept rfl (StateStore.critical_mirrorAudit _ entries)

/-- Along a run, the set of the standby grows by what is marked on the standby. -/
theorem exec_critical {s t : MastersState} {ls : List MastersLabel}
    (h : Machine.exec (step sha256Text) s ls = some t) (c : String) :
    c ∈ t.standbyCritical ↔ c ∈ s.standbyCritical ∨ ∃ l ∈ ls, l.marksOnStandby = some c := by
  induction ls generalizing s with
  | nil =>
    cases h
    rw [or_iff_left fun ⟨l, hl, _⟩ => absurd hl List.not_mem_nil]
  | cons l ls ih =>
    obtain ⟨s', hstep, hrest⟩ := (Machine.exec_cons_eq_some _).mp h
    rw [ih hrest, step_critical hstep, or_assoc, List.exists_mem_cons_iff]

/-- After the promotion, the standby considers critical what the primary held as critical
at a pass that the standby read. -/
def Protected (s : MastersState) : Prop :=
  s.standby.isPrimary = true → ∀ c ∈ s.mirrored, s.standby.node.store.isCritical c = true

/-- After the promotion, every such container was critical in the file when the standby
started, or has been marked critical on the standby itself. -/
def ProtectedWhen (s : MastersState) (disk : StateStore) (ls : List MastersLabel) : Prop :=
  s.standby.isPrimary = true →
    ∀ c ∈ s.mirrored, c ∈ disk.critical ∨ ∃ l ∈ ls, l.marksOnStandby = some c

instance : DecidablePred Protected := fun _ => inferInstanceAs (Decidable (_ → _))

instance (s : MastersState) (disk : StateStore) (ls : List MastersLabel) :
    Decidable (s.ProtectedWhen disk ls) := inferInstanceAs (Decidable (_ → _))

/-- **When protection survives.**  At the end of every run, the promoted standby considers
the mirrored critical containers critical if and only if each of them was critical in the
file that it loaded or has been marked on the standby itself. -/
theorem mirrored_critical_iff (sha256Text : String → String) (primary : Primary)
    (disk : StateStore) (listenerClient engineClient : Bool) (ls : List MastersLabel)
    (s : MastersState)
    (h : Machine.exec (step sha256Text) (start primary disk listenerClient engineClient) ls =
      some s) :
    s.Protected ↔ s.ProtectedWhen disk ls := by
  refine imp_congr_right fun _ => forall₂_congr fun c _ => ?_
  rw [StateStore.isCritical_iff]
  exact exec_critical h c

/-- A container starts and is marked critical at the primary, the standby mirrors it, the
primary crashes and three pings fail.  `marks` happens before the pass. -/
def failoverRun (marks : List MastersLabel) : List MastersLabel :=
  [.primary (.own (.docker ⟨.start, "c1", some "web", some "nginx", none, 0⟩)),
    .primary (.own (.markCritical "c1"))] ++ marks ++
  [.mirror, .status none, .statusAnswered, .mirrorFails, .primaryStops, .ping, .pingFails,
    .ping, .pingFails, .ping, .pingFails]

/-- Both processes have just started, with Docker and an empty file. -/
def bothStarted : MastersState := start (.up (.listen (.new .empty true true))) .empty true true

/-- Marked on the standby as well, the container is protected. -/
theorem mirrored_critical_iff_marked_on_both :
    ∃ s, Machine.exec (step id) bothStarted (failoverRun [.standby (.markCritical "c1")]) =
        some s ∧
      s.standby.isPrimary = true ∧ s.mirrored = ["c1"] ∧ s.Protected := by
  refine ⟨_, rfl, by decide +kernel, by decide +kernel, ?_⟩
  exact (mirrored_critical_iff id (.up (.listen (.new .empty true true))) .empty true true
    (failoverRun [.standby (.markCritical "c1")]) _ rfl).mpr (by decide +kernel)

/-- Marked on the primary only, it is not: the record of the standby says that it is
critical, the set does not, and when it dies no failover starts. -/
theorem critical_container_unprotected :
    ∃ s, Machine.exec (step id) bothStarted (failoverRun [] ++
        [.standby (.docker ⟨.die, "c1", some "web", some "nginx", none, 1⟩)]) = some s ∧
      s.standby.isPrimary = true ∧ s.mirrored = ["c1"] ∧
      ((s.standby.node.store.containers.get? "c1").bind fun record =>
        record.get? "is_critical") = some (.bool true) ∧
      s.standby.node.store.isCritical "c1" = false ∧ s.standby.node.failovers.length = 0 ∧
      ¬ s.Protected := by
  refine ⟨_, rfl, by decide +kernel, by decide +kernel, by with_unfolding_all rfl,
    by decide +kernel, by decide +kernel, by decide +kernel⟩

end MastersState
end Rcsce
