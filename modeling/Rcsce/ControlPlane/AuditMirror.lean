import Rcsce.Lib.TaskList
import Rcsce.ControlPlane.MirrorConvergence

/-!
# The audit log of the standby

A pass of the mirror appends the audit entries of the primary whose `event_id` it does not
know.  The listener draws an id for every container event; the log monitor and the
resilience engine do not, and entries without an id are appended again by every pass, until
they have pushed the others out of the window of 200 entries.

* `Copied` is what a pass should bring about: the entries of the primary are in the log of
  the standby, once each and in order, and another pass changes nothing.
* `pass_copies_iff` is exact: all passes of a run do so if and only if each of them finds an
  id on every entry of the primary, or 200 entries of which none has one.  In one direction
  this is the window over what a pass appends.  The other rests on an invariant: as long as
  the passes have done so, the two logs are windows over one history and over a part of it
  (`History`), and no id is drawn twice.

No other coroutine of a standby that is not promoted appends to its log, so a pass is one
step: the log that the primary serves is the one that is copied.
-/

namespace Rcsce

/-! ## What a pass appends -/

namespace StateStore

/-- The entry is appended, if these are the `existing_ids`. -/
def unknownTo (existing : List String) (entry : Record) : Bool :=
  match eventId? entry with
  | some i => i ∉ existing
  | none => true

theorem newEntries_eq_filter (s : StateStore) (entries : List Record) :
    s.newEntries entries = entries.filter (unknownTo s.existingIds) := rfl

theorem mem_existingIds {s : StateStore} {i : String} :
    i ∈ s.existingIds ↔ (∃ entry ∈ s.auditLog, eventId? entry = some i) ∧ i ≠ "" := by
  rw [existingIds, List.mem_filter, List.mem_filterMap, decide_eq_true_iff]

theorem unknownTo_of_none {existing : List String} {entry : Record} (h : eventId? entry = none) :
    unknownTo existing entry = true := by
  rw [unknownTo, h]

theorem unknownTo_eq_false_iff {existing : List String} {entry : Record} :
    unknownTo existing entry = false ↔ ∃ i, eventId? entry = some i ∧ i ∈ existing := by
  cases h : eventId? entry with
  | none => simp [unknownTo_of_none h]
  | some i =>
    rw [unknownTo, h]
    simp

theorem mirrorEntry_eq (existing : List String) (s : StateStore) (entry : Record) :
    s.mirrorEntry existing entry =
      if unknownTo existing entry then s.appendAudit entry else s := by
  rw [mirrorEntry, unknownTo]
  cases eventId? entry with
  | none => rfl
  | some i => by_cases h : i ∈ existing <;> simp [h]

theorem auditLog_foldl_mirrorEntry (existing : List String) (entries : List Record)
    {s : StateStore} (hs : s.auditLog.length ≤ 200) :
    (entries.foldl (mirrorEntry existing) s).auditLog =
      (s.auditLog ++ entries.filter (unknownTo existing)).rtake 200 := by
  induction entries generalizing s with
  | nil => rw [List.foldl_nil, List.filter_nil, List.append_nil, Window.rtake_of_length_le hs]
  | cons entry entries ih =>
    rw [List.foldl_cons, mirrorEntry_eq]
    cases h : unknownTo existing entry with
    | false => rw [if_neg Bool.false_ne_true, ih hs, List.filter_cons_of_neg (by simp [h])]
    | true =>
      have hlog := auditLog_appendAudit s entry
      have hlength : (s.appendAudit entry).auditLog.length ≤ 200 := by
        rw [hlog]
        exact Window.length_rtake_le _ _
      rw [if_pos rfl, ih hlength, hlog, Window.rtake_rtake_append, List.append_assoc,
        List.singleton_append, List.filter_cons_of_pos h]

/-- The log after a pass. -/
theorem auditLog_mirrorAudit {s : StateStore} (hs : s.auditLog.length ≤ 200)
    (entries : List Record) :
    (s.mirrorAudit entries).auditLog = (s.auditLog ++ s.newEntries entries).rtake 200 :=
  auditLog_foldl_mirrorEntry s.existingIds entries hs

theorem auditLog_mirrorStatus (s : StateStore) (answer : StatusAnswer) :
    (s.mirrorStatus answer).auditLog = s.auditLog := by
  have hcontainers : ∀ (records : List Record) (s : StateStore),
      (records.foldl mirrorContainer s).auditLog = s.auditLog := by
    intro records
    induction records with
    | nil => exact fun _ => rfl
    | cons record records ih =>
      intro s
      rw [List.foldl_cons, ih, mirrorContainer]
      split
      · split_ifs <;> rfl
      · rfl
  have hworkers : ∀ (records : List Record) (s : StateStore),
      (records.foldl mirrorWorker s).auditLog = s.auditLog := by
    intro records
    induction records with
    | nil => exact fun _ => rfl
    | cons record records ih => exact fun s => ih _
  show (answer.workers.foldl mirrorWorker
    (answer.containers.foldl mirrorContainer s)).auditLog = s.auditLog
  rw [hworkers, hcontainers]

theorem auditLog_mirrorPass {s : StateStore} (hs : s.auditLog.length ≤ 200)
    (primary : StateStore) :
    (s.mirrorPass primary).auditLog =
      (s.auditLog ++ s.newEntries primary.auditLog).rtake 200 := by
  have hstatus := s.auditLog_mirrorStatus primary.status
  rw [mirrorPass, auditLog_mirrorAudit (hstatus.symm ▸ hs), hstatus, newEntries, existingIds,
    hstatus]
  rfl

open scoped Classical in
/-- The log of the standby has the entries of the primary, once each and in order, and another
pass changes nothing. -/
def Copied (primary s : StateStore) : Prop :=
  s.auditLog.filter (fun entry => entry ∈ primary.auditLog) = primary.auditLog ∧
    (s.mirrorPass primary).auditLog = s.auditLog

/-- All entries have an id, or there are 200 and none has one. -/
def Copyable (primary : StateStore) : Prop :=
  (∀ entry ∈ primary.auditLog, eventId? entry ≠ none) ∨
    primary.auditLog.length = 200 ∧ ∀ entry ∈ primary.auditLog, eventId? entry = none

variable {primary s : StateStore}

/-- A log that has been copied has an id on every entry, or none on any of 200. -/
theorem Copied.copyable (h : primary.Copied s) (hp : primary.auditLog.length ≤ 200)
    (hs : s.auditLog.length ≤ 200)
    (hids : ∀ entry ∈ primary.auditLog, eventId? entry ≠ some "") : primary.Copyable := by
  classical
  obtain ⟨honce, hagain⟩ := h
  rw [auditLog_mirrorPass hs] at hagain
  have hcopied : ∀ entry ∈ primary.auditLog, entry ∈ s.auditLog := by
    intro entry hentry
    rw [← honce] at hentry
    exact List.mem_of_mem_filter hentry
  -- the second pass appends the entries without an id, and no others
  have hnew : ∀ entry ∈ s.newEntries primary.auditLog,
      entry ∈ primary.auditLog ∧ eventId? entry = none := by
    intro entry hentry
    rw [newEntries_eq_filter] at hentry
    obtain ⟨hmem, hunknown⟩ := List.mem_filter.mp hentry
    refine ⟨hmem, ?_⟩
    cases hid : eventId? entry with
    | none => rfl
    | some i =>
      have hne : i ≠ "" := fun heq => hids entry hmem (heq ▸ hid)
      have hknown : unknownTo s.existingIds entry = false := unknownTo_eq_false_iff.mpr
        ⟨i, hid, mem_existingIds.mpr ⟨⟨entry, hcopied entry hmem, hid⟩, hne⟩⟩
      cases hunknown.symm.trans hknown
  by_cases hnil : s.newEntries primary.auditLog = []
  · refine Or.inl fun entry hentry hnone => ?_
    have hmem : entry ∈ s.newEntries primary.auditLog :=
      List.mem_filter.mpr ⟨hentry, unknownTo_of_none hnone⟩
    rw [hnil] at hmem
    exact absurd hmem List.not_mem_nil
  · have hle : (s.newEntries primary.auditLog).length ≤ 200 :=
      (List.length_filter_le _ _).trans hp
    obtain ⟨hfull, hall⟩ := Window.rtake_append_eq_self hnil hle hagain
    have hsame : s.auditLog = primary.auditLog := by
      rw [← honce, eq_comm, List.filter_eq_self]
      intro entry hentry
      exact decide_eq_true (hnew entry (hall entry hentry)).1
    refine Or.inr ⟨hsame ▸ hfull, fun entry hentry => ?_⟩
    exact (hnew entry (hall entry (hsame.symm ▸ hentry))).2

/-- The same log is copied, if it can be. -/
theorem copied_of_eq (h : s.auditLog = primary.auditLog) (hp : primary.auditLog.length ≤ 200)
    (hids : ∀ entry ∈ primary.auditLog, eventId? entry ≠ some "") (hcopyable : primary.Copyable) :
    primary.Copied s := by
  classical
  refine ⟨?_, ?_⟩
  · rw [h, List.filter_eq_self]
    exact fun entry hentry => decide_eq_true hentry
  · rw [auditLog_mirrorPass (h ▸ hp), newEntries_eq_filter, h]
    rcases hcopyable with hall | ⟨hfull, hnone⟩
    · have hknown : primary.auditLog.filter (unknownTo s.existingIds) = [] := by
        rw [List.filter_eq_nil_iff]
        intro entry hentry
        rw [Bool.not_eq_true, unknownTo_eq_false_iff]
        obtain ⟨i, hi⟩ := Option.ne_none_iff_exists'.mp (hall entry hentry)
        refine ⟨i, hi, mem_existingIds.mpr ⟨⟨entry, h ▸ hentry, hi⟩, ?_⟩⟩
        exact fun heq => hids entry hentry (heq ▸ hi)
      rw [hknown, List.append_nil, Window.rtake_of_length_le hp]
    · have hunknown : primary.auditLog.filter (unknownTo s.existingIds) = primary.auditLog :=
        List.filter_eq_self.mpr fun entry hentry => unknownTo_of_none (hnone entry hentry)
      rw [hunknown, Window.rtake_append_of_le hfull]

end StateStore

/-! ## The entries of a process and their ids -/

/-- What `_broadcast_anomaly` reports. -/
structure Anomaly where
  containerId : String
  containerName : String
  imageName : String
  keyword : String
  line : String

/-- The audit entry of an anomaly. -/
def Anomaly.entry (a : Anomaly) : Record :=
  .ofFields [("event_type", .str "anomaly_detected"), ("container_id", .str a.containerId),
    ("container_name", .str a.containerName), ("image_name", .str a.imageName),
    ("keyword", .str a.keyword), ("log_line", .str (leading 150 a.line)),
    ("action", .str "anomaly_detected")]

/-- The `event_id` of an event. -/
def DockerEvent.idText (e : DockerEvent) : String := toString e.eventId

/-- What is logged for an event carries its id. -/
theorem eventId?_payload_update (e : DockerEvent) {fields : List (String × Json)}
    (h : "event_id" ∉ fields.map Prod.fst) :
    StateStore.eventId? (e.payload.update (.ofFields fields)) = some e.idText := by
  rw [StateStore.eventId?, Record.get?_update, Record.get?_ofFields_of_notMem h, Option.none_or,
    DockerEvent.payload, Record.get?_ofFields_of_mem (by simp) List.mem_cons_self]
  rfl

theorem eventId?_ofFields {fields : List (String × Json)}
    (h : "event_id" ∉ fields.map Prod.fst) :
    StateStore.eventId? (.ofFields fields) = none := by
  rw [StateStore.eventId?, Record.get?_ofFields_of_notMem h]
  rfl

/-- A failover logs an entry without an id. -/
theorem StateStore.auditLog_onFailover (s : StateStore) (f : Failover) (replica : String)
    (recovered : Bool) :
    ∃ entry, eventId? entry = none ∧
      (s.onFailover f replica recovered).auditLog = (s.auditLog ++ [entry]).rtake 200 := by
  rw [onFailover, auditLog_markCritical, auditLog_upsertContainer]
  exact ⟨_, eventId?_ofFields (by simp), auditLog_appendAudit s _⟩

theorem StateStore.auditLog_onFailoverError (s : StateStore) (f : Failover) (error : String) :
    ∃ entry, eventId? entry = none ∧
      (s.onFailoverError f error).auditLog = (s.auditLog ++ [entry]).rtake 200 := by
  rw [onFailoverError]
  exact ⟨_, eventId?_ofFields (by simp), auditLog_appendAudit s _⟩

/-- The ids in a log. -/
def loggedIds (log : List Record) : Multiset String := (log.filterMap StateStore.eventId? : List _)

theorem loggedIds_append (log new : List Record) :
    loggedIds (log ++ new) = loggedIds log + loggedIds new := by
  rw [loggedIds, List.filterMap_append]
  rfl

theorem mem_loggedIds {log : List Record} {i : String} :
    i ∈ loggedIds log ↔ ∃ entry ∈ log, StateStore.eventId? entry = some i := by
  rw [loggedIds, Multiset.mem_coe, List.mem_filterMap]

/-- The event is neither one of Docker nor an anomaly. -/
def PrimaryEvent.isOther : PrimaryEvent → Bool
  | .own (.docker _) | .own (.anomaly _) => false
  | _ => true

namespace MasterNode

/-- The ids of the events that are not logged yet. -/
def openIds (m : MasterNode) : Multiset String :=
  ((m.lookups ++ m.pushes).map DockerEvent.idText : List String)

/-- The step appends to the audit log, and the ids that it logs were open, or are drawn in the
step. -/
def Logs (m m' : MasterNode) (drawn : Multiset String) : Prop :=
  ∃ new : List Record,
    (∀ log : List Record, m.store.auditLog = log.rtake 200 →
      m'.store.auditLog = (log ++ new).rtake 200) ∧
    loggedIds new + m'.openIds ≤ m.openIds + drawn

variable {sha256Text : String → String} {m m' : MasterNode} {drawn : Multiset String}

theorem Logs.of_same (hlog : m'.store.auditLog = m.store.auditLog)
    (hids : m'.openIds ≤ m.openIds + drawn) : m.Logs m' drawn := by
  refine ⟨[], fun log h => ?_, ?_⟩
  · rw [hlog, h, List.append_nil]
  · rw [loggedIds, List.filterMap_nil, Multiset.coe_nil, zero_add]
    exact hids

/-- One entry. -/
theorem Logs.of_append {entry : Record} {ids : Multiset String}
    (hlog : m'.store.auditLog = (m.store.auditLog ++ [entry]).rtake 200)
    (hentry : loggedIds [entry] = ids) (hids : ids + m'.openIds ≤ m.openIds + drawn) :
    m.Logs m' drawn := by
  refine ⟨[entry], fun log h => ?_, hentry ▸ hids⟩
  rw [hlog, h, Window.rtake_rtake_append]

theorem loggedIds_of_some {entry : Record} {i : String}
    (h : StateStore.eventId? entry = some i) : loggedIds [entry] = {i} := by
  rw [loggedIds, List.filterMap_cons_some h, List.filterMap_nil]
  rfl

/-- An entry without an id. -/
theorem Logs.of_idless {entry : Record}
    (hlog : m'.store.auditLog = (m.store.auditLog ++ [entry]).rtake 200)
    (hentry : StateStore.eventId? entry = none) (hlookups : m'.lookups = m.lookups)
    (hpushes : m'.pushes = m.pushes) : m.Logs m' drawn := by
  have hnone : loggedIds [entry] = 0 := by
    rw [loggedIds, List.filterMap_cons_none hentry, List.filterMap_nil]
    rfl
  refine .of_append hlog hnone ?_
  rw [openIds, openIds, hlookups, hpushes, zero_add]
  exact le_self_add

/-- An event that waits is one of the open ones. -/
theorem openIds_of_lookup {k : ℕ} {e : DockerEvent} (h : m.lookups[k]? = some e) :
    m.openIds =
      {e.idText} + ((m.lookups.eraseIdx k ++ m.pushes).map DockerEvent.idText : List String) := by
  refine Multiset.coe_eq_coe.mpr ?_
  exact ((perm_cons_eraseIdx h).append_right m.pushes).map DockerEvent.idText

theorem openIds_of_push {k : ℕ} {e : DockerEvent} (h : m.pushes[k]? = some e) :
    m.openIds =
      {e.idText} + ((m.lookups ++ m.pushes.eraseIdx k).map DockerEvent.idText : List String) := by
  refine Multiset.coe_eq_coe.mpr ?_
  have hperm := (perm_cons_eraseIdx h).append_left m.lookups
  exact (hperm.trans List.perm_middle).map DockerEvent.idText

/-- The ids that an event draws. -/
def drawnIds : MasterEvent → Multiset String
  | .docker e => {e.idText}
  | _ => 0

/-- An event that comes in is logged when it stops something, and waits for the cache node when
it starts something. -/
theorem logs_handleEvent (m : MasterNode) (e : DockerEvent) :
    m.Logs (m.handleEvent e) {e.idText} := by
  rw [handleEvent]
  cases e.action with
  | start =>
    refine .of_same rfl (le_of_eq ?_)
    have hperm : ((m.lookups ++ [e]) ++ m.pushes).Perm (e :: (m.lookups ++ m.pushes)) := by
      rw [List.append_assoc, List.singleton_append]
      exact List.perm_middle
    exact (Multiset.coe_eq_coe.mpr (hperm.map DockerEvent.idText)).trans
      (Multiset.singleton_add e.idText m.openIds).symm |>.trans (add_comm _ _)
  | _ =>
    exact .of_append (StateStore.auditLog_appendAudit _ _)
      (loggedIds_of_some (eventId?_payload_update e (by simp))) (add_comm _ _).le

/-- **What an event logs.** -/
theorem logs_handle {e : MasterEvent} (h : m.handle sha256Text e = some m')
    (hanomaly : ∀ entry, e = .anomaly entry → StateStore.eventId? entry = none) :
    m.Logs m' (drawnIds e) := by
  cases e with
  | docker e =>
    rw [handle] at h
    split_ifs at h
    exact Option.some.inj h ▸ logs_handleEvent m e
  | cacheAnswered k hit =>
    obtain ⟨e, hk, rfl⟩ := Option.map_eq_some_iff.mp h
    cases hit with
    | some scanResult =>
      refine .of_append (StateStore.auditLog_appendAudit _ _)
        (loggedIds_of_some (eventId?_payload_update e (by simp))) ?_
      rw [openIds_of_lookup hk]
      exact (add_zero _).ge
    | none =>
      refine .of_same rfl (le_of_le_of_eq ?_ (add_zero _).symm)
      rw [openIds_of_lookup hk]
      have hperm : (m.lookups.eraseIdx k ++ (m.pushes ++ [e])).Perm
          (e :: (m.lookups.eraseIdx k ++ m.pushes)) := by
        rw [← List.append_assoc]
        exact List.perm_append_singleton _ _
      exact (Multiset.coe_eq_coe.mpr (hperm.map DockerEvent.idText)).le
  | pushed k jobId =>
    obtain ⟨e, hk, rfl⟩ := Option.map_eq_some_iff.mp h
    refine .of_append (StateStore.auditLog_appendAudit _ _)
      (loggedIds_of_some (eventId?_payload_update e (by simp))) ?_
    rw [openIds_of_push hk]
    exact (add_zero _).ge
  | failedOver k replica recovered =>
    obtain ⟨f, -, rfl⟩ := Option.map_eq_some_iff.mp h
    obtain ⟨entry, hentry, hlog⟩ := m.store.auditLog_onFailover f replica recovered
    exact .of_idless hlog hentry rfl rfl
  | failoverRaised k error =>
    obtain ⟨f, -, rfl⟩ := Option.map_eq_some_iff.mp h
    obtain ⟨entry, hentry, hlog⟩ := m.store.auditLog_onFailoverError f error
    exact .of_idless hlog hentry rfl rfl
  | markCritical cid =>
    rw [← Option.some.inj h]
    exact .of_same rfl (add_zero _).ge
  | anomaly entry =>
    rw [← Option.some.inj h]
    have hlog := StateStore.auditLog_appendAudit m.store entry
    exact .of_idless hlog (hanomaly entry rfl) rfl rfl

/-- The other things that happen in the primary. -/
theorem logs_handlePrimary {e : PrimaryEvent} (h : m.handlePrimary sha256Text e = some m')
    (he : e.isOther = true) : m.Logs m' 0 := by
  cases e with
  | own e =>
    have hlogs : (∀ entry, e ≠ .anomaly entry) → m.Logs m' (drawnIds e) := fun hne =>
      logs_handle h fun entry heq => absurd heq (hne entry)
    cases e with
    | docker e => cases he
    | anomaly entry => cases he
    | _ => exact hlogs fun _ heq => nomatch heq
  | workerHeartbeat w data =>
    rw [← Option.some.inj h]
    exact .of_same rfl (add_zero _).ge
  | workerDead w =>
    rw [← Option.some.inj h]
    exact .of_same rfl (add_zero _).ge
  | scanComplete cid vulns status =>
    rw [← Option.some.inj h]
    refine .of_same ?_ (add_zero _).ge
    dsimp only
    split_ifs
    · rfl
    · rfl
  | queueDepth depth =>
    rw [← Option.some.inj h]
    exact .of_same rfl (add_zero _).ge

end MasterNode

/-! ## Runs -/

/-- The primary, the next value of `uuid.uuid4()`, and a standby that only mirrors. -/
structure AuditPair where
  node : MasterNode
  nextEvent : ℕ
  standby : StateStore

/-- What can happen next. -/
inductive AuditPairLabel where
  /-- The listener gets an event, and draws an id for it. -/
  | docker (e : DockerEvent)
  /-- The log monitor reports an anomaly. -/
  | anomaly (a : Anomaly)
  /-- Anything else that happens in the primary. -/
  | primary (e : PrimaryEvent)
  /-- The primary is started again. -/
  | restarts (listenerClient engineClient : Bool)
  /-- A pass of the mirror. -/
  | pass (depth : Option Json)

namespace AuditPair

/-- One step. -/
def step (sha256Text : String → String) (s : AuditPair) : AuditPairLabel → Option AuditPair
  | .docker e =>
      (s.node.handle sha256Text (.docker { e with eventId := s.nextEvent })).map fun node =>
        { s with node, nextEvent := s.nextEvent + 1 }
  | .anomaly a => (s.node.handle sha256Text (.anomaly a.entry)).map fun node => { s with node }
  | .primary e =>
      if e.isOther then (s.node.handlePrimary sha256Text e).map fun node => { s with node }
      else none
  | .restarts listenerClient engineClient => some { s with
      node := (MasterNode.new s.node.store.clearAllWorkers listenerClient engineClient).listen }
  | .pass depth => some { s with
      node := s.node.serveStatus depth
      standby := s.standby.mirrorPass (s.node.serveStatus depth).store }

/-- Both have just started, without a snapshot. -/
def start (listenerClient engineClient : Bool) : AuditPair :=
  ⟨(MasterNode.new .empty listenerClient engineClient).listen, 0, .empty⟩

/-- The log of the primary is the window over all that was appended to it, the log of the
standby the window over a part, and no id is drawn twice. -/
structure History (s : AuditPair) (log mirrored : List Record) : Prop where
  primary : s.node.store.auditLog = log.rtake 200
  part : mirrored <+: log
  standby : s.standby.auditLog = mirrored.rtake 200
  once : (loggedIds log + s.node.openIds).Nodup
  drawn : ∀ i ∈ loggedIds log + s.node.openIds, ∃ n < s.nextEvent, i = toString n

/-- Both logs are windows over one history. -/
def Inv (s : AuditPair) : Prop := ∃ log mirrored, s.History log mirrored

namespace History

variable {s s' : AuditPair} {log mirrored : List Record}

theorem length_le (h : s.History log mirrored) : s.node.store.auditLog.length ≤ 200 := by
  rw [h.primary]
  exact Window.length_rtake_le _ _

theorem standby_length_le (h : s.History log mirrored) : s.standby.auditLog.length ≤ 200 := by
  rw [h.standby]
  exact Window.length_rtake_le _ _

/-- A number has a digit. -/
theorem toString_ne_empty (n : ℕ) : toString n ≠ "" := by
  intro h
  have hempty : Nat.repr n = "" := h
  exact absurd hempty (by simp [Nat.repr])

theorem eventId_ne_empty (h : s.History log mirrored) :
    ∀ entry ∈ s.node.store.auditLog, StateStore.eventId? entry ≠ some "" := by
  intro entry hentry hid
  rw [h.primary] at hentry
  have hmem : "" ∈ loggedIds log :=
    mem_loggedIds.mpr ⟨entry, (Window.rtake_suffix _ _).subset hentry, hid⟩
  obtain ⟨n, -, hn⟩ := h.drawn "" (Multiset.mem_add.mpr (Or.inl hmem))
  exact toString_ne_empty n hn.symm

/-- A step of the primary. -/
theorem logs (h : s.History log mirrored) {drawn : Multiset String}
    (hlogs : s.node.Logs s'.node drawn) (hstandby : s'.standby = s.standby)
    (hnext : s.nextEvent ≤ s'.nextEvent) (honce : drawn.Nodup)
    (hdrawn : ∀ i ∈ drawn, ∃ n, s.nextEvent ≤ n ∧ n < s'.nextEvent ∧ i = toString n) :
    s'.Inv := by
  obtain ⟨new, hlog, hids⟩ := hlogs
  have hle : loggedIds (log ++ new) + s'.node.openIds ≤
      loggedIds log + s.node.openIds + drawn := by
    rw [loggedIds_append, add_assoc, add_assoc]
    exact add_le_add_right hids _
  have hfresh : (loggedIds log + s.node.openIds + drawn).Nodup := by
    refine Multiset.nodup_add.mpr ⟨h.once, honce, Multiset.disjoint_left.mpr fun hi hi' => ?_⟩
    obtain ⟨n, hn, heq⟩ := h.drawn _ hi
    obtain ⟨n', hn', -, heq'⟩ := hdrawn _ hi'
    have hsame : n = n' := Nat.repr_injective (heq.symm.trans heq')
    omega
  refine ⟨log ++ new, mirrored, hlog log h.primary, h.part.trans (List.prefix_append _ _),
    hstandby ▸ h.standby, Multiset.nodup_of_le hle hfresh, fun i hi => ?_⟩
  rcases Multiset.mem_add.mp (Multiset.mem_of_le hle hi) with hold | hnew
  · obtain ⟨n, hn, heq⟩ := h.drawn i hold
    exact ⟨n, hn.trans_le hnext, heq⟩
  · obtain ⟨n, -, hn, heq⟩ := hdrawn i hnew
    exact ⟨n, hn, heq⟩

/-- A step of the primary that draws no id. -/
theorem logs_zero (h : s.History log mirrored) {node : MasterNode} (hlogs : s.node.Logs node 0) :
    Inv { s with node } :=
  h.logs hlogs rfl le_rfl Multiset.nodup_zero fun i hi => absurd hi (Multiset.notMem_zero i)

/-- **A pass catches up**, if the log of the primary can be copied. -/
theorem auditLog_mirrorPass_eq (h : s.History log mirrored) {primary : StateStore}
    (hprimary : primary.auditLog = s.node.store.auditLog) (hcopyable : primary.Copyable) :
    (s.standby.mirrorPass primary).auditLog = primary.auditLog := by
  rw [StateStore.auditLog_mirrorPass h.standby_length_le, StateStore.newEntries_eq_filter]
  rcases hcopyable with hall | ⟨hfull, hnone⟩
  · have hid : ∀ entry ∈ log.rtake 200, ∃ i, StateStore.eventId? entry = some i ∧ i ≠ "" := by
      intro entry hentry
      rw [← h.primary] at hentry
      obtain ⟨i, hi⟩ := Option.ne_none_iff_exists'.mp (hall entry (hprimary.symm ▸ hentry))
      exact ⟨i, hi, fun heq => h.eventId_ne_empty entry hentry (heq ▸ hi)⟩
    have hknown : ∀ entry, StateStore.unknownTo s.standby.existingIds entry = false ↔
        ∃ i, StateStore.eventId? entry = some i ∧ i ∈ s.standby.existingIds := fun entry =>
      StateStore.unknownTo_eq_false_iff
    generalize StateStore.unknownTo s.standby.existingIds = unknown at hknown
    obtain ⟨rest, rfl⟩ := h.part
    rw [hprimary, h.primary, h.standby]
    refine Window.rtake_append_filter (fun entry hold hmem => ?_) fun entry hnew hmem => ?_
    · obtain ⟨i, hi, hne⟩ := hid entry hmem
      rw [← h.standby] at hold
      exact (hknown entry).mpr ⟨i, hi, StateStore.mem_existingIds.mpr ⟨⟨entry, hold, hi⟩, hne⟩⟩
    · rw [← Bool.not_eq_false, hknown]
      rintro ⟨i, hi, hexisting⟩
      -- the id of an entry that the standby has is not drawn again
      obtain ⟨⟨old, hold, hi'⟩, -⟩ := StateStore.mem_existingIds.mp hexisting
      rw [h.standby] at hold
      have honce := (Multiset.nodup_add.mp h.once).1
      rw [loggedIds_append] at honce
      exact Multiset.disjoint_left.mp (Multiset.nodup_add.mp honce).2.2
        (mem_loggedIds.mpr ⟨old, (Window.rtake_suffix _ _).subset hold, hi'⟩)
        (mem_loggedIds.mpr ⟨entry, hnew, hi⟩)
  · have hunknown : primary.auditLog.filter (StateStore.unknownTo s.standby.existingIds) =
        primary.auditLog := List.filter_eq_self.mpr fun entry hentry =>
      StateStore.unknownTo_of_none (hnone entry hentry)
    rw [hunknown, Window.rtake_append_of_le hfull]

end History

/-- After a pass the log of the primary has been copied. -/
def PassCopies (_ : AuditPair) (l : AuditPairLabel) (s' : AuditPair) : Prop :=
  ∀ depth, l = .pass depth → s'.node.store.Copied s'.standby

/-- Before a pass the log of the primary can be copied. -/
def PassCopyable (s : AuditPair) (l : AuditPairLabel) (_ : AuditPair) : Prop :=
  ∀ depth, l = .pass depth → s.node.store.Copyable

variable {sha256Text : String → String} {s s' : AuditPair} {l : AuditPairLabel}

theorem auditLog_serveStatus (m : MasterNode) (depth : Option Json) :
    (m.serveStatus depth).store.auditLog = m.store.auditLog := by
  cases depth <;> rfl

theorem openIds_serveStatus (m : MasterNode) (depth : Option Json) :
    (m.serveStatus depth).openIds = m.openIds := by
  cases depth <;> rfl

theorem copyable_serveStatus_iff (m : MasterNode) (depth : Option Json) :
    (m.serveStatus depth).store.Copyable ↔ m.store.Copyable := by
  rw [StateStore.Copyable, StateStore.Copyable, auditLog_serveStatus]

theorem inv_start (listenerClient engineClient : Bool) : (start listenerClient engineClient).Inv :=
  ⟨[], [], rfl, List.prefix_rfl, rfl, Multiset.nodup_zero, fun i hi =>
    absurd hi (Multiset.notMem_zero i)⟩

/-- As long as the passes can copy the log, the standby has a window over a part of the
history. -/
theorem inv_step (hs : s.Inv) (hC : s.PassCopyable l s') (h : s.step sha256Text l = some s') :
    s'.Inv := by
  obtain ⟨log, mirrored, hs⟩ := hs
  cases l with
  | docker e =>
    rw [step, Option.map_eq_some_iff] at h
    obtain ⟨node, hnode, rfl⟩ := h
    have hlogs := MasterNode.logs_handle hnode fun _ heq => MasterEvent.noConfusion heq
    refine hs.logs hlogs rfl (Nat.le_succ _) (Multiset.nodup_singleton _) fun i hi => ?_
    exact ⟨s.nextEvent, le_rfl, Nat.lt_succ_self _, Multiset.mem_singleton.mp hi⟩
  | anomaly a =>
    rw [step, Option.map_eq_some_iff] at h
    obtain ⟨node, hnode, rfl⟩ := h
    have hnone : StateStore.eventId? a.entry = none := eventId?_ofFields (by simp)
    exact hs.logs_zero (MasterNode.logs_handle hnode fun entry heq =>
      MasterEvent.anomaly.inj heq ▸ hnone)
  | primary e =>
    rw [step] at h
    split_ifs at h with he
    obtain ⟨node, hnode, rfl⟩ := Option.map_eq_some_iff.mp h
    exact hs.logs_zero (MasterNode.logs_handlePrimary hnode he)
  | restarts listenerClient engineClient =>
    rw [← Option.some.inj h]
    exact hs.logs_zero (.of_same rfl (Multiset.zero_le _))
  | pass depth =>
    rw [← Option.some.inj h]
    have hlog := auditLog_serveStatus s.node depth
    have hcopied := hs.auditLog_mirrorPass_eq hlog
      ((copyable_serveStatus_iff s.node depth).mpr (hC depth rfl))
    have hids := openIds_serveStatus s.node depth
    refine ⟨log, log, hlog.trans hs.primary, List.prefix_rfl,
      (hcopied.trans hlog).trans hs.primary, ?_, ?_⟩
    · exact hids.symm ▸ hs.once
    · exact hids.symm ▸ hs.drawn

/-- **The step.**  A pass copies the log exactly when it can. -/
theorem passCopies_iff (hs : s.Inv) (h : s.step sha256Text l = some s') :
    s.PassCopies l s' ↔ s.PassCopyable l s' := by
  obtain ⟨log, mirrored, hs⟩ := hs
  refine forall_congr' fun depth => forall_congr' ?_
  rintro rfl
  rw [← Option.some.inj h]
  have hlog := auditLog_serveStatus s.node depth
  have hids : ∀ entry ∈ (s.node.serveStatus depth).store.auditLog,
      StateStore.eventId? entry ≠ some "" := hlog ▸ hs.eventId_ne_empty
  have hle : (s.node.serveStatus depth).store.auditLog.length ≤ 200 := hlog ▸ hs.length_le
  constructor
  · intro hcopied
    refine (copyable_serveStatus_iff s.node depth).mp (hcopied.copyable hle ?_ hids)
    rw [StateStore.auditLog_mirrorPass hs.standby_length_le]
    exact Window.length_rtake_le _ _
  · intro hcopyable
    have hcopyable' := (copyable_serveStatus_iff s.node depth).mpr hcopyable
    exact StateStore.copied_of_eq (hs.auditLog_mirrorPass_eq hlog hcopyable') hle hids hcopyable'

/-- **When the audit log is copied.**  In a run of a primary and a standby, every pass leaves
the standby with the entries of the primary, once each and in order, and with nothing to do
for another pass, if and only if before each of them all entries of the primary have an id,
or there are 200 and none of them has one. -/
theorem pass_copies_iff (sha256Text : String → String) (listenerClient engineClient : Bool)
    (ls : List AuditPairLabel) :
    Machine.Meets (step sha256Text) PassCopies (start listenerClient engineClient) ls ↔
      Machine.Meets (step sha256Text) PassCopyable (start listenerClient engineClient) ls :=
  Machine.meets_iff_meets (I := Inv) (C := PassCopyable) (D := PassCopies)
    (fun _ _ _ hs hC h => inv_step hs hC h) (fun _ _ _ hs h => passCopies_iff hs h)
    (inv_start listenerClient engineClient) ls

/-- An anomaly is copied twice. -/
theorem anomaly_copied_twice :
    ∃ s s', Machine.exec (step id) (start true true)
        [.anomaly ⟨"c1", "web", "nginx", "error", "error: disk full"⟩] = some s ∧
      s.step id (.pass none) = some s' ∧ s'.node.store.auditLog.length = 1 ∧
      s'.standby.auditLog.length = 1 ∧
      (s'.standby.mirrorPass s'.node.store).auditLog.length = 2 ∧
      ¬ s.PassCopies (.pass none) s' := by
  obtain ⟨s, s', hs, hs', hprimary, hstandby, hagain⟩ :
      ∃ s s', Machine.exec (step id) (start true true)
          [.anomaly ⟨"c1", "web", "nginx", "error", "error: disk full"⟩] = some s ∧
        s.step id (.pass none) = some s' ∧ s'.node.store.auditLog.length = 1 ∧
        s'.standby.auditLog.length = 1 ∧
        (s'.standby.mirrorPass s'.node.store).auditLog.length = 2 :=
    ⟨_, _, rfl, rfl, by decide +kernel, by decide +kernel, by decide +kernel⟩
  refine ⟨s, s', hs, hs', hprimary, hstandby, hagain, fun hcopies => ?_⟩
  have hsame := congrArg List.length (hcopies none rfl).2
  omega

end AuditPair
end Rcsce
